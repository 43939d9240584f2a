/-
# Peers agree on a pod's aggregator, unless two names tie

Every peer sends its score for a pod to `GetTargetForScoring(key)`, so the scheme needs all
peers to pick the same member.  Each peer sorts its own copy of the membership, in its own
map-iteration order, with `slices.SortFunc`, which is not stable: the choice is the same on
every peer only if the sort leaves nothing to the input order.

`targetForScoring_agreement` proves it does, whenever `podNameSort` ties no two distinct
member names: then the sorted name sequence is unique (`sortMembers_names_eq`).  The proviso
is real.  `podNameSort` compares a relay `r` as `"a" ++ r`, which is exactly the name of a
member called `"a" ++ r`; `targetForScoring_tie_disagrees` exhibits two scheduler sets with the
same leader and the same endpoints, listed in two orders, that pick different aggregators.
-/
import DistScheduler.Membership.SchedulerSet
import Mathlib.Data.List.Nodup

namespace DistScheduler

open scoped List

/-- **Without ties, the sorted names forget the input order.** -/
theorem sortMembers_names_eq {ℓ : String} {M₁ M₂ : List EndpointItem} (hM : M₁ ~ M₂)
    (hnt : NoTies ℓ (M₁.map (·.podName))) :
    (sortMembers ℓ M₁).map (·.podName) = (sortMembers ℓ M₂).map (·.podName) := by
  have h₁ := (sortMembers_perm ℓ M₁).map (·.podName)
  refine eq_of_perm_of_pairwise (h₁.trans ((hM.trans (sortMembers_perm ℓ M₂).symm).map _))
    (List.pairwise_map.mpr (sortMembers_pairwise ℓ M₁))
    (List.pairwise_map.mpr (sortMembers_pairwise ℓ M₂)) fun a ha b hb hab hba => ?_
  exact nameLe_antisymm (hnt a (h₁.subset ha) b (h₁.subset hb)) hab hba

/-- A scheduler set whose cache holds one slice listing `members`, with no leader. -/
def oneSliceSet (members : List EndpointItem) : SchedulerSet :=
  ⟨EndpointSliceCache.empty.update
      ⟨"dist-scheduler-x1", 1, members.map fun m => ⟨m.podName, m.addresses⟩⟩,
    "dist-scheduler-a", 10, [], "", true, false⟩

/-- **Aggregator agreement.**  Two scheduler sets with the same leader whose caches list the
same non-empty multiset of endpoints, in any order, choose aggregators with the same pod name
for every key, provided `podNameSort` ties no two distinct member names. -/
theorem targetForScoring_agreement (s₁ s₂ : SchedulerSet) (key : String)
    (hleader : s₁.leader = s₂.leader)
    (hperm : s₁.endpointSliceCache.getMembers ~ s₂.endpointSliceCache.getMembers)
    (hne : s₁.endpointSliceCache.getMembers ≠ [])
    (hnt : NoTies s₁.leader (s₁.endpointSliceCache.getMembers.map (·.podName))) :
    (s₁.getTargetForScoring key).map (·.podName) = (s₂.getTargetForScoring key).map (·.podName) := by
  have hne₂ : s₂.endpointSliceCache.getMembers ≠ [] := fun h => hne (List.Perm.eq_nil (h ▸ hperm))
  have hm₁ : s₁.getMembers = s₁.endpointSliceCache.getMembers := by
    simp [SchedulerSet.getMembers, List.length_eq_zero, hne]
  have hm₂ : s₂.getMembers = s₂.endpointSliceCache.getMembers := by
    simp [SchedulerSet.getMembers, List.length_eq_zero, hne₂]
  have hnames := sortMembers_names_eq hperm hnt
  have hlen : (sortMembers s₁.leader s₁.endpointSliceCache.getMembers).length =
      (sortMembers s₁.leader s₂.endpointSliceCache.getMembers).length := by
    simpa using congrArg List.length hnames
  unfold SchedulerSet.getTargetForScoring
  dsimp only
  rw [hm₁, hm₂, ← hleader, ← hperm.length_eq, ← hlen]
  split
  · rename_i h1
    obtain ⟨a, ha⟩ := List.length_eq_one.mp h1
    have h2 : [a] = s₂.endpointSliceCache.getMembers := List.singleton_perm.mp (ha ▸ hperm)
    rw [ha, ← h2]
  · split
    · rfl
    · rw [← List.getElem?_map, ← List.getElem?_map, hnames]

theorem targetForScoring_agreement_reversed :
    ((oneSliceSet [⟨"dist-scheduler-relay-x", []⟩, ⟨"dist-scheduler-b", []⟩]).getTargetForScoring
        "default/pod-1").map (·.podName) =
      ((oneSliceSet [⟨"dist-scheduler-b", []⟩, ⟨"dist-scheduler-relay-x", []⟩]).getTargetForScoring
        "default/pod-1").map (·.podName) :=
  targetForScoring_agreement _ _ _ rfl (by decide) (by decide) (by decide)

/-- Two endpoints that `podNameSort` ties: a relay, and a member named `"a"` followed by the
relay's name. -/
def tiedPair : List EndpointItem :=
  [⟨"dist-scheduler-relay-x", ["10.0.0.1"]⟩, ⟨"adist-scheduler-relay-x", ["10.0.0.2"]⟩]

/-- **A tie breaks agreement.**  The same two endpoints, listed in the two orders, with the
same leader: the two sets send the key `default/pod-1` to different members. -/
theorem targetForScoring_tie_disagrees :
    (oneSliceSet tiedPair).leader = (oneSliceSet tiedPair.reverse).leader ∧
      (oneSliceSet tiedPair).endpointSliceCache.getMembers ~
        (oneSliceSet tiedPair.reverse).endpointSliceCache.getMembers ∧
      ((oneSliceSet tiedPair).getTargetForScoring "default/pod-1").map (·.podName) ≠
        ((oneSliceSet tiedPair.reverse).getTargetForScoring "default/pod-1").map (·.podName) := by
  decide

end DistScheduler
