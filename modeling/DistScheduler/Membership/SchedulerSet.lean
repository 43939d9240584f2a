/-
# The scheduler set: the peer order, the aggregator, the relay sub-members

`SchedulerSet` (`schedulerset/schedulerset.go`) wraps the membership cache with this peer's
own name, the current leader and a lazily recomputed list of relay sub-members.

* `podNameSort` orders pod names: the leader first, then by name, where a relay's name is
  compared with `"a"` in front of it so that relays come before schedulers.
* `getTargetForScoring` picks the aggregator of a pod key: the sorted membership indexed by
  the key's FNV-1 hash.
* `getSubMembers` answers from `subMembersCache` while the `dirty` flag is clear; otherwise
  it recomputes, with `subMembersOf`: sort, locate this peer with `sort.Search` over
  `members[1:]` (`subMembersIndex`), and take the ten-ary block `[10 i + 1, 10 i + 1 + fanOut)`
  (`subMembersBlock`).

Section 3 isolates what the sort guarantees.  `NameLe` is the total preorder `podNameSort`
sorts by, and `sortMembers` orders every list by it (`sortMembers_pairwise`).  It is
antisymmetric exactly when `podNameSort` ties no two distinct names (`NoTies`), which holds
for every set of names that begin with `SchedulerPrefix` (`noTies_of_peerNames`).
-/
import DistScheduler.Go.Strings
import DistScheduler.Go.Sort
import DistScheduler.Membership.Cache

namespace DistScheduler

open scoped List

/-! ## 1. Roles and the peer order -/

/-- `RelayPrefix`. -/
def relayPrefix : String := "dist-scheduler-relay"

/-- `SchedulerPrefix`: the Service's name, and the prefix of every peer's pod name. -/
def schedulerPrefix : String := "dist-scheduler"

/-- A member is a relay when its pod name starts with `RelayPrefix`. -/
def isRelay (m : EndpointItem) : Bool := stringsHasPrefix m.podName relayPrefix

/-- The name `podNameSort` compares in place of a relay's own: `"a"` in front of it. -/
def relayTag (a : String) : String :=
  if stringsHasPrefix a relayPrefix then "a" ++ a else a

/-- `podNameSort`: the leader before everything, then the names by `relayTag`. -/
def podNameSort (leader a b : String) : Int :=
  if a = leader then -1
  else if b = leader then 1
  else stringsCompare (relayTag a) (relayTag b)

/-- `sortMembers`: `slices.SortFunc` on the members' pod names. -/
def sortMembers (leader : String) (members : List EndpointItem) : List EndpointItem :=
  sortFunc (fun a b => podNameSort leader a.podName b.podName) members

/-! ## 2. The scheduler set -/

/-- `SchedulerSet`, with the fields its methods read.  `fanOut` is a `uint32`; the model
keeps it as a natural number. -/
structure SchedulerSet where
  endpointSliceCache : EndpointSliceCache
  podName : String
  fanOut : Nat
  subMembersCache : List EndpointItem
  leader : String
  dirty : Bool
  allowSolo : Bool

namespace SchedulerSet

/-- `GetMemberCountNoRelays`: the members that are not relays. -/
def getMemberCountNoRelays (s : SchedulerSet) : Nat :=
  (s.endpointSliceCache.getMembers.filter fun m => !isRelay m).length

/-- `GetMembers`: in solo mode an empty membership becomes this peer on the loopback. -/
def getMembers (s : SchedulerSet) : List EndpointItem :=
  let members := s.endpointSliceCache.getMembers
  if members.length = 0 ∧ s.allowSolo then [⟨s.podName, ["127.0.0.1"]⟩] else members

/-- `GetTargetForScoring`: a single member directly, otherwise the sorted members indexed by
the key's FNV-1 hash modulo `uint32(len(members))`.  `none` is Go's integer division by zero,
on an empty membership. -/
def getTargetForScoring (s : SchedulerSet) (key : String) : Option EndpointItem :=
  let members := s.getMembers
  if members.length = 1 then members.head?
  else
    let members := sortMembers s.leader members
    let n := members.length % 2 ^ 32
    if n = 0 then none else members[(fnv32Sum (goBytes key)).toNat % n]?

end SchedulerSet

/-- The index `GetSubMembers` gives this peer in the sorted members: `0` for the leader,
otherwise one past `sort.Search` over `members[1:]` for the first name not below its own. -/
def subMembersIndex (leader podName : String) (members : List EndpointItem) : Nat :=
  if leader = podName then 0
  else
    search (members.length - 1)
      (fun i => decide (0 ≤ podNameSort leader (members.getD (i + 1) default).podName podName)) + 1

/-- The block of the sorted members that the peer at `index` relays to:
`members[start:min(start + fanOut, len)]` with `start = index * 10 + 1`. -/
def subMembersBlock (fanOut : Nat) (members : List EndpointItem) (index : Nat) :
    List EndpointItem :=
  if index * 10 + 1 ≥ members.length then [] else (members.drop (index * 10 + 1)).take fanOut

/-- What `GetSubMembers` computes and caches when the `dirty` flag is set. -/
def subMembersOf (leader podName : String) (fanOut : Nat) (members : List EndpointItem) :
    List EndpointItem :=
  if members.length ≤ 1 then []
  else
    let sorted := sortMembers leader members
    subMembersBlock fanOut sorted (subMembersIndex leader podName sorted)

namespace SchedulerSet

/-- `GetSubMembers`: the cached list while `dirty` is clear, otherwise a recomputation from
the cache (not `GetMembers`: no solo entry), which clears `dirty`. -/
def getSubMembers (s : SchedulerSet) : SchedulerSet × List EndpointItem :=
  if s.dirty then
    let sub := subMembersOf s.leader s.podName s.fanOut s.endpointSliceCache.getMembers
    ({ s with dirty := false, subMembersCache := sub }, sub)
  else (s, s.subMembersCache)

/-- `SetLeader`. -/
def setLeader (s : SchedulerSet) (leader : String) : SchedulerSet :=
  { s with leader := leader, dirty := true }

theorem getSubMembers_of_dirty {s : SchedulerSet} (h : s.dirty = true) :
    s.getSubMembers.2 = subMembersOf s.leader s.podName s.fanOut s.endpointSliceCache.getMembers := by
  simp [getSubMembers, h]

end SchedulerSet

/-! ## 3. What `sortMembers` guarantees -/

/-- The total preorder `podNameSort` sorts by: the leader first, the rest by `relayTag`. -/
def NameLe (leader a b : String) : Prop :=
  a = leader ∨ (b ≠ leader ∧ stringsCompare (relayTag a) (relayTag b) ≤ 0)

/-- `podNameSort` ties no two distinct names of `names`. -/
def NoTies (leader : String) (names : List String) : Prop :=
  ∀ a ∈ names, ∀ b ∈ names, podNameSort leader a b = 0 → a = b

instance (leader : String) (names : List String) : Decidable (NoTies leader names) :=
  inferInstanceAs (Decidable (∀ a ∈ names, ∀ b ∈ names, podNameSort leader a b = 0 → a = b))

theorem stringsCompare_le_trans {a b c : String} (h1 : stringsCompare a b ≤ 0)
    (h2 : stringsCompare b c ≤ 0) : stringsCompare a c ≤ 0 := by
  rcases h1.lt_or_eq with h1 | h1
  · rcases h2.lt_or_eq with h2 | h2
    · exact (stringsCompare_trans h1 h2).le
    · rw [stringsCompare_eq_zero.mp h2] at h1; exact h1.le
  · rw [stringsCompare_eq_zero.mp h1]; exact h2

theorem nameLe_trans {ℓ a b c : String} (h1 : NameLe ℓ a b) (h2 : NameLe ℓ b c) :
    NameLe ℓ a c := by
  rcases h1 with rfl | ⟨hb, h1⟩
  · exact Or.inl rfl
  · rcases h2 with rfl | ⟨hc, h2⟩
    · exact absurd rfl hb
    · exact Or.inr ⟨hc, stringsCompare_le_trans h1 h2⟩

theorem nameLe_of_neg {ℓ a b : String} (h : podNameSort ℓ a b < 0) : NameLe ℓ a b := by
  unfold podNameSort at h
  by_cases ha : a = ℓ
  · exact Or.inl ha
  · by_cases hb : b = ℓ
    · simp [ha, hb] at h
    · simp only [ha, hb, if_false] at h
      exact Or.inr ⟨hb, h.le⟩

theorem nameLe_of_not_neg {ℓ a b : String} (h : ¬ podNameSort ℓ a b < 0) : NameLe ℓ b a := by
  unfold podNameSort at h
  by_cases ha : a = ℓ
  · simp [ha] at h
  · by_cases hb : b = ℓ
    · exact Or.inl hb
    · simp only [ha, hb, if_false, not_lt] at h
      refine Or.inr ⟨ha, ?_⟩
      rw [stringsCompare_swap]
      omega

/-- **`sortMembers` sorts by `NameLe`**, whatever the input order. -/
theorem sortMembers_pairwise (ℓ : String) (l : List EndpointItem) :
    (sortMembers ℓ l).Pairwise fun a b => NameLe ℓ a.podName b.podName := by
  apply sortFunc_pairwise
  · exact fun _ _ _ => nameLe_trans
  · exact fun _ _ => nameLe_of_neg
  · exact fun _ _ => nameLe_of_not_neg

theorem sortMembers_perm (ℓ : String) (l : List EndpointItem) : sortMembers ℓ l ~ l :=
  sortFunc_perm _ l

/-- Without ties, `NameLe` between distinct names is a strict `podNameSort`. -/
theorem podNameSort_neg_of_nameLe {ℓ a b : String} (hne : a ≠ b)
    (hnt : podNameSort ℓ a b = 0 → a = b) (h : NameLe ℓ a b) : podNameSort ℓ a b < 0 := by
  unfold podNameSort at hnt ⊢
  rcases h with rfl | ⟨hb, h⟩
  · simp
  · by_cases ha : a = ℓ
    · simp [ha]
    · simp only [ha, hb, if_false] at hnt ⊢
      rcases h.lt_or_eq with h | h
      · exact h
      · exact absurd (hnt h) hne

theorem nameLe_antisymm {ℓ a b : String} (hnt : podNameSort ℓ a b = 0 → a = b)
    (h1 : NameLe ℓ a b) (h2 : NameLe ℓ b a) : a = b := by
  rcases h1 with rfl | ⟨hb, h1⟩
  · rcases h2 with rfl | ⟨ha, _⟩
    · rfl
    · exact absurd rfl ha
  · rcases h2 with rfl | ⟨ha, h2⟩
    · exact absurd rfl hb
    · refine hnt ?_
      rw [stringsCompare_swap] at h2
      simp only [podNameSort, ha, hb, if_false]
      omega

theorem podNameSort_swap {ℓ a b : String} (hne : a ≠ b) :
    podNameSort ℓ b a = - podNameSort ℓ a b := by
  unfold podNameSort
  by_cases ha : a = ℓ
  · subst ha; simp [Ne.symm hne]
  · by_cases hb : b = ℓ
    · simp [ha, hb]
    · simp only [ha, hb, if_false]
      exact stringsCompare_swap _ _

theorem podNameSort_self {ℓ a : String} (h : a ≠ ℓ) : podNameSort ℓ a a = 0 := by
  simp [podNameSort, h, stringsCompare_eq_zero]

/-- A relay's tag starts with `a`, any other peer's name with `d`: on names that begin with
`SchedulerPrefix` the renaming is injective. -/
theorem relayTag_inj {a b : String} (ha : stringsHasPrefix a schedulerPrefix = true)
    (hb : stringsHasPrefix b schedulerPrefix = true) (h : relayTag a = relayTag b) : a = b := by
  obtain ⟨ta, hta⟩ := stringsHasPrefix_iff.mp ha
  obtain ⟨tb, htb⟩ := stringsHasPrefix_iff.mp hb
  have hda : a.data = 'd' :: ("ist-scheduler".data ++ ta) := by rw [← hta]; rfl
  have hdb : b.data = 'd' :: ("ist-scheduler".data ++ tb) := by rw [← htb]; rfl
  unfold relayTag at h
  rw [String.ext_iff] at h ⊢
  split at h <;> split at h <;> simp_all

/-- **Peers never tie.**  Among names that begin with `SchedulerPrefix`, `podNameSort` puts
any two distinct names strictly in order, whoever the leader is. -/
theorem noTies_of_peerNames (ℓ : String) {names : List String}
    (h : ∀ a ∈ names, stringsHasPrefix a schedulerPrefix = true) : NoTies ℓ names := by
  intro a ha b hb hab
  unfold podNameSort at hab
  split at hab
  · simp at hab
  · split at hab
    · simp at hab
    · exact relayTag_inj (h a ha) (h b hb) (stringsCompare_eq_zero.mp hab)

end DistScheduler
