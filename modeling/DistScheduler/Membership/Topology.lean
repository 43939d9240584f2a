/-
# The relay tree covers every peer exactly once

The leader relays each new pod to its sub-members, each of them to theirs, and so on
(`RelayPod`, `GetSubMembers`).  The tree is positional: in the sorted membership `T` the peer
at index `i` relays to the block `T[10 i + 1, 10 i + 11)`.  Those blocks tile `T[1:]`
(`flatMap_blocks`), so if every peer finds its own index in the same `T`, the blocks of all
peers together are every member but the leader, once each.

Every peer does find it, in the two deployments the program is run in:

* every peer knows the leader `L`: all of them sort into the same `T`, with `L` first
  (`leader_first`), and `sort.Search` over `members[1:]` lands on each peer's own position
  (`subMembersIndex_eq`);
* only the relays know `L`, and the schedulers, which never call `SetLeader`, sort with the
  leader `""`.  `L` is a relay, and in both orders every relay precedes every scheduler
  (`relays_first`); the schedulers' part of the two orders is the same list
  (`filter_schedulers_eq`), so a scheduler's position and its block are the ones it has in
  `T` (`scheduler_block_eq`).

`relayTree_coverage` puts these together for every membership of at least two peers whose
names are distinct and begin with `SchedulerPrefix`.
-/
import DistScheduler.Membership.SchedulerSet
import Mathlib.Data.List.Nodup
import Mathlib.Data.List.GetD

namespace DistScheduler

open scoped List

/-! ## 1. Sorted views of one membership -/

section Views

variable {S : List EndpointItem} {ℓ : String}

/-- With distinct, untied names, the sort is strict. -/
theorem sortMembers_strict {M : List EndpointItem} (hM : M ~ S)
    (hnodup : (S.map (·.podName)).Nodup) (hnt : NoTies ℓ (S.map (·.podName))) :
    (sortMembers ℓ M).Pairwise fun a b => podNameSort ℓ a.podName b.podName < 0 := by
  have hp : sortMembers ℓ M ~ S := (sortMembers_perm ℓ M).trans hM
  have hnd : (sortMembers ℓ M).Pairwise fun a b => a.podName ≠ b.podName :=
    List.pairwise_map.mp ((hp.map _).nodup_iff.mpr hnodup)
  refine ((sortMembers_pairwise ℓ M).and hnd).imp_of_mem fun ha hb h => ?_
  exact podNameSort_neg_of_nameLe h.2
    (hnt _ (List.mem_map_of_mem _ (hp.subset ha)) _ (List.mem_map_of_mem _ (hp.subset hb))) h.1

/-- With distinct, untied names, the sort forgets the input order. -/
theorem sortMembers_eq_of_perm {M : List EndpointItem} (hM : M ~ S)
    (hnodup : (S.map (·.podName)).Nodup) (hnt : NoTies ℓ (S.map (·.podName))) :
    sortMembers ℓ M = sortMembers ℓ S := by
  have h1 : sortMembers ℓ M ~ S := (sortMembers_perm ℓ M).trans hM
  refine eq_of_perm_of_pairwise (h1.trans (sortMembers_perm ℓ S).symm)
    (sortMembers_pairwise ℓ M) (sortMembers_pairwise ℓ S) fun a ha b hb hab hba => ?_
  have ha' := h1.subset ha
  have hb' := h1.subset hb
  exact List.inj_on_of_nodup_map hnodup ha' hb'
    (nameLe_antisymm (hnt _ (List.mem_map_of_mem _ ha') _ (List.mem_map_of_mem _ hb')) hab hba)

/-- In a strict order with distinct names the leader, if present, is at index `0`. -/
theorem leader_first {V : List EndpointItem}
    (hV : V.Pairwise fun a b => podNameSort ℓ a.podName b.podName < 0)
    (hnd : (V.map (·.podName)).Nodup) {i : Nat} (hi : i < V.length) (hℓ : V[i].podName = ℓ) :
    i = 0 := by
  by_contra h0
  have hlt := List.pairwise_iff_getElem.mp hV 0 i (by omega) hi (by omega)
  have hne : V[0].podName ≠ V[i].podName :=
    List.pairwise_iff_getElem.mp (List.pairwise_map.mp hnd) 0 i (by omega) hi (by omega)
  rw [hℓ] at hlt hne
  simp [podNameSort, hne] at hlt

end Views

/-! ## 2. One peer's block -/

/-- **`sort.Search` finds the peer.**  In a strict order, a peer other than the leader at
index `q ≥ 1` gets index `q`. -/
theorem subMembersIndex_eq {ℓ p : String} {V : List EndpointItem} {q : Nat}
    (hV : V.Pairwise fun a b => podNameSort ℓ a.podName b.podName < 0)
    (hq : q < V.length) (hpq : V[q].podName = p) (hp : ℓ ≠ p) (h1 : 1 ≤ q) :
    subMembersIndex ℓ p V = q := by
  have hget := List.pairwise_iff_getElem.mp hV
  have hpℓ : p ≠ ℓ := Ne.symm hp
  rw [subMembersIndex, if_neg hp]
  suffices hs : search (V.length - 1)
      (fun i => decide (0 ≤ podNameSort ℓ (V.getD (i + 1) default).podName p)) = q - 1 by
    omega
  refine search_eq (by omega) (fun k hk => ?_) (fun k hk hkn => ?_)
  · have := hget (k + 1) q (by omega) hq (by omega)
    rw [hpq] at this
    rw [List.getD_eq_getElem _ _ (show k + 1 < V.length by omega)]
    simpa using this
  · rw [List.getD_eq_getElem _ _ (show k + 1 < V.length by omega), decide_eq_true_eq]
    rcases Nat.lt_or_ge q (k + 1) with hlt | hge
    · have h := hget q (k + 1) hq (by omega) hlt
      rw [hpq] at h
      have hne : p ≠ V[k + 1].podName := fun he => by
        rw [← he, podNameSort_self hpℓ] at h; exact lt_irrefl 0 h
      rw [podNameSort_swap hne]
      omega
    · have hk : k + 1 = q := by omega
      simp only [hk, hpq, podNameSort_self hpℓ, le_refl]

theorem subMembersBlock_eq (fanOut : Nat) (V : List EndpointItem) (i : Nat) :
    subMembersBlock fanOut V i = (V.drop (i * 10 + 1)).take fanOut := by
  unfold subMembersBlock
  split
  · rw [List.drop_of_length_le (by omega), List.take_nil]
  · rfl

/-! ## 3. The blocks tile the tail -/

section Tiling

variable {α : Type}

/-- **The ten-ary blocks of the first `n` indices are the first `10 n` non-root entries.** -/
theorem flatMap_blocks (V : List α) :
    ∀ n, (List.range n).flatMap (fun q => (V.drop (q * 10 + 1)).take 10) = (V.drop 1).take (10 * n)
  | 0 => by simp
  | n + 1 => by
    rw [List.range_succ, List.flatMap_append, flatMap_blocks V n, List.flatMap_singleton,
      show 10 * (n + 1) = 10 * n + 10 by omega, List.take_add, List.drop_drop,
      show 1 + 10 * n = n * 10 + 1 by omega]

/-- Reindexing a list with distinct elements by the elements' own positions. -/
theorem flatMap_indexOf [DecidableEq α] {β : Type} (g : Nat → List β) :
    ∀ V : List α, V.Nodup → V.flatMap (fun e => g (V.indexOf e)) = (List.range V.length).flatMap g
  | [], _ => rfl
  | x :: t, h => by
    rw [List.nodup_cons] at h
    have ht : t.flatMap (fun e => g ((x :: t).indexOf e)) = t.flatMap (fun e => g (t.indexOf e + 1)) := by
      simp only [List.flatMap_def]
      congr 1
      refine List.map_congr_left fun e he => ?_
      rw [List.indexOf_cons_ne _ (fun hx => h.1 (by rw [hx]; exact he))]
    rw [List.flatMap_cons, List.indexOf_cons_self, ht, flatMap_indexOf (fun i => g (i + 1)) t h.2,
      List.length_cons, List.range_succ_eq_map, List.flatMap_cons, List.flatMap_map]

end Tiling

end DistScheduler

namespace DistScheduler

open scoped List

/-! ## 4. Relays before schedulers -/

/-- A scheduler never sorts strictly before a relay, unless it is the leader. -/
theorem podNameSort_scheduler_relay {ℓ a b : String}
    (ha : stringsHasPrefix a schedulerPrefix = true) (har : stringsHasPrefix a relayPrefix = false)
    (hb : stringsHasPrefix b relayPrefix = true) (haℓ : a ≠ ℓ) : ¬ podNameSort ℓ a b < 0 := by
  obtain ⟨t, ht⟩ := stringsHasPrefix_iff.mp ha
  have hda : a.data = 'd' :: ("ist-scheduler".data ++ t) := by rw [← ht]; rfl
  have hda' : ¬ ('d' < 'a') := by decide
  have had : 'a' < 'd' := by decide
  unfold podNameSort relayTag
  simp only [haℓ, har, hb, if_false, if_true]
  split
  · decide
  · simp [stringsCompare, hda, compareChars, hda', had]

/-- A list in which nothing failing `q` precedes something satisfying it is the part
satisfying `q` followed by the rest. -/
theorem eq_filter_append {α : Type} (q : α → Bool) :
    ∀ l : List α, l.Pairwise (fun a b => q b = true → q a = true) →
      l = l.filter q ++ l.filter (fun a => !q a)
  | [], _ => rfl
  | x :: t, h => by
    rw [List.pairwise_cons] at h
    cases hx : q x
    · have ht : t.filter q = [] := List.filter_eq_nil_iff.mpr fun b hb hqb => by
        simpa [hx] using h.1 b hb hqb
      have ht' : t.filter (fun a => !q a) = t := List.filter_eq_self.mpr fun b hb => by
        cases hqb : q b
        · rfl
        · simpa [hx] using h.1 b hb hqb
      simp [List.filter_cons, hx, ht, ht']
    · simp only [List.filter_cons, hx, if_true, Bool.not_true, Bool.false_eq_true, if_false,
        List.cons_append]
      exact congrArg _ (eq_filter_append q t h.2)

section Views

variable {S : List EndpointItem} {ℓ : String}

/-- **Relays come first.**  In a strict order whose leader is no scheduler of the list,
every relay precedes every scheduler. -/
theorem relays_first {V : List EndpointItem}
    (hV : V.Pairwise fun a b => podNameSort ℓ a.podName b.podName < 0)
    (hpre : ∀ e ∈ V, stringsHasPrefix e.podName schedulerPrefix = true)
    (hℓ : ∀ e ∈ V, isRelay e = false → e.podName ≠ ℓ) :
    V = V.filter isRelay ++ V.filter (fun e => !isRelay e) := by
  refine eq_filter_append isRelay V (hV.imp_of_mem fun ha _ hlt hb => ?_)
  by_contra hra
  rw [Bool.not_eq_true] at hra
  exact podNameSort_scheduler_relay (hpre _ ha) hra hb (hℓ _ ha hra) hlt

/-- On two schedulers other than the leader, `podNameSort` is `strings.Compare`. -/
theorem podNameSort_schedulers {a b : EndpointItem} (ha : isRelay a = false)
    (hb : isRelay b = false) (haℓ : a.podName ≠ ℓ) (hbℓ : b.podName ≠ ℓ) :
    podNameSort ℓ a.podName b.podName = stringsCompare a.podName b.podName := by
  simp only [isRelay] at ha hb
  simp [podNameSort, relayTag, ha, hb, haℓ, hbℓ]

/-- **The schedulers' part of the order does not depend on the leader**, as long as no
scheduler is the leader. -/
theorem filter_schedulers_eq {ℓ' : String} {T U : List EndpointItem} (hT : T ~ S) (hU : U ~ S)
    (hsT : T.Pairwise fun a b => podNameSort ℓ a.podName b.podName < 0)
    (hsU : U.Pairwise fun a b => podNameSort ℓ' a.podName b.podName < 0)
    (hℓ : ∀ e ∈ S, isRelay e = false → e.podName ≠ ℓ ∧ e.podName ≠ ℓ') :
    T.filter (fun e => !isRelay e) = U.filter (fun e => !isRelay e) := by
  have key : ∀ {V : List EndpointItem} {m : String}, V ~ S →
      (V.Pairwise fun a b => podNameSort m a.podName b.podName < 0) →
      (∀ e ∈ S, isRelay e = false → e.podName ≠ m) →
      (V.filter fun e => !isRelay e).Pairwise fun a b => stringsCompare a.podName b.podName < 0 := by
    intro V m hV hs hm
    refine (hs.sublist (List.filter_sublist V)).imp_of_mem fun ha hb h => ?_
    rw [List.mem_filter, Bool.not_eq_true'] at ha hb
    rwa [← podNameSort_schedulers ha.2 hb.2 (hm _ (hV.subset ha.1) ha.2) (hm _ (hV.subset hb.1) hb.2)]
  refine eq_of_perm_of_pairwise ((hT.filter _).trans (hU.filter _).symm)
    (key hT hsT fun e he hr => (hℓ e he hr).1) (key hU hsU fun e he hr => (hℓ e he hr).2)
    fun a _ b _ hab hba => ?_
  rw [stringsCompare_swap] at hba
  omega

end Views

/-! ## 5. Every peer's block -/

section Peers

variable {S : List EndpointItem}

theorem name_ne_empty {a : String} (h : stringsHasPrefix a schedulerPrefix = true) : a ≠ "" := by
  rintro rfl
  simp [stringsHasPrefix, schedulerPrefix] at h

theorem getElem_indexOf {V : List EndpointItem} {e : EndpointItem} (h : V.indexOf e < V.length) :
    V[V.indexOf e] = e :=
  (List.get_eq_getElem _ _).symm.trans (List.indexOf_get h)

theorem flatMap_congr {α β : Type} {l : List α} {f g : α → List β} (h : ∀ x ∈ l, f x = g x) :
    l.flatMap f = l.flatMap g := by
  simp only [List.flatMap_def]
  rw [List.map_congr_left h]

/-- **A fresh sub-member list is the peer's block in its own sorted view**, once its index
there is known to be `0` for the leader and at least `1` for everyone else. -/
theorem getSubMembers_eq_block {ss : SchedulerSet} {e : EndpointItem} (hS : 2 ≤ S.length)
    (hnodup : (S.map (·.podName)).Nodup) (hnt : NoTies ss.leader (S.map (·.podName)))
    (he : e ∈ S) (hname : ss.podName = e.podName) (hfan : ss.fanOut = 10)
    (hdirty : ss.dirty = true) (hM : ss.endpointSliceCache.getMembers ~ S)
    (h0 : ss.leader = e.podName → (sortMembers ss.leader S).indexOf e = 0)
    (h1 : ss.leader ≠ e.podName → 1 ≤ (sortMembers ss.leader S).indexOf e) :
    ss.getSubMembers.2 =
      ((sortMembers ss.leader S).drop ((sortMembers ss.leader S).indexOf e * 10 + 1)).take 10 := by
  have hq := List.indexOf_lt_length.mpr ((sortMembers_perm ss.leader S).symm.subset he)
  rw [SchedulerSet.getSubMembers_of_dirty hdirty, subMembersOf,
    if_neg (by rw [hM.length_eq]; omega), sortMembers_eq_of_perm hM hnodup hnt, subMembersBlock_eq,
    hfan, hname]
  by_cases hp : ss.leader = e.podName
  · rw [subMembersIndex, if_pos hp, h0 hp]
  · rw [subMembersIndex_eq (sortMembers_strict (List.Perm.refl S) hnodup hnt) hq
      (by rw [getElem_indexOf hq]) hp (h1 hp)]

/-- In the leader's view the leader is at index `0` and everyone else after it. -/
theorem indexOf_leaderView {L : String} (hnodup : (S.map (·.podName)).Nodup)
    (hnt : NoTies L (S.map (·.podName))) (hL : L ∈ S.map (·.podName)) {e : EndpointItem}
    (he : e ∈ S) :
    (e.podName = L → (sortMembers L S).indexOf e = 0) ∧
      (e.podName ≠ L → 1 ≤ (sortMembers L S).indexOf e) := by
  have hp := sortMembers_perm L S
  have hV := sortMembers_strict (List.Perm.refl S) hnodup hnt
  have hnd : ((sortMembers L S).map (·.podName)).Nodup := (hp.map _).nodup_iff.mpr hnodup
  have zero : ∀ x ∈ S, x.podName = L → (sortMembers L S).indexOf x = 0 := fun x hx hxL => by
    have hq := List.indexOf_lt_length.mpr (hp.symm.subset hx)
    exact leader_first hV hnd hq (by rw [getElem_indexOf hq, hxL])
  refine ⟨zero e he, fun heL => Nat.one_le_iff_ne_zero.mpr fun h0 => heL ?_⟩
  obtain ⟨x, hx, hxL⟩ := List.mem_map.mp hL
  rw [← zero x hx hxL, List.indexOf_inj (hp.symm.subset he) (hp.symm.subset hx)] at h0
  rw [h0, hxL]

/-- **A scheduler that does not know the leader still gets the leader's block.**  It sorts
with the leader `""`; its index and its block agree with those it has in the leader's view. -/
theorem scheduler_block_eq {L : String} (hnodup : (S.map (·.podName)).Nodup)
    (hpre : ∀ e ∈ S, stringsHasPrefix e.podName schedulerPrefix = true)
    (hLr : stringsHasPrefix L relayPrefix = true) (hL : L ∈ S.map (·.podName))
    {e : EndpointItem} (hr : isRelay e = false) :
    (sortMembers "" S).indexOf e = (sortMembers L S).indexOf e ∧
      1 ≤ (sortMembers "" S).indexOf e ∧
      ((sortMembers "" S).drop ((sortMembers "" S).indexOf e * 10 + 1)).take 10 =
        ((sortMembers L S).drop ((sortMembers L S).indexOf e * 10 + 1)).take 10 := by
  have hT := sortMembers_perm L S
  have hU := sortMembers_perm "" S
  have hsT := sortMembers_strict (List.Perm.refl S) hnodup (noTies_of_peerNames L (by simpa using hpre))
  have hsU := sortMembers_strict (List.Perm.refl S) hnodup (noTies_of_peerNames "" (by simpa using hpre))
  have hsched : ∀ x ∈ S, isRelay x = false → x.podName ≠ L ∧ x.podName ≠ "" := fun x hx hxr =>
    ⟨fun h => by simp [isRelay, h, hLr] at hxr, name_ne_empty (hpre x hx)⟩
  have hsplitT := relays_first hsT (fun x hx => hpre x (hT.subset hx))
    fun x hx hxr => (hsched x (hT.subset hx) hxr).1
  have hsplitU := relays_first hsU (fun x hx => hpre x (hU.subset hx))
    fun x hx hxr => (hsched x (hU.subset hx) hxr).2
  have hB := filter_schedulers_eq hU hT hsU hsT fun x hx hxr =>
    ⟨(hsched x hx hxr).2, (hsched x hx hxr).1⟩
  have hR : ((sortMembers "" S).filter isRelay).length = ((sortMembers L S).filter isRelay).length :=
    ((hU.filter _).trans (hT.filter _).symm).length_eq
  obtain ⟨x, hx, hxL⟩ := List.mem_map.mp hL
  have hR1 : 1 ≤ ((sortMembers L S).filter isRelay).length :=
    List.length_pos_of_mem (List.mem_filter.mpr ⟨hT.symm.subset hx, by simp [isRelay, hxL, hLr]⟩)
  have hnot : ∀ V : List EndpointItem, e ∉ V.filter isRelay := fun V h => by
    simp [hr] at h
  obtain ⟨A, A', B, hTs, hUs, hlen, h1, heA, heA'⟩ : ∃ A A' B : List EndpointItem,
      sortMembers L S = A ++ B ∧ sortMembers "" S = A' ++ B ∧ A'.length = A.length ∧
        1 ≤ A.length ∧ e ∉ A ∧ e ∉ A' :=
    ⟨_, _, _, hsplitT, hB ▸ hsplitU, hR, hR1, hnot _, hnot _⟩
  rw [hTs, hUs, List.indexOf_append_of_not_mem heA, List.indexOf_append_of_not_mem heA', hlen]
  refine ⟨rfl, by omega, ?_⟩
  rw [List.drop_append_eq_append_drop, List.drop_append_eq_append_drop,
    List.drop_of_length_le (show A'.length ≤ _ by omega),
    List.drop_of_length_le (show A.length ≤ _ by omega), hlen]

end Peers

/-! ## 6. Coverage -/

/-- The leader's view without its head is every other member. -/
theorem drop_one_perm_filter {S : List EndpointItem} {L : String}
    (hnodup : (S.map (·.podName)).Nodup) (hnt : NoTies L (S.map (·.podName)))
    (hL : L ∈ S.map (·.podName)) :
    (sortMembers L S).drop 1 ~ S.filter fun e => e.podName ≠ L := by
  obtain ⟨x, hx, hxL⟩ := List.mem_map.mp hL
  have hp := sortMembers_perm L S
  have hnd : ((sortMembers L S).map (·.podName)).Nodup := (hp.map _).nodup_iff.mpr hnodup
  have h0 := (indexOf_leaderView hnodup hnt hL hx).1 hxL
  obtain ⟨t, ht⟩ : ∃ t, sortMembers L S = x :: t := by
    cases h : sortMembers L S with
    | nil => exact absurd (hp.symm.subset hx) (by simp [h])
    | cons y t =>
      rw [h] at h0
      by_cases hyx : y = x
      · exact ⟨t, by rw [hyx]⟩
      · rw [List.indexOf_cons_ne _ hyx] at h0
        exact absurd h0 (Nat.succ_ne_zero _)
  have htL : ∀ y ∈ t, y.podName ≠ L := fun y hy hyL => by
    rw [ht, List.map_cons, List.nodup_cons] at hnd
    exact hnd.1 (List.mem_map.mpr ⟨y, hy, hyL.trans hxL.symm⟩)
  calc (sortMembers L S).drop 1 = t := by rw [ht]; rfl
    _ = (sortMembers L S).filter fun e => e.podName ≠ L := by
        rw [ht, List.filter_cons_of_neg (by simpa using hxL), List.filter_eq_self.mpr (by simpa using htL)]
    _ ~ S.filter fun e => e.podName ≠ L := hp.filter _

/-- **Relay-tree coverage.**  Take a membership `S` of at least two peers with distinct pod
names that begin with `SchedulerPrefix`, and let every peer compute its sub-members afresh
against `S` with fan-out `10`, each from its own copy of the cache.  If every peer knows the
leader `L`, or `L` is a relay, every relay knows it and every scheduler has the leader `""`,
then the peers' sub-member lists are pairwise disjoint, none contains `L`, and together they
are every member but `L`, each exactly once. -/
theorem relayTree_coverage (S : List EndpointItem) (L : String) (peer : String → SchedulerSet)
    (hsize : 2 ≤ S.length) (hnodup : (S.map (·.podName)).Nodup)
    (hpeerName : ∀ e ∈ S, stringsHasPrefix e.podName schedulerPrefix = true)
    (hL : L ∈ S.map (·.podName))
    (hpeer : ∀ e ∈ S, (peer e.podName).podName = e.podName ∧ (peer e.podName).fanOut = 10 ∧
      (peer e.podName).dirty = true ∧ (peer e.podName).endpointSliceCache.getMembers ~ S)
    (hview : (∀ e ∈ S, (peer e.podName).leader = L) ∨
      (stringsHasPrefix L relayPrefix = true ∧
        ∀ e ∈ S, (peer e.podName).leader = if isRelay e then L else "")) :
    S.Pairwise (fun e₁ e₂ =>
        ((peer e₁.podName).getSubMembers.2).Disjoint (peer e₂.podName).getSubMembers.2) ∧
      (∀ e ∈ S, ∀ x ∈ (peer e.podName).getSubMembers.2, x.podName ≠ L) ∧
      S.flatMap (fun e => (peer e.podName).getSubMembers.2) ~ S.filter fun e => e.podName ≠ L := by
  have hnt : ∀ ℓ, NoTies ℓ (S.map (·.podName)) := fun ℓ => noTies_of_peerNames ℓ (by simpa using hpeerName)
  have hTnd : (sortMembers L S).Nodup := ((sortMembers_perm L S).nodup_iff).mpr (hnodup.of_map _)
  have hblock : ∀ e ∈ S, (peer e.podName).getSubMembers.2 =
      ((sortMembers L S).drop ((sortMembers L S).indexOf e * 10 + 1)).take 10 := by
    intro e he
    obtain ⟨hn, hf, hd, hM⟩ := hpeer e he
    have hlead := indexOf_leaderView hnodup (hnt L) hL he
    have viaL : (peer e.podName).leader = L → (peer e.podName).getSubMembers.2 =
        ((sortMembers L S).drop ((sortMembers L S).indexOf e * 10 + 1)).take 10 := fun h => by
      rw [getSubMembers_eq_block hsize hnodup (hnt _) he hn hf hd hM
        (by rw [h]; exact fun h' => hlead.1 h'.symm) (by rw [h]; exact fun h' => hlead.2 (Ne.symm h')), h]
    rcases hview with hA | ⟨hLr, hB⟩
    · exact viaL (hA e he)
    · cases hr : isRelay e
      · have hsb := scheduler_block_eq hnodup hpeerName hLr hL hr
        have hv : (peer e.podName).leader = "" := by simpa [hr] using hB e he
        rw [getSubMembers_eq_block hsize hnodup (hnt _) he hn hf hd hM
          (by rw [hv]; exact fun h => absurd h.symm (name_ne_empty (hpeerName e he)))
          (by rw [hv]; exact fun _ => hsb.2.1), hv, hsb.2.2]
      · exact viaL (by simpa [hr] using hB e he)
  have hcover : S.flatMap (fun e => (peer e.podName).getSubMembers.2) ~
      S.filter fun e => e.podName ≠ L :=
    calc S.flatMap (fun e => (peer e.podName).getSubMembers.2)
        = S.flatMap (fun e => ((sortMembers L S).drop ((sortMembers L S).indexOf e * 10 + 1)).take 10) :=
          flatMap_congr hblock
      _ ~ (sortMembers L S).flatMap
            (fun e => ((sortMembers L S).drop ((sortMembers L S).indexOf e * 10 + 1)).take 10) :=
          (sortMembers_perm L S).symm.flatMap_right _
      _ = (List.range (sortMembers L S).length).flatMap
            (fun q => ((sortMembers L S).drop (q * 10 + 1)).take 10) :=
          flatMap_indexOf (fun q => ((sortMembers L S).drop (q * 10 + 1)).take 10) _ hTnd
      _ = ((sortMembers L S).drop 1).take (10 * (sortMembers L S).length) := flatMap_blocks _ _
      _ = (sortMembers L S).drop 1 := List.take_of_length_le (by simp; omega)
      _ ~ S.filter fun e => e.podName ≠ L := drop_one_perm_filter hnodup (hnt L) hL
  have hnd := hcover.nodup_iff.mpr ((hnodup.of_map _).filter _)
  refine ⟨(List.nodup_flatMap.mp hnd).2, fun e he x hx => ?_, hcover⟩
  simpa using (List.mem_filter.mp (hcover.subset (List.mem_flatMap.mpr ⟨e, he, hx⟩))).2

/-- A two-peer membership, both peers in one slice of the cache. -/
def twoPeerMembers : List EndpointItem :=
  [⟨"dist-scheduler-a", ["10.0.0.1"]⟩, ⟨"dist-scheduler-b", ["10.0.0.2"]⟩]

/-- Each peer's scheduler set over `twoPeerMembers`, with `dist-scheduler-a` as leader. -/
def twoPeerSet (p : String) : SchedulerSet :=
  ⟨EndpointSliceCache.empty.update ⟨"dist-scheduler-x1", 1,
      [⟨"dist-scheduler-a", ["10.0.0.1"]⟩, ⟨"dist-scheduler-b", ["10.0.0.2"]⟩]⟩,
    p, 10, [], "dist-scheduler-a", true, false⟩

theorem relayTree_coverage_twoPeers :
    twoPeerMembers.Pairwise (fun e₁ e₂ =>
        ((twoPeerSet e₁.podName).getSubMembers.2).Disjoint (twoPeerSet e₂.podName).getSubMembers.2) ∧
      (∀ e ∈ twoPeerMembers, ∀ x ∈ (twoPeerSet e.podName).getSubMembers.2,
        x.podName ≠ "dist-scheduler-a") ∧
      twoPeerMembers.flatMap (fun e => (twoPeerSet e.podName).getSubMembers.2) ~
        twoPeerMembers.filter fun e => e.podName ≠ "dist-scheduler-a" :=
  relayTree_coverage twoPeerMembers "dist-scheduler-a" twoPeerSet (by decide) (by decide)
    (by decide) (by decide) (by decide) (Or.inl (by decide))

end DistScheduler
