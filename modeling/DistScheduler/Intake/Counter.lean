/-
# `concurrentCounter` against its callers

`UnmarshalPodRaw` takes its `ProcessOne` index from the package-level `cc`, a
`concurrentCounter`, and frees it when the call returns.  `Get` pops the last entry of `free`,
or hands out `total` and counts it.  `Free` inserts the index where `slices.BinarySearchFunc`
finds it under a comparator that inverts the order, so that `free` stays in descending order
and its last entry is its least.

The model runs the counter from its zero value (`var cc concurrentCounter`) against any number
of callers, in any order of `Get`s and `Free`s, each `Free` returning an index that a caller
holds (`counterStep`, `counterRun`).

* Under `Free`'s comparator, on a strictly decreasing list, `BinarySearchFunc` returns the
  position that splits the list into the entries above the target and the rest
  (`binarySearchFunc_split`).  So inserting an index that is not free keeps the list strictly
  decreasing (`ConcurrentCounter.free_pairwise`).
* The free list is strictly decreasing, and the held indices and the free list together are a
  permutation of `0 .. total-1` (`CounterInv`).  Every call keeps this (`counterInv_step`),
  so every run does (`counterInv_run`).
* Hence the held indices are distinct and disjoint from the free list, and together with it
  they are `0 .. total-1`.  `Get` returns the least natural number not held
  (`CounterInv.get_least`, `concurrentCounter_distinct`).
* The dispatch machine's counter is such a run.  In every reachable state, the indices that
  the `UnmarshalPodRaw` calls hold satisfy the invariant (`dispatch_counterInv`), so a relayed
  pod takes the least index that no other call holds (`newPod_takes_least`).
-/
import DistScheduler.Intake.Dispatch
import Mathlib.Data.List.GetD
import Mathlib.Data.List.InsertIdx

namespace DistScheduler

open scoped List

/-! ## 1. `BinarySearchFunc` under `Free`'s comparator -/

theorem descCmp_neg_iff {a t : Nat} : descCmp a t < 0 ↔ t < a := by
  unfold descCmp
  split_ifs <;> omega

/-- On an empty range the loop returns at once. -/
@[simp]
theorem binarySearchLoop_self (x : List Nat) (t : Nat) (cmp : Nat → Nat → Int) (i : Nat) :
    binarySearchLoop x t cmp i i = i := by
  rw [binarySearchLoop, if_neg (lt_irrefl i)]

@[simp]
theorem binarySearchFunc_fst (x : List Nat) (t : Nat) (cmp : Nat → Nat → Int) :
    (binarySearchFunc x t cmp).1 = binarySearchLoop x t cmp 0 x.length := rfl

section Search

variable {x : List Nat} {t : Nat}

/-- On a strictly decreasing list, an entry is at most every entry before it. -/
theorem getElem_le_of_le (hx : x.Pairwise (· > ·)) {k h : Nat} (hkh : k ≤ h)
    (hh : h < x.length) : x[h] ≤ x[k] := by
  obtain rfl | hkh := Nat.eq_or_lt_of_le hkh
  · exact le_rfl
  · exact le_of_lt (List.pairwise_iff_getElem.mp hx k h (by omega) hh hkh)

/-- What the loop of `BinarySearchFunc` keeps under `Free`'s comparator: every entry before `i`
is above the target, and every entry from `j` on is at most the target. -/
structure SearchInv (x : List Nat) (t i j : Nat) : Prop where
  le : i ≤ j
  le_length : j ≤ x.length
  above : ∀ k (hk : k < x.length), k < i → t < x[k]
  below : ∀ k (hk : k < x.length), j ≤ k → x[k] ≤ t

/-- The loop ends where the two halves of the invariant meet. -/
theorem searchInv_loop (hx : x.Pairwise (· > ·)) {i j : Nat} (h : SearchInv x t i j) :
    SearchInv x t (binarySearchLoop x t descCmp i j) (binarySearchLoop x t descCmp i j) := by
  induction i, j using binarySearchLoop.induct x t descCmp with
  | case1 i j hij hlt ih =>
    rw [binarySearchLoop, if_pos hij, if_pos hlt]
    have hm : (i + j) / 2 < x.length := by have := h.le_length; omega
    rw [List.getD_eq_getElem _ _ hm, descCmp_neg_iff] at hlt
    exact ih ⟨by omega, h.le_length,
      fun k hk hki => lt_of_lt_of_le hlt (getElem_le_of_le hx (by omega) hm), h.below⟩
  | case2 i j hij hge ih =>
    rw [binarySearchLoop, if_pos hij, if_neg hge]
    have hm : (i + j) / 2 < x.length := by have := h.le_length; omega
    rw [List.getD_eq_getElem _ _ hm, descCmp_neg_iff, not_lt] at hge
    exact ih ⟨by omega, by omega, h.above,
      fun k hk hjk => le_trans (getElem_le_of_le hx hjk hk) hge⟩
  | case3 i j hij =>
    rw [binarySearchLoop, if_neg hij]
    obtain rfl : i = j := by have := h.le; omega
    exact h

/-- Under `Free`'s comparator, on a strictly decreasing list, `BinarySearchFunc` returns a
position in range that splits the list into the entries above the target and the rest. -/
theorem binarySearchFunc_split (hx : x.Pairwise (· > ·)) (t : Nat) :
    (binarySearchFunc x t descCmp).1 ≤ x.length ∧
      (∀ a ∈ x.take (binarySearchFunc x t descCmp).1, t < a) ∧
      ∀ a ∈ x.drop (binarySearchFunc x t descCmp).1, a ≤ t := by
  have h := searchInv_loop hx (⟨Nat.zero_le _, le_rfl, fun _ _ h => absurd h (Nat.not_lt_zero _),
    fun _ hk h => absurd hk (not_lt.mpr h)⟩ : SearchInv x t 0 x.length)
  rw [binarySearchFunc_fst]
  refine ⟨h.le_length, fun a ha => ?_, fun a ha => ?_⟩
  · obtain ⟨k, hk, rfl⟩ := List.mem_take_iff_getElem.mp ha
    exact h.above k _ (by omega)
  · obtain ⟨k, hk, rfl⟩ := List.mem_drop_iff_getElem.mp ha
    exact h.below _ _ (by omega)

end Search

theorem insertIdx_eq_take_drop {l : List Nat} {n a : Nat} (h : n ≤ l.length) :
    l.insertIdx n a = l.take n ++ a :: l.drop n := by
  obtain ⟨l₁, l₂, rfl, rfl, he⟩ := List.exists_of_modifyTailIdx (List.cons a) h
  simpa [List.insertIdx] using he

/-- `Free` keeps the free list strictly decreasing when the index is not already free. -/
theorem ConcurrentCounter.free_pairwise {c : ConcurrentCounter} {idx : Nat}
    (hs : c.freeList.Pairwise (· > ·)) (hidx : idx ∉ c.freeList) :
    (c.free idx).freeList.Pairwise (· > ·) := by
  obtain ⟨hpos, habove, hbelow⟩ := binarySearchFunc_split hs idx
  show (c.freeList.insertIdx _ idx).Pairwise _
  rw [insertIdx_eq_take_drop hpos]
  generalize (binarySearchFunc c.freeList idx descCmp).1 = p at *
  rw [← List.take_append_drop p c.freeList, List.mem_append, not_or] at hidx
  rw [← List.take_append_drop p c.freeList, List.pairwise_append] at hs
  refine List.pairwise_append.mpr
    ⟨hs.1, List.pairwise_cons.mpr ⟨fun a ha => ?_, hs.2.1⟩, fun a ha b hb => ?_⟩
  · exact lt_of_le_of_ne (hbelow a ha) fun h => hidx.2 (h ▸ ha)
  · rcases List.mem_cons.mp hb with rfl | hb
    · exact habove a ha
    · exact hs.2.2 a ha b hb

/-- `Get` only removes from the free list. -/
theorem ConcurrentCounter.get_freeList_sublist (c : ConcurrentCounter) :
    c.get.2.freeList <+ c.freeList := by
  unfold ConcurrentCounter.get
  split
  · exact List.dropLast_sublist _
  · exact List.Sublist.refl _

/-- The last entry of a strictly decreasing list is its least. -/
theorem getLast_le_of_pairwise {l : List Nat} (hl : l.Pairwise (· > ·)) {a b : Nat}
    (ha : l.getLast? = some a) (hb : b ∈ l) : a ≤ b := by
  obtain ⟨ys, rfl⟩ := List.getLast?_eq_some_iff.mp ha
  rcases List.mem_append.mp hb with hb | hb
  · exact le_of_lt ((List.pairwise_append.mp hl).2.2 b hb a (List.mem_singleton_self a))
  · exact (List.mem_singleton.mp hb).ge

/-! ## 2. The counter against its callers -/

/-- The counter and the indices its callers hold, in the order they took them. -/
structure CounterState where
  cc : ConcurrentCounter
  held : List Nat
deriving DecidableEq, Repr

/-- The zero value `var cc concurrentCounter`, with no index held. -/
def CounterState.init : CounterState := ⟨⟨0, []⟩, []⟩

/-- A call on the counter. -/
inductive CounterOp
  /-- A caller takes an index with `Get`. -/
  | get
  /-- A caller returns the index `idx` with `Free`. -/
  | free (idx : Nat)
deriving DecidableEq, Repr

/-- One call, under the counter's mutex; `none` when `Free` is given an index that no caller
holds. -/
def counterStep (s : CounterState) : CounterOp → Option CounterState
  | .get => some ⟨s.cc.get.2, s.held ++ [s.cc.get.1]⟩
  | .free idx => if idx ∈ s.held then some ⟨s.cc.free idx, s.held.erase idx⟩ else none

/-- Run a list of calls. -/
def counterRun (s : CounterState) : List CounterOp → Option CounterState
  | [] => some s
  | op :: ops => (counterStep s op).bind fun s' => counterRun s' ops

/-! ## 3. The invariant -/

/-- The free list is strictly decreasing, and the held indices and the free list together are
`0 .. total-1`, each once. -/
structure CounterInv (s : CounterState) : Prop where
  sorted : s.cc.freeList.Pairwise (· > ·)
  perm : s.held ++ s.cc.freeList ~ List.range s.cc.total

section Inv

variable {s : CounterState}

theorem CounterInv.nodup (hi : CounterInv s) : (s.held ++ s.cc.freeList).Nodup :=
  hi.perm.nodup_iff.mpr (List.nodup_range _)

theorem CounterInv.not_mem_held (hi : CounterInv s) {i : Nat} (hf : i ∈ s.cc.freeList) :
    i ∉ s.held :=
  fun hh => List.disjoint_of_nodup_append hi.nodup hh hf

theorem CounterInv.mem_iff (hi : CounterInv s) (i : Nat) :
    i ∈ s.held ∨ i ∈ s.cc.freeList ↔ i < s.cc.total := by
  rw [← List.mem_append, hi.perm.mem_iff, List.mem_range]

/-- `Get` returns the least natural number that no caller holds. -/
theorem CounterInv.get_least (hi : CounterInv s) :
    s.cc.get.1 ∉ s.held ∧ ∀ j < s.cc.get.1, j ∈ s.held := by
  unfold ConcurrentCounter.get
  split
  · rename_i idx hidx
    have hmem := List.mem_of_getLast?_eq_some hidx
    refine ⟨hi.not_mem_held hmem, fun j hj => ?_⟩
    have hj' := (hi.mem_iff j).mpr (hj.trans ((hi.mem_iff idx).mp (.inr hmem)))
    exact hj'.resolve_right fun hf => absurd (getLast_le_of_pairwise hi.sorted hidx hf) (by omega)
  · rename_i hnone
    have hnil := List.getLast?_eq_none_iff.mp hnone
    refine ⟨fun h => lt_irrefl _ ((hi.mem_iff _).mp (.inl h)), fun j hj => ?_⟩
    exact ((hi.mem_iff j).mpr hj).resolve_right (by simp [hnil])

end Inv

theorem counterInv_init : CounterInv CounterState.init := ⟨List.Pairwise.nil, List.Perm.refl _⟩

theorem counterInv_get {cc : ConcurrentCounter} {held : List Nat} (hi : CounterInv ⟨cc, held⟩) :
    CounterInv ⟨cc.get.2, held ++ [cc.get.1]⟩ :=
  ⟨hi.sorted.sublist cc.get_freeList_sublist, ConcurrentCounter.get_perm hi.perm⟩

/-- `Free` of the `k`-th held index. -/
theorem counterInv_free {cc : ConcurrentCounter} {held : List Nat} {k idx : Nat}
    (hi : CounterInv ⟨cc, held⟩) (hk : held[k]? = some idx) :
    CounterInv ⟨cc.free idx, held.eraseIdx k⟩ :=
  ⟨cc.free_pairwise hi.sorted fun hf => hi.not_mem_held hf (List.getElem?_mem hk),
    ConcurrentCounter.free_perm hk hi.perm⟩

theorem counterInv_step {s s' : CounterState} {op : CounterOp} (hi : CounterInv s)
    (h : counterStep s op = some s') : CounterInv s' := by
  cases op with
  | get => cases h; exact counterInv_get hi
  | free idx =>
    simp only [counterStep] at h
    split_ifs at h with hmem
    cases h
    rw [← List.eraseIdx_indexOf_eq_erase]
    exact counterInv_free hi (List.getElem?_indexOf hmem)

theorem counterInv_run {s s' : CounterState} (hi : CounterInv s) (ops : List CounterOp)
    (h : counterRun s ops = some s') : CounterInv s' := by
  induction ops generalizing s with
  | nil => cases h; exact hi
  | cons op ops ih =>
    obtain ⟨s₁, h₁, h⟩ := Option.bind_eq_some.mp h
    exact ih (counterInv_step hi h₁) h

/-! ## 4. Distinct indices -/

/-- After any run of `Get`s and `Free`s of held indices from the zero value: the held indices
are distinct; the free list is strictly decreasing and disjoint from them; together they are
`0 .. total-1`; and the next `Get` returns the least natural number not held. -/
theorem concurrentCounter_distinct (ops : List CounterOp) (s : CounterState)
    (h : counterRun CounterState.init ops = some s) :
    s.held.Nodup ∧ s.cc.freeList.Pairwise (· > ·) ∧ (∀ i ∈ s.cc.freeList, i ∉ s.held) ∧
      (∀ i, i ∈ s.held ∨ i ∈ s.cc.freeList ↔ i < s.cc.total) ∧
      s.cc.get.1 ∉ s.held ∧ ∀ j < s.cc.get.1, j ∈ s.held := by
  have hi := counterInv_run counterInv_init ops h
  exact ⟨hi.nodup.of_append_left, hi.sorted, fun _ => hi.not_mem_held, hi.mem_iff, hi.get_least⟩

/-- Three callers take `0`, `1` and `2`; `1` and then `0` come back, and `Free` orders them
`[1, 0]`; the next `Get` takes `0` again, and the one after would take `1`. -/
theorem concurrentCounter_distinct_reuse :
    let s : CounterState := ⟨⟨3, [1]⟩, [2, 0]⟩
    counterRun CounterState.init [.get, .get, .get, .free 1, .free 0, .get] = some s ∧
      s.held.Nodup ∧ s.cc.freeList.Pairwise (· > ·) ∧ (∀ i ∈ s.cc.freeList, i ∉ s.held) ∧
      (∀ i, i ∈ s.held ∨ i ∈ s.cc.freeList ↔ i < s.cc.total) ∧
      s.cc.get.1 ∉ s.held ∧ ∀ j < s.cc.get.1, j ∈ s.held := by
  have hpos : binarySearchLoop [1] 0 descCmp 0 1 = 1 := by
    rw [binarySearchLoop]
    simp [descCmp]
  have h : counterRun CounterState.init [.get, .get, .get, .free 1, .free 0, .get] =
      some ⟨⟨3, [1]⟩, [2, 0]⟩ := by
    simp [counterRun, counterStep, CounterState.init, ConcurrentCounter.get,
      ConcurrentCounter.free, List.insertIdx_zero, List.insertIdx_succ_cons, hpos]
  exact ⟨h, concurrentCounter_distinct _ _ h⟩

/-! ## 5. The dispatch machine's counter -/

/-- In every reachable state of the dispatch machine, `cc` and the indices that the
`UnmarshalPodRaw` calls hold satisfy the invariant: a `newPod` is a `Get`, a `newPodDone` a
`Free` of an index a call holds, and no other action touches them. -/
theorem dispatch_counterInv {n : Nat} {s : Dispatch} (hs : DispatchReachable n s) :
    CounterInv ⟨s.cc, s.newPods⟩ := by
  induction hs with
  | init => exact counterInv_init
  | step a _ h ih =>
    cases a with
    | webhook pod | podAdded pod =>
      obtain ⟨q, -, rfl⟩ := Option.map_eq_some'.mp h
      exact ih
    | workerTake i =>
      simp only [dispatchStep] at h
      split_ifs at h
      split at h
      · obtain ⟨-, -, rfl⟩ := Option.map_eq_some'.mp h
        exact ih
      · cases h
    | workerDone i =>
      simp only [dispatchStep] at h
      split_ifs at h
      cases h
      exact ih
    | newPod pod =>
      obtain ⟨r, hr, rfl⟩ := Option.map_eq_some'.mp h
      obtain rfl := unmarshalPodRawDispatch_eq_some hr
      exact counterInv_get ih
    | newPodDone k =>
      obtain ⟨idx, hk, rfl⟩ := Option.map_eq_some'.mp h
      exact counterInv_free ih hk

/-- A relayed pod takes the least index that no other `UnmarshalPodRaw` call holds. -/
theorem newPod_takes_least {n : Nat} {s s' : Dispatch} {pod : Pod} (hs : DispatchReachable n s)
    (h : dispatchStep n s (.newPod pod) = some s') :
    ∃ i, s'.newPods = s.newPods ++ [i] ∧ i ∉ s.newPods ∧ ∀ j < i, j ∈ s.newPods := by
  obtain ⟨r, hr, rfl⟩ := Option.map_eq_some'.mp h
  obtain rfl := unmarshalPodRawDispatch_eq_some hr
  exact ⟨_, rfl, (dispatch_counterInv hs).get_least⟩

/-- Two relayed pods arrive and the first returns: the third takes the index `0` it freed, not
a new one. -/
theorem newPod_takes_least_freed :
    dispatchRun 1 Dispatch.init
        [.newPod ⟨"res-1", "dist-scheduler"⟩, .newPod ⟨"res-2", "dist-scheduler"⟩, .newPodDone 0] =
      some ⟨[], ⟨2, [0]⟩, [], [1]⟩ ∧
    dispatchStep 1 ⟨[], ⟨2, [0]⟩, [], [1]⟩ (.newPod ⟨"res-3", "dist-scheduler"⟩) =
      some ⟨[], ⟨2, []⟩, [], [1, 0]⟩ ∧
    ∃ i, [1, 0] = [1] ++ [i] ∧ i ∉ [1] ∧ ∀ j < i, j ∈ [1] :=
  have hres₁ : sampledLog (goBytes "res-1") = some false := by decide
  have hres₂ : sampledLog (goBytes "res-2") = some false := by decide
  have hres₃ : sampledLog (goBytes "res-3") = some false := by decide
  have h₁ : dispatchRun 1 Dispatch.init
      [.newPod ⟨"res-1", "dist-scheduler"⟩, .newPod ⟨"res-2", "dist-scheduler"⟩, .newPodDone 0] =
        some ⟨[], ⟨2, [0]⟩, [], [1]⟩ := by
    simp [dispatchRun, dispatchStep, unmarshalPodRawDispatch, processOne, ConcurrentCounter.get,
      ConcurrentCounter.free, binarySearchFunc, Dispatch.init, hres₁, hres₂]
  have h₂ : dispatchStep 1 ⟨[], ⟨2, [0]⟩, [], [1]⟩ (.newPod ⟨"res-3", "dist-scheduler"⟩) =
      some ⟨[], ⟨2, []⟩, [], [1, 0]⟩ := by
    simp [dispatchStep, unmarshalPodRawDispatch, processOne, ConcurrentCounter.get, hres₃]
  ⟨h₁, h₂, newPod_takes_least (dispatchReachable_run .init _ h₁) h₂⟩

end DistScheduler
