/-
# The load tools' semaphore loop

The pod deleter and the kwok node tool run the same loop.  `main` calls `wg.Add(n)`.  For each
`i` from `skip` below `count` it sends a token on `sem`, a channel of capacity
`100 * numClientSets`, and starts a goroutine.  The goroutine makes its call for `i`
(`deleteResource` or `createNode`); then its deferred calls run, the last one first: `<-sem`,
then `wg.Done()`.  `main` then calls `wg.Wait()`, and the process ends when it returns.  The two
differ only in `n`: the deleter adds `count` (`deleterInit`), the kwok tool `count - skip`
(`kwokInit`).  (Each goroutine has its own `i`: loop variables are per iteration, and the kwok
tool also copies `i := i`.)

* Over every interleaving, when `n` is at least `count - skip`, no `Done` panics, and the
  goroutines that have not given their token back, the calls in flight among them, never
  number more than the channel's capacity (`spawnLoop_inFlight`).
* Every run stops, after at most `4 * (count - skip) + 1` steps (`loopVariant_run`).  Then every
  goroutine is gone, each index from `skip` below `count` has had its call once, and `Wait` has
  returned exactly when `n = count - skip` (`LoopInv.stopped`).
* So the kwok tool ends with `Wait` returned and its nodes created (`createNodes_complete`), and
  so does the deleter with `skip = 0` (`deleteResources_complete`).  With `skip > 0` the
  deleter's `Wait` never returns: the counter is stuck at `min skip count`
  (`deleteResources_skipHangs`).
-/
import DistScheduler.Partition.KwokNodes
import Mathlib.Algebra.BigOperators.Group.List
import Mathlib.Data.List.Nodup
import Mathlib.Data.List.Perm.Basic
import Mathlib.Algebra.Order.Ring.Nat
import Mathlib.Algebra.Order.Ring.Int

namespace DistScheduler.SpawnLoop

open scoped List

/-! ## 1. `main`'s loop and its goroutines -/

/-- `numClientSets`, `10` in both tools. -/
def numClientSets : Nat := 10

/-- The capacity of `sem := make(chan struct{}, 100*numClientSets)`. -/
def semCap : Nat := 100 * numClientSets

/-- Where a goroutine started by `main` is. -/
inductive WorkerPc
  /-- About to make its call for `i`: `deleteResource(clientsets[i%numClientSets], i)` or
  `createNode(clientsets[i%numClientSets], i, ...)`. -/
  | calling (i : Nat)
  /-- The call returned: the deferred `<-sem` is next. -/
  | releasing
  /-- The deferred `wg.Done()` is next. -/
  | done
  /-- The goroutine has returned. -/
  | finished
deriving DecidableEq, Repr

/-- A goroutine that still holds its token on `sem`. -/
def WorkerPc.holdsSem : WorkerPc → Bool
  | .calling _ | .releasing => true
  | _ => false

/-- A goroutine that has called `wg.Done()`. -/
def WorkerPc.isFinished : WorkerPc → Bool
  | .finished => true
  | _ => false

/-- The steps a goroutine has left. -/
def WorkerPc.stepsLeft : WorkerPc → Nat
  | .calling _ => 3
  | .releasing => 2
  | .done => 1
  | .finished => 0

/-- A tool after `wg.Add`, in its loop. -/
structure LoopState where
  /-- `main`'s loop variable `i`. -/
  next : Nat
  /-- The tokens in `sem`. -/
  sem : Nat
  /-- The goroutines, in the order `main` started them. -/
  goroutines : List WorkerPc
  /-- The `WaitGroup`'s counter. -/
  wg : Int
  /-- The indices the goroutines have made their call for, in order. -/
  handled : List Nat
  /-- `wg.Wait()` has returned, and `main` with it: the process has ended. -/
  ended : Bool
  /-- A `WaitGroup` call has panicked on a negative counter. -/
  panicked : Bool
deriving DecidableEq, Repr

/-- `main` at its loop, after `wg.Add(n)`, which panics on a negative counter. -/
def LoopState.init (skip : Nat) (n : Int) : LoopState :=
  ⟨skip, 0, [], n, [], false, decide (n < 0)⟩

/-- The deleter's `main` up to its loop: `wg.Add(*numResources)`. -/
def deleterInit (skip numResources : Nat) : LoopState :=
  LoopState.init skip numResources

/-- The kwok tool's `main` up to its loop: `wg.Add(*numNodes - *skip)`. -/
def kwokInit (skip numNodes : Nat) : LoopState :=
  LoopState.init skip ((numNodes : Int) - skip)

/-- What can happen next. -/
inductive LoopAction
  /-- `main` sends a token on `sem` and starts the goroutine for `i`. -/
  | spawn
  /-- Goroutine `g` makes its call, whatever its error: `main` only logs it. -/
  | call (g : Nat)
  /-- Goroutine `g` runs `<-sem`. -/
  | release (g : Nat)
  /-- Goroutine `g` runs `wg.Done()`. -/
  | done (g : Nat)
  /-- `wg.Wait()` returns, and `main` returns. -/
  | wait

/-- One step of the loop up to `count`; `none` when the action is not enabled.  `sem <-` blocks
on a full channel, and nothing runs once the process has ended or panicked. -/
def loopStep (count : Nat) (s : LoopState) (a : LoopAction) : Option LoopState :=
  if s.ended || s.panicked then none else
  match a with
  | .spawn =>
    if s.next < count ∧ s.sem < semCap then
      some { s with
        next := s.next + 1
        sem := s.sem + 1
        goroutines := s.goroutines ++ [.calling s.next] }
    else none
  | .call g =>
    match s.goroutines[g]? with
    | some (.calling i) =>
      some { s with goroutines := s.goroutines.set g .releasing, handled := s.handled ++ [i] }
    | _ => none
  | .release g =>
    match s.goroutines[g]? with
    | some .releasing => some { s with goroutines := s.goroutines.set g .done, sem := s.sem - 1 }
    | _ => none
  | .done g =>
    match s.goroutines[g]? with
    | some .done =>
      some { s with
        goroutines := s.goroutines.set g .finished
        wg := s.wg - 1
        panicked := decide (s.wg = 0) }
    | _ => none
  | .wait => if count ≤ s.next ∧ s.wg = 0 then some { s with ended := true } else none

/-- Run a list of actions. -/
def loopRun (count : Nat) (s : LoopState) : List LoopAction → Option LoopState
  | [] => some s
  | a :: as => (loopStep count s a).bind fun s' => loopRun count s' as

/-- The states some run of the loop from `skip` to `count`, after `wg.Add(n)`, reaches. -/
inductive LoopReachable (skip count : Nat) (n : Int) : LoopState → Prop
  | init : LoopReachable skip count n (LoopState.init skip n)
  | step {s s' : LoopState} (a : LoopAction) : LoopReachable skip count n s →
      loopStep count s a = some s' → LoopReachable skip count n s'

theorem loopReachable_run {skip count : Nat} {n : Int} {s s' : LoopState}
    (hs : LoopReachable skip count n s) (as : List LoopAction)
    (h : loopRun count s as = some s') : LoopReachable skip count n s' := by
  induction as generalizing s with
  | nil => cases h; exact hs
  | cons a as ih =>
    obtain ⟨s₁, h₁, h⟩ := Option.bind_eq_some.mp h
    exact ih (LoopReachable.step a hs h₁) h

/-! ## 2. What one step does -/

/-- What one step can do, guards included. -/
theorem loopStep_cases {count : Nat} {s s' : LoopState} {a : LoopAction}
    (h : loopStep count s a = some s') :
    s.ended = false ∧ s.panicked = false ∧
      ((s.next < count ∧ s.sem < semCap ∧
          s' = { s with
            next := s.next + 1
            sem := s.sem + 1
            goroutines := s.goroutines ++ [.calling s.next] }) ∨
        (∃ g i, s.goroutines[g]? = some (.calling i) ∧
          s' = { s with
            goroutines := s.goroutines.set g .releasing
            handled := s.handled ++ [i] }) ∨
        (∃ g, s.goroutines[g]? = some .releasing ∧
          s' = { s with goroutines := s.goroutines.set g .done, sem := s.sem - 1 }) ∨
        (∃ g, s.goroutines[g]? = some .done ∧
          s' = { s with
            goroutines := s.goroutines.set g .finished
            wg := s.wg - 1
            panicked := decide (s.wg = 0) }) ∨
        (count ≤ s.next ∧ s.wg = 0 ∧ s' = { s with ended := true })) := by
  unfold loopStep at h
  by_cases hg : (s.ended || s.panicked) = true
  · rw [if_pos hg] at h; cases h
  rw [if_neg hg] at h
  simp only [Bool.or_eq_true, not_or, Bool.not_eq_true] at hg
  refine ⟨hg.1, hg.2, ?_⟩
  cases a with
  | spawn =>
    dsimp only at h
    split_ifs at h with hc
    exact .inl ⟨hc.1, hc.2, (Option.some.inj h).symm⟩
  | call g =>
    dsimp only at h
    split at h
    · exact .inr (.inl ⟨g, _, ‹_›, (Option.some.inj h).symm⟩)
    · cases h
  | release g =>
    dsimp only at h
    split at h
    · exact .inr (.inr (.inl ⟨g, ‹_›, (Option.some.inj h).symm⟩))
    · cases h
  | done g =>
    dsimp only at h
    split at h
    · exact .inr (.inr (.inr (.inl ⟨g, ‹_›, (Option.some.inj h).symm⟩)))
    · cases h
  | wait =>
    dsimp only at h
    split_ifs at h with hc
    exact .inr (.inr (.inr (.inr ⟨hc.1, hc.2, (Option.some.inj h).symm⟩)))

/-- A goroutine's move from `x` to `y` changes a count by what the two contribute. -/
theorem countP_set_of_getElem? (p : WorkerPc → Bool) {gs : List WorkerPc} {g : Nat}
    {x : WorkerPc} (y : WorkerPc) (hg : gs[g]? = some x) :
    (gs.set g y).countP p + (if p x then 1 else 0) = gs.countP p + (if p y then 1 else 0) := by
  obtain ⟨hlt, rfl⟩ := List.getElem?_eq_some_iff.mp hg
  have h1 := List.countP_set p gs g y hlt
  have h2 : (if p gs[g] then 1 else 0) ≤ gs.countP p := List.boole_getElem_le_countP _ _ _ hlt
  omega

theorem count_set_of_getElem? (c : WorkerPc) {gs : List WorkerPc} {g : Nat} {x : WorkerPc}
    (y : WorkerPc) (hg : gs[g]? = some x) :
    (gs.set g y).count c + (if x = c then 1 else 0) = gs.count c + (if y = c then 1 else 0) := by
  simpa [List.count, beq_iff_eq] using countP_set_of_getElem? (· == c) y hg

/-- The same for the steps the goroutines have left. -/
theorem sum_stepsLeft_set {gs : List WorkerPc} {g : Nat} {x : WorkerPc} (y : WorkerPc)
    (hg : gs[g]? = some x) :
    ((gs.set g y).map WorkerPc.stepsLeft).sum + x.stepsLeft =
      (gs.map WorkerPc.stepsLeft).sum + y.stepsLeft := by
  induction gs generalizing g with
  | nil => cases hg
  | cons a gs ih =>
    cases g with
    | zero =>
      obtain rfl : a = x := by simpa using hg
      simp only [List.set_cons_zero, List.map_cons, List.sum_cons]; omega
    | succ g =>
      have := ih (by simpa using hg)
      simp only [List.set_cons_succ, List.map_cons, List.sum_cons]; omega

/-! ## 3. The invariant -/

/-- What every interleaving keeps.  The goroutines are those for `skip, ..., next - 1`; the
indices they have made their call for, and those they are about to, are these, each once; `sem`
holds one token for each goroutine that has not given it back; the counter has lost one for each
goroutine gone; and `Wait` returned only at `0`, with the loop over. -/
structure LoopInv (skip count : Nat) (n : Int) (s : LoopState) : Prop where
  next_ge : skip ≤ s.next
  next_le : s.next ≤ count ∨ s.next = skip
  length : s.goroutines.length = s.next - skip
  handled : ∀ v, s.handled.count v + s.goroutines.count (.calling v) =
    (List.range' skip (s.next - skip)).count v
  sem : s.sem = s.goroutines.countP WorkerPc.holdsSem
  sem_le : s.sem ≤ semCap
  counter : s.wg + s.goroutines.countP WorkerPc.isFinished = n
  panicked : s.panicked = false
  ended : s.ended = true → count ≤ s.next ∧ s.wg = 0

section Inv

variable {skip count : Nat} {n : Int}

/-- The handled and about-to-be-handled indices after one step: a spawn adds `next`, and a call
moves its index from the goroutine to `handled`. -/
theorem LoopInv.handled_step {s s' : LoopState} {a : LoopAction} (hi : LoopInv skip count n s)
    (h : loopStep count s a = some s') (v : Nat) :
    s'.handled.count v + s'.goroutines.count (.calling v) =
      (List.range' skip (s'.next - skip)).count v := by
  have hc := hi.handled v
  obtain ⟨-, -, ⟨-, -, rfl⟩ | ⟨g, i, hg, rfl⟩ | ⟨g, hg, rfl⟩ | ⟨g, hg, rfl⟩ | ⟨-, -, rfl⟩⟩ :=
    loopStep_cases h
  · have hr : s.next + 1 - skip = (s.next - skip) + 1 := by have := hi.next_ge; omega
    have hn : skip + (s.next - skip) = s.next := by have := hi.next_ge; omega
    simp only [hr, List.range'_concat, Nat.one_mul, hn, List.count_append, List.count_singleton,
      beq_iff_eq, WorkerPc.calling.injEq]
    omega
  · have := count_set_of_getElem? (.calling v) .releasing hg
    simp only [WorkerPc.calling.injEq, reduceCtorEq, if_false, add_zero] at this
    simp only [List.count_append, List.count_singleton, beq_iff_eq]
    omega
  · have := count_set_of_getElem? (.calling v) .done hg
    simp only [reduceCtorEq, if_false, add_zero] at this
    dsimp only; omega
  · have := count_set_of_getElem? (.calling v) .finished hg
    simp only [reduceCtorEq, if_false, add_zero] at this
    dsimp only; omega
  · exact hc

variable (hn : ((count - skip : Nat) : Int) ≤ n)
include hn

theorem loopInv_init : LoopInv skip count n (LoopState.init skip n) :=
  ⟨le_refl _, .inr rfl, by simp [LoopState.init], fun v => by simp [LoopState.init], rfl,
    Nat.zero_le _, by simp [LoopState.init], by simp [LoopState.init]; omega, nofun⟩

theorem loopInv_step {s s' : LoopState} {a : LoopAction} (hi : LoopInv skip count n s)
    (h : loopStep count s a = some s') : LoopInv skip count n s' := by
  have hcount := hi.handled_step h
  obtain ⟨hne, hnp, ⟨hlt, hs, rfl⟩ | ⟨g, i, hg, rfl⟩ | ⟨g, hg, rfl⟩ | ⟨g, hg, rfl⟩ |
    ⟨hle, h0, rfl⟩⟩ := loopStep_cases h
  · -- `spawn`: a token, and the goroutine for `next`.
    have := hi.next_ge; have := hi.length; have := hi.sem; have := hi.counter
    refine ⟨by dsimp only; omega, by dsimp only; omega, ?_, hcount, ?_, by dsimp only; omega,
      ?_, hnp, fun h => absurd (hne.symm.trans h) Bool.false_ne_true⟩ <;>
      simp [WorkerPc.holdsSem, WorkerPc.isFinished] <;> omega
  · -- The call for `i`.
    have h1 := countP_set_of_getElem? WorkerPc.holdsSem .releasing hg
    have h2 := countP_set_of_getElem? WorkerPc.isFinished .releasing hg
    simp only [WorkerPc.holdsSem, WorkerPc.isFinished, ↓reduceIte, Bool.false_eq_true] at h1 h2
    exact ⟨hi.next_ge, hi.next_le, (List.length_set ..).trans hi.length, hcount,
      by have := hi.sem; dsimp only; omega, hi.sem_le, by have := hi.counter; dsimp only; omega,
      hnp, fun h => absurd (hne.symm.trans h) Bool.false_ne_true⟩
  · -- `<-sem`.
    have h1 := countP_set_of_getElem? WorkerPc.holdsSem .done hg
    have h2 := countP_set_of_getElem? WorkerPc.isFinished .done hg
    simp only [WorkerPc.holdsSem, WorkerPc.isFinished, ↓reduceIte, Bool.false_eq_true] at h1 h2
    exact ⟨hi.next_ge, hi.next_le, (List.length_set ..).trans hi.length, hcount,
      by have := hi.sem; dsimp only; omega, by have := hi.sem_le; dsimp only; omega,
      by have := hi.counter; dsimp only; omega, hnp,
      fun h => absurd (hne.symm.trans h) Bool.false_ne_true⟩
  · -- `wg.Done()`: with `n ≥ count - skip`, a goroutine not yet gone keeps the counter positive.
    have h1 := countP_set_of_getElem? WorkerPc.holdsSem .finished hg
    have h2 := countP_set_of_getElem? WorkerPc.isFinished .finished hg
    simp only [WorkerPc.holdsSem, WorkerPc.isFinished, ↓reduceIte, Bool.false_eq_true] at h1 h2
    have hlt : s.goroutines.countP WorkerPc.isFinished < s.goroutines.length := by
      have := List.countP_le_length WorkerPc.isFinished (l := (s.goroutines.set g .finished))
      rw [List.length_set] at this; omega
    have := hi.counter; have := hi.length; have := hi.next_le
    refine ⟨hi.next_ge, hi.next_le, (List.length_set ..).trans hi.length, hcount,
      by have := hi.sem; dsimp only; omega, hi.sem_le, by dsimp only; omega, ?_,
      fun h => absurd (hne.symm.trans h) Bool.false_ne_true⟩
    simp only [decide_eq_false_iff_not]; omega
  · -- `wg.Wait()` returns.
    exact ⟨hi.next_ge, hi.next_le, hi.length, hcount, hi.sem, hi.sem_le, hi.counter, hnp,
      fun _ => ⟨hle, h0⟩⟩

theorem loopInv_reachable {s : LoopState} (hs : LoopReachable skip count n s) :
    LoopInv skip count n s := by
  induction hs with
  | init => exact loopInv_init hn
  | step _ _ h ih => exact loopInv_step hn ih h

/-- **No `Done` panics, and at most `100 * numClientSets` calls are in flight.**  When `wg.Add`
counts at least the `count - skip` goroutines, in every reachable state the goroutines still
holding a token on `sem`, those about to make their call among them, are at most the channel's
capacity, and `main` has started at most `count - skip` goroutines. -/
theorem spawnLoop_inFlight {s : LoopState} (hs : LoopReachable skip count n s) :
    s.panicked = false ∧ s.goroutines.countP WorkerPc.holdsSem ≤ semCap ∧
      s.goroutines.length ≤ count - skip := by
  have hi := loopInv_reachable hn hs
  have := hi.next_le; have := hi.length
  exact ⟨hi.panicked, hi.sem ▸ hi.sem_le, by omega⟩

end Inv

/-- The deleter for two pods after `main`'s first spawn, before the goroutine runs. -/
def spawnedOne : LoopState := ⟨1, 1, [.calling 0], 2, [], false, false⟩

theorem loopReachable_spawnedOne : LoopReachable 0 2 2 spawnedOne :=
  loopReachable_run .init [.spawn] rfl

/-- After the deleter's first spawn one goroutine holds a token. -/
theorem spawnLoop_inFlight_spawnedOne :
    (((2 - 0 : Nat) : Int) ≤ 2) ∧ LoopReachable 0 2 2 spawnedOne ∧ spawnedOne.panicked = false ∧
      spawnedOne.goroutines.countP WorkerPc.holdsSem ≤ semCap ∧
      spawnedOne.goroutines.length ≤ 2 - 0 :=
  ⟨by decide, loopReachable_spawnedOne, spawnLoop_inFlight (by decide) loopReachable_spawnedOne⟩

/-! ## 4. Where every run stops -/

section Stops

variable {skip count : Nat} {n : Int}

/-- The counter never falls below `n - (count - skip)`: `count - skip` goroutines at most call
`Done`. -/
theorem LoopInv.wg_ge {s : LoopState} (hi : LoopInv skip count n s) :
    n - ((count - skip : Nat) : Int) ≤ s.wg := by
  have := List.countP_le_length WorkerPc.isFinished (l := s.goroutines)
  have := hi.counter; have := hi.length; have := hi.next_le
  omega

theorem countP_isFinished_of_all {gs : List WorkerPc} (hall : ∀ pc ∈ gs, pc = .finished) :
    gs.countP WorkerPc.isFinished = gs.length :=
  List.countP_eq_length.mpr fun pc hpc => by simp [hall pc hpc, WorkerPc.isFinished]

/-- With every goroutine gone, the indices handled are those `main` passed. -/
theorem LoopInv.handled_perm {s : LoopState} (hi : LoopInv skip count n s)
    (hall : ∀ pc ∈ s.goroutines, pc = .finished) :
    s.handled ~ List.range' skip (s.next - skip) :=
  List.perm_iff_count.mpr fun v => by
    have h0 : s.goroutines.count (.calling v) = 0 :=
      List.count_eq_zero.mpr fun hm => by cases hall _ hm
    simpa [h0] using hi.handled v

/-- When no step can be taken and `Wait` has not returned, every goroutine is gone, the loop is
over and the counter is not `0`. -/
theorem LoopInv.stuck {s : LoopState} (hi : LoopInv skip count n s) (hne : s.ended = false)
    (hstuck : ∀ a, loopStep count s a = none) :
    (∀ pc ∈ s.goroutines, pc = .finished) ∧ count ≤ s.next ∧ s.wg ≠ 0 := by
  have hnp := hi.panicked
  have hall : ∀ pc ∈ s.goroutines, pc = .finished := fun pc hpc => by
    obtain ⟨g, hg⟩ := List.mem_iff_getElem?.mp hpc
    cases pc with
    | calling i => simpa [loopStep, hne, hnp, hg] using hstuck (.call g)
    | releasing => simpa [loopStep, hne, hnp, hg] using hstuck (.release g)
    | done => simpa [loopStep, hne, hnp, hg] using hstuck (.done g)
    | finished => rfl
  have hsem : s.sem = 0 := hi.sem.trans (List.countP_eq_zero.mpr fun pc hpc => by
    simp [hall pc hpc, WorkerPc.holdsSem])
  have hspawn := hstuck .spawn
  have hwait := hstuck .wait
  simp only [loopStep, hne, hnp, Bool.or_self, Bool.false_eq_true, ↓reduceIte, hsem,
    show 0 < semCap by decide, and_true] at hspawn hwait
  split_ifs at hspawn hwait with h1 h2
  · exact ⟨hall, by omega, fun h0 => h2 ⟨by omega, h0⟩⟩

/-- **Where the loop stops.**  Once no step can be taken, every goroutine is gone, each index from
`skip` below `count` has had its call once, the counter is `n - (count - skip)`, and `Wait` has
returned exactly when that is `0`. -/
theorem LoopInv.stopped {s : LoopState} (hn : ((count - skip : Nat) : Int) ≤ n)
    (hi : LoopInv skip count n s) (hstuck : ∀ a, loopStep count s a = none) :
    (∀ pc ∈ s.goroutines, pc = .finished) ∧ s.handled ~ List.range' skip (count - skip) ∧
      s.wg = n - ((count - skip : Nat) : Int) ∧
      (s.ended = true ↔ n = ((count - skip : Nat) : Int)) := by
  -- Either way the loop is over and every goroutine is gone.
  have hdone : (∀ pc ∈ s.goroutines, pc = .finished) ∧ count ≤ s.next := by
    cases hne : s.ended
    · exact ⟨(hi.stuck hne hstuck).1, (hi.stuck hne hstuck).2.1⟩
    · obtain ⟨hle, h0⟩ := hi.ended hne
      have hfin : s.goroutines.countP WorkerPc.isFinished = s.goroutines.length := by
        have := hi.wg_ge; have := hi.counter; have := hi.length; have := hi.next_le
        have := List.countP_le_length WorkerPc.isFinished (l := s.goroutines)
        omega
      exact ⟨fun pc hpc => by
        have := List.countP_eq_length.mp hfin pc hpc
        cases pc <;> simp_all [WorkerPc.isFinished], hle⟩
  obtain ⟨hall, hle⟩ := hdone
  have hnext : s.next - skip = count - skip := by have := hi.next_le; omega
  have hwg : s.wg = n - ((count - skip : Nat) : Int) := by
    have := countP_isFinished_of_all hall; have := hi.counter; have := hi.length
    omega
  refine ⟨hall, hnext ▸ hi.handled_perm hall, hwg, ⟨fun he => ?_, fun hn0 => ?_⟩⟩
  · have := (hi.ended he).2; omega
  · cases hne : s.ended
    · exact absurd (by omega) (hi.stuck hne hstuck).2.2
    · rfl

end Stops

/-! ## 5. Every run stops, and how soon -/

section Runs

variable {skip count : Nat}

/-- A measure every step lowers by one: four steps for each index `main` has still to pass, the
steps each goroutine has left, and the return of `Wait`. -/
def loopVariant (count : Nat) (s : LoopState) : Nat :=
  4 * (count - s.next) + (s.goroutines.map WorkerPc.stepsLeft).sum + (if s.ended then 0 else 1)

theorem loopVariant_step {s s' : LoopState} {a : LoopAction} (h : loopStep count s a = some s') :
    loopVariant count s' + 1 = loopVariant count s := by
  obtain ⟨hne, -, ⟨hn, -, rfl⟩ | ⟨g, i, hg, rfl⟩ | ⟨g, hg, rfl⟩ | ⟨g, hg, rfl⟩ | ⟨-, -, rfl⟩⟩ :=
    loopStep_cases h
  · simp only [loopVariant, List.map_append, List.sum_append, List.map_cons, List.map_nil,
      List.sum_cons, List.sum_nil, WorkerPc.stepsLeft]
    omega
  · have := sum_stepsLeft_set .releasing hg
    simp only [loopVariant, WorkerPc.stepsLeft] at this ⊢; omega
  · have := sum_stepsLeft_set .done hg
    simp only [loopVariant, WorkerPc.stepsLeft] at this ⊢; omega
  · have := sum_stepsLeft_set .finished hg
    simp only [loopVariant, WorkerPc.stepsLeft] at this ⊢; omega
  · simp [loopVariant, hne]

/-- A run takes exactly as many steps as the measure falls. -/
theorem loopVariant_run {s s' : LoopState} {as : List LoopAction}
    (h : loopRun count s as = some s') :
    loopVariant count s' + as.length = loopVariant count s := by
  induction as generalizing s with
  | nil => cases h; rfl
  | cons a as ih =>
    obtain ⟨s₁, h₁, h⟩ := Option.bind_eq_some.mp h
    rw [← loopVariant_step h₁, ← ih h, List.length_cons]; omega

theorem loopVariant_init (n : Int) :
    loopVariant count (LoopState.init skip n) = 4 * (count - skip) + 1 := by
  simp [loopVariant, LoopState.init]

/-- **The kwok tool ends with its nodes created.**  With `skip ≤ count`, `wg.Add(count - skip)`
matches the goroutines.  A run of `main` takes at most `4 * (count - skip) + 1` steps, and once
no step can be taken `Wait` has returned and `createNode` has been called once for each index
from `skip` below `count`: the nodes are `kwokNodes`. -/
theorem createNodes_complete (schedulerPodNames : List String) (hskip : skip ≤ count)
    {as : List LoopAction} {s : LoopState} (h : loopRun count (kwokInit skip count) as = some s) :
    as.length ≤ 4 * (count - skip) + 1 ∧
      ((∀ a, loopStep count s a = none) →
        s.ended = true ∧
          s.handled.map (createNode schedulerPodNames) ~
            kwokNodes schedulerPodNames skip count) := by
  have hn : ((count - skip : Nat) : Int) ≤ (count : Int) - skip := by omega
  have hi := loopInv_reachable hn (loopReachable_run .init as h)
  have hv := loopVariant_run h
  rw [kwokInit, loopVariant_init] at hv
  refine ⟨by omega, fun hstuck => ?_⟩
  obtain ⟨-, hperm, -, hend⟩ := hi.stopped hn hstuck
  exact ⟨hend.mpr (by omega), hperm.map _⟩

/-- The kwok tool for nodes `1` below `2`: spawn, `createNode(1)`, token back, `Done`, `Wait`. -/
def createdSkipOne : LoopState := ⟨2, 0, [.finished], 0, [1], true, false⟩

theorem loopRun_createdSkipOne :
    loopRun 2 (kwokInit 1 2) [.spawn, .call 0, .release 0, .done 0, .wait] =
      some createdSkipOne := rfl

/-- With `skip = 1`, the kwok tool's run creates `kwok-node-1` and returns from `Wait`. -/
theorem createNodes_complete_createdSkipOne :
    1 ≤ 2 ∧
      loopRun 2 (kwokInit 1 2) [.spawn, .call 0, .release 0, .done 0, .wait] =
        some createdSkipOne ∧
      [LoopAction.spawn, .call 0, .release 0, .done 0, .wait].length ≤ 4 * (2 - 1) + 1 ∧
      ((∀ a, loopStep 2 createdSkipOne a = none) →
        createdSkipOne.ended = true ∧
          createdSkipOne.handled.map (createNode ["s0"]) ~ kwokNodes ["s0"] 1 2) :=
  ⟨by decide, loopRun_createdSkipOne,
    createNodes_complete ["s0"] (by decide) loopRun_createdSkipOne⟩

/-- **With `skip = 0` the deleter ends with everything deleted.**  A run of `main` takes at most
`4 * count + 1` steps, and once no step can be taken `Wait` has returned, with every index below
`count` deleted once. -/
theorem deleteResources_complete {as : List LoopAction} {s : LoopState}
    (h : loopRun count (deleterInit 0 count) as = some s) :
    as.length ≤ 4 * count + 1 ∧
      ((∀ a, loopStep count s a = none) → s.ended = true ∧ s.handled ~ List.range count) := by
  have hn : ((count - 0 : Nat) : Int) ≤ count := by omega
  have hi := loopInv_reachable hn (loopReachable_run .init as h)
  have hv := loopVariant_run h
  rw [deleterInit, loopVariant_init] at hv
  refine ⟨by omega, fun hstuck => ?_⟩
  obtain ⟨-, hperm, -, hend⟩ := hi.stopped hn hstuck
  exact ⟨hend.mpr (by omega), List.range_eq_range' count ▸ hperm⟩

/-- The deleter for one pod: spawn, delete `res-0`, token back, `Done`, `Wait`. -/
def waitedOne : LoopState := ⟨1, 0, [.finished], 0, [0], true, false⟩

theorem loopRun_waitedOne :
    loopRun 1 (deleterInit 0 1) [.spawn, .call 0, .release 0, .done 0, .wait] = some waitedOne :=
  rfl

/-- The deleter's run for one pod stops with `Wait` returned and `res-0` deleted. -/
theorem deleteResources_complete_waitedOne :
    loopRun 1 (deleterInit 0 1) [.spawn, .call 0, .release 0, .done 0, .wait] = some waitedOne ∧
      [LoopAction.spawn, .call 0, .release 0, .done 0, .wait].length ≤ 4 * 1 + 1 ∧
      ((∀ a, loopStep 1 waitedOne a = none) →
        waitedOne.ended = true ∧ waitedOne.handled ~ List.range 1) :=
  ⟨loopRun_waitedOne, deleteResources_complete loopRun_waitedOne⟩

/-- **With `skip > 0` the deleter's `Wait` never returns.**  `wg.Add` counted `count`, but only
the `count - skip` goroutines call `Done`.  So no reachable state has `Wait` returned, and every
run stops after at most `4 * (count - skip)` steps, with every goroutine gone, the indices from
`skip` below `count` deleted once, and the counter stuck at `min skip count`. -/
theorem deleteResources_skipHangs (hskip : 0 < skip) (hpos : 0 < count)
    {as : List LoopAction} {s : LoopState}
    (h : loopRun count (deleterInit skip count) as = some s) :
    as.length ≤ 4 * (count - skip) ∧ s.ended = false ∧
      ((∀ a, loopStep count s a = none) →
        (∀ pc ∈ s.goroutines, pc = .finished) ∧ s.handled ~ List.range' skip (count - skip) ∧
          s.wg = (min skip count : Nat)) := by
  have hn : ((count - skip : Nat) : Int) ≤ count := by omega
  have hi := loopInv_reachable hn (loopReachable_run .init as h)
  have hne : s.ended = false := by
    cases he : s.ended
    · rfl
    · have := (hi.ended he).2; have := hi.wg_ge; omega
  have hv := loopVariant_run h
  rw [deleterInit, loopVariant_init] at hv
  simp only [loopVariant, hne, Bool.false_eq_true, ↓reduceIte] at hv
  refine ⟨by omega, hne, fun hstuck => ?_⟩
  obtain ⟨hall, hperm, hwg, -⟩ := hi.stopped hn hstuck
  exact ⟨hall, hperm, by omega⟩

/-- The deleter with `skip = 1` and `count = 2`: `res-1` is deleted, and `Wait` is stuck at `1`. -/
def stuckSkipOne : LoopState := ⟨2, 0, [.finished], 1, [1], false, false⟩

theorem loopRun_stuckSkipOne :
    loopRun 2 (deleterInit 1 2) [.spawn, .call 0, .release 0, .done 0] = some stuckSkipOne := rfl

/-- With `skip = 1`, the run that deletes `res-1` leaves `Wait` waiting for ever. -/
theorem deleteResources_skipHangs_stuckSkipOne :
    0 < 1 ∧ 0 < 2 ∧
      loopRun 2 (deleterInit 1 2) [.spawn, .call 0, .release 0, .done 0] = some stuckSkipOne ∧
      [LoopAction.spawn, .call 0, .release 0, .done 0].length ≤ 4 * (2 - 1) ∧
      stuckSkipOne.ended = false ∧
      ((∀ a, loopStep 2 stuckSkipOne a = none) →
        (∀ pc ∈ stuckSkipOne.goroutines, pc = .finished) ∧
          stuckSkipOne.handled ~ List.range' 1 (2 - 1) ∧ stuckSkipOne.wg = (min 1 2 : Nat)) :=
  ⟨by decide, by decide, loopRun_stuckSkipOne,
    deleteResources_skipHangs (by decide) (by decide) loopRun_stuckSkipOne⟩

end Runs

end DistScheduler.SpawnLoop
