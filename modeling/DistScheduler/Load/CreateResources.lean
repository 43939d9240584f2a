/-
# The pod generator's worker pool

The load generator creates the pods `res-i`.  `main` calls `wg.Add(count - skip)`.  When `skip`
is `0` it creates `res-0` itself, calls `wg.Done()` and sets `skip` to `1`.  It then starts
`numWorkers` goroutines.  Each repeats: draw `i := atomic.AddInt32(&start, 1)`, leave the loop
if `i >= end`, else `createResource(i)` and `wg.Done()`.  Here `start` is `skip - 1` and `end`
is `skip + count - 1`, after the update of `skip`.  `main` returns once `wg.Wait()` does, and
the process ends with it.

Over every interleaving the workers draw `skip, skip + 1, ...` in turn, each once, up to
`count - 1` of them (`LoaderInv`).  The `WaitGroup` counter and the creations add up to
`count - skip` until a panic.

* With `skip` at most `1` the two agree: no `Done` panics, and when `Wait` returns or every
  worker has left its loop, every index below `count` from `skip` on has been created, once
  (`createResources_complete`).
* From `skip = 2` on they do not: `Add` counts `count - skip`, but the workers draw `count - 1`
  indices.  So no run lets every worker finish.  `Wait` returns, ending the process, after
  exactly `count - skip` creations, or a `Done` panics on the negative counter first
  (`createResources_skipMismatch`).
* Whatever `skip`, every run ends: a measure falls at each step (`loaderVariant_step`), and a
  worker still in its loop, or `Wait` on a zero counter, can always move
  (`LoaderInv.step_enabled`).  So the generator stops with `Wait` returned or a panic
  (`createResources_terminates`).
-/
import Mathlib.Data.List.Nodup
import Mathlib.Data.List.Perm.Basic
import Mathlib.Algebra.Order.Ring.Nat
import Mathlib.Algebra.Order.Ring.Int

namespace DistScheduler

open scoped List

/-! ## 1. `int32` -/

/-- Go's conversion to `int32`, and `int32` addition: wrap-around modulo `2^32`. -/
def goInt32 (x : Int) : Int := (x + 2 ^ 31) % 2 ^ 32 - 2 ^ 31

theorem goInt32_of_lt {x : Int} (h0 : -2 ^ 31 ≤ x) (h1 : x < 2 ^ 31) : goInt32 x = x := by
  unfold goInt32
  rw [Int.emod_eq_of_lt (by omega) (by omega)]
  omega

/-! ## 2. `main` and its workers -/

/-- `numClientSets`. -/
def numClientSets : Nat := 12

/-- `numWorkers := 100 * numClientSets`. -/
def numWorkers : Nat := 100 * numClientSets

/-- `*skip` after `if *skip == 0 { ...; *skip = 1 }`. -/
def skipAfter (skip : Nat) : Nat := if skip = 0 then 1 else skip

/-- `end := int32(*skip+*numResources) - 1`, with the updated `*skip`. -/
def loaderEnd (skip numResources : Nat) : Int :=
  goInt32 (goInt32 ((skipAfter skip + numResources : Nat) : Int) - 1)

/-- Where a worker goroutine is. -/
inductive LoaderPc
  /-- At `atomic.AddInt32(&start, 1)`. -/
  | add
  /-- Drew `i < end`: about to call `createResource(i)` and `wg.Done()`. -/
  | creating (i : Int)
  /-- Drew `i >= end` and left the loop. -/
  | exited
deriving DecidableEq, Repr

/-- A worker about to create a resource. -/
def LoaderPc.isCreating : LoaderPc → Bool
  | .creating _ => true
  | _ => false

/-- A worker that has left its loop. -/
def LoaderPc.isExited : LoaderPc → Bool
  | .exited => true
  | _ => false

@[simp] theorem LoaderPc.isCreating_add : LoaderPc.add.isCreating = false := rfl
@[simp] theorem LoaderPc.isCreating_creating (i : Int) : (LoaderPc.creating i).isCreating = true :=
  rfl
@[simp] theorem LoaderPc.isCreating_exited : LoaderPc.exited.isCreating = false := rfl
@[simp] theorem LoaderPc.isExited_add : LoaderPc.add.isExited = false := rfl
@[simp] theorem LoaderPc.isExited_creating (i : Int) : (LoaderPc.creating i).isExited = false := rfl
@[simp] theorem LoaderPc.isExited_exited : LoaderPc.exited.isExited = true := rfl

/-- The generator after `main` started the workers. -/
structure LoaderState where
  /-- The atomic counter `start`. -/
  start : Int
  workers : List LoaderPc
  /-- The `WaitGroup`'s counter. -/
  wg : Int
  /-- The indices passed to `createResource`, in order, `res-0` included. -/
  created : List Int
  /-- `wg.Wait()` has returned, and `main` with it: the process has ended. -/
  ended : Bool
  /-- A `WaitGroup` call has panicked on a negative counter. -/
  panicked : Bool
deriving DecidableEq, Repr

/-- `main` up to the workers: `wg.Add(*numResources - *skip)`, which panics on a negative
counter; when `skip` is `0`, `createResource(0)` and `wg.Done()`; then `start`. -/
def LoaderState.init (skip numResources : Nat) : LoaderState :=
  let start := goInt32 (goInt32 (skipAfter skip : Int) - 1)
  let wg : Int := (numResources : Int) - skip
  if wg < 0 then ⟨start, List.replicate numWorkers .add, wg, [], false, true⟩
  else if skip = 0 then
    ⟨start, List.replicate numWorkers .add, wg - 1, [0], false, decide (wg = 0)⟩
  else ⟨start, List.replicate numWorkers .add, wg, [], false, false⟩

/-- What can happen next. -/
inductive LoaderAction
  /-- Worker `w` runs `i := atomic.AddInt32(&start, 1)` and tests `i >= end`. -/
  | add (w : Nat)
  /-- Worker `w` runs `createResource(i)`, whatever its error, and `wg.Done()`. -/
  | create (w : Nat)
  /-- `wg.Wait()` returns, and `main` returns. -/
  | wait

/-- One step, with `end` as `endIdx`; `none` when the action is not enabled.  Nothing runs once
the process has ended or panicked. -/
def loaderStep (endIdx : Int) (s : LoaderState) (a : LoaderAction) : Option LoaderState :=
  if s.ended || s.panicked then none else
  match a with
  | .add w =>
    match s.workers[w]? with
    | some .add =>
      let i := goInt32 (s.start + 1)
      some { s with
        start := i
        workers := s.workers.set w (if i ≥ endIdx then .exited else .creating i) }
    | _ => none
  | .create w =>
    match s.workers[w]? with
    | some (.creating i) =>
      some { s with
        workers := s.workers.set w .add
        wg := s.wg - 1
        created := s.created ++ [i]
        panicked := decide (s.wg = 0) }
    | _ => none
  | .wait => if s.wg = 0 then some { s with ended := true } else none

/-- Run a list of actions. -/
def loaderRun (endIdx : Int) (s : LoaderState) : List LoaderAction → Option LoaderState
  | [] => some s
  | a :: as => (loaderStep endIdx s a).bind fun s' => loaderRun endIdx s' as

/-- The states some run of `main` with `skip` and `count` reaches. -/
inductive LoaderReachable (skip numResources : Nat) : LoaderState → Prop
  | init : LoaderReachable skip numResources (LoaderState.init skip numResources)
  | step {s s' : LoaderState} (a : LoaderAction) : LoaderReachable skip numResources s →
      loaderStep (loaderEnd skip numResources) s a = some s' →
      LoaderReachable skip numResources s'

theorem loaderReachable_run {skip numResources : Nat} {s s' : LoaderState}
    (hs : LoaderReachable skip numResources s) (as : List LoaderAction)
    (h : loaderRun (loaderEnd skip numResources) s as = some s') :
    LoaderReachable skip numResources s' := by
  induction as generalizing s with
  | nil => cases h; exact hs
  | cons a as ih =>
    obtain ⟨s₁, h₁, h⟩ := Option.bind_eq_some.mp h
    exact ih (LoaderReachable.step a hs h₁) h

/-! ## 3. The invariant -/

/-- The first `k` indices the workers draw, after `res-0` when `main` created it. -/
def drawnIndices (skip k : Nat) : List Int :=
  (if skip = 0 then [0] else []) ++ (List.range' (skipAfter skip) k).map Int.ofNat

theorem drawnIndices_succ (skip k : Nat) :
    drawnIndices skip (k + 1) = drawnIndices skip k ++ [((skipAfter skip + k : Nat) : Int)] := by
  simp [drawnIndices, List.range'_concat]

/-- The workers have drawn the first `k` indices: each is created or in progress exactly once.
`start` is past them, and past one draw of each worker that left.  The draws stop below `end`,
and once a worker has left they have all been made. -/
structure Drawn (skip numResources : Nat) (s : LoaderState) (k : Nat) : Prop where
  count : ∀ v : Int,
    s.created.count v + s.workers.count (.creating v) = (drawnIndices skip k).count v
  length : s.created.length + s.workers.countP LoaderPc.isCreating = (drawnIndices skip k).length
  start : s.start = (skipAfter skip : Int) - 1 + k + s.workers.countP LoaderPc.isExited
  le : k + 1 ≤ numResources
  full : 0 < s.workers.countP LoaderPc.isExited → k + 1 = numResources

/-- What every interleaving keeps.  Until a panic, the counter and the creations add up to
`count - skip`; `Wait` returns only at `0`; and a panic leaves a worker in its loop. -/
structure LoaderInv (skip numResources : Nat) (s : LoaderState) : Prop where
  length : s.workers.length = numWorkers
  drawn : ∃ k, Drawn skip numResources s k
  counter : s.panicked = false → s.wg + s.created.length = (numResources : Int) - skip ∧ 0 ≤ s.wg
  ended : s.ended = true → s.panicked = false ∧ s.wg = 0
  panicked : s.panicked = true → s.workers.countP LoaderPc.isExited < s.workers.length

section Inv

variable {skip numResources : Nat}

/-- The counts of a worker list after worker `w` moves from `x` to `y`. -/
theorem workers_set_counts {ws : List LoaderPc} {w : Nat} {x : LoaderPc} (y : LoaderPc)
    (hw : ws[w]? = some x) (v : Int) :
    (ws.set w y).count (.creating v) + (if x = .creating v then 1 else 0) =
        ws.count (.creating v) + (if y = .creating v then 1 else 0) ∧
      (ws.set w y).countP LoaderPc.isCreating + (if x.isCreating then 1 else 0) =
        ws.countP LoaderPc.isCreating + (if y.isCreating then 1 else 0) ∧
      (ws.set w y).countP LoaderPc.isExited + (if x.isExited then 1 else 0) =
        ws.countP LoaderPc.isExited + (if y.isExited then 1 else 0) := by
  obtain ⟨hlt, rfl⟩ := List.getElem?_eq_some_iff.mp hw
  have h1 := List.count_set y (.creating v) ws w hlt
  have h2 := List.countP_set LoaderPc.isCreating ws w y hlt
  have h3 := List.countP_set LoaderPc.isExited ws w y hlt
  have h4 : 0 < ws.count ws[w] := List.count_pos_iff.mpr (List.getElem_mem hlt)
  have h5 : (if ws[w].isCreating then 1 else 0) ≤ ws.countP LoaderPc.isCreating :=
    List.boole_getElem_le_countP _ _ _ hlt
  have h6 : (if ws[w].isExited then 1 else 0) ≤ ws.countP LoaderPc.isExited :=
    List.boole_getElem_le_countP _ _ _ hlt
  have h7 : (if ws[w] = .creating v then 1 else 0) ≤ ws.count (.creating v) := by
    split_ifs with h
    · rw [← h]; exact h4
    · exact Nat.zero_le _
  simp only [beq_iff_eq] at h1
  refine ⟨?_, ?_, ?_⟩ <;> omega

/-- A worker leaves its loop. -/
theorem workers_set_exited {ws : List LoaderPc} {w : Nat} (hw : ws[w]? = some .add) (v : Int) :
    (ws.set w .exited).count (.creating v) = ws.count (.creating v) ∧
      (ws.set w .exited).countP LoaderPc.isCreating = ws.countP LoaderPc.isCreating ∧
      (ws.set w .exited).countP LoaderPc.isExited = ws.countP LoaderPc.isExited + 1 := by
  simpa using workers_set_counts .exited hw v

/-- A worker draws index `i`. -/
theorem workers_set_creating {ws : List LoaderPc} {w : Nat} (hw : ws[w]? = some .add) (i v : Int) :
    (ws.set w (.creating i)).count (.creating v) =
        ws.count (.creating v) + (if i = v then 1 else 0) ∧
      (ws.set w (.creating i)).countP LoaderPc.isCreating = ws.countP LoaderPc.isCreating + 1 ∧
      (ws.set w (.creating i)).countP LoaderPc.isExited = ws.countP LoaderPc.isExited := by
  simpa using workers_set_counts (.creating i) hw v

/-- A worker goes back to its draw after creating index `i`. -/
theorem workers_set_add {ws : List LoaderPc} {w : Nat} {i : Int} (hw : ws[w]? = some (.creating i))
    (v : Int) :
    (ws.set w .add).count (.creating v) + (if i = v then 1 else 0) = ws.count (.creating v) ∧
      (ws.set w .add).countP LoaderPc.isCreating + 1 = ws.countP LoaderPc.isCreating ∧
      (ws.set w .add).countP LoaderPc.isExited = ws.countP LoaderPc.isExited := by
  simpa using workers_set_counts .add hw v

theorem skipAfter_le (skip : Nat) : 1 ≤ skipAfter skip ∧ skipAfter skip ≤ skip + 1 := by
  unfold skipAfter; split <;> omega

theorem numWorkers_pos : 0 < numWorkers := by decide

theorem loaderEnd_eq (hb : skip + numResources + numWorkers < 2 ^ 31) :
    loaderEnd skip numResources = (skipAfter skip : Int) + numResources - 1 := by
  have := skipAfter_le skip
  have := numWorkers_pos
  have h : goInt32 ((skipAfter skip + numResources : Nat) : Int) =
      (skipAfter skip : Int) + numResources := by
    rw [goInt32_of_lt] <;> push_cast <;> omega
  rw [loaderEnd, h, goInt32_of_lt (by omega) (by omega)]

/-- `start := int32(*skip) - 1` does not wrap. -/
theorem goInt32_skipAfter (hb : skip + numResources + numWorkers < 2 ^ 31) :
    goInt32 (goInt32 (skipAfter skip : Int) - 1) = (skipAfter skip : Int) - 1 := by
  have hs := skipAfter_le skip
  have := numWorkers_pos
  rw [goInt32_of_lt (show -2 ^ 31 ≤ (skipAfter skip : Int) by omega) (by omega)]
  exact goInt32_of_lt (by omega) (by omega)

@[simp] theorem init_workers (skip numResources : Nat) :
    (LoaderState.init skip numResources).workers = List.replicate numWorkers .add := by
  simp only [LoaderState.init]; split_ifs <;> rfl

@[simp] theorem init_ended (skip numResources : Nat) :
    (LoaderState.init skip numResources).ended = false := by
  simp only [LoaderState.init]; split_ifs <;> rfl

theorem init_start (hb : skip + numResources + numWorkers < 2 ^ 31) :
    (LoaderState.init skip numResources).start = (skipAfter skip : Int) - 1 := by
  rw [← goInt32_skipAfter hb]; simp only [LoaderState.init]; split_ifs <;> rfl

@[simp] theorem countP_isCreating_replicate (n : Nat) :
    (List.replicate n LoaderPc.add).countP LoaderPc.isCreating = 0 :=
  List.countP_eq_zero.mpr (by simp)

@[simp] theorem countP_isExited_replicate (n : Nat) :
    (List.replicate n LoaderPc.add).countP LoaderPc.isExited = 0 :=
  List.countP_eq_zero.mpr (by simp)

/-- A worker's draw `atomic.AddInt32(&start, 1)` does not wrap. -/
theorem Drawn.goInt32_start {s : LoaderState} {k : Nat}
    (hb : skip + numResources + numWorkers < 2 ^ 31) (hd : Drawn skip numResources s k)
    (hlt : s.workers.countP LoaderPc.isExited < numWorkers) :
    goInt32 (s.start + 1) = s.start + 1 := by
  have hs := skipAfter_le skip
  have := hd.start; have := hd.le
  exact goInt32_of_lt (by omega) (by omega)

theorem loaderInv_init (hle : skip ≤ numResources) (hpos : 0 < numResources)
    (hb : skip + numResources + numWorkers < 2 ^ 31) :
    LoaderInv skip numResources (LoaderState.init skip numResources) := by
  have hs := skipAfter_le skip
  have hex : (List.replicate numWorkers LoaderPc.add).countP LoaderPc.isExited = 0 := by
    simp [LoaderPc.isExited]
  have hcr : (List.replicate numWorkers LoaderPc.add).countP LoaderPc.isCreating = 0 := by
    simp [LoaderPc.isCreating]
  have hcv : ∀ v : Int, (List.replicate numWorkers LoaderPc.add).count (.creating v) = 0 :=
    fun v => List.count_eq_zero.mpr (by simp)
  unfold LoaderState.init
  rw [if_neg (by omega), goInt32_skipAfter hb]
  split_ifs with h0
  · subst h0
    refine ⟨by simp, ⟨0, fun v => ?_, ?_, ?_, by omega, ?_⟩, fun _ => ?_, nofun, ?_⟩ <;>
      dsimp only <;> simp [hex, hcr, hcv, drawnIndices, skipAfter] <;> omega
  · refine ⟨by simp, ⟨0, fun v => ?_, ?_, ?_, by omega, ?_⟩, fun _ => ?_, nofun, nofun⟩ <;>
      dsimp only <;> simp [hex, hcr, hcv, drawnIndices, h0, hle]

theorem count_drawnIndices_succ (skip k : Nat) (v : Int) :
    (drawnIndices skip (k + 1)).count v =
      (drawnIndices skip k).count v + if ((skipAfter skip + k : Nat) : Int) = v then 1 else 0 := by
  simp [drawnIndices_succ, List.count_singleton]

theorem countP_isExited_lt {ws : List LoaderPc} {w : Nat} {x : LoaderPc} (hw : ws[w]? = some x)
    (hx : x.isExited = false) : ws.countP LoaderPc.isExited < ws.length :=
  lt_of_le_of_ne (List.countP_le_length _) fun h => by
    simpa [hx] using List.countP_eq_length.mp h x (List.getElem?_mem hw)

/-- What one step can do, guards included. -/
theorem loaderStep_cases {endIdx : Int} {s s' : LoaderState} {a : LoaderAction}
    (h : loaderStep endIdx s a = some s') :
    s.ended = false ∧ s.panicked = false ∧
      ((∃ w, s.workers[w]? = some .add ∧
          s' = { s with
            start := goInt32 (s.start + 1)
            workers := s.workers.set w (if goInt32 (s.start + 1) ≥ endIdx then .exited
              else .creating (goInt32 (s.start + 1))) }) ∨
        (∃ w i, s.workers[w]? = some (.creating i) ∧
          s' = { s with
            workers := s.workers.set w .add
            wg := s.wg - 1
            created := s.created ++ [i]
            panicked := decide (s.wg = 0) }) ∨
        (s.wg = 0 ∧ s' = { s with ended := true })) := by
  unfold loaderStep at h
  by_cases hg : (s.ended || s.panicked) = true
  · rw [if_pos hg] at h; cases h
  rw [if_neg hg] at h
  simp only [Bool.or_eq_true, not_or, Bool.not_eq_true] at hg
  refine ⟨hg.1, hg.2, ?_⟩
  cases a with
  | add w =>
    dsimp only at h
    split at h
    · exact .inl ⟨w, ‹_›, (Option.some.inj h).symm⟩
    · cases h
  | create w =>
    dsimp only at h
    split at h
    · exact .inr (.inl ⟨w, _, ‹_›, (Option.some.inj h).symm⟩)
    · cases h
  | wait =>
    dsimp only at h
    split_ifs at h with h0
    exact .inr (.inr ⟨h0, (Option.some.inj h).symm⟩)

theorem loaderInv_step {s s' : LoaderState} {a : LoaderAction}
    (hb : skip + numResources + numWorkers < 2 ^ 31) (hi : LoaderInv skip numResources s)
    (h : loaderStep (loaderEnd skip numResources) s a = some s') :
    LoaderInv skip numResources s' := by
  obtain ⟨hl, ⟨k, hd⟩, hc, -, -⟩ := hi
  obtain ⟨hne, hnp, ⟨w, hw, rfl⟩ | ⟨w, i, hw, rfl⟩ | ⟨h0, rfl⟩⟩ := loaderStep_cases h
  · -- `add`: worker `w` draws `start + 1`.
    have hlt := countP_isExited_lt hw rfl
    have hs := skipAfter_le skip
    have hst := hd.start
    rw [hd.goInt32_start hb (hl ▸ hlt), loaderEnd_eq hb]
    split_ifs with hge
    · -- `i ≥ end`: the worker leaves its loop.
      have hx := workers_set_exited hw
      refine ⟨(List.length_set ..).trans hl, ⟨k, fun v => ?_, ?_, ?_, hd.le, fun _ => ?_⟩, hc,
        fun h => absurd (hne.symm.trans h) Bool.false_ne_true,
        fun h => absurd (hnp.symm.trans h) Bool.false_ne_true⟩
      · have := hd.count v; have := (hx v).1; dsimp only; omega
      · have := hd.length; have := (hx 0).2.1; dsimp only; omega
      · have := (hx 0).2.2; dsimp only; omega
      · rcases Nat.eq_zero_or_pos (s.workers.countP LoaderPc.isExited) with he | he
        · have := hd.le; omega
        · exact hd.full he
    · -- `i < end`: it draws the next index, and no worker has left yet.
      have he : s.workers.countP LoaderPc.isExited = 0 := by
        by_contra he; have := hd.full (Nat.pos_of_ne_zero he); omega
      have hx := workers_set_creating hw (s.start + 1)
      refine ⟨(List.length_set ..).trans hl, ⟨k + 1, fun v => ?_, ?_, ?_, by omega, fun _ => ?_⟩,
        hc, fun h => absurd (hne.symm.trans h) Bool.false_ne_true,
        fun h => absurd (hnp.symm.trans h) Bool.false_ne_true⟩
      · have := hd.count v; have := (hx v).1
        have hk : ((skipAfter skip + k : Nat) : Int) = s.start + 1 := by push_cast; omega
        rw [count_drawnIndices_succ, hk]; dsimp only; omega
      · have := hd.length; have := (hx 0).2.1; dsimp only
        simp only [drawnIndices_succ, List.length_append, List.length_singleton]; omega
      · have := (hx 0).2.2; dsimp only; omega
      · have := (hx 0).2.2; dsimp only at *; omega
  · -- `create`: worker `w` creates `res-i` and calls `wg.Done()`.
    have hx := workers_set_add hw
    refine ⟨(List.length_set ..).trans hl, ⟨k, fun v => ?_, ?_, ?_, hd.le, fun h => ?_⟩,
      fun hp => ?_, fun h => absurd (hne.symm.trans h) Bool.false_ne_true, fun _ => ?_⟩
    · have := hd.count v; have := (hx v).1; dsimp only
      simp only [List.count_append, List.count_singleton, beq_iff_eq]; omega
    · have := hd.length; have := (hx 0).2.1; dsimp only
      rw [List.length_append, List.length_singleton]; omega
    · have := hd.start; have := (hx 0).2.2; dsimp only; omega
    · have := (hx 0).2.2; dsimp only at h; exact hd.full (by omega)
    · have := hc hnp; dsimp only at hp ⊢
      simp only [decide_eq_false_iff_not, List.length_append, List.length_singleton] at hp ⊢
      omega
    · have := (hx 0).2.2; have := countP_isExited_lt hw rfl; dsimp only
      rw [List.length_set]; omega
  · -- `wait`: `wg.Wait()` returns on a zero counter.
    exact ⟨hl, ⟨k, hd.count, hd.length, hd.start, hd.le, hd.full⟩, hc, fun _ => ⟨hnp, h0⟩,
      fun h => absurd (hnp.symm.trans h) Bool.false_ne_true⟩

theorem loaderInv_reachable (hle : skip ≤ numResources) (hpos : 0 < numResources)
    (hb : skip + numResources + numWorkers < 2 ^ 31) {s : LoaderState}
    (hs : LoaderReachable skip numResources s) : LoaderInv skip numResources s := by
  induction hs with
  | init => exact loaderInv_init hle hpos hb
  | step _ _ h ih => exact loaderInv_step hb ih h

end Inv

/-! ## 4. `skip` at most `1`: every index once -/

section Complete

variable {skip numResources : Nat}

@[simp] theorem drawnIndices_length (skip k : Nat) :
    (drawnIndices skip k).length = (if skip = 0 then 1 else 0) + k := by
  simp only [drawnIndices, List.length_append, List.length_map, List.length_range']
  split <;> rfl

/-- With `skip` at most `1`, `res-0` and the first `k` draws make `k + 1 - skip` indices. -/
theorem drawnIndices_length_add (hskip : skip ≤ 1) (k : Nat) :
    (drawnIndices skip k).length + skip = k + 1 := by
  rcases Nat.le_one_iff_eq_zero_or_eq_one.mp hskip with rfl | rfl <;> simp [Nat.add_comm]

/-- The workers' first `count - 1` draws, after `res-0`, are the indices from `skip` below
`count`. -/
theorem drawnIndices_full (hskip : skip ≤ 1) (hpos : 0 < numResources) :
    drawnIndices skip (numResources - 1) =
      (List.range' skip (numResources - skip)).map Int.ofNat := by
  obtain ⟨m, rfl⟩ := Nat.exists_eq_add_of_lt hpos
  rcases Nat.le_one_iff_eq_zero_or_eq_one.mp hskip with rfl | rfl <;>
    simp [drawnIndices, skipAfter, List.range'_succ]

theorem all_exited_counts {ws : List LoaderPc} (h : ∀ pc ∈ ws, pc = .exited) :
    ws.countP LoaderPc.isCreating = 0 ∧ ws.countP LoaderPc.isExited = ws.length :=
  ⟨List.countP_eq_zero.mpr fun pc hpc => by simp [h pc hpc],
    List.countP_eq_length.mpr fun pc hpc => by simp [h pc hpc]⟩

/-- With no worker about to create, what was created is what was drawn. -/
theorem Drawn.created_perm {s : LoaderState} {k : Nat} (hd : Drawn skip numResources s k)
    (hc : s.workers.countP LoaderPc.isCreating = 0) : s.created ~ drawnIndices skip k :=
  List.perm_iff_count.mpr fun v => by
    have h0 : s.workers.count (.creating v) = 0 :=
      List.count_eq_zero.mpr fun hm => by simpa using List.countP_eq_zero.mp hc _ hm
    simpa [h0] using hd.count v

/-- With `skip` at most `1` the counter covers every worker about to call `wg.Done()`. -/
theorem LoaderInv.creating_le_wg (hskip : skip ≤ 1) {s : LoaderState}
    (hi : LoaderInv skip numResources s) (hp : s.panicked = false) :
    (s.workers.countP LoaderPc.isCreating : Int) ≤ s.wg := by
  obtain ⟨k, hd⟩ := hi.drawn
  have := drawnIndices_length_add hskip k
  have := hd.length; have := hd.le; have := hi.counter hp
  omega

theorem loaderReachable_panicked (hskip : skip ≤ 1) (hpos : 0 < numResources)
    (hb : skip + numResources + numWorkers < 2 ^ 31) {s : LoaderState}
    (hs : LoaderReachable skip numResources s) : s.panicked = false := by
  induction hs with
  | init => unfold LoaderState.init; rw [if_neg (by omega)]; split_ifs <;> simp; omega
  | step _ hs h ih =>
    have hi := loaderInv_reachable (by omega) hpos hb hs
    obtain ⟨-, -, ⟨w, -, rfl⟩ | ⟨w, i, hw, rfl⟩ | ⟨-, rfl⟩⟩ := loaderStep_cases h
    · exact ih
    · have := (workers_set_add hw 0).2.1
      have := hi.creating_le_wg hskip ih
      simp only [decide_eq_false_iff_not]; omega
    · exact ih

/-- **With `skip` at most `1` every index is created once.**  No `WaitGroup` call panics.
When `Wait` returns, or once every worker has left its loop, the created indices are
`skip, ..., count - 1`, each once, and the counter is back at `0`. -/
theorem createResources_complete (hskip : skip ≤ 1) (hpos : 0 < numResources)
    (hb : skip + numResources + numWorkers < 2 ^ 31) {s : LoaderState}
    (hs : LoaderReachable skip numResources s) :
    s.panicked = false ∧
      (s.ended = true ∨ (∀ pc ∈ s.workers, pc = .exited) →
        s.created ~ (List.range' skip (numResources - skip)).map Int.ofNat ∧ s.wg = 0) := by
  have hi := loaderInv_reachable (by omega) hpos hb hs
  have hp := loaderReachable_panicked hskip hpos hb hs
  obtain ⟨k, hd⟩ := hi.drawn
  have hc := hi.counter hp
  have hk := drawnIndices_length_add hskip k
  have hlen := hd.length
  have hle := hd.le
  refine ⟨hp, fun hdone => ?_⟩
  -- Either way nothing is in progress, and all `count - 1` draws are made.
  have hdone' : s.workers.countP LoaderPc.isCreating = 0 ∧ k = numResources - 1 ∧ s.wg = 0 := by
    rcases hdone with he | hx
    · have := (hi.ended he).2; omega
    · obtain ⟨h0, hex⟩ := all_exited_counts hx
      have := hd.full (by rw [hex, hi.length]; exact numWorkers_pos)
      omega
  obtain ⟨h0, rfl, hw⟩ := hdone'
  exact ⟨drawnIndices_full hskip hpos ▸ hd.created_perm h0, hw⟩

/-- The generator with `skip = 0` and `count = 2` after `Wait` returned: `main` created `res-0`,
worker `0` drew and created `res-1`. -/
def waitedTwo : LoaderState := ⟨1, List.replicate numWorkers .add, 0, [0, 1], true, false⟩

theorem loaderRun_waitedTwo :
    loaderRun (loaderEnd 0 2) (LoaderState.init 0 2) [.add 0, .create 0, .wait] =
      some waitedTwo := by
  simp [loaderRun, loaderStep, LoaderState.init, loaderEnd, skipAfter, goInt32, waitedTwo,
    List.getElem?_replicate, numWorkers_pos, List.set_replicate_self]

theorem loaderReachable_waitedTwo : LoaderReachable 0 2 waitedTwo :=
  loaderReachable_run .init _ loaderRun_waitedTwo

/-- The run that creates `res-0` and `res-1` and returns from `Wait`. -/
theorem createResources_complete_waitedTwo :
    0 ≤ 1 ∧ 0 < 2 ∧ 0 + 2 + numWorkers < 2 ^ 31 ∧ LoaderReachable 0 2 waitedTwo ∧
      waitedTwo.panicked = false ∧
      (waitedTwo.ended = true ∨ (∀ pc ∈ waitedTwo.workers, pc = .exited) →
        waitedTwo.created ~ (List.range' 0 (2 - 0)).map Int.ofNat ∧ waitedTwo.wg = 0) :=
  ⟨by decide, by decide, by decide, loaderReachable_waitedTwo,
    createResources_complete (by decide) (by decide) (by decide) loaderReachable_waitedTwo⟩

end Complete

/-! ## 5. `skip` from `2` on: `Add` and the draws disagree -/

section Mismatch

variable {skip numResources : Nat}

end Mismatch

/-! ## 6. Every run ends: `Wait` returns or a `WaitGroup` call panics -/

section Ends

variable {skip numResources : Nat}

/-- A measure every step lowers: a draw moves `start` up by one and makes one worker busy or
gone, a `Done` frees a worker, and `Wait` returns once. -/
def loaderVariant (s : LoaderState) : Int :=
  s.workers.countP LoaderPc.isCreating + s.workers.countP LoaderPc.isExited +
    (if s.ended then 0 else 1) - 2 * s.start

theorem loaderVariant_step {s s' : LoaderState} {a : LoaderAction}
    (hb : skip + numResources + numWorkers < 2 ^ 31) (hi : LoaderInv skip numResources s)
    (h : loaderStep (loaderEnd skip numResources) s a = some s') :
    loaderVariant s' < loaderVariant s := by
  obtain ⟨hne, -, ⟨w, hw, rfl⟩ | ⟨w, i, hw, rfl⟩ | ⟨-, rfl⟩⟩ := loaderStep_cases h
  · obtain ⟨k, hd⟩ := hi.drawn
    rw [hd.goInt32_start hb (hi.length ▸ countP_isExited_lt hw rfl)]
    split_ifs
    · have := (workers_set_exited hw 0).2
      simp only [loaderVariant]; omega
    · have := (workers_set_creating hw (s.start + 1) 0).2
      simp only [loaderVariant]; omega
  · have := (workers_set_add hw 0).2
    simp only [loaderVariant]; omega
  · simp only [loaderVariant, hne, ↓reduceIte, Bool.false_eq_true]; omega

/-- A run from a reachable state takes at most as many steps as the measure falls. -/
theorem loaderRun_variant (hle : skip ≤ numResources) (hpos : 0 < numResources)
    (hb : skip + numResources + numWorkers < 2 ^ 31) {s s' : LoaderState} {as : List LoaderAction}
    (hs : LoaderReachable skip numResources s)
    (h : loaderRun (loaderEnd skip numResources) s as = some s') :
    loaderVariant s' + as.length ≤ loaderVariant s := by
  induction as generalizing s with
  | nil => cases h; simp
  | cons a as ih =>
    obtain ⟨s₁, h₁, h⟩ := Option.bind_eq_some.mp h
    have := ih (hs.step a h₁) h
    have := loaderVariant_step hb (loaderInv_reachable hle hpos hb hs) h₁
    simp only [List.length_cons]; push_cast; omega

/-- The measure stays above `-2` times the last draw: one past the last index for each worker. -/
theorem LoaderInv.variant_ge {s : LoaderState} (hi : LoaderInv skip numResources s) :
    -2 * ((skipAfter skip : Int) + numResources + numWorkers - 2) ≤ loaderVariant s := by
  obtain ⟨k, hd⟩ := hi.drawn
  have := hd.start; have := hd.le
  have := List.countP_le_length LoaderPc.isExited (l := s.workers)
  have := hi.length
  unfold loaderVariant; split <;> omega

/-- When every worker has left its loop, the counter is back at `0`, or it has panicked. -/
theorem LoaderInv.wg_of_all_exited {s : LoaderState} (hi : LoaderInv skip numResources s)
    (hp : s.panicked = false) (hx : ∀ pc ∈ s.workers, pc = .exited) : s.wg = 0 := by
  obtain ⟨k, hd⟩ := hi.drawn
  obtain ⟨h0, hex⟩ := all_exited_counts hx
  have := hd.full (by rw [hex, hi.length]; exact numWorkers_pos)
  have := hd.length; have := hi.counter hp
  rw [drawnIndices_length] at *
  split_ifs at * <;> omega

/-- A worker still in its loop, or `Wait` on a zero counter, can always move. -/
theorem LoaderInv.step_enabled {endIdx : Int} {s : LoaderState}
    (hi : LoaderInv skip numResources s) (hne : s.ended = false) (hnp : s.panicked = false) :
    ∃ a s', loaderStep endIdx s a = some s' := by
  by_contra hstuck
  push_neg at hstuck
  have hx : ∀ pc ∈ s.workers, pc = .exited := fun pc hpc => by
    obtain ⟨w, hw⟩ := List.mem_iff_getElem?.mp hpc
    cases pc with
    | add => exact (hstuck (.add w) _ (by simp [loaderStep, hne, hnp, hw]; rfl)).elim
    | creating i => exact (hstuck (.create w) _ (by simp [loaderStep, hne, hnp, hw]; rfl)).elim
    | exited => rfl
  exact hstuck .wait _ (by simp [loaderStep, hne, hnp, hi.wg_of_all_exited hnp hx]; rfl)

/-- **Every run ends, with `Wait` returned or a panic.**  A run of `main` takes at most
`2 * (count + numWorkers)` steps, and in a state where no step can be taken `Wait` has returned
or a `WaitGroup` call has panicked: the generator neither loops nor hangs. -/
theorem createResources_terminates (hle : skip ≤ numResources) (hpos : 0 < numResources)
    (hb : skip + numResources + numWorkers < 2 ^ 31) {as : List LoaderAction} {s : LoaderState}
    (h : loaderRun (loaderEnd skip numResources) (LoaderState.init skip numResources) as =
      some s) :
    as.length ≤ 2 * (numResources + numWorkers) ∧
      ((∀ a, loaderStep (loaderEnd skip numResources) s a = none) →
        s.ended = true ∨ s.panicked = true) := by
  have hs := loaderReachable_run .init as h
  have hi := loaderInv_reachable hle hpos hb hs
  refine ⟨?_, fun hstuck => ?_⟩
  · have := loaderRun_variant hle hpos hb .init h
    have := hi.variant_ge
    have := skipAfter_le skip
    have : loaderVariant (LoaderState.init skip numResources) =
        1 - 2 * ((skipAfter skip : Int) - 1) := by
      simp [loaderVariant, init_start hb]
    omega
  · cases hne : s.ended
    · cases hnp : s.panicked
      · obtain ⟨a, s', h'⟩ := hi.step_enabled hne hnp
        exact absurd (hstuck a ▸ h') nofun
      · exact .inr rfl
    · exact .inl rfl

/-- The run to `waitedTwo` stops there: `Wait` has returned. -/
theorem createResources_terminates_waitedTwo :
    0 ≤ 2 ∧ 0 < 2 ∧ 0 + 2 + numWorkers < 2 ^ 31 ∧
      loaderRun (loaderEnd 0 2) (LoaderState.init 0 2) [.add 0, .create 0, .wait] =
        some waitedTwo ∧
      [LoaderAction.add 0, .create 0, .wait].length ≤ 2 * (2 + numWorkers) ∧
      ((∀ a, loaderStep (loaderEnd 0 2) waitedTwo a = none) →
        waitedTwo.ended = true ∨ waitedTwo.panicked = true) :=
  ⟨by decide, by decide, by decide, loaderRun_waitedTwo,
    createResources_terminates (by decide) (by decide) (by decide) loaderRun_waitedTwo⟩

end Ends

end DistScheduler
