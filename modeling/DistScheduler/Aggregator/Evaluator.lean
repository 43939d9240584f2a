/-
# The score aggregator as a transition system

`scoreevaluator.go` collects, for each pod key, the scores the peers send through
`CollectScore`, and answers every request with one winner.  The concurrency is the point, so
the model is a state machine over every interleaving of its threads:

* a **caller** is one `CollectScore` RPC inside `RecordAndWait`; its program counter
  (`CallerPc`) moves `start → fetched o` (the `e.lock` section: look the key up, or start a
  fresh evaluator), then `→ done` or `→ waiting o` (the `o.cond.L` section: append the score,
  fire on quorum, else `Wait`), then `waiting o → woken o` (a `Broadcast`), then
  `woken o → done` (re-acquire `o.cond.L` and read `highestScore`);
* every evaluator has one **timer** goroutine, which may fire it at any point after its
  creation (`tick`): the model abstracts time, so every real schedule is one of its runs.

Each locked section is one atomic step.  The evaluator heap is `evals` (a pointer is an
index); `evaluators` is the map `e.evaluators`.  A step returns `none` when the thread is not
there, or when Go would panic (`rand.Intn(0)` inside `fire`).  Non-determinism comes in as
action arguments: the member count a new evaluator takes as its `limit`, and the draw of
`rand.Intn`.
-/
import Mathlib.Logic.Function.Basic
import Mathlib.Data.List.Basic

namespace DistScheduler

/-! ## 1. Scores, evaluators and `fire`'s choice -/

/-- `scoreevaluator.Score`.  `CollectScore` fills it from an `int32`. -/
structure Score where
  nodeName : String
  score : Int
deriving DecidableEq, Repr

/-- The `highestScore` that `startOneEvaluator` installs, and that `fire` takes to mean "not
fired yet". -/
def unfiredScore : Score := ⟨"", -1⟩

/-- `oneEvaluator`, with the key its timer goroutine captured and `ticked`, the program
counter of that goroutine. -/
structure OneEvaluator where
  key : String
  limit : Nat
  scores : List Score
  highestScore : Score
  ticked : Bool
deriving DecidableEq, Repr

/-- `startOneEvaluator`, whose `limit` is `GetMemberCountNoRelays()` at that moment. -/
def startOneEvaluator (key : String) (limit : Nat) : OneEvaluator :=
  ⟨key, limit, [], unfiredScore, false⟩

/-- The loop of `fire`: the running maximum, from `-1`, and the scores that reach it, at most
`100` of them. -/
def pickCandidates (scores : List Score) : Int × List Score :=
  scores.foldl (fun acc sc =>
    if sc.score > acc.1 then (sc.score, [sc])
    else if sc.score = acc.1 then (if acc.2.length < 100 then (acc.1, acc.2 ++ [sc]) else acc)
    else acc) (-1, [])

/-- `rand.Intn(n)` with the draw `r`; `none` is its panic when `n ≤ 0`. -/
def randIntn (n r : Nat) : Option Nat := if n = 0 then none else some (r % n)

/-- `candidates[rand.Intn(len(candidates))]`. -/
def chooseWinner (scores : List Score) (r : Nat) : Option Score :=
  let candidates := (pickCandidates scores).2
  (randIntn candidates.length r).bind fun i => candidates[i]?

theorem pickCandidates_subset : ∀ (scores : List Score) (acc : Int × List Score),
    ∀ sc ∈ (scores.foldl (fun acc sc =>
      if sc.score > acc.1 then (sc.score, [sc])
      else if sc.score = acc.1 then (if acc.2.length < 100 then (acc.1, acc.2 ++ [sc]) else acc)
      else acc) acc).2, sc ∈ acc.2 ∨ sc ∈ scores
  | [], acc, sc, h => Or.inl h
  | x :: xs, acc, sc, h => by
    rcases pickCandidates_subset xs _ sc h with h | h
    · simp only [gt_iff_lt] at h
      split at h
      · simp_all
      · split at h
        · split at h
          · rcases List.mem_append.mp h with h | h
            · exact Or.inl h
            · simp_all
          · exact Or.inl h
        · exact Or.inl h
    · exact Or.inr (List.mem_cons_of_mem _ h)

/-- **The winner is a recorded score.** -/
theorem chooseWinner_mem {scores : List Score} {r : Nat} {w : Score}
    (h : chooseWinner scores r = some w) : w ∈ scores := by
  simp only [chooseWinner, randIntn] at h
  split at h
  · simp at h
  · simp only [Option.some_bind] at h
    have hm := List.getElem?_mem h
    simpa using pickCandidates_subset scores (-1, []) w hm

/-! ## 2. Callers and the state -/

/-- Where a `RecordAndWait` call is. -/
inductive CallerPc
  | start
  | fetched (o : Nat)
  | waiting (o : Nat)
  | woken (o : Nat)
  | done (o : Nat) (result : Score)
deriving DecidableEq, Repr

/-- One `CollectScore(key, node, score)` request and where its `RecordAndWait` is. -/
structure Caller where
  key : String
  score : Score
  pc : CallerPc
deriving DecidableEq, Repr

/-- The evaluator a caller holds, once it has one. -/
def CallerPc.evaluator : CallerPc → Option Nat
  | .start => none
  | .fetched o | .waiting o | .woken o | .done o _ => some o

/-- `Broadcast` on evaluator `o`'s condition wakes the callers waiting on it. -/
def CallerPc.broadcast (o : Nat) : CallerPc → CallerPc
  | .waiting o' => if o' = o then .woken o else .waiting o'
  | pc => pc

@[simp] theorem CallerPc.broadcast_evaluator (o : Nat) (pc : CallerPc) :
    (pc.broadcast o).evaluator = pc.evaluator := by
  cases pc with
  | waiting o' => simp only [broadcast]; split <;> simp_all [evaluator]
  | _ => rfl

theorem CallerPc.broadcast_eq_woken {o o' : Nat} {pc : CallerPc} (h : pc.broadcast o = .woken o') :
    pc = .woken o' ∨ (pc = .waiting o' ∧ o' = o) := by
  cases pc <;> simp only [broadcast] at h <;> (try split at h) <;> simp_all

theorem CallerPc.broadcast_eq_done {o o' : Nat} {w : Score} {pc : CallerPc}
    (h : pc.broadcast o = .done o' w) : pc = .done o' w := by
  cases pc <;> simp only [broadcast] at h <;> (try split at h) <;> simp_all

/-- `CollectScore` answered this request from evaluator `o` with `Permit = true`: the
winner it returned is on the request's own node. -/
def Caller.PermittedBy (c : Caller) (o : Nat) : Prop :=
  ∃ w, c.pc = .done o w ∧ w.nodeName = c.score.nodeName

/-- The aggregator's shared state. -/
structure EvalState where
  evaluators : String → Option Nat
  evals : List OneEvaluator
  callers : List Caller

/-- `New`: no evaluator, no request. -/
def EvalState.init : EvalState := ⟨fun _ => none, [], []⟩

/-- What can happen next. -/
inductive EvalAction
  /-- A `CollectScore` RPC arrives. -/
  | collect (key : String) (score : Score)
  /-- Caller `c` runs its `e.lock` section; `limit` is the member count if it starts an
  evaluator. -/
  | lookup (c : Nat) (limit : Nat)
  /-- Caller `c` runs its `o.cond.L` section; `r` is the draw if it fires. -/
  | record (c : Nat) (r : Nat)
  /-- A woken caller re-acquires the lock and returns. -/
  | wake (c : Nat)
  /-- Evaluator `o`'s timer goroutine fires it with the draw `r`. -/
  | tick (o : Nat) (r : Nat)
deriving DecidableEq, Repr

/-! ## 3. The steps -/

/-- `fire`: nothing if `highestScore` is no longer `-1`; otherwise choose the winner, delete
the evaluator's key from the map and wake every waiter. -/
def fire (s : EvalState) (o : Nat) (r : Nat) : Option EvalState :=
  match s.evals[o]? with
  | none => none
  | some ev =>
    if ev.highestScore.score ≠ -1 then some s
    else (chooseWinner ev.scores r).map fun w =>
      { evaluators := Function.update s.evaluators ev.key none
        evals := s.evals.set o { ev with highestScore := w }
        callers := s.callers.map fun c => { c with pc := c.pc.broadcast o } }

/-- One atomic step of one thread. -/
def step (s : EvalState) : EvalAction → Option EvalState
  | .collect key score => some { s with callers := s.callers ++ [⟨key, score, .start⟩] }
  | .lookup c limit =>
    match s.callers[c]? with
    | some ⟨key, sc, .start⟩ =>
      match s.evaluators key with
      | some o => some { s with callers := s.callers.set c ⟨key, sc, .fetched o⟩ }
      | none =>
        some { evaluators := Function.update s.evaluators key (some s.evals.length)
               evals := s.evals ++ [startOneEvaluator key limit]
               callers := s.callers.set c ⟨key, sc, .fetched s.evals.length⟩ }
    | _ => none
  | .record c r =>
    match s.callers[c]? with
    | some ⟨key, sc, .fetched o⟩ =>
      match s.evals[o]? with
      | some ev =>
        let s₁ := { s with evals := s.evals.set o { ev with scores := ev.scores ++ [sc] } }
        if ev.limit ≤ ev.scores.length + 1 then
          (fire s₁ o r).bind fun s₂ => (s₂.evals[o]?).map fun ev₂ =>
            { s₂ with callers := s₂.callers.set c ⟨key, sc, .done o ev₂.highestScore⟩ }
        else some { s₁ with callers := s₁.callers.set c ⟨key, sc, .waiting o⟩ }
      | none => none
    | _ => none
  | .wake c =>
    match s.callers[c]? with
    | some ⟨key, sc, .woken o⟩ =>
      (s.evals[o]?).map fun ev => { s with callers := s.callers.set c ⟨key, sc, .done o ev.highestScore⟩ }
    | _ => none
  | .tick o r =>
    match s.evals[o]? with
    | some ev =>
      if ev.ticked then none else fire { s with evals := s.evals.set o { ev with ticked := true } } o r
    | none => none

/-- Run a list of actions. -/
def run (s : EvalState) : List EvalAction → Option EvalState
  | [] => some s
  | a :: as => (step s a).bind fun s' => run s' as

/-- The states some run from `init` reaches. -/
inductive Reachable : EvalState → Prop
  | init : Reachable EvalState.init
  | step {s s' : EvalState} (a : EvalAction) : Reachable s → step s a = some s' → Reachable s'

theorem reachable_run {s s' : EvalState} (hs : Reachable s) (as : List EvalAction)
    (h : run s as = some s') : Reachable s' := by
  induction as generalizing s with
  | nil => cases h; exact hs
  | cons a as ih =>
    simp only [run] at h
    cases ha : step s a with
    | none => simp [ha] at h
    | some s₁ =>
      rw [ha, Option.some_bind] at h
      exact ih (Reachable.step a hs ha) h

/-! ## 4. What one step can do -/

section Inversion

variable {s s' : EvalState}

theorem fire_cases {o r : Nat} (h : fire s o r = some s') :
    ∃ ev, s.evals[o]? = some ev ∧
      ((ev.highestScore.score ≠ -1 ∧ s' = s) ∨
        (ev.highestScore.score = -1 ∧ ∃ w, chooseWinner ev.scores r = some w ∧
          s' = ⟨Function.update s.evaluators ev.key none, s.evals.set o { ev with highestScore := w },
            s.callers.map fun c => { c with pc := c.pc.broadcast o }⟩)) := by
  unfold fire at h
  split at h
  · cases h
  · rename_i ev hev
    refine ⟨ev, hev, ?_⟩
    split at h
    · exact Or.inl ⟨‹_›, (Option.some.inj h).symm⟩
    · obtain ⟨w, hw, rfl⟩ := Option.map_eq_some'.mp h
      exact Or.inr ⟨not_not.mp ‹_›, w, hw, rfl⟩

theorem step_lookup_cases {c limit : Nat} (h : step s (.lookup c limit) = some s') :
    ∃ key sc, s.callers[c]? = some ⟨key, sc, .start⟩ ∧
      ((∃ o, s.evaluators key = some o ∧
          s' = { s with callers := s.callers.set c ⟨key, sc, .fetched o⟩ }) ∨
        (s.evaluators key = none ∧
          s' = ⟨Function.update s.evaluators key (some s.evals.length),
            s.evals ++ [startOneEvaluator key limit],
            s.callers.set c ⟨key, sc, .fetched s.evals.length⟩⟩)) := by
  simp only [step] at h
  split at h
  · rename_i key sc hc
    refine ⟨key, sc, hc, ?_⟩
    split at h
    · exact Or.inl ⟨_, ‹_›, (Option.some.inj h).symm⟩
    · exact Or.inr ⟨‹_›, (Option.some.inj h).symm⟩
  · cases h

theorem step_record_cases {c r : Nat} (h : step s (.record c r) = some s') :
    ∃ key sc o ev, s.callers[c]? = some ⟨key, sc, .fetched o⟩ ∧ s.evals[o]? = some ev ∧
      ((ev.limit ≤ ev.scores.length + 1 ∧ ∃ s₂ ev₂,
          fire { s with evals := s.evals.set o { ev with scores := ev.scores ++ [sc] } } o r = some s₂ ∧
          s₂.evals[o]? = some ev₂ ∧
          s' = { s₂ with callers := s₂.callers.set c ⟨key, sc, .done o ev₂.highestScore⟩ }) ∨
        (¬ ev.limit ≤ ev.scores.length + 1 ∧
          s' = { s with evals := s.evals.set o { ev with scores := ev.scores ++ [sc] },
                        callers := s.callers.set c ⟨key, sc, .waiting o⟩ })) := by
  simp only [step] at h
  split at h
  · rename_i key sc o hc
    split at h
    · rename_i ev hev
      refine ⟨key, sc, o, ev, hc, hev, ?_⟩
      split at h
      · obtain ⟨s₂, h₂, h⟩ := Option.bind_eq_some.mp h
        obtain ⟨ev₂, hev₂, rfl⟩ := Option.map_eq_some'.mp h
        exact Or.inl ⟨‹_›, s₂, ev₂, h₂, hev₂, rfl⟩
      · exact Or.inr ⟨‹_›, (Option.some.inj h).symm⟩
    · cases h
  · cases h

theorem step_wake_cases {c : Nat} (h : step s (.wake c) = some s') :
    ∃ key sc o ev, s.callers[c]? = some ⟨key, sc, .woken o⟩ ∧ s.evals[o]? = some ev ∧
      s' = { s with callers := s.callers.set c ⟨key, sc, .done o ev.highestScore⟩ } := by
  simp only [step] at h
  split at h
  · obtain ⟨ev, hev, rfl⟩ := Option.map_eq_some'.mp h
    exact ⟨_, _, _, ev, ‹_›, hev, rfl⟩
  · cases h

theorem step_tick_cases {o r : Nat} (h : step s (.tick o r) = some s') :
    ∃ ev, s.evals[o]? = some ev ∧ ev.ticked = false ∧
      fire { s with evals := s.evals.set o { ev with ticked := true } } o r = some s' := by
  simp only [step] at h
  split at h
  · rename_i ev hev
    split at h
    · cases h
    · rename_i hticked
      exact ⟨ev, hev, by simpa using hticked, h⟩
  · cases h

end Inversion

end DistScheduler
