/-
# Two runs that `fire`'s guard does not cover

`RecordAndWait` takes `o` from the map under `e.lock`, releases it, and only then takes
`o.cond.L`.  In between, the timer goroutine may fire `o`; the caller then appends its score,
finds fewer than `limit` scores and calls `o.cond.Wait()` on an evaluator whose one
`Broadcast` is over.  Nothing wakes it again (`run_stranded`), so the `CollectScore` RPC never
returns.

`fire` also takes `highestScore.Score != -1` to mean "already fired".  A winner whose score is
`-1` (an `int32` any client may send) leaves the guard open: a second `fire` of the same
evaluator elects again, and deletes the key from `e.evaluators` even when the key now names a
fresh evaluator.
-/
import DistScheduler.Aggregator.Winner

namespace DistScheduler

/-! ## 1. A waiter on a fired evaluator -/

/-- Caller `c` is `cl`, waits on evaluator `o`, and `o` has fired. -/
def Stranded (s : EvalState) (c : Nat) (cl : Caller) (o : Nat) : Prop :=
  s.callers[c]? = some cl ∧ cl.pc = .waiting o ∧ Fired s.evals o

section Stranded

variable {s s' : EvalState} {c : Nat} {cl : Caller} {o : Nat}

theorem Stranded.set (h : Stranded s c cl o) {c' : Nat} {cl' : Caller}
    (hc' : s.callers[c']? = some cl') (hpc : ∀ o', cl'.pc ≠ .waiting o') {evals' : List OneEvaluator}
    (hk : Keeps s.evals evals') {cl'' : Caller} :
    Stranded { s with evals := evals', callers := s.callers.set c' cl'' } c cl o := by
  have hne : c' ≠ c := by
    rintro rfl
    obtain rfl := Option.some.inj (hc'.symm.trans h.1)
    exact hpc o h.2.1
  exact ⟨by rw [List.getElem?_set_ne hne]; exact h.1, h.2.1, hk.fired h.2.2⟩

/-- `fire` of any evaluator leaves a stranded caller where it is: the fired `o` returns at its
guard, and the `Broadcast` of another evaluator does not reach `o`'s waiters. -/
theorem fire_stranded {o' r : Nat} (hf : fire s o' r = some s') (h : Stranded s c cl o) :
    Stranded s' c cl o := by
  obtain ⟨ev, hev, ⟨-, rfl⟩ | ⟨hun, w, -, rfl⟩⟩ := fire_cases hf
  · exact h
  obtain ⟨hc, hpc, ev₀, hev₀, hfired⟩ := h
  have hne : o ≠ o' := by
    rintro rfl
    exact hfired (Option.some.inj (hev₀.symm.trans hev) ▸ hun)
  refine ⟨?_, hpc, (fire_keeps hf).fired ⟨ev₀, hev₀, hfired⟩⟩
  simp only [List.getElem?_map, hc, Option.map_some', hpc, CallerPc.broadcast, if_neg hne]
  rw [← hpc]

/-- **One step leaves a stranded caller stranded.** -/
theorem step_stranded {a : EvalAction} (hs : step s a = some s') (h : Stranded s c cl o) :
    Stranded s' c cl o := by
  cases a with
  | collect key score =>
    cases hs
    exact ⟨by rw [List.getElem?_append_left (List.getElem?_eq_some_iff.mp h.1).1]; exact h.1,
      h.2.1, h.2.2⟩
  | lookup c' limit =>
    obtain ⟨key, sc, hc, ⟨o', -, rfl⟩ | ⟨-, rfl⟩⟩ := step_lookup_cases hs
    · exact h.set hc (fun _ h => nomatch h) (Keeps.refl _)
    · exact h.set hc (fun _ h => nomatch h) (keeps_append _ _)
  | record c' r =>
    obtain ⟨key, sc, o', ev, hc, hev, ⟨-, s₂, ev₂, hfire, -, rfl⟩ | ⟨-, rfl⟩⟩ :=
      step_record_cases hs
    · have h₁ : Stranded { s with evals := s.evals.set o' { ev with scores := ev.scores ++ [sc] } }
          c cl o :=
        ⟨h.1, h.2.1, (keeps_set hev (by rfl) fun _ => by rfl).fired h.2.2⟩
      have h₂ := fire_stranded hfire h₁
      have hc₂ : s₂.callers[c']? = some ⟨key, sc, .fetched o'⟩ := by
        obtain ⟨ev₁, -, ⟨-, rfl⟩ | ⟨-, w, -, rfl⟩⟩ := fire_cases hfire
        · exact hc
        · simp [hc, CallerPc.broadcast]
      exact h₂.set hc₂ (fun _ h => nomatch h) (Keeps.refl _)
    · exact h.set hc (fun _ h => nomatch h) (keeps_set hev (by rfl) fun _ => by rfl)
  | wake c' =>
    obtain ⟨key, sc, o', ev, hc, -, rfl⟩ := step_wake_cases hs
    exact h.set hc (fun _ h => nomatch h) (Keeps.refl _)
  | tick o' r =>
    obtain ⟨ev, hev, -, hfire⟩ := step_tick_cases hs
    exact fire_stranded hfire ⟨h.1, h.2.1, (keeps_set hev (by rfl) fun _ => by rfl).fired h.2.2⟩

/-- **A stranded caller stays stranded on every continuation.** -/
theorem run_stranded (as : List EvalAction) (hs : run s as = some s') (h : Stranded s c cl o) :
    Stranded s' c cl o := by
  induction as generalizing s with
  | nil => cases hs; exact h
  | cons a as ih =>
    obtain ⟨s₁, h₁, hs⟩ := Option.bind_eq_some.mp hs
    exact ih hs (step_stranded h₁ h)

end Stranded

/-- `node-a`'s score starts evaluator `0` with limit `3`; `node-b`'s caller takes `0` from the
map; the timer fires `0`; then `node-b`'s caller records its score and waits. -/
def lostTrace : List EvalAction :=
  [.collect "default/p" ⟨"node-a", 5⟩, .lookup 0 3, .record 0 0,
    .collect "default/p" ⟨"node-b", 4⟩, .lookup 1 3, .tick 0 0, .record 1 0]

/-- The state `lostTrace` reaches. -/
def lostState : EvalState := (run EvalState.init lostTrace).getD EvalState.init

/-- **The lost wake-up.**  After `lostTrace`, `node-b`'s caller waits on evaluator `0`, which
has fired; on every continuation of the run it is still waiting there. -/
theorem lostWakeup_waitsForever :
    Reachable lostState ∧ ∃ cl, Stranded lostState 1 cl 0 ∧
      ∀ as s', run lostState as = some s' → s'.callers[1]? = some cl ∧ cl.pc = .waiting 0 := by
  have hst : Stranded lostState 1 ⟨"default/p", ⟨"node-b", 4⟩, .waiting 0⟩ 0 :=
    ⟨by decide, rfl, ⟨"default/p", 3, [⟨"node-a", 5⟩, ⟨"node-b", 4⟩], ⟨"node-a", 5⟩, true⟩,
      by decide, by decide⟩
  exact ⟨reachable_run Reachable.init lostTrace rfl, _, hst,
    fun as _ h => ⟨(run_stranded as h hst).1, rfl⟩⟩

/-! ## 2. A winner with the score `-1` -/

/-- Two callers score `-1` with limit `2`; the second reaches the quorum and the draw picks
`node-b`, whose caller returns.  A third score for the same pod starts evaluator `1`. -/
def sentinelTrace : List EvalAction :=
  [.collect "default/p" ⟨"node-a", -1⟩, .lookup 0 2, .record 0 0,
    .collect "default/p" ⟨"node-b", -1⟩, .lookup 1 2, .record 1 1,
    .collect "default/p" ⟨"node-c", 3⟩, .lookup 2 2, .record 2 0]

/-- The state `sentinelTrace` reaches. -/
def sentinelState : EvalState := (run EvalState.init sentinelTrace).getD EvalState.init

/-- The state after evaluator `0`'s timer fires it again and its first caller returns. -/
def refiredState : EvalState := (run sentinelState [.tick 0 0, .wake 0]).getD EvalState.init

/-- **The guard misses a `-1` winner.**  Evaluator `0` has chosen `node-b` and answered its
caller; its timer then fires it again, which chooses `node-a`, deletes `default/p` from the map
although the key now names evaluator `1`, and answers `node-a`'s caller.  Both callers, on
distinct nodes, end permitted by evaluator `0`. -/
theorem sentinelWinner_refires :
    run EvalState.init sentinelTrace = some sentinelState ∧
      run sentinelState [.tick 0 0, .wake 0] = some refiredState ∧
      (sentinelState.evals[0]?).map (·.highestScore) = some ⟨"node-b", -1⟩ ∧
      (refiredState.evals[0]?).map (·.highestScore) = some ⟨"node-a", -1⟩ ∧
      sentinelState.evaluators "default/p" = some 1 ∧
      refiredState.evaluators "default/p" = none ∧
      ∃ a ∈ refiredState.callers, ∃ b ∈ refiredState.callers, a.key = b.key ∧
        a.score.nodeName ≠ b.score.nodeName ∧ a.PermittedBy 0 ∧ b.PermittedBy 0 := by
  have hcallers : refiredState.callers =
      [⟨"default/p", ⟨"node-a", -1⟩, .done 0 ⟨"node-a", -1⟩⟩,
        ⟨"default/p", ⟨"node-b", -1⟩, .done 0 ⟨"node-b", -1⟩⟩,
        ⟨"default/p", ⟨"node-c", 3⟩, .waiting 1⟩] := by decide
  refine ⟨rfl, rfl, by decide, by decide, by decide, by decide,
    ⟨"default/p", ⟨"node-a", -1⟩, .done 0 ⟨"node-a", -1⟩⟩, ?_,
    ⟨"default/p", ⟨"node-b", -1⟩, .done 0 ⟨"node-b", -1⟩⟩, ?_, rfl, by decide,
    ⟨_, rfl, rfl⟩, ⟨_, rfl, rfl⟩⟩ <;> simp [hcallers]

end DistScheduler
