/-
# What the aggregator's runs keep

The guard at the top of `fire` reads `highestScore.Score != -1` as "already fired", and a
caller that returns from `RecordAndWait` reads `highestScore` under `o.cond.L`.  This module
collects what every run of the model in `Aggregator/Evaluator.lean` keeps.

* **The heap only grows** (`step_keeps`): a step keeps every evaluator at its index with its
  key, and once an evaluator's `highestScore` is not `-1` it never changes again.  This holds
  of every step, with no invariant.
* **The invariant** (`Inv`, `reachable_inv`): on runs whose scores avoid `-1`, every
  evaluator's winner is one of its scores, every caller's evaluator has the caller's key, a
  woken caller's evaluator has fired, and a caller that returned `w` from `o` sees `o`'s
  winner still equal to `w`.
* **Permits** (`permit_atMostOnce`): at most one request is permitted per evaluator.  Not per
  key: `fire` deletes the key from `e.evaluators`, so a late request starts a second evaluator
  for the same key and is permitted as well (`lateScore_secondPermit`), against
  `RecordAndWait`'s own "returns the highest score for the key among all recorded".
-/
import DistScheduler.Aggregator.Evaluator

namespace DistScheduler

/-! ## 1. The heap only grows -/

/-- Evaluator `o` has fired: its `highestScore` no longer has the sentinel's score. -/
def Fired (evals : List OneEvaluator) (o : Nat) : Prop :=
  ∃ ev : OneEvaluator, evals[o]? = some ev ∧ ev.highestScore.score ≠ -1

/-- `evals'` keeps every evaluator of `evals` at its index, with its key, and with its winner
once it has fired. -/
structure Keeps (evals evals' : List OneEvaluator) : Prop where
  get : ∀ (o : Nat) (ev : OneEvaluator), evals[o]? = some ev →
    ∃ ev' : OneEvaluator, evals'[o]? = some ev' ∧ ev'.key = ev.key ∧
    (ev.highestScore.score ≠ -1 → ev'.highestScore = ev.highestScore)

theorem Keeps.refl (evals : List OneEvaluator) : Keeps evals evals :=
  ⟨fun _ ev h => ⟨ev, h, rfl, fun _ => rfl⟩⟩

theorem Keeps.trans {e₁ e₂ e₃ : List OneEvaluator} (h₁ : Keeps e₁ e₂) (h₂ : Keeps e₂ e₃) :
    Keeps e₁ e₃ := by
  refine ⟨fun o ev h => ?_⟩
  obtain ⟨ev₂, h₂', hk₂, hs₂⟩ := h₁.get o ev h
  obtain ⟨ev₃, h₃, hk₃, hs₃⟩ := h₂.get o ev₂ h₂'
  refine ⟨ev₃, h₃, hk₃.trans hk₂, fun hne => ?_⟩
  rw [hs₃ (by rwa [hs₂ hne]), hs₂ hne]

theorem Keeps.fired {evals evals' : List OneEvaluator} {o : Nat} (h : Keeps evals evals')
    (hf : Fired evals o) : Fired evals' o := by
  obtain ⟨ev, hev, hne⟩ := hf
  obtain ⟨ev', hev', -, hs⟩ := h.get o ev hev
  exact ⟨ev', hev', by rwa [hs hne]⟩

theorem keeps_append (evals extra : List OneEvaluator) : Keeps evals (evals ++ extra) :=
  ⟨fun _ ev h => ⟨ev, by rw [List.getElem?_append_left (List.getElem?_eq_some_iff.mp h).1, h],
    rfl, fun _ => rfl⟩⟩

theorem getElem?_set_of_some {α : Type} {l : List α} {o i : Nat} {x y : α} (h : l[o]? = some x) :
    (l.set o y)[i]? = if o = i then some y else l[i]? := by
  rw [List.getElem?_set, if_pos (List.getElem?_eq_some_iff.mp h).1]

theorem keeps_set {evals : List OneEvaluator} {o : Nat} {ev ev' : OneEvaluator}
    (h : evals[o]? = some ev) (hk : ev'.key = ev.key)
    (hs : ev.highestScore.score ≠ -1 → ev'.highestScore = ev.highestScore) :
    Keeps evals (evals.set o ev') := by
  refine ⟨fun i ev₀ h₀ => ?_⟩
  rw [getElem?_set_of_some h]
  split
  · subst i
    obtain rfl := Option.some.inj (h₀.symm.trans h)
    exact ⟨ev', rfl, hk, hs⟩
  · exact ⟨ev₀, h₀, rfl, fun _ => rfl⟩

section Steps

variable {s s' : EvalState}

theorem fire_keeps {o r : Nat} (h : fire s o r = some s') : Keeps s.evals s'.evals := by
  obtain ⟨ev, hev, ⟨-, rfl⟩ | ⟨hun, w, -, rfl⟩⟩ := fire_cases h
  · exact Keeps.refl _
  · exact keeps_set hev rfl fun hne => absurd hun hne

/-- **A step keeps the heap.** -/
theorem step_keeps {a : EvalAction} (h : step s a = some s') : Keeps s.evals s'.evals := by
  cases a with
  | collect key score => cases h; exact Keeps.refl _
  | lookup c limit =>
    obtain ⟨key, sc, -, ⟨o, -, rfl⟩ | ⟨-, rfl⟩⟩ := step_lookup_cases h
    · exact Keeps.refl _
    · exact keeps_append _ _
  | record c r =>
    obtain ⟨key, sc, o, ev, -, hev, ⟨-, s₂, ev₂, hfire, -, rfl⟩ | ⟨-, rfl⟩⟩ :=
      step_record_cases h
    · exact Keeps.trans (keeps_set hev (by rfl) fun _ => by rfl) (fire_keeps hfire)
    · exact keeps_set hev rfl fun _ => rfl
  | wake c =>
    obtain ⟨key, sc, o, ev, -, -, rfl⟩ := step_wake_cases h
    exact Keeps.refl _
  | tick o r =>
    obtain ⟨ev, hev, -, hfire⟩ := step_tick_cases h
    exact Keeps.trans (keeps_set hev (by rfl) fun _ => by rfl) (fire_keeps hfire)

end Steps

/-! ## 2. The invariant on runs without the score `-1` -/

/-- An evaluator whose scores avoid `-1`, and whose `highestScore` is the sentinel or one of
them. -/
structure EvalOk (ev : OneEvaluator) : Prop where
  scores_ne : ∀ sc ∈ ev.scores, sc.score ≠ -1
  highest : ev.highestScore = unfiredScore ∨ ev.highestScore ∈ ev.scores

/-- What a caller's program counter says about the heap. -/
structure CallerOk (evals : List OneEvaluator) (c : Caller) : Prop where
  key : ∀ o, c.pc.evaluator = some o →
    ∃ ev : OneEvaluator, evals[o]? = some ev ∧ ev.key = c.key
  woken : ∀ o, c.pc = .woken o → Fired evals o
  done : ∀ o w, c.pc = .done o w →
    ∃ ev : OneEvaluator, evals[o]? = some ev ∧ ev.highestScore = w ∧ w.score ≠ -1

/-- The map `e.evaluators` points every key at an evaluator of that key. -/
def MapOk (evaluators : String → Option Nat) (evals : List OneEvaluator) : Prop :=
  ∀ k o, evaluators k = some o → ∃ ev : OneEvaluator, evals[o]? = some ev ∧ ev.key = k

/-- The aggregator's invariant. -/
structure Inv (s : EvalState) : Prop where
  map_ok : MapOk s.evaluators s.evals
  callers_ok : ∀ c ∈ s.callers, CallerOk s.evals c
  evals_ok : ∀ ev ∈ s.evals, EvalOk ev

theorem inv_init : Inv EvalState.init :=
  ⟨fun _ _ h => (Option.noConfusion h), by simp [EvalState.init], by simp [EvalState.init]⟩

section Preservation

variable {s s' : EvalState} {evals' : List OneEvaluator}

theorem CallerOk.mono {evals : List OneEvaluator} {c : Caller} (h : CallerOk evals c)
    (hk : Keeps evals evals') : CallerOk evals' c where
  key o ho := by
    obtain ⟨ev, hev, hkey⟩ := h.key o ho
    obtain ⟨ev', hev', hk', -⟩ := hk.get o ev hev
    exact ⟨ev', hev', hk'.trans hkey⟩
  woken o ho := hk.fired (h.woken o ho)
  done o w ho := by
    obtain ⟨ev, hev, rfl, hw⟩ := h.done o w ho
    obtain ⟨ev', hev', -, hs⟩ := hk.get o ev hev
    exact ⟨ev', hev', hs hw, hw⟩

theorem MapOk.mono {m : String → Option Nat} {evals : List OneEvaluator} (h : MapOk m evals)
    (hk : Keeps evals evals') : MapOk m evals' := by
  intro k o hko
  obtain ⟨ev, hev, rfl⟩ := h k o hko
  obtain ⟨ev', hev', hk', -⟩ := hk.get o ev hev
  exact ⟨ev', hev', hk'⟩

theorem evalOk_set {evals : List OneEvaluator} {o : Nat} {ev : OneEvaluator}
    (h : ∀ x ∈ evals, EvalOk x) (hev : EvalOk ev) : ∀ x ∈ evals.set o ev, EvalOk x := fun x hx =>
  (List.mem_or_eq_of_mem_set hx).elim (h x) fun hx => hx ▸ hev

/-- A new heap that keeps the old one and whose evaluators are sound. -/
theorem Inv.setEvals (hs : Inv s) (hk : Keeps s.evals evals') (hok : ∀ ev ∈ evals', EvalOk ev) :
    Inv { s with evals := evals' } :=
  ⟨hs.map_ok.mono hk, fun c hc => (hs.callers_ok c hc).mono hk, hok⟩

/-- One caller moves to a program counter that the heap supports. -/
theorem Inv.setCaller (hs : Inv s) {c : Nat} {cl : Caller} (hok : CallerOk s.evals cl) :
    Inv { s with callers := s.callers.set c cl } :=
  ⟨hs.map_ok, fun x hx => (List.mem_or_eq_of_mem_set hx).elim (hs.callers_ok x) fun hx => hx ▸ hok,
    hs.evals_ok⟩

/-- `startOneEvaluator`, stored under a fresh map entry for its key, keeps the invariant. -/
theorem Inv.start (hs : Inv s) (key : String) (limit : Nat) :
    Inv ⟨Function.update s.evaluators key (some s.evals.length),
      s.evals ++ [startOneEvaluator key limit], s.callers⟩ := by
  have hk := keeps_append s.evals [startOneEvaluator key limit]
  refine ⟨fun k o hko => ?_, fun c hc => (hs.callers_ok c hc).mono hk, fun ev hev => ?_⟩
  · simp only [Function.update_apply] at hko
    split at hko
    · cases hko
      subst k
      exact ⟨_, List.getElem?_concat_length _ _, rfl⟩
    · exact hs.map_ok.mono hk k o hko
  · rcases List.mem_append.mp hev with hev | hev
    · exact hs.evals_ok ev hev
    · rw [List.mem_singleton.mp hev]
      exact ⟨by simp [startOneEvaluator], .inl rfl⟩

/-- **`fire` keeps the invariant, and afterwards the evaluator has fired.** -/
theorem Inv.fire (hs : Inv s) {o r : Nat} (h : fire s o r = some s') :
    Inv s' ∧ Fired s'.evals o := by
  obtain ⟨ev, hev, ⟨hne, rfl⟩ | ⟨hun, w, hw, rfl⟩⟩ := fire_cases h
  · exact ⟨hs, ev, hev, hne⟩
  have hok := hs.evals_ok ev (List.getElem?_mem hev)
  have hwin : w ∈ ev.scores := chooseWinner_mem hw
  have hk : Keeps s.evals (s.evals.set o { ev with highestScore := w }) :=
    keeps_set hev rfl fun hne => absurd hun hne
  have hfired : Fired (s.evals.set o { ev with highestScore := w }) o :=
    ⟨_, by rw [getElem?_set_of_some hev, if_pos rfl], hok.scores_ne w hwin⟩
  refine ⟨⟨?_, ?_, evalOk_set hs.evals_ok ⟨hok.scores_ne, Or.inr hwin⟩⟩, hfired⟩
  · intro k o' hko
    simp only [Function.update_apply] at hko
    split at hko
    · cases hko
    · exact hs.map_ok.mono hk k o' hko
  · simp only [List.mem_map]
    rintro _ ⟨c, hc, rfl⟩
    have hc' := (hs.callers_ok c hc).mono hk
    refine ⟨fun o' ho => hc'.key o' (by simpa using ho), fun o' ho => ?_,
      fun o' w' ho => hc'.done o' w' (CallerPc.broadcast_eq_done ho)⟩
    rcases CallerPc.broadcast_eq_woken ho with ho | ⟨-, rfl⟩
    · exact hc'.woken o' ho
    · exact hfired

theorem EvalOk.record {ev : OneEvaluator} {sc : Score} (hok : EvalOk ev) (hsc : sc.score ≠ -1) :
    EvalOk { ev with scores := ev.scores ++ [sc] } where
  scores_ne x hx := (List.mem_append.mp hx).elim (hok.scores_ne x) fun hx => by
    rw [List.mem_singleton.mp hx]; exact hsc
  highest := hok.highest.imp id fun h => List.mem_append_of_mem_left _ h

theorem callerOk_holding {evals : List OneEvaluator} {o : Nat} {ev : OneEvaluator} {key : String}
    {sc : Score} {pc : CallerPc} (hev : evals[o]? = some ev) (hk : ev.key = key)
    (hpc : pc = .fetched o ∨ pc = .waiting o) : CallerOk evals ⟨key, sc, pc⟩ := by
  rcases hpc with rfl | rfl <;>
    exact ⟨fun o' ho' => Option.some.inj ho' ▸ ⟨ev, hev, hk⟩, fun _ h => (nomatch h),
      fun _ _ h => (nomatch h)⟩

theorem callerOk_done {evals : List OneEvaluator} {o : Nat} {ev : OneEvaluator} {key : String}
    {sc : Score} (hev : evals[o]? = some ev) (hk : ev.key = key) (hw : ev.highestScore.score ≠ -1) :
    CallerOk evals ⟨key, sc, .done o ev.highestScore⟩ :=
  ⟨fun o' ho' => Option.some.inj ho' ▸ ⟨ev, hev, hk⟩, fun _ h => (nomatch h),
    fun o' w h => by cases h; exact ⟨ev, hev, rfl, hw⟩⟩

/-- **Every step keeps the invariant**, when the callers' scores avoid `-1`. -/
theorem inv_step (hs : Inv s) (hneg : ∀ c ∈ s.callers, c.score.score ≠ -1) {a : EvalAction}
    (h : step s a = some s') : Inv s' := by
  cases a with
  | collect key score =>
    cases h
    refine ⟨hs.map_ok, fun c hc => ?_, hs.evals_ok⟩
    rcases List.mem_append.mp hc with hc | hc
    · exact hs.callers_ok c hc
    · rw [List.mem_singleton.mp hc]
      exact ⟨fun _ h => (nomatch h), fun _ h => (nomatch h), fun _ _ h => (nomatch h)⟩
  | lookup c limit =>
    obtain ⟨key, sc, -, ⟨o, ho, rfl⟩ | ⟨-, rfl⟩⟩ := step_lookup_cases h
    · obtain ⟨ev, hev, hkey⟩ := hs.map_ok key o ho
      exact hs.setCaller (callerOk_holding hev hkey (.inl rfl))
    · exact (hs.start key limit).setCaller
        (callerOk_holding (List.getElem?_concat_length _ _) rfl (.inl rfl))
  | record c r =>
    obtain ⟨key, sc, o, ev, hc, hev, hcase⟩ := step_record_cases h
    have hcl := hs.callers_ok _ (List.getElem?_mem hc)
    obtain ⟨ev', hev', hkey⟩ := hcl.key o rfl
    obtain rfl : ev = ev' := Option.some.inj (hev.symm.trans hev')
    have hset : (s.evals.set o { ev with scores := ev.scores ++ [sc] })[o]? =
        some { ev with scores := ev.scores ++ [sc] } :=
      List.getElem?_set_self (List.getElem?_eq_some_iff.mp hev).1
    have h₁ : Inv { s with evals := s.evals.set o { ev with scores := ev.scores ++ [sc] } } :=
      hs.setEvals (keeps_set hev rfl fun _ => rfl) (evalOk_set hs.evals_ok
      ((hs.evals_ok ev (List.getElem?_mem hev)).record (hneg _ (List.getElem?_mem hc))))
    rcases hcase with ⟨-, s₂, ev₂, hfire, hev₂, rfl⟩ | ⟨-, rfl⟩
    · obtain ⟨h₂, ev₃, hev₃, hw⟩ := h₁.fire hfire
      obtain rfl : ev₂ = ev₃ := Option.some.inj (hev₂.symm.trans hev₃)
      obtain ⟨ev₄, hev₄, hkey₄, -⟩ := (fire_keeps hfire).get o _ hset
      obtain rfl : ev₂ = ev₄ := Option.some.inj (hev₂.symm.trans hev₄)
      exact h₂.setCaller (callerOk_done hev₂ (hkey₄.trans hkey) hw)
    · exact h₁.setCaller (callerOk_holding hset hkey (.inr rfl))
  | wake c =>
    obtain ⟨key, sc, o, ev, hc, hev, rfl⟩ := step_wake_cases h
    have hcl := hs.callers_ok _ (List.getElem?_mem hc)
    obtain ⟨ev', hev', hkey⟩ := hcl.key o rfl
    obtain ⟨ev'', hev'', hw⟩ := hcl.woken o rfl
    obtain rfl : ev = ev' := Option.some.inj (hev.symm.trans hev')
    obtain rfl : ev = ev'' := Option.some.inj (hev.symm.trans hev'')
    exact hs.setCaller (callerOk_done hev hkey hw)
  | tick o r =>
    obtain ⟨ev, hev, -, hfire⟩ := step_tick_cases h
    have hok := hs.evals_ok ev (List.getElem?_mem hev)
    have h₁ : Inv { s with evals := s.evals.set o { ev with ticked := true } } :=
      hs.setEvals (keeps_set hev rfl fun _ => rfl) (evalOk_set hs.evals_ok ⟨hok.scores_ne, hok.highest⟩)
    exact (h₁.fire hfire).1

/-! ## 3. Requests only accumulate -/

/-- The requests so far: each caller's key and score, in arrival order. -/
def EvalState.requests (s : EvalState) : List (String × Score) :=
  s.callers.map fun c => (c.key, c.score)

theorem requests_getElem? {c : Nat} {cl : Caller} (hc : s.callers[c]? = some cl) :
    s.requests[c]? = some (cl.key, cl.score) := by
  simp [EvalState.requests, hc]

theorem requests_set {c : Nat} {key : String} {sc : Score} {pc : CallerPc}
    (hc : s.requests[c]? = some (key, sc)) :
    (s.callers.set c ⟨key, sc, pc⟩).map (fun c => (c.key, c.score)) = s.requests := by
  have hlt : c < s.callers.length := by
    simpa [EvalState.requests] using (List.getElem?_eq_some_iff.mp hc).1
  apply List.ext_getElem?
  intro i
  simp only [EvalState.requests, List.getElem?_map, List.getElem?_set, hlt, if_true] at hc ⊢
  split
  · subst i; rw [hc]; rfl
  · rfl

theorem fire_requests {o r : Nat} (h : fire s o r = some s') : s'.requests = s.requests := by
  obtain ⟨ev, -, ⟨-, rfl⟩ | ⟨-, w, -, rfl⟩⟩ := fire_cases h
  · rfl
  · simp [EvalState.requests, Function.comp_def]

/-- **A step only appends requests.** -/
theorem step_requests {a : EvalAction} (h : step s a = some s') : s.requests <+: s'.requests := by
  cases a with
  | collect key score => cases h; exact ⟨[(key, score)], by simp [EvalState.requests]⟩
  | lookup c limit =>
    obtain ⟨key, sc, hc, ⟨o, -, rfl⟩ | ⟨-, rfl⟩⟩ := step_lookup_cases h <;>
      exact ⟨[], by rw [List.append_nil]; exact (requests_set (requests_getElem? hc)).symm⟩
  | record c r =>
    obtain ⟨key, sc, o, ev, hc, -, ⟨-, s₂, ev₂, hfire, -, rfl⟩ | ⟨-, rfl⟩⟩ := step_record_cases h
    · have h₂ : s₂.requests = s.requests := (fire_requests hfire :)
      refine ⟨[], ?_⟩
      rw [List.append_nil, ← h₂]
      exact (requests_set (h₂ ▸ requests_getElem? hc)).symm
    · exact ⟨[], by rw [List.append_nil]; exact (requests_set (requests_getElem? hc)).symm⟩
  | wake c =>
    obtain ⟨key, sc, o, ev, hc, -, rfl⟩ := step_wake_cases h
    exact ⟨[], by rw [List.append_nil]; exact (requests_set (requests_getElem? hc)).symm⟩
  | tick o r =>
    obtain ⟨ev, -, -, hfire⟩ := step_tick_cases h
    exact ⟨[], by rw [List.append_nil, fire_requests hfire]; rfl⟩

theorem noNeg_of_step {a : EvalAction} (h : step s a = some s')
    (hneg : ∀ c ∈ s'.callers, c.score.score ≠ -1) : ∀ c ∈ s.callers, c.score.score ≠ -1 := by
  intro c hc
  obtain ⟨c', hc', he⟩ := List.mem_map.mp
    ((step_requests h).subset (List.mem_map_of_mem (fun c => (c.key, c.score)) hc))
  rw [← (Prod.mk.inj he).2]
  exact hneg c' hc'

end Preservation

/-- **The invariant holds on every reachable state whose requests avoid the score `-1`.** -/
theorem reachable_inv {s : EvalState} (hs : Reachable s)
    (hneg : ∀ c ∈ s.callers, c.score.score ≠ -1) : Inv s := by
  induction hs with
  | init => exact inv_init
  | step a _ h ih => exact inv_step (ih (noNeg_of_step h hneg)) (noNeg_of_step h hneg) h

/-! ## 4. Permits

`CollectScore` answers `Permit = true` when the winner is on the request's own node.  Within
one evaluator, the invariant makes every caller that returned read one winner, so at most one
of them is permitted.  Across evaluators nothing links the winners: once `fire` has deleted
the key from `e.evaluators`, a late request for the same key starts a fresh evaluator, which
elects the late score too. -/

/-- **Callers that returned from one evaluator returned the same winner**, and had its key. -/
theorem Inv.done_agree {s : EvalState} (hs : Inv s) {a b : Caller} (ha : a ∈ s.callers)
    (hb : b ∈ s.callers) {o : Nat} {w w' : Score} (hpa : a.pc = .done o w)
    (hpb : b.pc = .done o w') : w = w' ∧ a.key = b.key := by
  obtain ⟨ev, hev, rfl, -⟩ := (hs.callers_ok a ha).done o w hpa
  obtain ⟨ev', hev', rfl, -⟩ := (hs.callers_ok b hb).done o w' hpb
  obtain ⟨e₁, he₁, hk₁⟩ := (hs.callers_ok a ha).key o (by rw [hpa]; rfl)
  obtain ⟨e₂, he₂, hk₂⟩ := (hs.callers_ok b hb).key o (by rw [hpb]; rfl)
  obtain rfl : ev = ev' := Option.some.inj (hev.symm.trans hev')
  obtain rfl : ev = e₁ := Option.some.inj (hev.symm.trans he₁)
  obtain rfl : ev = e₂ := Option.some.inj (hev.symm.trans he₂)
  exact ⟨rfl, hk₁.symm.trans hk₂⟩

/-- **At most one permit per evaluator.**  On a reachable state whose requests avoid the
score `-1`, and whose requests for one key come from distinct nodes, no two requests are
permitted by the same evaluator. -/
theorem permit_atMostOnce {s : EvalState} (hs : Reachable s)
    (hneg : ∀ c ∈ s.callers, c.score.score ≠ -1)
    (hnodes : s.callers.Pairwise fun a b => a.key = b.key → a.score.nodeName ≠ b.score.nodeName) :
    s.callers.Pairwise fun a b => ∀ o, a.PermittedBy o → ¬ b.PermittedBy o := by
  have hinv := reachable_inv hs hneg
  refine hnodes.imp_of_mem fun ha hb hab o ⟨w, hpa, hwa⟩ ⟨w', hpb, hwb⟩ => ?_
  obtain ⟨rfl, hkey⟩ := hinv.done_agree ha hb hpa hpb
  exact hab hkey (hwa.symm.trans hwb)

/-- Two nodes score one pod with the member count `2`: the second score reaches the quorum and
fires, and the first caller is woken. -/
def quorumTrace : List EvalAction :=
  [.collect "default/p" ⟨"node-a", 5⟩, .lookup 0 2, .collect "default/p" ⟨"node-b", 3⟩,
    .lookup 1 2, .record 0 0, .record 1 0, .wake 0]

/-- The state `quorumTrace` reaches. -/
def quorumState : EvalState := (run EvalState.init quorumTrace).getD EvalState.init

theorem permit_atMostOnce_quorum :
    Reachable quorumState ∧ (∀ c ∈ quorumState.callers, c.score.score ≠ -1) ∧
      (quorumState.callers.Pairwise fun a b => a.key = b.key → a.score.nodeName ≠ b.score.nodeName) ∧
      quorumState.callers.Pairwise fun a b => ∀ o, a.PermittedBy o → ¬ b.PermittedBy o :=
  ⟨reachable_run Reachable.init quorumTrace rfl, by decide, by decide,
    permit_atMostOnce (reachable_run Reachable.init quorumTrace rfl) (by decide) (by decide)⟩

/-- The score of `node-a` for `default/p` fires its evaluator by the timer; `node-b`'s score
for the same pod arrives afterwards, starts a second evaluator and wins there. -/
def lateTrace : List EvalAction :=
  [.collect "default/p" ⟨"node-a", 5⟩, .lookup 0 2, .record 0 0, .tick 0 0, .wake 0,
    .collect "default/p" ⟨"node-b", 3⟩, .lookup 1 2, .record 1 0, .tick 1 0, .wake 1]

/-- The state `lateTrace` reaches. -/
def lateState : EvalState := (run EvalState.init lateTrace).getD EvalState.init

/-- **Two permits for one pod key.**  Running `lateTrace`, the two requests for `default/p`,
from distinct nodes, both end permitted, each by its own evaluator: `node-b` gets its own score
`3` back although `node-a`'s `5` was recorded for the same key. -/
theorem lateScore_secondPermit :
    ∃ s, run EvalState.init lateTrace = some s ∧ ∃ a ∈ s.callers, ∃ b ∈ s.callers,
      a.key = b.key ∧ a.score.nodeName ≠ b.score.nodeName ∧
        (∃ o, a.PermittedBy o) ∧ ∃ o, b.PermittedBy o := by
  have hcallers : lateState.callers =
      [⟨"default/p", ⟨"node-a", 5⟩, .done 0 ⟨"node-a", 5⟩⟩,
        ⟨"default/p", ⟨"node-b", 3⟩, .done 1 ⟨"node-b", 3⟩⟩] := by decide
  refine ⟨lateState, rfl, ⟨"default/p", ⟨"node-a", 5⟩, .done 0 ⟨"node-a", 5⟩⟩, ?_,
    ⟨"default/p", ⟨"node-b", 3⟩, .done 1 ⟨"node-b", 3⟩⟩, ?_, rfl, by decide,
    ⟨0, _, rfl, rfl⟩, ⟨1, _, rfl, rfl⟩⟩ <;> simp [hcallers]

end DistScheduler
