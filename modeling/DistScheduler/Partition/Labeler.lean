/-
# The node labeler across leadership terms

Each time this peer wins the lease, `OnStartedLeading` runs `startNodeLabeler(lctx, ...)`.  It
allocates an atomic `dirty`, a `lastUpdateTime` and an unbuffered `dirtyChan`, registers the
closure `stateChanged` with the `SchedulerSet` (`AddUpdateHandler`) and with a node informer run
on `lctx`, runs a first `updateNodeLabels`, and starts a loop goroutine.  The loop receives from
`dirtyChan`, ticks every `minInterval`, and returns on `<-ctx.Done()`.  `stateChanged` stores
`dirty` and, when the last relabel is more than `minInterval` ago, sends on `dirtyChan`.

An informer runs each registered handler in a listener goroutine that takes one notification at
a time and queues the others without bound.  The model is a state machine over every
interleaving of terms, notifications, listener steps, loop steps and the passing of time.

The node informer stops with `lctx`, but the `SchedulerSet`'s EndpointSlice informer runs for
the life of the process, and `AddUpdateHandler` cannot remove a handler.  So after a term ends,
every EndpointSlice change still reaches that term's `stateChanged`.  Its `lastUpdateTime` no
longer moves, so from `minInterval` after the term's last relabel on, the call sends on a
channel whose only receiver has returned.  That send never completes, and every later
EndpointSlice notification queues behind it (`strandedWith_run`, `termEnd_strandsSender`).
While the loop has not returned, a blocked send can always be received (`sending_unblocks`).
-/
import Mathlib.Algebra.Order.Ring.Nat
import Mathlib.Data.List.Basic

namespace DistScheduler

/-! ## 1. Terms and listeners -/

/-- `minInterval`, in seconds. -/
def minInterval : Nat := 30

/-- Where a term's loop goroutine is. -/
inductive LoopPc
  /-- `startNodeLabeler` has registered `stateChanged` and is syncing the node informer and
  running the first `updateNodeLabels`; the loop has not started. -/
  | syncing
  /-- In its `select`. -/
  | running
  /-- It took `<-ctx.Done()` and returned. -/
  | returned
deriving DecidableEq, Repr

/-- The two informers whose listeners call a term's `stateChanged`: the `SchedulerSet`'s
EndpointSlice informer, through `AddUpdateHandler`, and the term's node informer. -/
inductive Source
  | slices
  | nodes
deriving DecidableEq, Repr

/-- A listener goroutine: the notifications queued for it, and whether it is blocked in
`dirtyChan <- struct{}{}`. -/
structure Listener where
  backlog : Nat
  sending : Bool
deriving DecidableEq, Repr

/-- One term's labeler: whether `lctx` is cancelled, its loop, the `dirty` flag, the
`lastUpdateTime` both goroutines read, and the listeners of its two handlers. -/
structure Term where
  ctxDone : Bool
  loop : LoopPc
  dirty : Bool
  lastUpdateTime : Nat
  slices : Listener
  nodes : Listener
deriving DecidableEq, Repr

namespace Term

def listener (t : Term) : Source → Listener
  | .slices => t.slices
  | .nodes => t.nodes

def setListener (t : Term) : Source → Listener → Term
  | .slices, l => { t with slices := l }
  | .nodes, l => { t with nodes := l }

@[simp] theorem listener_setListener (t : Term) (src : Source) (l : Listener) :
    (t.setListener src l).listener src = l := by
  cases src <;> rfl

@[simp] theorem setListener_ctxDone (t : Term) (src : Source) (l : Listener) :
    (t.setListener src l).ctxDone = t.ctxDone := by
  cases src <;> rfl

@[simp] theorem setListener_loop (t : Term) (src : Source) (l : Listener) :
    (t.setListener src l).loop = t.loop := by
  cases src <;> rfl

theorem listener_setListener_ne (t : Term) {src src' : Source} (l : Listener) (h : src' ≠ src) :
    (t.setListener src l).listener src' = t.listener src' := by
  cases src <;> cases src' <;> first | rfl | exact absurd rfl h

/-- What `startNodeLabeler` sets up: `dirty` stored `true`, `lastUpdateTime` now. -/
def started (now : Nat) : Term := ⟨false, .syncing, true, now, ⟨0, false⟩, ⟨0, false⟩⟩

/-- The informer queues a notification for listener `src`. -/
def notify (t : Term) (src : Source) : Term :=
  t.setListener src { t.listener src with backlog := (t.listener src).backlog + 1 }

/-- Listener `src` takes its next notification and runs `stateChanged`: `dirty.Store(true)`, and
`dirtyChan <- struct{}{}` if `time.Since(lastUpdateTime) > minInterval`. -/
def stateChanged (now : Nat) (t : Term) (src : Source) : Term :=
  { t.setListener src ⟨(t.listener src).backlog - 1, now - t.lastUpdateTime > minInterval⟩ with
    dirty := true }

/-- The body of the loop's `<-dirtyChan` and `<-ticker.C` cases: if `dirty.Swap(false)`, run
`updateNodeLabels` and set `lastUpdateTime`. -/
def relabel (now : Nat) (t : Term) : Term :=
  if t.dirty then { t with dirty := false, lastUpdateTime := now } else t

end Term

/-- The clock, and every term this process has led, oldest first.  A term is never removed:
neither are its handlers. -/
structure LabelerState where
  now : Nat
  terms : List Term
deriving DecidableEq, Repr

def LabelerState.init : LabelerState := ⟨0, []⟩

/-- What can happen next. -/
inductive LabelerAction
  /-- `OnStartedLeading` calls `startNodeLabeler`. -/
  | startedLeading
  /-- The lease is lost and `lctx` is cancelled. -/
  | stoppedLeading
  /-- `d` seconds pass. -/
  | elapse (d : Nat)
  /-- An EndpointSlice is added, changes generation, or is deleted: every handler registered
  through `AddUpdateHandler` is notified. -/
  | sliceEvent
  /-- A node is added or deleted: the node informer of the live term is notified. -/
  | nodeEvent
  /-- Listener `src` of term `k` runs its next notification. -/
  | handle (k : Nat) (src : Source)
  /-- Term `k`'s first `updateNodeLabels` is done; `lastUpdateTime` is set and the loop
  starts. -/
  | startLoop (k : Nat)
  /-- Term `k`'s loop receives listener `src`'s send on `dirtyChan`. -/
  | receive (k : Nat) (src : Source)
  /-- Term `k`'s ticker fires. -/
  | tick (k : Nat)
  /-- Term `k`'s loop takes `<-ctx.Done()` and returns. -/
  | exit (k : Nat)

/-- One step; `none` when the action is not enabled.  A new term starts only once every earlier
`lctx` is cancelled: `LeaderElector.Run` cancels it before it returns. -/
def labelerStep (s : LabelerState) : LabelerAction → Option LabelerState
  | .startedLeading =>
    if s.terms.all (·.ctxDone) then some { s with terms := s.terms ++ [Term.started s.now] }
    else none
  | .stoppedLeading => some { s with terms := s.terms.map fun t => { t with ctxDone := true } }
  | .elapse d => some { s with now := s.now + d }
  | .sliceEvent => some { s with terms := s.terms.map fun t => t.notify .slices }
  | .nodeEvent =>
    some { s with terms := s.terms.map fun t => if t.ctxDone then t else t.notify .nodes }
  | .handle k src =>
    match s.terms[k]? with
    | some t =>
      if 0 < (t.listener src).backlog ∧ (t.listener src).sending = false then
        some { s with terms := s.terms.set k (t.stateChanged s.now src) }
      else none
    | none => none
  | .startLoop k =>
    match s.terms[k]? with
    | some t =>
      if t.loop = .syncing then
        some { s with terms := s.terms.set k { t with loop := .running, lastUpdateTime := s.now } }
      else none
    | none => none
  | .receive k src =>
    match s.terms[k]? with
    | some t =>
      if t.loop = .running ∧ (t.listener src).sending = true then
        let t' := t.setListener src { t.listener src with sending := false }
        some { s with terms := s.terms.set k (t'.relabel s.now) }
      else none
    | none => none
  | .tick k =>
    match s.terms[k]? with
    | some t => if t.loop = .running then some { s with terms := s.terms.set k (t.relabel s.now) }
      else none
    | none => none
  | .exit k =>
    match s.terms[k]? with
    | some t =>
      if t.loop = .running ∧ t.ctxDone = true then
        some { s with terms := s.terms.set k { t with loop := .returned } }
      else none
    | none => none

/-- Run a list of actions. -/
def labelerRun (s : LabelerState) : List LabelerAction → Option LabelerState
  | [] => some s
  | a :: as => (labelerStep s a).bind fun s' => labelerRun s' as

/-! ## 2. A send after the loop has returned -/

/-- The notifications `a` queues for listener `src` of a term whose `lctx` is cancelled: one for
each EndpointSlice event, for the `SchedulerSet`'s listener. -/
def queued (src : Source) : LabelerAction → Nat
  | .sliceEvent => if src = .slices then 1 else 0
  | _ => 0

/-- The term's `lctx` is cancelled, its loop has returned, and listener `src` is blocked in
`dirtyChan <- struct{}{}` with `backlog` notifications queued behind it. -/
def Term.Stranded (t : Term) (src : Source) (backlog : Nat) : Prop :=
  t.ctxDone = true ∧ t.loop = .returned ∧ t.listener src = ⟨backlog, true⟩

/-- Listener `src` of term `k` is stranded. -/
def StrandedWith (s : LabelerState) (k : Nat) (src : Source) (backlog : Nat) : Prop :=
  ∃ t, s.terms[k]? = some t ∧ t.Stranded src backlog

/-- An action on one term leaves the others as they are. -/
theorem strandedWith_set {terms : List Term} {k j : Nat} {src : Source} {n : Nat} {t x : Term}
    (now : Nat) (ht : terms[k]? = some t) (hst : t.Stranded src n)
    (hx : j = k → x.Stranded src n) : StrandedWith ⟨now, terms.set j x⟩ k src n := by
  by_cases hjk : j = k
  · subst hjk
    exact ⟨x, List.getElem?_set_self (List.getElem?_eq_some_iff.mp ht).1, hx rfl⟩
  · exact ⟨t, by rw [List.getElem?_set_ne hjk, ht], hst⟩

/-- **A stranded listener stays blocked**: no step completes its send (only the loop of its
term could receive it), and every EndpointSlice event queues one more notification behind
it. -/
theorem strandedWith_step {s s' : LabelerState} {k : Nat} {src : Source} {n : Nat}
    {a : LabelerAction} (hs : StrandedWith s k src n) (h : labelerStep s a = some s') :
    StrandedWith s' k src (n + queued src a) := by
  obtain ⟨t, ht, hdone, hret, hl⟩ := hs
  have hk : k < s.terms.length := (List.getElem?_eq_some_iff.mp ht).1
  have hone : ∀ j x, (j = k → x.Stranded src n) →
      StrandedWith ⟨s.now, s.terms.set j x⟩ k src n :=
    fun j x hx => strandedWith_set s.now ht ⟨hdone, hret, hl⟩ hx
  cases a <;> simp only [queued, Nat.add_zero]
  case startedLeading =>
    simp only [labelerStep] at h
    split_ifs at h
    cases h
    exact ⟨t, by rw [List.getElem?_append_left hk, ht], hdone, hret, hl⟩
  case stoppedLeading =>
    cases h
    exact ⟨{ t with ctxDone := true }, by rw [List.getElem?_map, ht]; rfl, rfl, hret,
      by cases src <;> exact hl⟩
  case elapse d => cases h; exact ⟨t, ht, hdone, hret, hl⟩
  case sliceEvent =>
    cases h
    refine ⟨t.notify .slices, by rw [List.getElem?_map, ht]; rfl, by simp [Term.notify, hdone],
      by simp [Term.notify, hret], ?_⟩
    cases src
    · simp [Term.notify, hl]
    · simpa using (Term.listener_setListener_ne t _ (by decide)).trans hl
  case nodeEvent =>
    cases h
    exact ⟨t, by rw [List.getElem?_map, ht]; simp [hdone], hdone, hret, hl⟩
  -- the rest act on one term `j`, found at `x`: only `j = k` needs a look, where `x` is `t`
  all_goals
    simp only [labelerStep] at h
    split at h
    swap; · cases h
    rename_i x hx
    split_ifs at h with hg
    cases h
    refine hone _ _ fun hjk => ?_
    subst hjk
    rw [ht, Option.some.injEq] at hx
    subst hx
  · -- `handle`: of this listener it is not enabled, and of the other it leaves this one blocked
    rename_i src' _
    by_cases hsrc : src' = src
    · subst hsrc; simp [hl] at hg
    · exact ⟨by simp [Term.stateChanged, hdone], by simp [Term.stateChanged, hret],
        (Term.listener_setListener_ne _ _ (Ne.symm hsrc)).trans hl⟩
  -- the loop's steps need a loop that has not returned
  all_goals simp [hret] at hg

/-- **A stranded send never completes**: along every run, the listener stays blocked, and its
queue grows by the run's EndpointSlice events. -/
theorem strandedWith_run {k : Nat} {src : Source} : ∀ {s s' : LabelerState} {n : Nat}
    (acts : List LabelerAction), StrandedWith s k src n → labelerRun s acts = some s' →
      StrandedWith s' k src (n + (acts.map (queued src)).sum)
  | _, _, _, [], hs, h => by cases h; exact hs
  | _, _, _, a :: as, hs, h => by
    obtain ⟨s₁, h₁, h⟩ := Option.bind_eq_some.mp h
    have := strandedWith_run as (strandedWith_step hs h₁) h
    rwa [List.map_cons, List.sum_cons, ← Nat.add_assoc]

/-! ## 3. While the loop has not returned -/

@[simp] theorem Term.relabel_listener (now : Nat) (t : Term) (src : Source) :
    (t.relabel now).listener src = t.listener src := by
  unfold Term.relabel; split <;> cases src <;> rfl

/-- A running loop receives a blocked send. -/
theorem receive_completes {s : LabelerState} {k : Nat} {src : Source} {t : Term}
    (ht : s.terms[k]? = some t) (hrun : t.loop = .running)
    (hsend : (t.listener src).sending = true) :
    ∃ s' t', labelerStep s (.receive k src) = some s' ∧ s'.terms[k]? = some t' ∧
      (t'.listener src).sending = false := by
  refine ⟨_, _, by simp only [labelerStep, ht, hrun, hsend, and_self, if_true]; rfl,
    List.getElem?_set_self (List.getElem?_eq_some_iff.mp ht).1, ?_⟩
  simp

/-- **A blocked send completes while the loop has not returned**: the loop starts if it has
not, and its `select` receives. -/
theorem sending_unblocks {s : LabelerState} {k : Nat} {src : Source} {t : Term}
    (ht : s.terms[k]? = some t) (hsend : (t.listener src).sending = true)
    (hloop : t.loop ≠ .returned) :
    ∃ acts s' t', labelerRun s acts = some s' ∧ s'.terms[k]? = some t' ∧
      (t'.listener src).sending = false := by
  cases hl : t.loop with
  | returned => exact absurd hl hloop
  | running =>
    obtain ⟨s', t', h, ht', hs'⟩ := receive_completes ht hl hsend
    exact ⟨[.receive k src], s', t', by simp [labelerRun, h], ht', hs'⟩
  | syncing =>
    let t₁ : Term := { t with loop := .running, lastUpdateTime := s.now }
    have h₁ : labelerStep s (.startLoop k) = some { s with terms := s.terms.set k t₁ } := by
      simp only [labelerStep, ht, hl, if_true]
    have ht₁ : ({ s with terms := s.terms.set k t₁ } : LabelerState).terms[k]? = some t₁ :=
      List.getElem?_set_self (List.getElem?_eq_some_iff.mp ht).1
    have hsend₁ : (t₁.listener src).sending = true := by cases src <;> exact hsend
    obtain ⟨s', t', h, ht', hs'⟩ := receive_completes ht₁ rfl hsend₁
    exact ⟨[.startLoop k, .receive k src], s', t', by simp [labelerRun, h₁, h], ht', hs'⟩

/-! ## 4. A term that ends -/

/-- One term: it starts its loop, loses the lease, and its loop returns.  `minInterval + 1`
seconds later an EndpointSlice changes, and the term's handler, still registered, runs. -/
def termEndRun : List LabelerAction :=
  [.startedLeading, .startLoop 0, .stoppedLeading, .exit 0, .elapse (minInterval + 1),
    .sliceEvent, .handle 0 .slices]

/-- The state that run reaches. -/
def termEndState : LabelerState :=
  (labelerRun LabelerState.init termEndRun).getD LabelerState.init

/-- After the run, the handler is blocked in `dirtyChan <- struct{}{}` with no receiver, and in
every continuation, through any later terms, it stays blocked while each EndpointSlice event
queues behind it. -/
theorem termEnd_strandsSender :
    labelerRun LabelerState.init termEndRun = some termEndState ∧
      StrandedWith termEndState 0 .slices 0 ∧
      ∀ acts s', labelerRun termEndState acts = some s' →
        StrandedWith s' 0 .slices (acts.map (queued .slices)).sum := by
  have hs : StrandedWith termEndState 0 .slices 0 := ⟨_, rfl, rfl, rfl, rfl⟩
  refine ⟨rfl, hs, fun acts s' h => ?_⟩
  simpa using strandedWith_run acts hs h

end DistScheduler
