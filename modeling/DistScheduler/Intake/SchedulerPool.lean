/-
# The scheduler pool of `ProcessOne`

Each peer runs `NumSchedulers` kube-scheduler instances, each wrapped in a `Scheduler` whose
`nextPod` is the one-pod queue that its `NextPod` reads.  `DistScheduler.Run` puts them on
`schedulerStack`, a `util.Stack`.  Every `ProcessOne` call, from a worker or from
`UnmarshalPodRaw`, takes one with `Pop` (waiting on the stack's condition while it is
empty), panics if its `nextPod` is not nil, sets `nextPod` to its pod, and starts
`ScheduleOne` in a goroutine.  It then waits for the first value on its
`schedulerDoneChan` (capacity 4), which `DistPermit.Permit` sends before it sends the score,
`podScheduleFailure` sends, and the goroutine sends once `ScheduleOne` returns.  Then it
`Push`es the scheduler back.  `NextPod` panics if `nextPod` is nil, and sets it to nil.

The model is a state machine over every interleaving of any number of `ProcessOne` calls
and their `ScheduleOne` goroutines (`poolStep`).  Its invariant (`PoolInv`) is proved for
every reachable state (`poolInv_reachable`).

* The stack and the schedulers that calls hold between `Pop` and `Push` are each scheduler
  once (`schedulerPool_exclusive`).  No two calls hold one scheduler, and `Pop` waits only
  while every scheduler is held.
* Neither `panic` is reachable (`schedulerPool_noNextPodPanic`).  A call that has popped a
  scheduler finds its `nextPod` nil, and `NextPod` returns the pod of the call that started
  that `ScheduleOne`, never nil and never another call's pod.
* `Permit` signals before it sends the score, so a call pushes its scheduler back while the
  `ScheduleOne` it started is still running.  Since the stack is last-in first-out, the next
  call takes the same scheduler.  For every `m`, a reachable state has `m` `ScheduleOne`
  goroutines past `NextPod` on one scheduler at once (`schedulerPool_concurrentRuns`).
-/
import DistScheduler.Intake.Dispatch

namespace DistScheduler

open scoped List

/-! ## 1. `util.Stack` -/

/-- `util.Stack`: its `items`, the top last.  The mutex and the condition are the atomicity of
each operation and the waiting of `Pop`. -/
structure Stack (α : Type) where
  items : List α
deriving DecidableEq, Repr

/-- `NewStack(items)`: a copy of `items`. -/
def newStack {α : Type} (items : List α) : Stack α := ⟨items⟩

/-- `Push`: append. -/
def Stack.push {α : Type} (s : Stack α) (item : α) : Stack α := ⟨s.items ++ [item]⟩

/-- `Pop` once `items` is not empty: the last item and the rest.  `none` is the wait on
`cond` while the stack is empty. -/
def Stack.pop {α : Type} (s : Stack α) : Option (α × Stack α) :=
  s.items.getLast?.map fun item => (item, ⟨s.items.dropLast⟩)

theorem Stack.pop_range (n : Nat) :
    (newStack (List.range (n + 1))).pop = some (n, newStack (List.range n)) := by
  simp [Stack.pop, newStack, List.range_succ]

theorem Stack.push_range (n : Nat) :
    (newStack (List.range n)).push n = newStack (List.range (n + 1)) := by
  simp [Stack.push, newStack, List.range_succ]

theorem Stack.pop_eq_some {α : Type} {s st : Stack α} {item : α}
    (h : s.pop = some (item, st)) : s.items = st.items ++ [item] := by
  obtain ⟨x, hx, hxe⟩ := Option.map_eq_some'.mp h
  cases hxe
  exact (List.dropLast_append_getLast? item hx).symm

/-! ## 2. `ProcessOne` against the pool -/

/-- `NumSchedulers`: the kube-scheduler instances of one peer. -/
def numSchedulers : Nat := 100

/-- `SetupScheduler` creates no scheduler with `relayOnly`, and `NumSchedulers` otherwise. -/
def schedulerCount (relayOnly : Bool) : Nat := if relayOnly then 0 else numSchedulers

/-- Where a `ProcessOne` call is, from the end of `RelayPod` on. -/
inductive CallPc
  /-- At `ds.schedulerStack.Pop()`. -/
  | waitPop
  /-- Holds scheduler `k`, before its `nextPod` check. -/
  | popped (k : Nat)
  /-- Holds `k`, has started `ScheduleOne`, waits on `<-schedulerDoneChan`. -/
  | waiting (k : Nat)
  /-- Holds `k`, has received from `schedulerDoneChan`, before `Push`. -/
  | received (k : Nat)
  /-- Past the pool: pushed back, or `relayOnly`. -/
  | done
deriving DecidableEq, Repr

/-- Where the `ScheduleOne` goroutine a call starts is. -/
inductive RunPc
  /-- Not started. -/
  | notStarted
  /-- About to call `NextPod` on scheduler `k`. -/
  | atNextPod (k : Nat)
  /-- `NextPod` returned `pod`; the scheduling cycle, `Permit` and the failure handler run. -/
  | running (k : Nat) (pod : Pod)
  /-- `ScheduleOne` returned, before the goroutine's own send. -/
  | returned (k : Nat)
  /-- The goroutine has sent and ended. -/
  | exited
deriving DecidableEq, Repr

/-- The `ScheduleOne` goroutine has passed `NextPod`. -/
def RunPc.pastNextPod : RunPc → Bool
  | .running _ _ | .returned _ | .exited => true
  | _ => false

/-- One `ProcessOne` call: its pod, where it is, its `ScheduleOne` goroutine, and the values
buffered in its `schedulerDoneChan`. -/
structure PoolCall where
  pod : Pod
  pc : CallPc
  run : RunPc
  signals : Nat
deriving DecidableEq, Repr

/-- The pool: `schedulerStack` (schedulers by their index in `ds.schedulers`), each
scheduler's `nextPod`, and the calls. -/
structure PoolState where
  stack : Stack Nat
  nextPod : Nat → Option Pod
  calls : List PoolCall

/-- `DistScheduler.Run`'s `NewStack(ds.schedulers)`, every `nextPod` nil, no call. -/
def PoolState.init (n : Nat) : PoolState := ⟨newStack (List.range n), fun _ => none, []⟩

/-- `make(chan struct{}, 4)`. -/
def schedulerDoneCap : Nat := 4

/-- What can happen next. -/
inductive PoolAction
  /-- A worker or `UnmarshalPodRaw` calls `ProcessOne` with `pod`, and `RelayPod` succeeds. -/
  | processOne (pod : Pod)
  /-- Call `c`'s `Pop` returns. -/
  | pop (c : Nat)
  /-- Call `c` checks `nextPod`, sets it and starts `ScheduleOne`. -/
  | setNextPod (c : Nat)
  /-- Call `c`'s `ScheduleOne` calls `NextPod`. -/
  | nextPod (c : Nat)
  /-- `Permit`, or `podScheduleFailure` from the scheduling or the binding cycle, sends on call
  `c`'s channel: any time after its `ScheduleOne` has passed `NextPod`. -/
  | signal (c : Nat)
  /-- Call `c`'s `ScheduleOne` returns. -/
  | scheduleOneReturn (c : Nat)
  /-- Call `c`'s goroutine sends after `ScheduleOne`. -/
  | sendDone (c : Nat)
  /-- Call `c` receives from its channel. -/
  | receive (c : Nat)
  /-- Call `c` pushes its scheduler back. -/
  | push (c : Nat)

/-- One atomic step; `none` when the thread is not there, when it waits (an empty stack, a
full channel), or when Go panics (`ProcessOne`'s pod-name test, either `nextPod` panic). -/
def poolStep (relayOnly : Bool) (s : PoolState) : PoolAction → Option PoolState
  | .processOne pod => (processOne pod).map fun _ =>
    { s with calls := s.calls ++ [⟨pod, if relayOnly then .done else .waitPop, .notStarted, 0⟩] }
  | .pop c =>
    match s.calls[c]?, s.stack.pop with
    | some ⟨pod, .waitPop, run, sig⟩, some (k, st) =>
      some { s with stack := st, calls := s.calls.set c ⟨pod, .popped k, run, sig⟩ }
    | _, _ => none
  | .setNextPod c =>
    match s.calls[c]? with
    | some ⟨pod, .popped k, _, _⟩ =>
      match s.nextPod k with
      | some _ => none
      | none =>
        some { s with
          nextPod := Function.update s.nextPod k (some pod)
          calls := s.calls.set c ⟨pod, .waiting k, .atNextPod k, 0⟩ }
    | _ => none
  | .nextPod c =>
    match s.calls[c]? with
    | some ⟨pod, pc, .atNextPod k, sig⟩ =>
      (s.nextPod k).map fun p =>
        { s with
          nextPod := Function.update s.nextPod k none
          calls := s.calls.set c ⟨pod, pc, .running k p, sig⟩ }
    | _ => none
  | .signal c =>
    match s.calls[c]? with
    | some ⟨pod, pc, run, sig⟩ =>
      if run.pastNextPod ∧ sig < schedulerDoneCap then
        some { s with calls := s.calls.set c ⟨pod, pc, run, sig + 1⟩ }
      else none
    | none => none
  | .scheduleOneReturn c =>
    match s.calls[c]? with
    | some ⟨pod, pc, .running k _, sig⟩ =>
      some { s with calls := s.calls.set c ⟨pod, pc, .returned k, sig⟩ }
    | _ => none
  | .sendDone c =>
    match s.calls[c]? with
    | some ⟨pod, pc, .returned _, sig⟩ =>
      if sig < schedulerDoneCap then
        some { s with calls := s.calls.set c ⟨pod, pc, .exited, sig + 1⟩ }
      else none
    | _ => none
  | .receive c =>
    match s.calls[c]? with
    | some ⟨pod, .waiting k, run, sig + 1⟩ =>
      some { s with calls := s.calls.set c ⟨pod, .received k, run, sig⟩ }
    | _ => none
  | .push c =>
    match s.calls[c]? with
    | some ⟨pod, .received k, run, sig⟩ =>
      some { s with stack := s.stack.push k, calls := s.calls.set c ⟨pod, .done, run, sig⟩ }
    | _ => none

/-- Run a list of actions. -/
def poolRun (relayOnly : Bool) (s : PoolState) : List PoolAction → Option PoolState
  | [] => some s
  | a :: as => (poolStep relayOnly s a).bind fun s' => poolRun relayOnly s' as

/-- The states some run from the start reaches. -/
inductive PoolReachable (relayOnly : Bool) : PoolState → Prop
  | init : PoolReachable relayOnly (PoolState.init (schedulerCount relayOnly))
  | step {s s' : PoolState} (a : PoolAction) : PoolReachable relayOnly s →
      poolStep relayOnly s a = some s' → PoolReachable relayOnly s'

theorem poolReachable_run {relayOnly : Bool} {s s' : PoolState}
    (hs : PoolReachable relayOnly s) (as : List PoolAction)
    (h : poolRun relayOnly s as = some s') : PoolReachable relayOnly s' := by
  induction as generalizing s with
  | nil => cases h; exact hs
  | cons a as ih =>
    obtain ⟨s₁, h₁, h⟩ := Option.bind_eq_some.mp h
    exact ih (PoolReachable.step a hs h₁) h

/-! ## 3. Held schedulers -/

/-- The scheduler a call holds between `Pop` and `Push`. -/
def CallPc.holds : CallPc → Option Nat
  | .popped k | .waiting k | .received k => some k
  | _ => none

/-- The schedulers the calls hold. -/
def held (calls : List PoolCall) : List Nat := calls.filterMap fun call => call.pc.holds

theorem held_cons (x : PoolCall) (l : List PoolCall) :
    held (x :: l) = x.pc.holds.toList ++ held l := by
  unfold held
  cases h : x.pc.holds <;> simp [List.filterMap_cons, h]

theorem held_append (l l' : List PoolCall) : held (l ++ l') = held l ++ held l' :=
  List.filterMap_append _ _ _

theorem mem_held {l : List PoolCall} {i k : Nat} {x : PoolCall} (h : l[i]? = some x)
    (hx : x.pc.holds = some k) : k ∈ held l :=
  List.mem_filterMap.mpr ⟨x, List.getElem?_mem h, hx⟩

/-- Replacing one call changes the held schedulers by what it held and holds. -/
theorem held_set {c : Nat} {x y : PoolCall} : ∀ {l : List PoolCall}, l[c]? = some x →
    held (l.set c y) ++ x.pc.holds.toList ~ held l ++ y.pc.holds.toList
  | [], h => by simp at h
  | a :: t, h => by
    cases c with
    | zero =>
      cases Option.some.inj (List.getElem?_cons_zero.symm.trans h)
      rw [List.perm_iff_count]
      intro k
      simp only [List.set_cons_zero, held_cons, List.count_append]
      omega
    | succ c =>
      rw [List.getElem?_cons_succ] at h
      simp only [List.set_cons_succ, held_cons, List.append_assoc]
      exact (held_set h).append_left _

/-- Two calls never hold the same scheduler while the held schedulers are distinct. -/
theorem holds_ne {i j k : Nat} {x y : PoolCall} : ∀ {l : List PoolCall}, (held l).Nodup →
    l[i]? = some x → l[j]? = some y → i ≠ j → x.pc.holds = some k → y.pc.holds ≠ some k
  | [], _, hi, _, _, _ => by simp at hi
  | a :: t, hnd, hi, hj, hij, hx => by
    rw [held_cons, List.nodup_append] at hnd
    cases i with
    | zero =>
      cases j with
      | zero => exact absurd rfl hij
      | succ j =>
        cases Option.some.inj (List.getElem?_cons_zero.symm.trans hi)
        rw [List.getElem?_cons_succ] at hj
        exact fun hy => hnd.2.2 (by simp [hx]) (mem_held hj hy)
    | succ i =>
      rw [List.getElem?_cons_succ] at hi
      cases j with
      | zero =>
        cases Option.some.inj (List.getElem?_cons_zero.symm.trans hj)
        exact fun hy => hnd.2.2 (by simp [hy]) (mem_held hi hx)
      | succ j =>
        rw [List.getElem?_cons_succ] at hj
        exact holds_ne hnd.2.1 hi hj (by omega) hx

/-! ## 4. The invariant -/

/-- What a call's phase says about its goroutine and the `nextPod` of the scheduler it holds:
a popped scheduler's `nextPod` is nil; between setting it and `NextPod` it is the call's pod,
and the channel is empty; after `NextPod` it is nil again.  A goroutine past `NextPod` works
on the call's own pod. -/
def PoolCallOk (nextPod : Nat → Option Pod) (call : PoolCall) : Prop :=
  (∀ k p, call.run = .running k p → p = call.pod) ∧
    match call.pc with
    | .waitPop => call.run = .notStarted
    | .popped k => call.run = .notStarted ∧ nextPod k = none
    | .waiting k => (call.run = .atNextPod k ∧ nextPod k = some call.pod ∧ call.signals = 0) ∨
        (call.run.pastNextPod ∧ nextPod k = none)
    | .received k => call.run.pastNextPod ∧ nextPod k = none
    | .done => call.run = .notStarted ∨ call.run.pastNextPod

/-- `PoolCallOk` reads `nextPod` only at the scheduler the call holds. -/
theorem poolCallOk_update {f : Nat → Option Pod} {k : Nat} {v : Option Pod} {x : PoolCall}
    (hx : x.pc.holds ≠ some k) : PoolCallOk (Function.update f k v) x ↔ PoolCallOk f x := by
  rcases x with ⟨pod, pc, run, sig⟩
  cases pc <;> simp_all [PoolCallOk, CallPc.holds, Function.update_apply]

/-- The pool's invariant: the stack and the held schedulers are each scheduler once, the
stack's schedulers have a nil `nextPod`, and every call is `PoolCallOk`. -/
structure PoolInv (n : Nat) (s : PoolState) : Prop where
  perm : s.stack.items ++ held s.calls ~ List.range n
  stack_free : ∀ k ∈ s.stack.items, s.nextPod k = none
  calls_ok : ∀ (c : Nat) (x : PoolCall), s.calls[c]? = some x → PoolCallOk s.nextPod x

section Inv

variable {n : Nat} {s : PoolState}

theorem PoolInv.nodup (hi : PoolInv n s) : (s.stack.items ++ held s.calls).Nodup :=
  hi.perm.nodup_iff.mpr (List.nodup_range n)

theorem PoolInv.not_mem_stack (hi : PoolInv n s) {k : Nat} (hk : k ∈ held s.calls) :
    k ∉ s.stack.items :=
  fun hs => List.disjoint_of_nodup_append hi.nodup hs hk

theorem poolInv_init (n : Nat) : PoolInv n (PoolState.init n) :=
  ⟨by simp [PoolState.init, newStack, held], by simp [PoolState.init], by simp [PoolState.init]⟩

/-- A step that replaces one call, holding what it held, and leaves `nextPod` alone. -/
theorem PoolInv.setCall (hi : PoolInv n s) {c : Nat} {x y : PoolCall}
    (hc : s.calls[c]? = some x) (hxy : x.pc.holds = y.pc.holds) (hy : PoolCallOk s.nextPod y) :
    PoolInv n { s with calls := s.calls.set c y } := by
  have hheld : held (s.calls.set c y) ~ held s.calls := by
    have := held_set (y := y) hc
    rwa [hxy, List.perm_append_right_iff] at this
  exact ⟨(hheld.append_left _).trans hi.perm, hi.stack_free,
    forall_getElem?_set hc (fun c' z hz _ => hi.calls_ok c' z hz) hy⟩

/-- A step that replaces the call holding `k` and changes `nextPod` only at `k`. -/
theorem PoolInv.setCallNextPod (hi : PoolInv n s) {c k : Nat} {x y : PoolCall} {v : Option Pod}
    (hc : s.calls[c]? = some x) (hx : x.pc.holds = some k) (hy : y.pc.holds = some k)
    (hok : PoolCallOk (Function.update s.nextPod k v) y) :
    PoolInv n { s with nextPod := Function.update s.nextPod k v, calls := s.calls.set c y } := by
  have hheld : held (s.calls.set c y) ~ held s.calls := by
    have := held_set (y := y) hc
    rwa [hx, hy, List.perm_append_right_iff] at this
  have hk := hi.not_mem_stack (mem_held hc hx)
  refine ⟨(hheld.append_left _).trans hi.perm, fun k' hk' => ?_, ?_⟩
  · have hk'k : k' ≠ k := fun h => hk (h ▸ hk')
    exact (Function.update_noteq hk'k _ _).trans (hi.stack_free k' hk')
  · refine forall_getElem?_set hc (fun c' z hz hne => ?_) hok
    have hnd := (List.nodup_append.mp hi.nodup).2.1
    exact (poolCallOk_update (holds_ne hnd hc hz (Ne.symm hne) hx)).mpr (hi.calls_ok c' z hz)

/-- `schedulerStack.Pop()`: the top index moves from the stack to the call. -/
theorem PoolInv.pop (hi : PoolInv n s) {c k sig : Nat} {pod : Pod} {run : RunPc} {st : Stack Nat}
    (hc : s.calls[c]? = some ⟨pod, .waitPop, run, sig⟩) (hpop : s.stack.pop = some (k, st)) :
    PoolInv n { s with stack := st, calls := s.calls.set c ⟨pod, .popped k, run, sig⟩ } := by
  have hst := Stack.pop_eq_some hpop
  have hrun : run = .notStarted := (hi.calls_ok c _ hc).2
  have hk : s.nextPod k = none := hi.stack_free k (by simp [hst])
  refine ⟨?_, fun k' hk' => hi.stack_free k' (by simp [hst, hk']),
    forall_getElem?_set hc (fun c' z hz _ => hi.calls_ok c' z hz) ⟨by simp [hrun], hrun, hk⟩⟩
  have hheld : held (s.calls.set c ⟨pod, .popped k, run, sig⟩) ~ held s.calls ++ [k] := by
    simpa [CallPc.holds] using held_set (y := ⟨pod, .popped k, run, sig⟩) hc
  calc st.items ++ held (s.calls.set c ⟨pod, .popped k, run, sig⟩)
      ~ st.items ++ ([k] ++ held s.calls) := (hheld.trans List.perm_append_comm).append_left _
    _ = s.stack.items ++ held s.calls := by rw [hst, List.append_assoc]
    _ ~ List.range n := hi.perm

/-- `schedulerStack.Push(k)`: the index moves from the call back to the stack. -/
theorem PoolInv.push (hi : PoolInv n s) {c k sig : Nat} {pod : Pod} {run : RunPc}
    (hc : s.calls[c]? = some ⟨pod, .received k, run, sig⟩) :
    PoolInv n
      { s with stack := s.stack.push k, calls := s.calls.set c ⟨pod, .done, run, sig⟩ } := by
  have hok := hi.calls_ok c _ hc
  have hheld : held (s.calls.set c ⟨pod, .done, run, sig⟩) ++ [k] ~ held s.calls := by
    simpa [CallPc.holds] using held_set (y := ⟨pod, .done, run, sig⟩) hc
  refine ⟨?_, fun k' hk' => ?_, forall_getElem?_set hc (fun c' z hz _ => hi.calls_ok c' z hz)
    ⟨hok.1, .inr hok.2.1⟩⟩
  · calc (s.stack.push k).items ++ held (s.calls.set c ⟨pod, .done, run, sig⟩)
        = s.stack.items ++ ([k] ++ held (s.calls.set c ⟨pod, .done, run, sig⟩)) := by
          simp [Stack.push]
      _ ~ s.stack.items ++ held s.calls := (List.perm_append_comm.trans hheld).append_left _
      _ ~ List.range n := hi.perm
  · rcases List.mem_append.mp hk' with hk' | hk'
    · exact hi.stack_free k' hk'
    · rw [List.mem_singleton.mp hk']
      exact hok.2.2

/-- A phase with the goroutine at `NextPod` is `waiting`, with the call's pod in `nextPod`. -/
theorem PoolCallOk.atNextPod {f : Nat → Option Pod} {pod : Pod} {pc : CallPc} {k sig : Nat}
    (h : PoolCallOk f ⟨pod, pc, .atNextPod k, sig⟩) : pc = .waiting k ∧ f k = some pod := by
  cases pc <;> simp_all [PoolCallOk, RunPc.pastNextPod]

/-- Steps of a goroutine past `NextPod` keep its call's `PoolCallOk`. -/
theorem PoolCallOk.advance {f : Nat → Option Pod} {pod : Pod} {pc : CallPc} {r r' : RunPc}
    {sig sig' : Nat} (h : PoolCallOk f ⟨pod, pc, r, sig⟩) (hr : r.pastNextPod)
    (hr' : r'.pastNextPod) (hown : ∀ k p, r' = .running k p → p = pod) :
    PoolCallOk f ⟨pod, pc, r', sig'⟩ := by
  have hns : r ≠ .notStarted := by rintro rfl; cases hr
  have hna : ∀ k, r ≠ .atNextPod k := by rintro k rfl; cases hr
  refine ⟨hown, ?_⟩
  have h := h.2
  cases pc with
  | waitPop => exact absurd h hns
  | popped k => exact absurd h.1 hns
  | waiting k => exact .inr ⟨hr', (Or.resolve_left h fun h' => hna k h'.1).2⟩
  | received k => exact ⟨hr', h.2⟩
  | done => exact .inr hr'

theorem poolInv_step {relayOnly : Bool} {s' : PoolState} {a : PoolAction} (hi : PoolInv n s)
    (h : poolStep relayOnly s a = some s') : PoolInv n s' := by
  cases a with
  | processOne pod =>
    obtain ⟨-, -, rfl⟩ := Option.map_eq_some'.mp h
    have hnew : held [⟨pod, if relayOnly then .done else .waitPop, .notStarted, 0⟩] = [] := by
      cases relayOnly <;> rfl
    refine ⟨by rw [held_append, hnew, List.append_nil]; exact hi.perm, hi.stack_free,
      fun c x hc => ?_⟩
    rcases getElem?_concat_eq_some hc with hc | ⟨-, rfl⟩
    · exact hi.calls_ok c x hc
    · cases relayOnly <;> simp [PoolCallOk]
  | pop c =>
    simp only [poolStep] at h
    split at h
    · rename_i hc hpop
      cases h
      exact hi.pop hc hpop
    · cases h
  | setNextPod c =>
    simp only [poolStep] at h
    split at h
    · rename_i pod k run sig hc
      split at h
      · cases h
      · cases h
        exact hi.setCallNextPod hc rfl rfl ⟨by simp, .inl ⟨rfl, by simp, rfl⟩⟩
    · cases h
  | nextPod c =>
    simp only [poolStep] at h
    split at h
    · rename_i pod pc k sig hc
      obtain ⟨p, hp, rfl⟩ := Option.map_eq_some'.mp h
      obtain ⟨rfl, hpod⟩ := (hi.calls_ok c _ hc).atNextPod
      obtain rfl := Option.some.inj (hp.symm.trans hpod)
      exact hi.setCallNextPod hc rfl rfl ⟨fun _ _ h => by cases h; rfl, .inr ⟨rfl, by simp⟩⟩
    · cases h
  | signal c =>
    simp only [poolStep] at h
    split at h
    · rename_i pod pc run sig hc
      split_ifs at h with hsig
      cases h
      have hok := hi.calls_ok c _ hc
      exact hi.setCall hc rfl (hok.advance hsig.1 hsig.1 hok.1)
    · cases h
  | scheduleOneReturn c =>
    simp only [poolStep] at h
    split at h
    · rename_i pod pc k p sig hc
      cases h
      exact hi.setCall hc rfl ((hi.calls_ok c _ hc).advance rfl rfl fun _ _ h => by cases h)
    · cases h
  | sendDone c =>
    simp only [poolStep] at h
    split at h
    · rename_i pod pc k sig hc
      split_ifs at h
      cases h
      exact hi.setCall hc rfl ((hi.calls_ok c _ hc).advance rfl rfl fun _ _ h => by cases h)
    · cases h
  | receive c =>
    simp only [poolStep] at h
    split at h
    · rename_i pod k run sig hc
      cases h
      have hok := hi.calls_ok c _ hc
      exact hi.setCall hc rfl
        ⟨hok.1, Or.resolve_left hok.2 fun h' => Nat.succ_ne_zero sig h'.2.2⟩
    · cases h
  | push c =>
    simp only [poolStep] at h
    split at h
    · rename_i hc
      cases h
      exact hi.push hc
    · cases h

end Inv

theorem poolInv_reachable {relayOnly : Bool} {s : PoolState} (hs : PoolReachable relayOnly s) :
    PoolInv (schedulerCount relayOnly) s := by
  induction hs with
  | init => exact poolInv_init _
  | step _ _ h ih => exact poolInv_step ih h

/-! ## 5. Exclusive use, and no `nextPod` panic -/

/-- The pod of the runs below: a name that `ProcessOne`'s sampled-logging test reads. -/
def resPod : Pod := ⟨"res-1", "dist-scheduler"⟩

theorem processOne_resPod : processOne resPod = some false := by decide

/-- One call has popped the top scheduler. -/
def poppedState : PoolState :=
  ⟨newStack (List.range 99), fun _ => none, [⟨resPod, .popped 99, .notStarted, 0⟩]⟩

theorem poolReachable_poppedState : PoolReachable false poppedState :=
  poolReachable_run .init [.processOne resPod, .pop 0] (by
    simp [poolRun, poolStep, processOne_resPod, PoolState.init, schedulerCount,
      show numSchedulers = 99 + 1 from rfl, Stack.pop_range, poppedState])


/-- **Exclusive use.**  In every reachable state, the stack and the schedulers that calls hold
between `Pop` and `Push` are each of the peer's schedulers exactly once.  So no two calls hold
one scheduler, a held scheduler is not on the stack, and `Pop` finds the stack empty only
while every scheduler is held. -/
theorem schedulerPool_exclusive {relayOnly : Bool} {s : PoolState}
    (hs : PoolReachable relayOnly s) :
    s.stack.items ++ held s.calls ~ List.range (schedulerCount relayOnly) ∧
      ∀ (i j k : Nat) (x y : PoolCall), i ≠ j → s.calls[i]? = some x → s.calls[j]? = some y →
        x.pc.holds = some k → y.pc.holds ≠ some k := by
  have hi := poolInv_reachable hs
  exact ⟨hi.perm, fun _ _ _ _ _ hij hx hy hk =>
    holds_ne (List.nodup_append.mp hi.nodup).2.1 hx hy hij hk⟩

/-- The call holding scheduler `99` holds it alone, and the other 99 are on the stack. -/
theorem schedulerPool_exclusive_popped :
    PoolReachable false poppedState ∧
      (poppedState.stack.items ++ held poppedState.calls ~ List.range (schedulerCount false) ∧
        ∀ (i j k : Nat) (x y : PoolCall), i ≠ j → poppedState.calls[i]? = some x →
          poppedState.calls[j]? = some y → x.pc.holds = some k → y.pc.holds ≠ some k) :=
  ⟨poolReachable_poppedState, schedulerPool_exclusive poolReachable_poppedState⟩

/-- **No `nextPod` panic.**  In every reachable state, a call that has popped a scheduler finds
its `nextPod` nil, so its check passes and it sets `nextPod` to its own pod.  A `ScheduleOne`
at `NextPod` finds there the pod of the call that started it, so `NextPod` neither panics nor
returns another call's pod. -/
theorem schedulerPool_noNextPodPanic {relayOnly : Bool} {s : PoolState}
    (hs : PoolReachable relayOnly s) {c : Nat} {x : PoolCall} (hc : s.calls[c]? = some x) :
    (∀ k, x.pc = .popped k → ∃ s', poolStep relayOnly s (.setNextPod c) = some s' ∧
        s'.nextPod k = some x.pod) ∧
      ∀ k, x.run = .atNextPod k → poolStep relayOnly s (.nextPod c) =
        some { s with nextPod := Function.update s.nextPod k none,
                      calls := s.calls.set c { x with run := .running k x.pod } } := by
  have hok := (poolInv_reachable hs).calls_ok c x hc
  rcases x with ⟨pod, pc, run, sig⟩
  refine ⟨fun k hk => ?_, fun k hk => ?_⟩
  · subst hk
    have hfree : s.nextPod k = none := hok.2.2
    exact ⟨_, by simp only [poolStep, hc, hfree]; rfl, by simp⟩
  · subst hk
    obtain ⟨-, hpod⟩ := hok.atNextPod
    simp [poolStep, hc, hpod]

/-- The call that popped scheduler `99` passes its `nextPod` check. -/
theorem schedulerPool_noNextPodPanic_popped :
    let x : PoolCall := ⟨resPod, .popped 99, .notStarted, 0⟩
    PoolReachable false poppedState ∧ poppedState.calls[0]? = some x ∧
      (∀ k, x.pc = .popped k → ∃ s', poolStep false poppedState (.setNextPod 0) = some s' ∧
          s'.nextPod k = some x.pod) ∧
        ∀ k, x.run = .atNextPod k → poolStep false poppedState (.nextPod 0) =
          some { poppedState with nextPod := Function.update poppedState.nextPod k none,
                                  calls := poppedState.calls.set 0 { x with run := .running k x.pod } } :=
  ⟨poolReachable_poppedState, rfl, schedulerPool_noNextPodPanic poolReachable_poppedState rfl⟩

/-! ## 6. A scheduler reused while its `ScheduleOne` runs -/

/-- A call that has pushed scheduler `k` back while the `ScheduleOne` it started still runs. -/
def reusedCall (pod : Pod) (k : Nat) : PoolCall := ⟨pod, .done, .running k pod, 0⟩

/-- Every scheduler on the stack, and `m` calls whose `ScheduleOne` still runs on the top one. -/
def reuseState (pod : Pod) (m : Nat) : PoolState :=
  ⟨newStack (List.range numSchedulers), fun _ => none,
    List.replicate m (reusedCall pod (numSchedulers - 1))⟩

/-- Call `c` pops the top scheduler and starts `ScheduleOne`, which passes `NextPod` and
signals from `Permit`; the call receives and pushes the scheduler back. -/
def reuseRound (pod : Pod) (c : Nat) : List PoolAction :=
  [.processOne pod, .pop c, .setNextPod c, .nextPod c, .signal c, .receive c, .push c]

theorem poolRun_reuseRound {pod : Pod} {b : Bool} (hpod : processOne pod = some b) (m : Nat) :
    poolRun false (reuseState pod m) (reuseRound pod m) = some (reuseState pod (m + 1)) := by
  simp only [poolRun, poolStep, reuseRound, reuseState, show numSchedulers = 99 + 1 from rfl,
    Nat.reduceAdd, reusedCall, Nat.add_one_sub_one, Bool.false_eq_true, ↓reduceIte, hpod,
    Option.map_some', schedulerDoneCap, Option.bind_some, Option.some_bind, List.length_append,
    List.length_replicate, List.length_singleton, lt_add_iff_pos_right, zero_lt_one,
    List.getElem?_eq_getElem, List.getElem_concat_length, Stack.pop_range, le_refl,
    List.set_append_right, tsub_self, List.set_cons_zero, Function.update_idem,
    Function.update_eq_self, Function.update_same, zero_lt_four, zero_add, Stack.push_range,
    List.replicate_succ', RunPc.pastNextPod, and_self]

/-- **A scheduler runs many `ScheduleOne`s at once.**  `Permit` sends on `schedulerDoneChan`
before it sends the score and waits for `CollectScore`, so a call pushes its scheduler back
while the `ScheduleOne` it started still runs, and the stack, last in first out, hands that
scheduler to the next call.  For every `m`, a reachable state has every scheduler on the stack
and `m` calls whose `ScheduleOne` goroutines are all past `NextPod` on the top scheduler. -/
theorem schedulerPool_concurrentRuns (m : Nat) :
    ∃ s, PoolReachable false s ∧ s.stack.items = List.range numSchedulers ∧ s.calls.length = m ∧
      ∀ call ∈ s.calls, call.pc = .done ∧ ∃ pod, call.run = .running (numSchedulers - 1) pod := by
  refine ⟨reuseState resPod m, ?_, rfl, by simp [reuseState], fun call hc => ?_⟩
  · induction m with
    | zero => exact PoolReachable.init
    | succ m ih => exact poolReachable_run ih _ (poolRun_reuseRound processOne_resPod m)
  · obtain ⟨-, rfl⟩ := List.mem_replicate.mp hc
    exact ⟨rfl, _, rfl⟩

end DistScheduler
