/-
# The permit plugin and `SendScore`

At `Permit`, and in `podScheduleFailure` for a pod that failed before it, a peer sends its score
for the pod to the aggregator `GetTargetForScoring` picks, through `SendScore`, which keeps one
gRPC connection per address under `clientCacheLock`.

* Neither caller looks at the membership before `GetTargetForScoring`, which reduces the hash
  modulo `uint32(len(members))`.  With `allowSolo` off the count is `0` whenever the cache holds
  no endpoint, for instance after the only slice is deleted, and both callers panic
  (`getTargetForScoring_eq_none_iff`, `emptyMembership_targetPanics`).
* `SendScore` is a state machine over every interleaving of its calls.  `clientCacheLock` gives
  mutual exclusion (`sendScore_mutex`), but when `grpc.NewClient` fails the call returns `false`
  without `Unlock`.  From then on the lock is held by a call that has returned, and no later
  call, for any target, gets past `Lock` (`sendScore_lockLeak`); `sendPodToEndpoint`, its
  sibling in the relay, unlocks on the same error.
-/
import DistScheduler.Membership.Informer

namespace DistScheduler

/-! ## 1. The aggregator for a pod -/

namespace SchedulerSet

/-- `GetTargetForScoring` panics exactly when `uint32(len(members))` is `0`. -/
theorem getTargetForScoring_eq_none_iff (s : SchedulerSet) (key : String) :
    s.getTargetForScoring key = none ↔ s.getMembers.length % 2 ^ 32 = 0 := by
  have hlen := (sortMembers_perm s.leader s.getMembers).length_eq
  simp only [getTargetForScoring, hlen]
  split_ifs with h1 h0
  · obtain ⟨m, hm⟩ := List.length_eq_one.mp h1
    exact iff_of_false (by simp [hm]) (by rw [h1]; decide)
  · exact iff_of_true rfl h0
  · have hlt : (fnv32Sum (goBytes key)).toNat % (s.getMembers.length % 2 ^ 32) <
        (sortMembers s.leader s.getMembers).length := by
      rw [hlen]
      exact Nat.lt_of_lt_of_le (Nat.mod_lt _ (Nat.pos_of_ne_zero h0)) (Nat.mod_le _ _)
    exact iff_of_false (by rw [List.getElem?_eq_getElem hlt]; exact Option.some_ne_none _) h0

/-- Otherwise the aggregator is a member. -/
theorem getTargetForScoring_mem {s : SchedulerSet} {key : String} {m : EndpointItem}
    (h : s.getTargetForScoring key = some m) : m ∈ s.getMembers := by
  simp only [getTargetForScoring] at h
  split_ifs at h
  · exact List.mem_of_mem_head? h
  · exact (sortMembers_perm s.leader s.getMembers).subset (List.getElem?_mem h)

end SchedulerSet

/-- The statuses `Permit` returns. -/
inductive PermitStatus
  | success
  | unschedulable
  | error
deriving DecidableEq, Repr

/-- `distPermit.Permit` for a pod with key `namespace/name` on `nodeName`.  `nodePluginScores` is
what `state.Read` returns (`none` its error); `sendScore` is `SendScore`'s answer for a target
and a score.  `none` is a panic. -/
def permit (alwaysDeny : Bool) (set : SchedulerSet) (podKey nodeName : String)
    (nodePluginScores : Option (List (String × Int))) (sendScore : EndpointItem → Int → Bool) :
    Option PermitStatus :=
  if alwaysDeny then some .unschedulable
  else
    match nodePluginScores with
    | none => some .error
    | some scores =>
      (set.getTargetForScoring podKey).map fun target =>
        match scores.find? (·.1 = nodeName) with
        | some (_, totalScore) => if sendScore target totalScore then .success else .unschedulable
        | none => .unschedulable

/-- `podScheduleFailure`: the target it sends a score of `0` to, `none` inside when it returns
first (the binder failed, or `DistPermit` denied the pod).  The outer `none` is a panic. -/
def podScheduleFailure (set : SchedulerSet) (podKey statusPlugin : String)
    (deniedByDistPermit : Bool) : Option (Option EndpointItem) :=
  if statusPlugin = "DefaultBinder" ∨ deniedByDistPermit then some none
  else (set.getTargetForScoring podKey).map some

/-- A peer of a cluster whose only slice was added and then deleted. -/
def emptiedSet : SchedulerSet :=
  ⟨[Notification.add sliceA false, .delete (.slice sliceA)].foldl handleCacheEvent
    EndpointSliceCache.empty, "dist-scheduler-a", 10, [], "dist-scheduler-a", false, false⟩

/-- With the cache emptied and `allowSolo` off, `GetMembers` is empty, and for every pod both
callers reach `GetTargetForScoring` and divide by zero (`podScheduleFailure` unless the binder
failed). -/
theorem emptyMembership_targetPanics :
    emptiedSet.getMembers = [] ∧
      ∀ podKey nodeName scores sendScore statusPlugin,
        permit false emptiedSet podKey nodeName (some scores) sendScore = none ∧
          podScheduleFailure emptiedSet podKey statusPlugin false =
            if statusPlugin = "DefaultBinder" then some none else none := by
  have hnone : ∀ key, emptiedSet.getTargetForScoring key = none := fun key =>
    (SchedulerSet.getTargetForScoring_eq_none_iff _ _).mpr (by decide)
  refine ⟨by decide, fun podKey nodeName scores sendScore statusPlugin => ⟨?_, ?_⟩⟩
  · simp [permit, hnone]
  · by_cases hp : statusPlugin = "DefaultBinder" <;> simp [podScheduleFailure, hp, hnone]

/-! ## 2. `SendScore` and `clientCacheLock` -/

/-- `util.GRPCAddress`: an address with a `:` (IPv6) goes in brackets. -/
def grpcAddress (addr port : String) : String :=
  (if addr.contains ':' then "[" ++ addr ++ "]" else addr) ++ ":" ++ port

/-- Where a `SendScore` call is. -/
inductive SendPc
  /-- Before `clientCacheLock.Lock()`. -/
  | start
  /-- Inside the locked section. -/
  | locked
  /-- Past `clientCacheLock.Unlock()`, before `CollectScore`. -/
  | unlocked
  /-- Returned this permit. -/
  | returned (permit : Bool)
deriving DecidableEq, Repr

/-- One `SendScore` call: the address it dials and the score it sends. -/
structure SendCall where
  addr : String
  score : Int
  pc : SendPc
deriving DecidableEq, Repr

/-- The lock's holder, the addresses `clientCache` has a connection for, and the calls. -/
structure SendState where
  lockHolder : Option Nat
  clientCache : List String
  calls : List SendCall

/-- No call, no connection. -/
def SendState.init : SendState := ⟨none, [], []⟩

/-- What can happen next. -/
inductive SendAction
  /-- `Permit` or `podScheduleFailure` calls `SendScore`. -/
  | sendScore (target : EndpointItem) (score : Int)
  /-- Call `c` acquires `clientCacheLock`. -/
  | lock (c : Nat)
  /-- Call `c` runs its locked section; `ok = false` is `grpc.NewClient` failing. -/
  | lookup (c : Nat) (ok : Bool)
  /-- Call `c`'s `CollectScore` returns the permit, or `none` for an error. -/
  | collectScore (c : Nat) (response : Option Bool)

/-- One atomic step; `none` when the call is not there (or `target.Addresses[0]` panics). -/
def sendStep (s : SendState) : SendAction → Option SendState
  | .sendScore target score =>
    (target.addresses.head?).map fun a =>
      { s with calls := s.calls ++ [⟨grpcAddress a "50051", score, .start⟩] }
  | .lock c =>
    match s.calls[c]?, s.lockHolder with
    | some call, none =>
      if call.pc = .start then
        some { s with lockHolder := some c, calls := s.calls.set c { call with pc := .locked } }
      else none
    | _, _ => none
  | .lookup c ok =>
    match s.calls[c]? with
    | some call =>
      if call.pc = .locked then
        if call.addr ∈ s.clientCache then
          some { s with lockHolder := none, calls := s.calls.set c { call with pc := .unlocked } }
        else if ok then
          some ⟨none, s.clientCache ++ [call.addr], s.calls.set c { call with pc := .unlocked }⟩
        else some { s with calls := s.calls.set c { call with pc := .returned false } }
      else none
    | none => none
  | .collectScore c response =>
    match s.calls[c]? with
    | some call =>
      if call.pc = .unlocked then
        let permit := if call.score = 0 then false else response.getD false
        some { s with calls := s.calls.set c { call with pc := .returned permit } }
      else none
    | none => none

/-- Run a list of actions. -/
def sendRun (s : SendState) : List SendAction → Option SendState
  | [] => some s
  | a :: as => (sendStep s a).bind fun s' => sendRun s' as

/-- The states some run from `init` reaches. -/
inductive SendReachable : SendState → Prop
  | init : SendReachable SendState.init
  | step {s s' : SendState} (a : SendAction) : SendReachable s → sendStep s a = some s' →
      SendReachable s'

theorem sendReachable_run {s s' : SendState} (hs : SendReachable s) (as : List SendAction)
    (h : sendRun s as = some s') : SendReachable s' := by
  induction as generalizing s with
  | nil => cases h; exact hs
  | cons a as ih =>
    obtain ⟨s₁, h₁, h⟩ := Option.bind_eq_some.mp h
    exact ih (SendReachable.step a hs h₁) h

/-! ## 3. What one step does to the lock -/

section Inversion

variable {s s' : SendState}

theorem sendStep_sendScore_cases {target : EndpointItem} {score : Int}
    (h : sendStep s (.sendScore target score) = some s') :
    ∃ call, call.pc = .start ∧ s'.lockHolder = s.lockHolder ∧ s'.calls = s.calls ++ [call] := by
  obtain ⟨a, -, rfl⟩ := Option.map_eq_some'.mp h
  exact ⟨_, rfl, rfl, rfl⟩

theorem sendStep_lock_cases {c : Nat} (h : sendStep s (.lock c) = some s') :
    ∃ call, s.calls[c]? = some call ∧ call.pc = .start ∧ s.lockHolder = none ∧
      s'.lockHolder = some c ∧ s'.calls = s.calls.set c { call with pc := .locked } := by
  simp only [sendStep] at h
  split at h
  · rename_i call hc hnone
    split_ifs at h with hpc
    cases h
    exact ⟨call, hc, hpc, hnone, rfl, rfl⟩
  · cases h

theorem sendStep_lookup_cases {c : Nat} {ok : Bool} (h : sendStep s (.lookup c ok) = some s') :
    ∃ call, s.calls[c]? = some call ∧ call.pc = .locked ∧
      ((s'.lockHolder = none ∧ s'.calls = s.calls.set c { call with pc := .unlocked }) ∨
        (s'.lockHolder = s.lockHolder ∧
          s'.calls = s.calls.set c { call with pc := .returned false })) := by
  simp only [sendStep] at h
  split at h
  · rename_i call hc
    split_ifs at h with hpc hmem hok <;> cases h
    · exact ⟨call, hc, hpc, .inl ⟨rfl, rfl⟩⟩
    · exact ⟨call, hc, hpc, .inl ⟨rfl, rfl⟩⟩
    · exact ⟨call, hc, hpc, .inr ⟨rfl, rfl⟩⟩
  · cases h

theorem sendStep_collectScore_cases {c : Nat} {response : Option Bool}
    (h : sendStep s (.collectScore c response) = some s') :
    ∃ call permit, s.calls[c]? = some call ∧ call.pc = .unlocked ∧ s'.lockHolder = s.lockHolder ∧
      s'.calls = s.calls.set c { call with pc := .returned permit } := by
  simp only [sendStep] at h
  split at h
  · rename_i call hc
    by_cases hpc : call.pc = .unlocked
    · rw [if_pos hpc] at h
      cases h
      exact ⟨call, _, hc, hpc, rfl, rfl⟩
    · rw [if_neg hpc] at h
      cases h
  · cases h

end Inversion

/-- A slot of `calls.set c x` is `x` at `c` and unchanged elsewhere. -/
theorem getElem?_set_eq_some {l : List SendCall} {c d : Nat} {x y : SendCall}
    (h : (l.set c x)[d]? = some y) : (c = d ∧ y = x) ∨ (c ≠ d ∧ l[d]? = some y) := by
  rw [List.getElem?_set] at h
  split_ifs at h with hcd hlt
  · exact .inl ⟨hcd, (Option.some.inj h).symm⟩
  · exact .inr ⟨hcd, h⟩

theorem getElem?_append_eq_some {l : List SendCall} {x y : SendCall} {d : Nat}
    (h : (l ++ [x])[d]? = some y) : l[d]? = some y ∨ (d = l.length ∧ y = x) := by
  rcases Nat.lt_or_ge d l.length with hd | hd
  · rw [List.getElem?_append_left hd] at h
    exact .inl h
  · rw [List.getElem?_append_right hd] at h
    obtain ⟨h0, rfl⟩ := List.getElem?_eq_some_iff.mp h
    exact .inr ⟨by simp at h0; omega, by simp⟩

/-! ## 4. Mutual exclusion, and the leak -/

/-- A call inside the locked section holds the lock, and the holder is inside it or returned
from it on a `NewClient` error. -/
structure LockInv (s : SendState) : Prop where
  locked_holds : ∀ c call, s.calls[c]? = some call → call.pc = .locked → s.lockHolder = some c
  holder : ∀ c, s.lockHolder = some c →
    ∃ call, s.calls[c]? = some call ∧ (call.pc = .locked ∨ call.pc = .returned false)

theorem lockInv_init : LockInv SendState.init :=
  ⟨fun _ _ h => by simp [SendState.init] at h, fun _ h => by simp [SendState.init] at h⟩

theorem lockInv_step {s s' : SendState} {a : SendAction} (hi : LockInv s)
    (h : sendStep s a = some s') : LockInv s' := by
  cases a with
  | sendScore target score =>
    obtain ⟨new, hnew, hl, hcalls⟩ := sendStep_sendScore_cases h
    refine ⟨fun c call hc hpc => ?_, fun c hc => ?_⟩
    · rw [hcalls] at hc
      rcases getElem?_append_eq_some hc with hc | ⟨-, rfl⟩
      · rw [hl]; exact hi.1 c call hc hpc
      · rw [hnew] at hpc; cases hpc
    · rw [hl] at hc
      obtain ⟨call, hcall, hpc⟩ := hi.2 c hc
      exact ⟨call, by rw [hcalls, List.getElem?_append_left (List.getElem?_eq_some_iff.mp hcall).1,
        hcall], hpc⟩
  | lock c =>
    obtain ⟨call, hc, hpc, hnone, hl, hcalls⟩ := sendStep_lock_cases h
    refine ⟨fun d call' hd hpc' => ?_, fun d hd => ?_⟩
    · rw [hcalls] at hd
      rcases getElem?_set_eq_some hd with ⟨rfl, -⟩ | ⟨-, hd⟩
      · exact hl
      · exact absurd (hi.1 d call' hd hpc') (by simp [hnone])
    · rw [hl, Option.some.injEq] at hd
      subst hd
      exact ⟨_, by rw [hcalls, List.getElem?_set_self (List.getElem?_eq_some_iff.mp hc).1],
        .inl rfl⟩
  | lookup c ok =>
    obtain ⟨call, hc, hpc, hcase⟩ := sendStep_lookup_cases h
    have hheld := hi.1 c call hc hpc
    -- no other call is inside the section
    have hother : ∀ d call', d ≠ c → s.calls[d]? = some call' → call'.pc ≠ .locked :=
      fun d call' hdc hd hpc' => hdc (Option.some.inj ((hi.1 d call' hd hpc').symm.trans hheld))
    rcases hcase with ⟨hl, hcalls⟩ | ⟨hl, hcalls⟩
    · refine ⟨fun d call' hd hpc' => ?_, fun d hd => by simp [hl] at hd⟩
      rw [hcalls] at hd
      rcases getElem?_set_eq_some hd with ⟨-, rfl⟩ | ⟨hdc, hd⟩
      · cases hpc'
      · exact absurd hpc' (hother d call' (Ne.symm hdc) hd)
    · refine ⟨fun d call' hd hpc' => ?_, fun d hd => ?_⟩
      · rw [hcalls] at hd
        rcases getElem?_set_eq_some hd with ⟨-, rfl⟩ | ⟨hdc, hd⟩
        · cases hpc'
        · exact absurd hpc' (hother d call' (Ne.symm hdc) hd)
      · rw [hl, hheld, Option.some.injEq] at hd
        subst hd
        exact ⟨_, by rw [hcalls, List.getElem?_set_self (List.getElem?_eq_some_iff.mp hc).1],
          .inr rfl⟩
  | collectScore c response =>
    obtain ⟨call, permit, hc, hpc, hl, hcalls⟩ := sendStep_collectScore_cases h
    refine ⟨fun d call' hd hpc' => ?_, fun d hd => ?_⟩
    · rw [hcalls] at hd
      rcases getElem?_set_eq_some hd with ⟨-, rfl⟩ | ⟨-, hd⟩
      · cases hpc'
      · rw [hl]; exact hi.1 d call' hd hpc'
    · rw [hl] at hd
      obtain ⟨call', hd', hpc'⟩ := hi.2 d hd
      have hdc : c ≠ d := by
        rintro rfl
        rw [hc, Option.some.injEq] at hd'
        subst hd'
        rcases hpc' with h' | h' <;> rw [hpc] at h' <;> cases h'
      exact ⟨call', by rw [hcalls, List.getElem?_set_ne hdc, hd'], hpc'⟩

theorem lockInv_reachable {s : SendState} (hs : SendReachable s) : LockInv s := by
  induction hs with
  | init => exact lockInv_init
  | step _ _ h ih => exact lockInv_step ih h

/-- **Mutual exclusion**: two calls inside the locked section are the same call. -/
theorem sendScore_mutex {s : SendState} (hs : SendReachable s) {c₁ c₂ : Nat}
    {call₁ call₂ : SendCall} (h₁ : s.calls[c₁]? = some call₁) (h₂ : s.calls[c₂]? = some call₂)
    (hl₁ : call₁.pc = .locked) (hl₂ : call₂.pc = .locked) : c₁ = c₂ := by
  have hi := lockInv_reachable hs
  exact Option.some.inj ((hi.1 _ _ h₁ hl₁).symm.trans (hi.1 _ _ h₂ hl₂))

/-- The lock is held by a call that has returned. -/
def LockLeaked (s : SendState) : Prop :=
  ∃ c call, s.lockHolder = some c ∧ s.calls[c]? = some call ∧ call.pc = .returned false

/-- A leaked lock stays leaked, and a call waiting at `Lock` stays there. -/
theorem lockLeaked_step {s s' : SendState} {a : SendAction} (hi : LockInv s)
    (hl : LockLeaked s) (h : sendStep s a = some s') {d : Nat}
    (hd : (s.calls[d]?).map SendCall.pc = some .start) :
    LockLeaked s' ∧ (s'.calls[d]?).map SendCall.pc = some .start := by
  obtain ⟨c, call, hholder, hc, hret⟩ := hl
  cases a with
  | sendScore target score =>
    obtain ⟨new, -, hl', hcalls⟩ := sendStep_sendScore_cases h
    have hlt := (List.getElem?_eq_some_iff.mp hc).1
    obtain ⟨calld, hcalld, -⟩ := Option.map_eq_some'.mp hd
    refine ⟨⟨c, call, hl'.trans hholder, ?_, hret⟩, ?_⟩
    · rw [hcalls, List.getElem?_append_left hlt, hc]
    · rw [hcalls, List.getElem?_append_left (List.getElem?_eq_some_iff.mp hcalld).1]
      exact hd
  | lock c' =>
    obtain ⟨-, -, -, hnone, -⟩ := sendStep_lock_cases h
    simp [hholder] at hnone
  | lookup c' ok =>
    obtain ⟨call', hc', hpc', -⟩ := sendStep_lookup_cases h
    have hcc : c' = c := Option.some.inj ((hi.1 c' call' hc' hpc').symm.trans hholder)
    subst hcc
    rw [hc, Option.some.injEq] at hc'
    subst hc'
    rw [hret] at hpc'
    cases hpc'
  | collectScore c' response =>
    obtain ⟨call', permit, hc', hpc', hl', hcalls⟩ := sendStep_collectScore_cases h
    have hne : ∀ e, (s.calls[e]?).map SendCall.pc ≠ some .unlocked → c' ≠ e := by
      rintro e he rfl
      exact he (by rw [hc']; exact congrArg some hpc')
    have hcc := hne c (by rw [hc]; simp [hret])
    refine ⟨⟨c, call, hl'.trans hholder, by rw [hcalls, List.getElem?_set_ne hcc, hc], hret⟩, ?_⟩
    rw [hcalls, List.getElem?_set_ne (hne d (by rw [hd]; simp))]
    exact hd

/-- Over every continuation, a call waiting at `Lock` behind a leaked lock never gets past it. -/
theorem lockLeaked_run (as : List SendAction) : ∀ {s s' : SendState} {d : Nat},
    LockInv s → LockLeaked s → (s.calls[d]?).map SendCall.pc = some .start →
      sendRun s as = some s' → (s'.calls[d]?).map SendCall.pc = some .start := by
  induction as with
  | nil => intro s s' d _ _ hd h; cases h; exact hd
  | cons a as ih =>
    intro s s' d hi hl hd h
    obtain ⟨s₁, h₁, h⟩ := Option.bind_eq_some.mp h
    obtain ⟨hl₁, hd₁⟩ := lockLeaked_step hi hl h₁ hd
    exact ih (lockInv_step hi h₁) hl₁ hd₁ h

/-- One `SendScore` whose `grpc.NewClient` fails: its target `%zz:50051` is not a URL, nor is
`dns:///%zz:50051`, the form `grpc.NewClient` retries with its default scheme. -/
def leakTrace : List SendAction :=
  [.sendScore ⟨"dist-scheduler-b", ["%zz"]⟩ 5, .lock 0, .lookup 0 false]

/-- The state `leakTrace` reaches. -/
def leakState : SendState := (sendRun SendState.init leakTrace).getD SendState.init

/-- The call returned `false` with `clientCacheLock` still held, and every later `SendScore`,
for any target and score, waits at `Lock` whatever happens next. -/
theorem sendScore_lockLeak :
    SendReachable leakState ∧ leakState.lockHolder = some 0 ∧
      leakState.calls.map SendCall.pc = [.returned false] ∧
      ∀ target score as s', sendRun leakState (.sendScore target score :: as) = some s' →
        (s'.calls[1]?).map SendCall.pc = some .start := by
  have hs : SendReachable leakState := sendReachable_run .init leakTrace rfl
  have hcalls₀ : leakState.calls = [⟨grpcAddress "%zz" "50051", 5, .returned false⟩] := rfl
  refine ⟨hs, rfl, by rw [hcalls₀]; rfl, fun target score as s' h => ?_⟩
  obtain ⟨s₁, h₁, h⟩ := Option.bind_eq_some.mp h
  obtain ⟨new, hnew, hl₁, hcalls⟩ := sendStep_sendScore_cases h₁
  have hleak : LockLeaked s₁ := ⟨0, _, hl₁.trans rfl, by rw [hcalls, hcalls₀]; rfl, rfl⟩
  exact lockLeaked_run as (lockInv_step (lockInv_reachable hs) h₁) hleak
    (by rw [hcalls, hcalls₀]; simp [hnew]) h

end DistScheduler
