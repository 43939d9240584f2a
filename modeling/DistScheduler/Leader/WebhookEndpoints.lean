/-
# The webhook's `Endpoints` across leadership terms

The admission webhook reaches the leader through the `Service` `dist-scheduler-webhook`, which
has no selector: the leader writes its own address into the `Endpoints` object of that name.
`StartLeaderActivities` runs `elector.Run` in a loop.  When the peer takes the lease,
`OnStartedLeading` runs `startNodeLabeler`, `startPodWatcher` and then
`manageWebhookEndpoints`.  That reads `POD_IP` (returning if it is empty), sends `Create`, sends
`Update` after `AlreadyExists`, and returns on any other error; nothing retries.  When `Run`
returns, `OnStoppedLeading` calls `clearWebhookEndpoints`, a `Delete` of the object, whatever
address it lists.

The model takes the contract of client-go's `LeaderElector.Run`: `OnStartedLeading` runs with
an `lctx` that is cancelled before `OnStoppedLeading` runs, and `OnStoppedLeading` runs every
time `Run` returns, also when `acquire` gives up because `ctx` was cancelled, as `SIGTERM` does.
The lease is idealised: it expires only once its holder has stopped leading, so two peers never
lead at once (`WebhookInv`).  Calls are sent, and the apiserver applies or fails them in any
order (`webhookStep`).

* Once the leader's `manageWebhookEndpoints` has returned, only a call left over from an earlier
  term can write the object again.  So if it is absent with no `Create` or `Update` in flight,
  it stays absent for the rest of the term (`webhookEndpoints_staysAbsent`).
* That happens without any failed call.  A leader-eligible peer that is shut down while another
  leads runs `OnStoppedLeading`, though it never led, and deletes the leader's object
  (`webhookEndpoints_followerShutdown`).  On a failover, the old leader's `Delete` can also land
  after the new leader's `Update` (`webhookEndpoints_failoverLateDelete`).
-/
import Mathlib.Data.List.Basic
import Mathlib.Logic.Function.Basic

namespace DistScheduler

/-! ## 1. Calls on the `Endpoints` object -/

/-- A call on the `Endpoints` object `dist-scheduler-webhook`. -/
inductive EndpointsCall
  /-- `manageWebhookEndpoints`' `Create`, listing the caller's `POD_IP`. -/
  | create (ip : String)
  /-- Its `Update` with the same object, after `AlreadyExists`. -/
  | update (ip : String)
  /-- `clearWebhookEndpoints`' `Delete`. -/
  | delete
deriving DecidableEq, Repr

/-- The apiserver applies a call to the object (absent, or the address it lists).  It returns
the new object and whether the call failed with `AlreadyExists`.  `Update` of an absent
`Endpoints` creates it, since the `Endpoints` strategy allows create on update.  `Delete` of an
absent one fails with `NotFound` and changes nothing. -/
def applyCall (obj : Option String) : EndpointsCall → Option String × Bool
  | .create ip =>
    match obj with
    | none => (some ip, false)
    | some _ => (obj, true)
  | .update ip => (some ip, false)
  | .delete => (none, false)

/-- A call in flight: the peer that sent it, the term whose `lctx` it was sent under (`none`
for `context.Background()`), and the call. -/
structure EndpointsRequest where
  peer : Nat
  lctx : Option Nat
  call : EndpointsCall
deriving DecidableEq, Repr

/-! ## 2. The peers and the lease -/

/-- Where the goroutine running `OnStartedLeading` is. -/
inductive StartedPc
  /-- In `startNodeLabeler` or `startPodWatcher`. -/
  | labeling
  /-- `manageWebhookEndpoints` has sent `Create` and waits for the reply. -/
  | creating
  /-- `Create` failed with `AlreadyExists`; it has sent `Update` and waits. -/
  | updating
  /-- `manageWebhookEndpoints` has returned. -/
  | finished
deriving DecidableEq, Repr

/-- Where a leader-eligible peer's `elector.Run` loop is. -/
inductive ElectorPc
  /-- In `acquire`. -/
  | acquiring
  /-- Leading in term `term`, with `OnStartedLeading` at `pc`. -/
  | leading (term : Nat) (pc : StartedPc)
  /-- `Run` returns: `lctx` is cancelled and `OnStoppedLeading` waits for its `Delete`.  `done`
  says that `ctx` is cancelled, so that the loop ends after it. -/
  | stopping (done : Bool)
  /-- The loop has returned on `<-ctx.Done()`. -/
  | exited
deriving DecidableEq, Repr

/-- The peers' loops, the lease, the calls in flight and the object. -/
structure WebhookState where
  /-- The lease's holder, until it expires. -/
  holder : Option Nat
  /-- How many times a peer has taken the lease. -/
  term : Nat
  peers : Nat → ElectorPc
  inflight : List EndpointsRequest
  endpoints : Option String

/-- `n` leader-eligible peers in `acquire` (the indices from `n` on are no peer), no lease, and
no `Endpoints` object: the `Service` is created without one. -/
def WebhookState.init (n : Nat) : WebhookState :=
  ⟨none, 0, fun p => if p < n then .acquiring else .exited, [], none⟩

/-- What can happen next. -/
inductive WebhookAction
  /-- Peer `p`'s `acquire` takes the lease, and `OnStartedLeading` starts. -/
  | acquire (p : Nat)
  /-- In `p`'s `OnStartedLeading`, `startNodeLabeler` and `startPodWatcher` return, and
  `manageWebhookEndpoints` reads `POD_IP` and sends `Create`. -/
  | labeled (p : Nat)
  /-- The apiserver applies call `i`, and the reply reaches the caller. -/
  | apply (i : Nat)
  /-- Call `i` fails with another error (a timeout, a rejected request) and changes nothing. -/
  | fail (i : Nat)
  /-- Peer `p`'s renewal fails, and `Run` returns. -/
  | lose (p : Nat)
  /-- The lease expires once its holder has stopped leading. -/
  | expire
  /-- `SIGTERM` cancels peer `p`'s `ctx`. -/
  | shutdown (p : Nat)

/-- `Run` returns at peer `p`: `OnStoppedLeading` sends its `Delete` and waits. -/
def WebhookState.stop (s : WebhookState) (p : Nat) (done : Bool) : WebhookState :=
  { s with
    peers := Function.update s.peers p (.stopping done)
    inflight := s.inflight ++ [⟨p, none, .delete⟩] }

/-- The reply to call `r` reaches its caller.  `OnStoppedLeading` returns after its `Delete`
whatever the reply; then the loop ends if `ctx` is cancelled, and calls `Run` again otherwise.
`manageWebhookEndpoints` sends `Update` after `AlreadyExists` and returns after any other reply.
A reply to a call whose `lctx` has been cancelled since reaches no one. -/
def WebhookState.replied (s : WebhookState) (r : EndpointsRequest) (alreadyExists : Bool) :
    WebhookState :=
  match r.call, s.peers r.peer with
  | .delete, .stopping done =>
    { s with peers := Function.update s.peers r.peer (if done then .exited else .acquiring) }
  | .create ip, .leading t .creating =>
    if r.lctx = some t then
      if alreadyExists then
        { s with
          peers := Function.update s.peers r.peer (.leading t .updating)
          inflight := s.inflight ++ [⟨r.peer, some t, .update ip⟩] }
      else { s with peers := Function.update s.peers r.peer (.leading t .finished) }
    else s
  | .update _, .leading t .updating =>
    if r.lctx = some t then
      { s with peers := Function.update s.peers r.peer (.leading t .finished) }
    else s
  | _, _ => s

/-- One step; `none` when the action is not enabled.  `podIP p` is peer `p`'s `POD_IP`. -/
def webhookStep (podIP : Nat → String) (s : WebhookState) : WebhookAction → Option WebhookState
  | .acquire p =>
    if s.peers p = .acquiring ∧ (s.holder = none ∨ s.holder = some p) then
      some { s with
        holder := some p
        term := s.term + 1
        peers := Function.update s.peers p (.leading (s.term + 1) .labeling) }
    else none
  | .labeled p =>
    match s.peers p with
    | .leading t .labeling =>
      if podIP p = "" then
        some { s with peers := Function.update s.peers p (.leading t .finished) }
      else
        some { s with
          peers := Function.update s.peers p (.leading t .creating)
          inflight := s.inflight ++ [⟨p, some t, .create (podIP p)⟩] }
    | _ => none
  | .apply i =>
    s.inflight[i]?.map fun r =>
      WebhookState.replied
        { s with
          inflight := s.inflight.eraseIdx i
          endpoints := (applyCall s.endpoints r.call).1 }
        r (applyCall s.endpoints r.call).2
  | .fail i =>
    s.inflight[i]?.map fun r =>
      WebhookState.replied { s with inflight := s.inflight.eraseIdx i } r false
  | .lose p =>
    match s.peers p with
    | .leading _ _ => some (s.stop p false)
    | _ => none
  | .expire =>
    match s.holder with
    | some q =>
      match s.peers q with
      | .leading _ _ => none
      | _ => some { s with holder := none }
    | none => none
  | .shutdown p =>
    match s.peers p with
    | .acquiring | .leading _ _ => some (s.stop p true)
    | .stopping _ => some { s with peers := Function.update s.peers p (.stopping true) }
    | .exited => none

/-- Run a list of actions. -/
def webhookRun (podIP : Nat → String) (s : WebhookState) : List WebhookAction → Option WebhookState
  | [] => some s
  | a :: as => (webhookStep podIP s a).bind fun s' => webhookRun podIP s' as

/-- The states some run from the start reaches. -/
inductive WebhookReachable (podIP : Nat → String) (n : Nat) : WebhookState → Prop
  | init : WebhookReachable podIP n (WebhookState.init n)
  | step {s s' : WebhookState} (a : WebhookAction) : WebhookReachable podIP n s →
      webhookStep podIP s a = some s' → WebhookReachable podIP n s'

theorem webhookReachable_run {podIP : Nat → String} {n : Nat} {s s' : WebhookState}
    (hs : WebhookReachable podIP n s) (as : List WebhookAction)
    (h : webhookRun podIP s as = some s') : WebhookReachable podIP n s' := by
  induction as generalizing s with
  | nil => cases h; exact hs
  | cons a as ih =>
    obtain ⟨s₁, h₁, h⟩ := Option.bind_eq_some.mp h
    exact ih (WebhookReachable.step a hs h₁) h

/-! ## 3. What a step does to the leaders -/

/-- From `s` to `s'` the lease and the term stay, and a peer leading in `s'` led in `s` in the
same term, still `finished` if it was. -/
structure KeepsLeaders (s s' : WebhookState) : Prop where
  holder : s'.holder = s.holder
  term : s'.term = s.term
  leading : ∀ q t g, s'.peers q = .leading t g →
    ∃ g', s.peers q = .leading t g' ∧ (g' = .finished → g = .finished)

theorem keepsLeaders_update {s s' : WebhookState} {p : Nat} {v : ElectorPc}
    (hh : s'.holder = s.holder) (ht : s'.term = s.term)
    (hpeers : s'.peers = Function.update s.peers p v)
    (hv : ∀ t g, v = .leading t g →
      ∃ g', s.peers p = .leading t g' ∧ (g' = .finished → g = .finished)) :
    KeepsLeaders s s' := by
  refine ⟨hh, ht, fun q t g hq => ?_⟩
  rw [hpeers] at hq
  by_cases hqp : q = p
  · subst hqp
    exact hv t g ((Function.update_same _ _ _).symm.trans hq)
  · exact ⟨g, (Function.update_noteq hqp _ _).symm.trans hq, id⟩

theorem KeepsLeaders.trans {s₁ s₂ s₃ : WebhookState} (h₁ : KeepsLeaders s₁ s₂)
    (h₂ : KeepsLeaders s₂ s₃) : KeepsLeaders s₁ s₃ := by
  refine ⟨h₂.holder.trans h₁.holder, h₂.term.trans h₁.term, fun q t g hq => ?_⟩
  obtain ⟨g₂, hq₂, hf₂⟩ := h₂.leading q t g hq
  obtain ⟨g₁, hq₁, hf₁⟩ := h₁.leading q t g₂ hq₂
  exact ⟨g₁, hq₁, hf₂ ∘ hf₁⟩

theorem keepsLeaders_of_peers {s s' : WebhookState} (hh : s'.holder = s.holder)
    (ht : s'.term = s.term) (hpeers : s'.peers = s.peers) : KeepsLeaders s s' :=
  ⟨hh, ht, fun _ _ g hq => ⟨g, hpeers ▸ hq, id⟩⟩

/-- A reply moves its caller from `stopping` out of the loop's `Run`, or on in the same term. -/
theorem replied_keepsLeaders {s s₀ : WebhookState} (hh : s₀.holder = s.holder)
    (ht : s₀.term = s.term) (hp : s₀.peers = s.peers) (r : EndpointsRequest) (b : Bool) :
    KeepsLeaders s (s₀.replied r b) := by
  refine (keepsLeaders_of_peers hh ht hp).trans ?_
  unfold WebhookState.replied
  split
  · exact keepsLeaders_update rfl rfl rfl fun t g h => by split at h <;> cases h
  · rename_i t hp
    split_ifs
    · exact keepsLeaders_update rfl rfl rfl fun _ _ h => by cases h; exact ⟨_, hp, nofun⟩
    · exact keepsLeaders_update rfl rfl rfl fun _ _ h => by cases h; exact ⟨_, hp, fun _ => rfl⟩
    · exact keepsLeaders_of_peers rfl rfl rfl
  · rename_i t hp
    split_ifs
    · exact keepsLeaders_update rfl rfl rfl fun _ _ h => by cases h; exact ⟨_, hp, fun _ => rfl⟩
    · exact keepsLeaders_of_peers rfl rfl rfl
  · exact keepsLeaders_of_peers rfl rfl rfl

@[simp] theorem replied_endpoints (s : WebhookState) (r : EndpointsRequest) (b : Bool) :
    (s.replied r b).endpoints = s.endpoints := by
  unfold WebhookState.replied
  split <;> (try split_ifs) <;> rfl

theorem replied_inflight_of_delete (s : WebhookState) {r : EndpointsRequest} (b : Bool)
    (hr : r.call = .delete) : (s.replied r b).inflight = s.inflight := by
  unfold WebhookState.replied
  split <;> (try split_ifs) <;> simp_all

theorem stop_keepsLeaders (s : WebhookState) (p : Nat) (done : Bool) :
    KeepsLeaders s (s.stop p done) :=
  keepsLeaders_update rfl rfl rfl nofun

/-- Every step is an `acquire`, an `expire` after the holder stopped leading, or keeps the
leaders. -/
theorem webhookStep_leaders {podIP : Nat → String} {s s' : WebhookState} {a : WebhookAction}
    (h : webhookStep podIP s a = some s') :
    (∃ p, s.peers p = .acquiring ∧ (s.holder = none ∨ s.holder = some p) ∧
        s' = { s with
          holder := some p
          term := s.term + 1
          peers := Function.update s.peers p (.leading (s.term + 1) .labeling) }) ∨
      (∃ q, s.holder = some q ∧ (∀ t g, s.peers q ≠ .leading t g) ∧
        s' = { s with holder := none }) ∨
      KeepsLeaders s s' := by
  cases a with
  | acquire p =>
    simp only [webhookStep] at h
    split_ifs at h with hc
    exact .inl ⟨p, hc.1, hc.2, (Option.some.inj h).symm⟩
  | labeled p =>
    simp only [webhookStep] at h
    split at h
    · rename_i t hp
      split_ifs at h <;> cases h <;>
        exact .inr (.inr (keepsLeaders_update rfl rfl rfl fun _ _ h => by
          cases h; exact ⟨_, hp, nofun⟩))
    · cases h
  | apply i | fail i =>
    obtain ⟨r, -, rfl⟩ := Option.map_eq_some'.mp h
    exact .inr (.inr (by apply replied_keepsLeaders <;> rfl))
  | lose p =>
    simp only [webhookStep] at h
    split at h
    · cases h; exact .inr (.inr (stop_keepsLeaders _ _ _))
    · cases h
  | expire =>
    simp only [webhookStep] at h
    split at h
    · rename_i q hq
      split at h
      · cases h
      · rename_i hnl
        cases h
        exact .inr (.inl ⟨q, hq, fun t g hl => hnl t g hl, rfl⟩)
    · cases h
  | shutdown p =>
    simp only [webhookStep] at h
    split at h <;> cases h <;>
      first
      | exact .inr (.inr (stop_keepsLeaders _ _ _))
      | exact .inr (.inr (keepsLeaders_update rfl rfl rfl nofun))

/-- While every leader is `finished` and only `Delete`s are in flight, no step writes the
object or sends a `Create` or `Update`. -/
theorem webhookStep_quiet {podIP : Nat → String} {s s' : WebhookState} {a : WebhookAction}
    (hfin : ∀ q t g, s.peers q = .leading t g → g = .finished)
    (hdel : ∀ r ∈ s.inflight, r.call = .delete) (h : webhookStep podIP s a = some s') :
    (∀ r ∈ s'.inflight, r.call = .delete) ∧ (s.endpoints = none → s'.endpoints = none) := by
  have hstop : ∀ p done, ∀ r ∈ (s.stop p done).inflight, r.call = .delete := fun p done r hr => by
    rcases List.mem_append.mp hr with hr | hr
    · exact hdel r hr
    · rw [List.mem_singleton.mp hr]
  cases a with
  | acquire p =>
    simp only [webhookStep] at h
    split_ifs at h
    cases h
    exact ⟨hdel, id⟩
  | labeled p =>
    simp only [webhookStep] at h
    split at h
    · rename_i t hp
      cases hfin p t _ hp
    · cases h
  | apply i | fail i =>
    -- only a `Delete` can be applied or fail
    obtain ⟨r, hr, rfl⟩ := Option.map_eq_some'.mp h
    have hrd := hdel r (List.getElem?_mem hr)
    refine ⟨fun r' hr' => ?_, fun he => by simp [hrd, applyCall, he]⟩
    rw [replied_inflight_of_delete _ _ hrd] at hr'
    exact hdel r' (List.mem_of_mem_eraseIdx hr')
  | lose p =>
    simp only [webhookStep] at h
    split at h
    · cases h; exact ⟨hstop _ _, id⟩
    · cases h
  | expire =>
    simp only [webhookStep] at h
    split at h
    · split at h
      · cases h
      · cases h; exact ⟨hdel, id⟩
    · cases h
  | shutdown p =>
    simp only [webhookStep] at h
    split at h <;> cases h <;> first | exact ⟨hstop _ _, id⟩ | exact ⟨hdel, id⟩

/-! ## 4. One leader at a time -/

/-- A leading peer holds the lease, in a term already counted. -/
structure WebhookInv (s : WebhookState) : Prop where
  holder : ∀ p t g, s.peers p = .leading t g → s.holder = some p
  term_le : ∀ p t g, s.peers p = .leading t g → t ≤ s.term

theorem webhookInv_init (n : Nat) : WebhookInv (WebhookState.init n) := by
  refine ⟨fun p t g h => ?_, fun p t g h => ?_⟩ <;>
  · simp only [WebhookState.init] at h
    split_ifs at h

theorem webhookInv_step {podIP : Nat → String} {s s' : WebhookState} {a : WebhookAction}
    (hi : WebhookInv s) (h : webhookStep podIP s a = some s') : WebhookInv s' := by
  rcases webhookStep_leaders h with ⟨p, -, hh, rfl⟩ | ⟨q, hh, hq, rfl⟩ | hk
  · -- `acquire p`: no other peer led, since the lease was free or `p`'s
    have hother : ∀ q t g, q ≠ p → s.peers q ≠ .leading t g := fun q t g hqp hq => by
      have := hi.holder q t g hq
      rcases hh with hh | hh <;> rw [hh] at this
      · cases this
      · exact hqp (Option.some.inj this).symm
    refine ⟨fun q t g hq => ?_, fun q t g hq => ?_⟩ <;> by_cases hqp : q = p
    · rw [hqp]
    · exact absurd ((Function.update_noteq hqp _ _).symm.trans hq) (hother q t g hqp)
    · subst hqp
      cases (Function.update_same _ _ _).symm.trans hq
      exact le_refl _
    · exact absurd ((Function.update_noteq hqp _ _).symm.trans hq) (hother q t g hqp)
  · -- `expire`: its holder did not lead, so no one did
    have hnone : ∀ p t g, s.peers p ≠ .leading t g := fun p t g hp => by
      cases hh.symm.trans (hi.holder p t g hp)
      exact hq t g hp
    exact ⟨fun p t g hp => absurd hp (hnone p t g), fun p t g hp => absurd hp (hnone p t g)⟩
  · refine ⟨fun q t g hq => ?_, fun q t g hq => ?_⟩ <;>
      obtain ⟨g', hq', -⟩ := hk.leading q t g hq
    · rw [hk.holder]; exact hi.holder q t g' hq'
    · rw [hk.term]; exact hi.term_le q t g' hq'

theorem webhookInv_reachable {podIP : Nat → String} {n : Nat} {s : WebhookState}
    (hs : WebhookReachable podIP n s) : WebhookInv s := by
  induction hs with
  | init => exact webhookInv_init n
  | step _ _ h ih => exact webhookInv_step ih h

/-! ## 5. An absent object stays absent for the term -/

/-- Leader `p` of term `t` has returned from `manageWebhookEndpoints`, no other peer leads, only
`Delete`s are in flight, and the object is absent. -/
structure EndpointsLost (p t : Nat) (s : WebhookState) : Prop where
  leads : s.peers p = .leading t .finished
  holder : s.holder = some p
  alone : ∀ q t' g, s.peers q = .leading t' g → q = p
  deletes : ∀ r ∈ s.inflight, r.call = .delete
  absent : s.endpoints = none
  term_le : t ≤ s.term

/-- Peer `p`'s term `t` is over: no step leads it back into it. -/
def TermOver (p t : Nat) (s : WebhookState) : Prop := t ≤ s.term ∧ ∀ g, s.peers p ≠ .leading t g

section Lost

variable {podIP : Nat → String} {p t : Nat} {s s' : WebhookState} {a : WebhookAction}

theorem termOver_step (ho : TermOver p t s) (h : webhookStep podIP s a = some s') :
    TermOver p t s' := by
  rcases webhookStep_leaders h with ⟨q, -, -, rfl⟩ | ⟨q, -, -, rfl⟩ | hk
  · refine ⟨Nat.le_succ_of_le ho.1, fun g hg => ?_⟩
    by_cases hpq : p = q
    · subst hpq
      cases (Function.update_same _ _ _).symm.trans hg
      exact absurd ho.1 (Nat.not_succ_le_self _)
    · exact ho.2 g ((Function.update_noteq hpq _ _).symm.trans hg)
  · exact ho
  · refine ⟨hk.term ▸ ho.1, fun g hg => ?_⟩
    obtain ⟨g', hg', -⟩ := hk.leading p t g hg
    exact ho.2 g' hg'

theorem endpointsLost_step (hl : EndpointsLost p t s) (h : webhookStep podIP s a = some s') :
    EndpointsLost p t s' ∨ TermOver p t s' := by
  have hfin : ∀ q t' g, s.peers q = .leading t' g → g = .finished := fun q t' g hq => by
    obtain rfl := hl.alone q t' g hq
    cases hl.leads.symm.trans hq
    rfl
  obtain ⟨hdel, habs⟩ := webhookStep_quiet hfin hl.deletes h
  rcases webhookStep_leaders h with ⟨q, hq, hh, -⟩ | ⟨q, hh, hq, -⟩ | hk
  · -- no `acquire`: `p` holds the lease and leads
    rw [hl.holder] at hh
    obtain rfl : q = p := by
      rcases hh with hh | hh
      · cases hh
      · exact (Option.some.inj hh).symm
    cases hl.leads.symm.trans hq
  · -- no `expire`: its holder `p` leads
    cases hl.holder.symm.trans hh
    exact absurd hl.leads (hq t _)
  · by_cases hp : ∃ g, s'.peers p = .leading t g
    · obtain ⟨g, hg⟩ := hp
      obtain ⟨g', hg', hfg⟩ := hk.leading p t g hg
      cases hl.leads.symm.trans hg'
      refine .inl ⟨by rw [hg, hfg rfl], hk.holder.trans hl.holder, fun q t' g'' hq => ?_, hdel,
        habs hl.absent, hk.term ▸ hl.term_le⟩
      obtain ⟨g₀, hq₀, -⟩ := hk.leading q t' g'' hq
      exact hl.alone q t' g₀ hq₀
    · exact .inr ⟨hk.term ▸ hl.term_le, fun g hg => hp ⟨g, hg⟩⟩

theorem endpointsLost_run {as : List WebhookAction} (h : EndpointsLost p t s ∨ TermOver p t s)
    (hrun : webhookRun podIP s as = some s') : EndpointsLost p t s' ∨ TermOver p t s' := by
  induction as generalizing s with
  | nil => cases hrun; exact h
  | cons a as ih =>
    obtain ⟨s₁, h₁, hrun⟩ := Option.bind_eq_some.mp hrun
    exact ih (h.elim (endpointsLost_step · h₁) fun ho => .inr (termOver_step ho h₁)) hrun

/-- While `p` still leads term `t`, the object is absent. -/
theorem EndpointsLost.absent_run {as : List WebhookAction} (hl : EndpointsLost p t s)
    (hrun : webhookRun podIP s as = some s') (hlead : ∃ g, s'.peers p = .leading t g) :
    s'.endpoints = none := by
  rcases endpointsLost_run (.inl hl) hrun with h | h
  · exact h.absent
  · obtain ⟨g, hg⟩ := hlead
    exact absurd hg (h.2 g)

end Lost

/-- **An absent object stays absent for the term.**  In every reachable state where the leader
`p` of term `t` has returned from `manageWebhookEndpoints`, the object is absent and only
`Delete`s are in flight, every run keeps it absent for as long as `p` leads in term `t`.  No
peer writes it: the others do not lead, and the leader's one `Create` and `Update` are behind
it. -/
theorem webhookEndpoints_staysAbsent {podIP : Nat → String} {n p t : Nat}
    {s s' : WebhookState} {as : List WebhookAction} (hs : WebhookReachable podIP n s)
    (hp : s.peers p = .leading t .finished) (habs : s.endpoints = none)
    (hdel : ∀ r ∈ s.inflight, r.call = .delete) (hrun : webhookRun podIP s as = some s')
    (hlead : ∃ g, s'.peers p = .leading t g) : s'.endpoints = none := by
  have hi := webhookInv_reachable hs
  refine EndpointsLost.absent_run ⟨hp, hi.holder p t _ hp, fun q t' g hq => ?_, hdel, habs,
    hi.term_le p t _ hp⟩ hrun hlead
  exact Option.some.inj ((hi.holder q t' g hq).symm.trans (hi.holder p t _ hp))

/-! ## 6. How the object gets lost -/

/-- Peer `0` leads term `1` and has created the object with its address. -/
def createdState (podIP : Nat → String) (n : Nat) : WebhookState :=
  ⟨some 0, 1, Function.update (WebhookState.init n).peers 0 (.leading 1 .finished), [],
    some (podIP 0)⟩

/-- Then peer `1`, shut down, has run `OnStoppedLeading` and deleted the object. -/
def clearedState (n : Nat) : WebhookState :=
  ⟨some 0, 1, Function.update (Function.update (WebhookState.init n).peers 0 (.leading 1 .finished))
    1 .exited, [], none⟩

theorem webhookRun_created {podIP : Nat → String} {n : Nat} (hn : 0 < n) (hip : podIP 0 ≠ "") :
    webhookRun podIP (WebhookState.init n) [.acquire 0, .labeled 0, .apply 0] =
      some (createdState podIP n) := by
  simp only [webhookRun, webhookStep, WebhookState.init, hn, ↓reduceIte, reduceCtorEq, or_false,
    and_self, Nat.zero_add, hip, WebhookState.replied, List.eraseIdx_zero, applyCall,
    Option.bind_some, Option.some_bind, Function.update_same, Function.update_idem,
    List.nil_append, List.tail_cons, List.length_singleton, Nat.lt_add_one,
    List.getElem?_eq_getElem, List.getElem_cons_zero, Option.map_some', Bool.false_eq_true,
    createdState]

theorem webhookRun_cleared {podIP : Nat → String} {n : Nat} (hn : 1 < n) :
    webhookRun podIP (createdState podIP n) [.shutdown 1, .apply 0] = some (clearedState n) := by
  simp [webhookRun, webhookStep, createdState, WebhookState.init, hn, WebhookState.stop,
    WebhookState.replied, applyCall, clearedState]

theorem endpointsLost_cleared (n : Nat) : EndpointsLost 0 1 (clearedState n) := by
  refine ⟨rfl, rfl, fun q t g hq => ?_, nofun, rfl, le_refl _⟩
  simp only [clearedState, WebhookState.init, Function.update_apply] at hq
  split_ifs at hq with h1 h0
  exact h0

/-- Two peers' `POD_IP`s. -/
def twoPodIPs (p : Nat) : String := if p = 0 then "10.0.0.1" else "10.0.0.2"

theorem webhookReachable_cleared : WebhookReachable twoPodIPs 2 (clearedState 2) :=
  webhookReachable_run (webhookReachable_run .init _ (webhookRun_created (by decide) (by decide)))
    _ (webhookRun_cleared (by decide))

/-- After a follower's shutdown, the object stays absent while peer `0` leads. -/
theorem webhookEndpoints_staysAbsent_cleared :
    WebhookReachable twoPodIPs 2 (clearedState 2) ∧
      (clearedState 2).peers 0 = .leading 1 .finished ∧ (clearedState 2).endpoints = none ∧
      (∀ r ∈ (clearedState 2).inflight, r.call = .delete) ∧
      webhookRun twoPodIPs (clearedState 2) [] = some (clearedState 2) ∧
      (∃ g, (clearedState 2).peers 0 = .leading 1 g) ∧ (clearedState 2).endpoints = none :=
  ⟨webhookReachable_cleared, rfl, rfl, nofun, rfl, ⟨_, rfl⟩,
    webhookEndpoints_staysAbsent webhookReachable_cleared
      (show (clearedState 2).peers 0 = .leading 1 .finished from rfl) rfl nofun
      (show webhookRun twoPodIPs (clearedState 2) [] = some (clearedState 2) from rfl) ⟨_, rfl⟩⟩

/-- **A follower's shutdown deletes the leader's object.**  With at least two leader-eligible
peers and the first one's `POD_IP` set, a reachable state has peer `0` leading with the object
listing its address and nothing in flight.  Then `SIGTERM` at peer `1`, which never led, runs
its `OnStoppedLeading`, whose `Delete` removes the object, and no run brings it back while peer
`0` leads that term. -/
theorem webhookEndpoints_followerShutdown (podIP : Nat → String) {n : Nat} (hn : 2 ≤ n)
    (hip : podIP 0 ≠ "") :
    ∃ s₀ s₁ : WebhookState, WebhookReachable podIP n s₀ ∧ s₀.peers 0 = .leading 1 .finished ∧
      s₀.endpoints = some (podIP 0) ∧ s₀.inflight = [] ∧
      webhookRun podIP s₀ [.shutdown 1, .apply 0] = some s₁ ∧
      ∀ as s', webhookRun podIP s₁ as = some s' → (∃ g, s'.peers 0 = .leading 1 g) →
        s'.endpoints = none :=
  ⟨_, _, webhookReachable_run .init _ (webhookRun_created (by omega) hip), rfl, rfl, rfl,
    webhookRun_cleared (by omega), fun _ _ hrun hlead =>
      (endpointsLost_cleared n).absent_run hrun hlead⟩

/-- Both peers' addresses are set. -/
theorem webhookEndpoints_followerShutdown_twoPeers :
    2 ≤ 2 ∧ twoPodIPs 0 ≠ "" ∧
      ∃ s₀ s₁ : WebhookState, WebhookReachable twoPodIPs 2 s₀ ∧
        s₀.peers 0 = .leading 1 .finished ∧ s₀.endpoints = some (twoPodIPs 0) ∧
        s₀.inflight = [] ∧ webhookRun twoPodIPs s₀ [.shutdown 1, .apply 0] = some s₁ ∧
        ∀ as s', webhookRun twoPodIPs s₁ as = some s' → (∃ g, s'.peers 0 = .leading 1 g) →
          s'.endpoints = none :=
  ⟨le_refl _, by decide, webhookEndpoints_followerShutdown twoPodIPs (le_refl _) (by decide)⟩

/-- After a failover: peer `1` leads term `2` and has written its address with `Update`, while
the `Delete` that peer `0`'s `OnStoppedLeading` sent is in flight. -/
def takenOverState (podIP : Nat → String) (n : Nat) : WebhookState :=
  ⟨some 1, 2, Function.update (Function.update (WebhookState.init n).peers 0 (.stopping false)) 1
    (.leading 2 .finished), [⟨0, none, .delete⟩], some (podIP 1)⟩

/-- Then that `Delete` has landed, and peer `0` is back in `acquire`. -/
def lateDeleteState (n : Nat) : WebhookState :=
  ⟨some 1, 2, Function.update (Function.update (Function.update (WebhookState.init n).peers 0
    (.stopping false)) 1 (.leading 2 .finished)) 0 .acquiring, [], none⟩

/-- Peer `0` loses the lease and sends its `Delete`; the lease expires; peer `1` takes it, and
its `Create` fails with `AlreadyExists` before its `Update` lands. -/
theorem webhookRun_takenOver {podIP : Nat → String} {n : Nat} (hn : 1 < n)
    (hip : podIP 1 ≠ "") :
    webhookRun podIP (createdState podIP n)
        [.lose 0, .expire, .acquire 1, .labeled 1, .apply 1, .apply 1] =
      some (takenOverState podIP n) := by
  simp only [webhookRun, webhookStep, createdState, WebhookState.init, Function.update_same,
    WebhookState.stop, Function.update_idem, List.nil_append, hip, ↓reduceIte,
    WebhookState.replied, applyCall, Option.bind_some, Option.some_bind, ne_eq, Nat.succ_ne_self,
    not_false_eq_true, Function.update_noteq, hn, reduceCtorEq, or_false, and_self, Nat.reduceAdd,
    List.singleton_append, List.eraseIdx_cons_succ, List.eraseIdx_zero, List.tail_cons,
    List.getElem?_cons_succ, List.getElem?_cons_zero, Option.map_some', takenOverState]

theorem webhookRun_lateDelete {podIP : Nat → String} {n : Nat} :
    webhookRun podIP (takenOverState podIP n) [.apply 0] = some (lateDeleteState n) := by
  simp [webhookRun, webhookStep, takenOverState, WebhookState.replied, applyCall, lateDeleteState]

theorem endpointsLost_lateDelete (n : Nat) : EndpointsLost 1 2 (lateDeleteState n) := by
  refine ⟨rfl, rfl, fun q t g hq => ?_, nofun, rfl, le_refl _⟩
  simp only [lateDeleteState, WebhookState.init, Function.update_apply] at hq
  split_ifs at hq with h0 h1
  exact h1

/-- **A failover can lose the object too.**  With two leader-eligible peers and both `POD_IP`s
set, a reachable state has peer `1` leading term `2`, with its `Update` applied and its
`manageWebhookEndpoints` returned.  In that state the `Delete` that peer `0`'s
`OnStoppedLeading` sent on losing the lease is still in flight.  Once it lands, no run brings
the object back while peer `1` leads that term. -/
theorem webhookEndpoints_failoverLateDelete (podIP : Nat → String) {n : Nat} (hn : 2 ≤ n)
    (hip0 : podIP 0 ≠ "") (hip1 : podIP 1 ≠ "") :
    ∃ s₀ s₁ : WebhookState, WebhookReachable podIP n s₀ ∧ s₀.peers 1 = .leading 2 .finished ∧
      s₀.endpoints = some (podIP 1) ∧ s₀.inflight = [⟨0, none, .delete⟩] ∧
      webhookRun podIP s₀ [.apply 0] = some s₁ ∧
      ∀ as s', webhookRun podIP s₁ as = some s' → (∃ g, s'.peers 1 = .leading 2 g) →
        s'.endpoints = none :=
  ⟨_, _, webhookReachable_run (webhookReachable_run .init _ (webhookRun_created (by omega) hip0))
      _ (webhookRun_takenOver (by omega) hip1), rfl, rfl, rfl, webhookRun_lateDelete,
    fun _ _ hrun hlead => (endpointsLost_lateDelete n).absent_run hrun hlead⟩

/-- Both peers' addresses are set. -/
theorem webhookEndpoints_failoverLateDelete_twoPeers :
    2 ≤ 2 ∧ twoPodIPs 0 ≠ "" ∧ twoPodIPs 1 ≠ "" ∧
      ∃ s₀ s₁ : WebhookState, WebhookReachable twoPodIPs 2 s₀ ∧
        s₀.peers 1 = .leading 2 .finished ∧ s₀.endpoints = some (twoPodIPs 1) ∧
        s₀.inflight = [⟨0, none, .delete⟩] ∧ webhookRun twoPodIPs s₀ [.apply 0] = some s₁ ∧
        ∀ as s', webhookRun twoPodIPs s₁ as = some s' → (∃ g, s'.peers 1 = .leading 2 g) →
          s'.endpoints = none :=
  ⟨le_refl _, by decide, by decide,
    webhookEndpoints_failoverLateDelete twoPodIPs (le_refl _) (by decide) (by decide)⟩

end DistScheduler
