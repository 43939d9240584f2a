/-
# The informer and its two listeners

`RunEndpointSliceWatcher` registers a handler that copies every EndpointSlice notification into
the `EndpointSliceCache`; `NewSchedulerSet` registers a second one, through `AddUpdateHandler`,
which only sets the `dirty` flag.  The informer gives each handler its own listener, so both
see the same notifications, each at its own pace.

* The informer's **store** is the abstract state: the slices as the informer last heard of
  them.  `storeApply` says what each notification does to it.
* The cache handler **refines** the store on every run of adds, updates and deletes
  (`cacheRefines_run`), given the API server's guarantee on generations.  A tombstone delete,
  which the informer delivers after a relist, fails the handler's type assertion and leaves
  the slice in the cache (`tombstone_keepsSlice`).
* The dirty flag does not order the two listeners: the dirty listener may handle a change, and
  a `GetSubMembers` rebuild the topology, before the cache listener applies that change
  (`dirtyFirst_staleSubMembers`).
-/
import DistScheduler.Membership.SchedulerSet

namespace DistScheduler

/-! ## 1. Notifications and the two handlers -/

/-- What `DeleteFunc` receives: the slice, or a `cache.DeletedFinalStateUnknown` tombstone with
the slice's last known state. -/
inductive DeletedObject
  | slice (s : EndpointSlice)
  | tombstone (obj : EndpointSlice)
deriving DecidableEq, Repr

/-- An informer notification.  An add carries `isInInitialList`, which the detailed handler of
`AddUpdateHandler` reads. -/
inductive Notification
  | add (s : EndpointSlice) (isInInitialList : Bool)
  | update (old new : EndpointSlice)
  | delete (obj : DeletedObject)
deriving DecidableEq, Repr

/-- The informer's store: the slices by name. -/
abbrev Store := AList fun _ : String => EndpointSlice

/-- What a notification says happened to the store. -/
def storeApply (st : Store) : Notification → Store
  | .add s _ => st.insert s.name s
  | .update _ new => st.insert new.name new
  | .delete (.slice s) => st.erase s.name
  | .delete (.tombstone obj) => st.erase obj.name

/-- The handlers `RunEndpointSliceWatcher` registers. -/
def handleCacheEvent (c : EndpointSliceCache) : Notification → EndpointSliceCache
  | .add s _ => c.update s
  | .update old new => if old.generation ≠ new.generation then c.update new else c
  | .delete (.slice s) => c.delete s
  | .delete (.tombstone _) => c

/-- Whether the handlers of `AddUpdateHandler` call `handler()`. -/
def updateHandlerFires : Notification → Bool
  | .add _ isInInitialList => !isInInitialList
  | .update old new => old.generation ≠ new.generation
  | .delete _ => true

/-- The handler `NewSchedulerSet` passes to `AddUpdateHandler`: `ss.dirty.Store(true)`. -/
def handleDirtyEvent (s : SchedulerSet) (n : Notification) : SchedulerSet :=
  if updateHandlerFires n then { s with dirty := true } else s

/-! ## 2. The cache refines the store -/

/-- The cache holds, under every name, a slice with the endpoints the store holds there. -/
def CacheRefines (c : EndpointSliceCache) (st : Store) : Prop :=
  ∀ k, (c.slices.lookup k).map (·.endpoints) = (st.lookup k).map (·.endpoints)

/-- A notification the informer delivers on `st` without a relist: an update carries the
store's object as `old`, and, as the API server guarantees, keeps the endpoints when it keeps
the generation. -/
def Delivers (st : Store) : Notification → Prop
  | .add _ _ => True
  | .update old new =>
    st.lookup new.name = some old ∧ (old.generation = new.generation → old.endpoints = new.endpoints)
  | .delete (.slice _) => True
  | .delete (.tombstone _) => False

/-- Every notification of a sequence is delivered on the store the ones before it leave. -/
def DeliversAll : Store → List Notification → Prop
  | _, [] => True
  | st, n :: ns => Delivers st n ∧ DeliversAll (storeApply st n) ns

theorem lookup_storeApply_insert (st : Store) (s : EndpointSlice) (k : String) :
    (st.insert s.name s).lookup k = if k = s.name then some s else st.lookup k := by
  split
  · subst k; exact AList.lookup_insert _
  · exact AList.lookup_insert_ne ‹_›

theorem lookup_storeApply_erase (st : Store) (name k : String) :
    (st.erase name).lookup k = if k = name then none else st.lookup k := by
  split
  · subst k; exact AList.lookup_erase _ _
  · exact AList.lookup_erase_ne ‹_›

/-- **One handled notification keeps the refinement.** -/
theorem cacheRefines_step {c : EndpointSliceCache} {st : Store} {n : Notification}
    (h : CacheRefines c st) (hd : Delivers st n) :
    CacheRefines (handleCacheEvent c n) (storeApply st n) := by
  intro k
  cases n with
  | add s _ =>
    simp only [handleCacheEvent, storeApply, EndpointSliceCache.lookup_update,
      lookup_storeApply_insert]
    split
    · rfl
    · exact h k
  | update old new =>
    obtain ⟨hold, hgen⟩ := hd
    simp only [handleCacheEvent, storeApply, lookup_storeApply_insert]
    split
    · simp only [EndpointSliceCache.lookup_update]
      split
      · rfl
      · exact h k
    · split
      · subst k
        rw [h, hold, Option.map_some', Option.map_some', hgen (not_not.mp ‹_›)]
      · exact h k
  | delete obj =>
    cases obj with
    | slice s =>
      simp only [handleCacheEvent, storeApply, EndpointSliceCache.lookup_delete,
        lookup_storeApply_erase]
      split
      · rfl
      · exact h k
    | tombstone obj => exact hd.elim

/-- **The cache refines the store after every notification of a run without a relist.** -/
theorem cacheRefines_run : ∀ (ns : List Notification) {c : EndpointSliceCache} {st : Store},
    CacheRefines c st → DeliversAll st ns →
    CacheRefines (ns.foldl handleCacheEvent c) (ns.foldl storeApply st)
  | [], _, _, h, _ => h
  | _ :: ns, _, _, h, ⟨hd, hds⟩ => cacheRefines_run ns (cacheRefines_step h hd) hds

/-- **`GetMembers` lists the endpoints of the live slices.** -/
theorem CacheRefines.mem_getMembers {c : EndpointSliceCache} {st : Store} (h : CacheRefines c st)
    (x : EndpointItem) :
    x ∈ c.getMembers ↔ ∃ k s, st.lookup k = some s ∧ x ∈ s.endpoints.map Endpoint.toItem := by
  simp only [EndpointSliceCache.getMembers, List.mem_flatMap]
  constructor
  · rintro ⟨⟨k, s⟩, he, hx⟩
    have hk := h k
    rw [AList.mem_lookup_iff.mpr he] at hk
    obtain ⟨s', hs', heq⟩ := Option.map_eq_some'.mp hk.symm
    exact ⟨k, s', hs', heq ▸ hx⟩
  · rintro ⟨k, s, hs, hx⟩
    have hk := h k
    rw [hs] at hk
    obtain ⟨s', hs', heq⟩ := Option.map_eq_some'.mp hk
    exact ⟨⟨k, s'⟩, AList.mem_lookup_iff.mp hs', heq ▸ hx⟩

/-- A slice holding peer `dist-scheduler-b`. -/
def sliceB : EndpointSlice := ⟨"dist-scheduler-x2", 1, [⟨"dist-scheduler-b", ["10.0.0.2"]⟩]⟩

/-- `sliceB` is added; after a relist the informer delivers its delete as a tombstone. -/
def tombstoneNotifications : List Notification :=
  [.add sliceB false, .delete (.tombstone sliceB)]

/-- **A tombstone delete leaves the slice in the cache.**  The store has lost `sliceB`;
`GetMembers` still lists its endpoint. -/
theorem tombstone_keepsSlice :
    (tombstoneNotifications.foldl storeApply ∅).lookup sliceB.name = none ∧
      (tombstoneNotifications.foldl handleCacheEvent EndpointSliceCache.empty).getMembers =
        [⟨"dist-scheduler-b", ["10.0.0.2"]⟩] := by
  decide

/-! ## 3. Two listeners and the topology cache -/

/-- The watcher's state: the `SchedulerSet` (which holds the cache), the notifications the
informer has delivered, and how many of them each listener has handled. -/
structure WatchState where
  set : SchedulerSet
  delivered : List Notification
  cacheHandled : Nat
  dirtyHandled : Nat

/-- What can happen next. -/
inductive WatchAction
  /-- The informer delivers a notification to both listeners. -/
  | deliver (n : Notification)
  /-- The cache listener handles its next notification. -/
  | cacheListener
  /-- The dirty listener handles its next notification. -/
  | dirtyListener
  /-- `SetLeader`. -/
  | setLeader (leader : String)
  /-- `GetSubMembers`, atomic under `cacheLock`. -/
  | getSubMembers
deriving DecidableEq, Repr

/-- One step of one thread; `none` when a listener has nothing left to handle. -/
def watchStep (w : WatchState) : WatchAction → Option WatchState
  | .deliver n => some { w with delivered := w.delivered ++ [n] }
  | .cacheListener =>
    (w.delivered[w.cacheHandled]?).map fun n =>
      { w with set := { w.set with endpointSliceCache := handleCacheEvent w.set.endpointSliceCache n },
               cacheHandled := w.cacheHandled + 1 }
  | .dirtyListener =>
    (w.delivered[w.dirtyHandled]?).map fun n =>
      { w with set := handleDirtyEvent w.set n, dirtyHandled := w.dirtyHandled + 1 }
  | .setLeader leader => some { w with set := w.set.setLeader leader }
  | .getSubMembers => some { w with set := w.set.getSubMembers.1 }

/-- Run a list of actions. -/
def watchRun (w : WatchState) : List WatchAction → Option WatchState
  | [] => some w
  | a :: as => (watchStep w a).bind fun w' => watchRun w' as

/-- A slice holding peer `dist-scheduler-a`. -/
def sliceA : EndpointSlice := ⟨"dist-scheduler-x1", 1, [⟨"dist-scheduler-a", ["10.0.0.1"]⟩]⟩

/-- `NewSchedulerSet` for pod `dist-scheduler-a`, before the informer has delivered anything. -/
def watchStart : WatchState :=
  ⟨⟨EndpointSliceCache.empty, "dist-scheduler-a", 10, [], "", true, false⟩, [], 0, 0⟩

/-- The initial list brings `sliceA`; `dist-scheduler-a` becomes leader and builds its topology.
Then `sliceB` is added, and the dirty listener and a `GetSubMembers` run before the cache
listener applies it. -/
def raceTrace : List WatchAction :=
  [.deliver (.add sliceA true), .cacheListener, .dirtyListener, .setLeader "dist-scheduler-a",
    .getSubMembers, .deliver (.add sliceB false), .dirtyListener, .getSubMembers, .cacheListener]

/-- The state `raceTrace` reaches. -/
def raceState : WatchState := (watchRun watchStart raceTrace).getD watchStart

/-- **The clean topology cache is stale.**  Both listeners have handled every notification and
`dirty` is false, yet `subMembersCache` is empty, while the cache and leader call for
`dist-scheduler-b` as the leader's sub-member. -/
theorem dirtyFirst_staleSubMembers :
    watchRun watchStart raceTrace = some raceState ∧
      raceState.cacheHandled = raceState.delivered.length ∧
      raceState.dirtyHandled = raceState.delivered.length ∧
      raceState.set.dirty = false ∧ raceState.set.subMembersCache = [] ∧
      subMembersOf raceState.set.leader raceState.set.podName raceState.set.fanOut
          raceState.set.endpointSliceCache.getMembers = [⟨"dist-scheduler-b", ["10.0.0.2"]⟩] :=
  ⟨rfl, by decide, by decide, by decide, by decide, by decide⟩

end DistScheduler
