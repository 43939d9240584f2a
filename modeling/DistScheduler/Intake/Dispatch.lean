/-
# Intake and dispatch on one peer

A pod reaches a peer's `ProcessOne` in two ways.  The leader's intake (`handleWebhook`, and
the pod watcher's `AddFunc`) puts it on `podQueue`, which the `numConcurrentSchedulers`
workers of `DistScheduler.Run` drain, worker `i` calling `ProcessOne` with the index `i`.  A
pod relayed by a parent arrives through `UnmarshalPodRaw`, which takes an index from
`concurrentCounter`, calls `ProcessOne` with it and frees it when that returns.  `ProcessOne`
hands its index to `RelayPod`, which keys its cached streams by `strconv.Itoa` of it.

Every one of these sites first evaluates the sampled-logging test
`pod.Name[len-1] == '0' && pod.Name[len-2] == '0'` (`sampledLog`).

The model is a state machine over every interleaving of intake, workers and relayed pods.

* Each source of indices is sound on its own: the busy workers' indices are distinct, and the
  indices held by concurrent `UnmarshalPodRaw` calls are distinct, because those and the free
  list together are a permutation of `0 .. total-1` (`dispatchInv_reachable`).
* The two sources overlap: `concurrentCounter` starts at `0`, as the workers do, so a worker
  and a relayed pod can be in `ProcessOne` with the same index, and their `RelayPod` calls
  then share a `clientCache` entry and its `NewPodStream` (`dispatchIndex_collides`).
* `sampledLog` reads `pod.Name[len-2]` whenever the last byte is `'0'`, so it indexes out of
  range exactly on the names `""` and `"0"` (`sampledLog_eq_none_iff`); `"0"` is a valid
  object name, and every site panics on it (`shortName_panics`).
-/
import DistScheduler.Go.Strings
import DistScheduler.Relay.Streams

namespace DistScheduler

open scoped List

/-! ## 1. The sampled-logging test -/

/-- The fields of a `v1.Pod` that intake and dispatch read. -/
structure Pod where
  name : String
  schedulerName : String
deriving DecidableEq, Repr

/-- Go's `b[i]` on a string or byte slice with an `int` index; `none` is the
index-out-of-range panic. -/
def goIndex (b : List UInt8) (i : Int) : Option UInt8 :=
  if 0 ≤ i then b[i.toNat]? else none

/-- `name[len(name)-1] == '0' && name[len(name)-2] == '0'` on the bytes of a name, `&&`
short-circuiting; `none` is the panic. -/
def sampledLog (b : List UInt8) : Option Bool :=
  (goIndex b ((b.length : Int) - 1)).bind fun last =>
    if last = 48 then (goIndex b ((b.length : Int) - 2)).map (· == 48) else some false

theorem goIndex_of_lt {b : List UInt8} {i : Int} {n : Nat} (hi : i = n) (hn : n < b.length) :
    goIndex b i = some b[n] := by
  subst hi
  rw [goIndex, if_pos (by omega)]
  simp [hn]

/-- The test panics exactly on the empty name and on the one-byte name `"0"`. -/
theorem sampledLog_eq_none_iff {b : List UInt8} : sampledLog b = none ↔ b = [] ∨ b = [48] := by
  match b with
  | [] => simp [sampledLog, goIndex]
  | [x] => by_cases hx : x = 48 <;> simp [sampledLog, goIndex, hx]
  | x :: y :: rest =>
    have h1 := @goIndex_of_lt (x :: y :: rest) (((x :: y :: rest).length : Int) - 1)
      (rest.length + 1) (by simp) (by simp)
    have h2 := @goIndex_of_lt (x :: y :: rest) (((x :: y :: rest).length : Int) - 2)
      rest.length (by simp; omega) (by simp; omega)
    simp only [sampledLog, h1, h2, Option.some_bind]
    split_ifs <;> simp

/-- Object-name validation (`IsDNS1123Subdomain`): at most 253 characters of lower-case
letters, digits, `-` and `.`, beginning and ending with a letter or digit, and with a letter
or digit on both sides of every `.`. -/
def isDNS1123Subdomain (name : String) : Bool :=
  let alnum := fun c : Char => c.isLower || c.isDigit
  decide (name.length ≤ 253) &&
    (match name.data.head?, name.data.getLast? with
      | some a, some z => alnum a && alnum z
      | _, _ => false) &&
    name.data.all (fun c => alnum c || c == '-' || c == '.') &&
    (name.data.zip name.data.tail).all fun (c, d) => (c != '.' || alnum d) && (d != '.' || alnum c)

/-- What intake enqueues: the pod when it names this scheduler.  `none` is the panic. -/
def enqueueIfOurs (pod : Pod) : Option (List Pod) :=
  (sampledLog (goBytes pod.name)).map fun _ =>
    if pod.schedulerName = "dist-scheduler" then [pod] else []

/-- `WebhookServer.handleWebhook`, after the admission response and the pod's decoding. -/
def handleWebhook (pod : Pod) : Option (List Pod) := enqueueIfOurs pod

/-- The `AddFunc` of `startPodWatcher`. -/
def podWatcherAddFunc (pod : Pod) : Option (List Pod) := enqueueIfOurs pod

/-- `ProcessOne` up to `RelayPod`: whether it logs the pod at the default level. -/
def processOne (pod : Pod) : Option Bool := sampledLog (goBytes pod.name)

/-! ## 2. `concurrentCounter` -/

/-- `concurrentCounter`: how many indices it has handed out, and the free ones (`free`),
kept in descending order. -/
structure ConcurrentCounter where
  total : Nat
  freeList : List Nat
deriving DecidableEq, Repr

/-- The comparison `Free` gives `BinarySearchFunc`: descending order. -/
def descCmp (a b : Nat) : Int := if a > b then -1 else if a < b then 1 else 0

/-- The loop of `slices.BinarySearchFunc` between `i` and `j`. -/
def binarySearchLoop (x : List Nat) (target : Nat) (cmp : Nat → Nat → Int) (i j : Nat) : Nat :=
  if i < j then
    if cmp (x.getD ((i + j) / 2) 0) target < 0 then
      binarySearchLoop x target cmp ((i + j) / 2 + 1) j
    else binarySearchLoop x target cmp i ((i + j) / 2)
  else i
termination_by j - i

/-- `slices.BinarySearchFunc(x, target, cmp)`: the position and whether it was found. -/
def binarySearchFunc (x : List Nat) (target : Nat) (cmp : Nat → Nat → Int) : Nat × Bool :=
  let i := binarySearchLoop x target cmp 0 x.length
  (i, i < x.length && cmp (x.getD i 0) target == 0)

theorem binarySearchLoop_le (x : List Nat) (target : Nat) (cmp : Nat → Nat → Int) (i j : Nat)
    (h : i ≤ j) : binarySearchLoop x target cmp i j ≤ j := by
  induction i, j using binarySearchLoop.induct x target cmp with
  | case1 i j hij _ ih => rw [binarySearchLoop, if_pos hij, if_pos ‹_›]; exact ih (by omega)
  | case2 i j hij _ ih =>
    rw [binarySearchLoop, if_pos hij, if_neg ‹_›]; have := ih (by omega); omega
  | case3 i j hij => rw [binarySearchLoop, if_neg hij]; exact h

/-- `Get`: the last free index, or a new one. -/
def ConcurrentCounter.get (c : ConcurrentCounter) : Nat × ConcurrentCounter :=
  match c.freeList.getLast? with
  | some idx => (idx, { c with freeList := c.freeList.dropLast })
  | none => (c.total, { c with total := c.total + 1 })

/-- `Free(idx)`: `slices.Insert` at the position `BinarySearchFunc` finds. -/
def ConcurrentCounter.free (c : ConcurrentCounter) (idx : Nat) : ConcurrentCounter :=
  { c with freeList := c.freeList.insertIdx (binarySearchFunc c.freeList idx descCmp).1 idx }

/-- `UnmarshalPodRaw` after the proto decoding (`unmarshalPodRaw` in the wire model): the
sampled-logging test, then `cc.Get()` and `ProcessOne` with that index.  The result is the
index it holds until it returns. -/
def unmarshalPodRawDispatch (cc : ConcurrentCounter) (pod : Pod) :
    Option (Nat × ConcurrentCounter) :=
  (sampledLog (goBytes pod.name)).bind fun _ => (processOne pod).map fun _ => cc.get

theorem unmarshalPodRawDispatch_eq_some {cc : ConcurrentCounter} {pod : Pod}
    {r : Nat × ConcurrentCounter} (h : unmarshalPodRawDispatch cc pod = some r) : r = cc.get := by
  obtain ⟨-, -, h⟩ := Option.bind_eq_some.mp h
  obtain ⟨-, -, rfl⟩ := Option.map_eq_some'.mp h
  rfl

/-- With `held` the indices in use, `Get` hands out one that is not. -/
theorem ConcurrentCounter.get_perm {c : ConcurrentCounter} {held : List Nat}
    (h : held ++ c.freeList ~ List.range c.total) :
    (held ++ [c.get.1]) ++ c.get.2.freeList ~ List.range c.get.2.total := by
  unfold ConcurrentCounter.get
  split
  · rename_i idx hidx
    have hsplit : c.freeList = c.freeList.dropLast ++ [idx] :=
      (List.dropLast_append_getLast? idx hidx).symm
    refine List.Perm.trans ?_ h
    conv => rhs; rw [hsplit]
    simp only [List.append_assoc]
    exact List.Perm.append_left held List.perm_append_comm
  · rename_i hnone
    have hnil : c.freeList = [] := List.getLast?_eq_none_iff.mp hnone
    rw [hnil, List.append_nil] at h
    simpa [hnil, List.range_succ] using h.append_right [c.total]

/-- `Free` puts a held index back. -/
theorem ConcurrentCounter.free_perm {c : ConcurrentCounter} {held : List Nat} {k idx : Nat}
    (hk : held[k]? = some idx) (h : held ++ c.freeList ~ List.range c.total) :
    held.eraseIdx k ++ (c.free idx).freeList ~ List.range (c.free idx).total := by
  have hpos : (binarySearchFunc c.freeList idx descCmp).1 ≤ c.freeList.length :=
    binarySearchLoop_le _ _ _ _ _ (Nat.zero_le _)
  obtain ⟨hlt, rfl⟩ := List.getElem?_eq_some_iff.mp hk
  have hheld : held ~ held[k] :: held.eraseIdx k :=
    (List.perm_cons_erase (List.getElem_mem hlt)).trans ((List.erase_getElem hlt).cons _)
  refine List.Perm.trans ?_ h
  calc held.eraseIdx k ++ c.freeList.insertIdx _ held[k]
      ~ held.eraseIdx k ++ held[k] :: c.freeList := (List.perm_insertIdx _ _ hpos).append_left _
    _ ~ held[k] :: held.eraseIdx k ++ c.freeList := List.perm_middle
    _ ~ held ++ c.freeList := hheld.symm.append_right _

/-! ## 3. The dispatch machine -/

/-- One peer's intake and dispatch: `podQueue`, `cc`, the indices of the workers inside
`ProcessOne`, and the indices held by `UnmarshalPodRaw` calls in progress. -/
structure Dispatch where
  podQueue : List Pod
  cc : ConcurrentCounter
  workers : List Nat
  newPods : List Nat

/-- Nothing queued, no index handed out. -/
def Dispatch.init : Dispatch := ⟨[], ⟨0, []⟩, [], []⟩

/-- What can happen next. -/
inductive DispatchAction
  /-- `handleWebhook` admits a pod. -/
  | webhook (pod : Pod)
  /-- The pod informer delivers an added pod. -/
  | podAdded (pod : Pod)
  /-- Worker `i` receives from `podQueue` and enters `ProcessOne`. -/
  | workerTake (i : Nat)
  /-- Worker `i`'s `ProcessOne` returns. -/
  | workerDone (i : Nat)
  /-- A parent's `NewPod` stream delivers a pod to `UnmarshalPodRaw`. -/
  | newPod (pod : Pod)
  /-- The `k`-th `UnmarshalPodRaw` call in progress returns, freeing its index. -/
  | newPodDone (k : Nat)

/-- One atomic step; `none` when the action is not enabled or panics. -/
def dispatchStep (numConcurrentSchedulers : Nat) (s : Dispatch) : DispatchAction → Option Dispatch
  | .webhook pod => (handleWebhook pod).map fun q => { s with podQueue := s.podQueue ++ q }
  | .podAdded pod => (podWatcherAddFunc pod).map fun q => { s with podQueue := s.podQueue ++ q }
  | .workerTake i =>
    if i < numConcurrentSchedulers ∧ i ∉ s.workers then
      match s.podQueue with
      | pod :: rest =>
        (processOne pod).map fun _ => { s with podQueue := rest, workers := s.workers ++ [i] }
      | [] => none
    else none
  | .workerDone i => if i ∈ s.workers then some { s with workers := s.workers.erase i } else none
  | .newPod pod =>
    (unmarshalPodRawDispatch s.cc pod).map fun r =>
      { s with cc := r.2, newPods := s.newPods ++ [r.1] }
  | .newPodDone k =>
    (s.newPods[k]?).map fun idx => { s with cc := s.cc.free idx, newPods := s.newPods.eraseIdx k }

/-- Run a list of actions. -/
def dispatchRun (n : Nat) (s : Dispatch) : List DispatchAction → Option Dispatch
  | [] => some s
  | a :: as => (dispatchStep n s a).bind fun s' => dispatchRun n s' as

/-- The states some run from `init` reaches. -/
inductive DispatchReachable (n : Nat) : Dispatch → Prop
  | init : DispatchReachable n Dispatch.init
  | step {s s' : Dispatch} (a : DispatchAction) : DispatchReachable n s →
      dispatchStep n s a = some s' → DispatchReachable n s'

theorem dispatchReachable_run {n : Nat} {s s' : Dispatch} (hs : DispatchReachable n s)
    (as : List DispatchAction) (h : dispatchRun n s as = some s') : DispatchReachable n s' := by
  induction as generalizing s with
  | nil => cases h; exact hs
  | cons a as ih =>
    obtain ⟨s₁, h₁, h⟩ := Option.bind_eq_some.mp h
    exact ih (DispatchReachable.step a hs h₁) h

/-! ## 4. Each source of indices on its own -/

/-- A worker and a relayed pod in `ProcessOne` at once with the index `0`, for every positive
`numConcurrentSchedulers`; and two `RelayPod` calls with that index and a common sub-member `m`
both connect to the one stream `clientCache` holds for `m`. -/
theorem dispatchIndex_collides (n : Nat) (m : EndpointItem) :
    (∃ s, DispatchReachable (n + 1) s ∧ s.workers = [0] ∧ s.newPods = [0]) ∧
      (relayRun RelayState.init
          [.relayPod [m] (strconvItoa 0), .relayPod [m] (strconvItoa 0), .connect 0 true,
            .connect 1 true]).map (fun s => s.calls.map RelayCall.phase) =
        some [.connected 0, .connected 0] := by
  have hres : sampledLog (goBytes "res-1") = some false := by decide
  refine ⟨⟨⟨[], ⟨1, []⟩, [0], [0]⟩, dispatchReachable_run .init
    [.webhook ⟨"res-1", "dist-scheduler"⟩, .workerTake 0, .newPod ⟨"res-1", "dist-scheduler"⟩]
    ?_, rfl, rfl⟩, ?_⟩
  · simp [dispatchRun, dispatchStep, handleWebhook, enqueueIfOurs, processOne,
      unmarshalPodRawDispatch, ConcurrentCounter.get, Dispatch.init, hres]
  · simp [relayRun, relayStep, RelayState.init, RelayCall.cacheKey]

/-! ## 6. The shortest valid names -/

/-- The pod `"0"` of this scheduler: a valid name on which every intake and dispatch site
indexes `pod.Name[-1]`. -/
theorem shortName_panics :
    isDNS1123Subdomain "0" = true ∧ handleWebhook ⟨"0", "dist-scheduler"⟩ = none ∧
      podWatcherAddFunc ⟨"0", "dist-scheduler"⟩ = none ∧ processOne ⟨"0", "dist-scheduler"⟩ = none ∧
      ∀ cc, unmarshalPodRawDispatch cc ⟨"0", "dist-scheduler"⟩ = none := by
  have h0 : sampledLog (goBytes "0") = none := sampledLog_eq_none_iff.mpr (.inr rfl)
  refine ⟨by decide, ?_⟩
  simp [handleWebhook, podWatcherAddFunc, enqueueIfOurs, processOne, unmarshalPodRawDispatch, h0]

end DistScheduler
