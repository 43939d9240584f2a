/-
# The membership cache: `EndpointSliceCache`

`schedulerset/endpointslices.go` keeps the peers of the `dist-scheduler` Service as a map
from EndpointSlice name to the slice, fed by an informer.  `GetMembers` flattens it into
`EndpointItem`s, one per endpoint, in the map's iteration order; every consumer either sorts
that list or counts it, and the theorems about them are stated up to permutation.

The map is Mathlib's `AList` keyed by the slice name, so `Update` (insert or replace) and
`Delete` keep the keys unique by construction.  Of an endpoint the model keeps the two fields
`GetMembers` reads, `TargetRef.Name` and `Addresses`; of a slice its name, its generation
(read by the update handler) and its endpoints.
-/
import Mathlib.Algebra.Order.Ring.Nat
import Mathlib.Data.List.AList

namespace DistScheduler

/-! ## 1. Endpoints and slices -/

/-- A peer as the rest of the program sees it: `schedulerset.EndpointItem`. -/
structure EndpointItem where
  podName : String
  addresses : List String
deriving DecidableEq, Repr, Inhabited

/-- A `discoveryv1.Endpoint`: the pod it targets and its addresses. -/
structure Endpoint where
  targetRefName : String
  addresses : List String
deriving DecidableEq, Repr

/-- A `discoveryv1.EndpointSlice`. -/
structure EndpointSlice where
  name : String
  generation : Int
  endpoints : List Endpoint
deriving DecidableEq, Repr

/-- The `EndpointItem` that `GetMembers` builds for one endpoint. -/
def Endpoint.toItem (ep : Endpoint) : EndpointItem := ⟨ep.targetRefName, ep.addresses⟩

/-! ## 2. The cache and its operations -/

/-- `EndpointSliceCache`: the slices keyed by name. -/
structure EndpointSliceCache where
  slices : AList (fun _ : String => EndpointSlice)

namespace EndpointSliceCache

/-- `NewEndpointSliceCache`. -/
def empty : EndpointSliceCache := ⟨∅⟩

/-- `Update`: insert or replace the slice under its name. -/
def update (c : EndpointSliceCache) (ess : EndpointSlice) : EndpointSliceCache :=
  ⟨c.slices.insert ess.name ess⟩

/-- `Delete`: drop whatever is stored under the slice's name. -/
def delete (c : EndpointSliceCache) (ess : EndpointSlice) : EndpointSliceCache :=
  ⟨c.slices.erase ess.name⟩

/-- `GetMembers`: one item per endpoint of every slice, in the map's iteration order. -/
def getMembers (c : EndpointSliceCache) : List EndpointItem :=
  c.slices.entries.flatMap fun e => e.2.endpoints.map Endpoint.toItem

/-- `GetMemberCount`. -/
def getMemberCount (c : EndpointSliceCache) : Nat :=
  (c.slices.entries.map fun e => e.2.endpoints.length).sum

theorem getMemberCount_eq (c : EndpointSliceCache) :
    c.getMemberCount = c.getMembers.length := by
  simp [getMemberCount, getMembers, List.flatMap_def, Function.comp_def]

@[simp] theorem lookup_update (c : EndpointSliceCache) (ess : EndpointSlice) (k : String) :
    (c.update ess).slices.lookup k = if k = ess.name then some ess else c.slices.lookup k := by
  split
  · subst k; exact AList.lookup_insert _
  · exact AList.lookup_insert_ne ‹_›

@[simp] theorem lookup_delete (c : EndpointSliceCache) (ess : EndpointSlice) (k : String) :
    (c.delete ess).slices.lookup k = if k = ess.name then none else c.slices.lookup k := by
  split
  · subst k; exact AList.lookup_erase _ _
  · exact AList.lookup_erase_ne ‹_›

end EndpointSliceCache

end DistScheduler
