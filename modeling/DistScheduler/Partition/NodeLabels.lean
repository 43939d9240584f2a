/-
# The node partition: `updateNodeLabels`

The leader splits the cluster's nodes among the non-relay schedulers by writing the label
`SchedulerGroupLabelKey` on each node.  `updateNodeLabels` (in the pod watcher) does it in two
loops:

* the **first loop** walks the informer's node list and keeps a node where it is when its label
  names a scheduler whose count is still below `desired = ⌈N / |G|⌉`; every other node goes to
  `toMove`;
* the **second loop** hands the `i`-th node of `toMove` to `shortGroups[i % len(shortGroups)]`,
  the groups still below `desired` in the map's iteration order, and drops a group from that
  list when it fills up.  A node already labelled with its new group is skipped; every other
  node gets a patch.

The cap is only from above: a run moves no node as soon as no group is over `desired` and
every node has a scheduler's label, however empty some group is (`updateNodeLabels_noRelabel`;
`Postconditions.lean` reaches such a run by scaling up).

The model returns the patches of a run as `(node name, group)` pairs; `none` is Go's panic
(`i % 0`, or an index out of range).  The map's iteration order is the parameter `order`.
-/
import DistScheduler.Membership.SchedulerSet
import Mathlib.Algebra.BigOperators.Group.List

namespace DistScheduler

open scoped List

/-! ## 1. The two loops -/

/-- A node of the inventory: its name and its `SchedulerGroupLabelKey` label, if any. -/
structure Node where
  name : String
  group : Option String
deriving DecidableEq, Repr

/-- `slices.DeleteFunc(schedulers, ...)`: the members that are not relays. -/
def nodeSchedulers (members : List EndpointItem) : List EndpointItem :=
  members.filter fun m => !stringsHasPrefix m.podName relayPrefix

/-- The groups: the names of the non-relay members. -/
def groupNames (members : List EndpointItem) : List String :=
  (nodeSchedulers members).map (·.podName)

/-- `nodeCountPerGroup`, every member's count set to `0`. -/
def initCounts (names : List String) : String → Option Nat :=
  names.foldl (fun m g => Function.update m g (some 0)) fun _ => none

/-- `int(math.Ceil(float64(len(nodeList)) / float64(len(schedulers))))`; the quotient of two
integers below `2^53` rounds to the same ceiling. -/
def desiredNodeCount (nodes groups : Nat) : Nat := (nodes + groups - 1) / groups

/-- One iteration of the first loop: keep the node in its group while the group is below
`desired`, else append it to `toMove`. -/
def keepOrMove (desired : Nat) : (String → Option Nat) × List Node → Node →
    (String → Option Nat) × List Node
  | (counts, toMove), n =>
    match n.group with
    | some g =>
      match counts g with
      | some count =>
        if count < desired then (Function.update counts g (some (count + 1)), toMove)
        else (counts, toMove ++ [n])
      | none => (counts, toMove ++ [n])
    | none => (counts, toMove ++ [n])

/-- The second loop, from iteration `i`.  `none` is a panic. -/
def assignNodes (desired : Nat) : Nat → (String → Option Nat) → List String → List Node →
    Option (List (String × String))
  | _, _, _, [] => some []
  | i, counts, shortGroups, n :: ns =>
    match shortGroups[i % shortGroups.length]? with
    | none => none
    | some g =>
      let count := (counts g).getD 0 + 1
      let shortGroups' :=
        if count ≥ desired then shortGroups.eraseIdx (i % shortGroups.length) else shortGroups
      (assignNodes desired (i + 1) (Function.update counts g (some count)) shortGroups' ns).map
        fun rest => if n.group.getD "" = g then rest else (n.name, g) :: rest

/-- `updateNodeLabels`: the patches one run sends, given `GetMembers()`, the iteration order
`order` of `nodeCountPerGroup` and the informer's node list. -/
def updateNodeLabels (members : List EndpointItem) (order : List String) (nodeList : List Node) :
    Option (List (String × String)) :=
  let schedulers := nodeSchedulers members
  if schedulers.length = 0 then some [] else
  let desired := desiredNodeCount nodeList.length schedulers.length
  let (counts, toMove) :=
    nodeList.foldl (keepOrMove desired) (initCounts (schedulers.map (·.podName)), [])
  if toMove.length = 0 then some [] else
  let shortGroups := order.filter fun g => (counts g).getD 0 < desired
  if shortGroups.length = 0 then some [] else
  assignNodes desired 0 counts shortGroups toMove

/-- The number of nodes labelled with `g`. -/
def groupSize (nodes : List Node) (g : String) : Nat := nodes.countP fun n => n.group = some g

/-! ## 2. The first loop -/

theorem foldl_update_zero (names : List String) (m : String → Option Nat) (g : String) :
    names.foldl (fun m g => Function.update m g (some 0)) m g = if g ∈ names then some 0 else m g := by
  induction names generalizing m with
  | nil => simp
  | cons x xs ih =>
    rw [List.foldl_cons, ih]
    by_cases hg : g ∈ xs
    · simp [hg]
    · by_cases hx : g = x <;> simp [hg, hx, Function.update_apply]

@[simp] theorem initCounts_apply (names : List String) (g : String) :
    initCounts names g = if g ∈ names then some 0 else none :=
  foldl_update_zero names _ g

section FirstLoop

variable {desired : Nat} {names : List String}

/-- What one iteration of the first loop can do. -/
theorem keepOrMove_cases (acc : (String → Option Nat) × List Node) (n : Node) :
    (∃ g count, n.group = some g ∧ acc.1 g = some count ∧ count < desired ∧
        keepOrMove desired acc n = (Function.update acc.1 g (some (count + 1)), acc.2)) ∨
      (keepOrMove desired acc n = (acc.1, acc.2 ++ [n]) ∧
        ∀ g, n.group = some g → ∀ count, acc.1 g = some count → desired ≤ count) := by
  obtain ⟨counts, toMove⟩ := acc
  rcases hn : n.group with _ | g
  · exact .inr ⟨by simp [keepOrMove, hn], fun _ h => nomatch h⟩
  rcases hc : counts g with _ | count
  · exact .inr ⟨by simp [keepOrMove, hn, hc], fun _ h => by cases h; simp [hc]⟩
  by_cases hlt : count < desired
  · exact .inl ⟨g, count, rfl, hc, hlt, by simp [keepOrMove, hn, hc, hlt]⟩
  · exact .inr ⟨by simp [keepOrMove, hn, hc, hlt], fun _ h c' hc' => by
      cases h; simp only [hc, Option.some.injEq] at hc'; omega⟩

/-- The first loop's invariant: the map's keys are the groups, no count passes `desired`, and
every node to move has no label, or a label outside the map, or a full group's label. -/
structure PassInv (names : List String) (desired : Nat) (acc : (String → Option Nat) × List Node) :
    Prop where
  keys : ∀ g, acc.1 g ≠ none ↔ g ∈ names
  le : ∀ g count, acc.1 g = some count → count ≤ desired
  moved : ∀ n ∈ acc.2, ∀ g, n.group = some g → ∀ count, acc.1 g = some count → desired ≤ count

theorem passInv_init : PassInv names desired (initCounts names, []) :=
  ⟨fun g => by by_cases hg : g ∈ names <;> simp [hg],
    fun g count h => by by_cases hg : g ∈ names <;> simp [hg] at h; omega, fun _ h => nomatch h⟩

theorem PassInv.step {acc : (String → Option Nat) × List Node} (hinv : PassInv names desired acc)
    (n : Node) : PassInv names desired (keepOrMove desired acc n) := by
  rcases keepOrMove_cases acc n with ⟨g, count, -, hc, hlt, h⟩ | ⟨h, hfull⟩ <;> rw [h]
  · refine ⟨fun g' => ?_, fun g' c' h' => ?_, fun n' hn' g' hg' c' h' => ?_⟩ <;>
      by_cases hg : g' = g
    · subst hg; simpa [hc] using hinv.keys g'
    · simpa [Function.update_noteq hg] using hinv.keys g'
    · subst hg; simp at h'; omega
    · exact hinv.le g' c' (by simpa [Function.update_noteq hg] using h')
    · subst hg; have := hinv.moved n' hn' g' hg' count hc; omega
    · exact hinv.moved n' hn' g' hg' c' (by simpa [Function.update_noteq hg] using h')
  · refine ⟨hinv.keys, hinv.le, fun n' hn' => ?_⟩
    rcases List.mem_append.mp hn' with hn' | hn'
    · exact hinv.moved n' hn'
    · rw [List.mem_singleton.mp hn']; exact hfull

theorem passInv_foldl : ∀ (l : List Node) {acc : (String → Option Nat) × List Node},
    PassInv names desired acc → PassInv names desired (l.foldl (keepOrMove desired) acc)
  | [], _, h => h
  | n :: l, _, h => passInv_foldl l (h.step n)

/-- The sum of the groups' counts. -/
def total (names : List String) (counts : String → Option Nat) : Nat :=
  (names.map fun g => (counts g).getD 0).sum

theorem total_update (hnd : names.Nodup) {counts : String → Option Nat} {g : String} {count : Nat}
    (hg : g ∈ names) (hc : counts g = some count) :
    total names (Function.update counts g (some (count + 1))) = total names counts + 1 := by
  induction names with
  | nil => cases hg
  | cons x xs ih =>
    obtain ⟨hx, hxs⟩ := List.nodup_cons.mp hnd
    simp only [total, List.map_cons, List.sum_cons] at ih ⊢
    by_cases hgx : g = x
    · subst hgx
      rw [List.map_congr_left fun y hy => by rw [Function.update_noteq (ne_of_mem_of_not_mem hy hx)]]
      simp [hc]
      omega
    · rw [Function.update_noteq (Ne.symm hgx), ih hxs (List.mem_of_ne_of_mem hgx hg)]
      omega

/-- **Every node seen is counted once**: in a group, or in `toMove`. -/
theorem total_foldl (hnd : names.Nodup) : ∀ (l : List Node) {acc : (String → Option Nat) × List Node},
    PassInv names desired acc →
    total names (l.foldl (keepOrMove desired) acc).1 + (l.foldl (keepOrMove desired) acc).2.length =
      total names acc.1 + acc.2.length + l.length
  | [], _, _ => rfl
  | n :: l, acc, h => by
    rw [List.foldl_cons, total_foldl hnd l (h.step n), List.length_cons]
    rcases keepOrMove_cases acc n with ⟨g, count, -, hc, -, he⟩ | ⟨he, -⟩ <;> rw [he]
    · rw [total_update hnd ((h.keys g).mp (by simp [hc])) hc]
      dsimp only
      omega
    · simp only [List.length_append, List.length_singleton]
      omega

theorem toMove_extends : ∀ (l : List Node) (acc : (String → Option Nat) × List Node),
    acc.2 <+: (l.foldl (keepOrMove desired) acc).2
  | [], _ => List.prefix_refl _
  | n :: l, acc => by
    refine List.IsPrefix.trans ?_ (toMove_extends l _)
    rcases keepOrMove_cases acc n with ⟨_, _, -, -, -, he⟩ | ⟨he, -⟩ <;> rw [he]
    exact List.prefix_append _ _

@[simp] theorem groupSize_nil (g : String) : groupSize [] g = 0 := rfl

theorem groupSize_cons (n : Node) (l : List Node) (g : String) :
    groupSize (n :: l) g = groupSize l g + if n.group = some g then 1 else 0 := by
  simp [groupSize, List.countP_cons]

/-- **A first loop that moves nothing** has seen only nodes labelled with a key of the map, and
has counted each group's nodes. -/
theorem foldl_noMove : ∀ (l : List Node) (acc : (String → Option Nat) × List Node),
    (l.foldl (keepOrMove desired) acc).2 = acc.2 →
    (∀ n ∈ l, ∃ g, n.group = some g ∧ acc.1 g ≠ none) ∧
      ∀ g count, acc.1 g = some count →
        (l.foldl (keepOrMove desired) acc).1 g = some (count + groupSize l g)
  | [], _, _ => ⟨fun _ h => (nomatch h), fun _ _ h => h⟩
  | n :: l, acc, h => by
    rw [List.foldl_cons] at h ⊢
    rcases keepOrMove_cases acc n with ⟨g, count, hn, hc, -, he⟩ | ⟨he, -⟩ <;> rw [he] at h ⊢
    · obtain ⟨ih₁, ih₂⟩ := foldl_noMove l _ h
      refine ⟨fun n' hn' => ?_, fun g' c' hc' => ?_⟩
      · rcases List.mem_cons.mp hn' with rfl | hn'
        · exact ⟨g, hn, by simp [hc]⟩
        · obtain ⟨g'', hg'', hne⟩ := ih₁ n' hn'
          refine ⟨g'', hg'', ?_⟩
          by_cases hgg : g'' = g
          · subst hgg; simp [hc]
          · simpa [Function.update_noteq hgg] using hne
      · rw [groupSize_cons, hn]
        by_cases hgg : g' = g
        · subst hgg
          obtain rfl : count = c' := Option.some.inj (hc.symm.trans hc')
          rw [ih₂ g' (count + 1) (by simp), if_pos rfl, Option.some.injEq]
          omega
        · rw [ih₂ g' c' (by simpa [Function.update_noteq hgg] using hc')]
          simp [Ne.symm hgg]
    · have := (@toMove_extends desired l (acc.1, acc.2 ++ [n])).length_le
      rw [h] at this
      simp only [List.length_append, List.length_singleton] at this
      omega

theorem total_initCounts : total names (initCounts names) = 0 :=
  List.sum_eq_zero fun x hx => by
    obtain ⟨g, hg, rfl⟩ := List.mem_map.mp hx
    simp [hg]

theorem mul_le_total {counts : String → Option Nat} (h : ∀ g ∈ names, desired ≤ (counts g).getD 0) :
    names.length * desired ≤ total names counts := by
  induction names with
  | nil => simp [total]
  | cons x xs ih =>
    simp only [total, List.map_cons, List.sum_cons, List.length_cons, Nat.succ_mul] at ih ⊢
    have := h x (List.mem_cons_self x xs)
    have := ih fun g hg => h g (List.mem_cons_of_mem x hg)
    omega

/-- **A first loop that leaves a node to move leaves a group short**, when the groups can hold
every node. -/
theorem exists_short_of_toMove (hnd : names.Nodup) (l : List Node)
    (hceil : l.length ≤ names.length * desired)
    (hT : (l.foldl (keepOrMove desired) (initCounts names, [])).2 ≠ []) :
    ∃ g ∈ names, ((l.foldl (keepOrMove desired) (initCounts names, [])).1 g).getD 0 < desired := by
  have htot := total_foldl hnd l (@passInv_init desired names)
  rw [total_initCounts] at htot
  by_contra hfull
  push_neg at hfull
  have := mul_le_total hfull
  have := List.length_pos.mpr hT
  simp only [List.length_nil] at htot
  omega

end FirstLoop

/-- The second loop patches its first node unless the node already carries its new label. -/
theorem assignNodes_cons_ne_nil {desired i : Nat} {counts : String → Option Nat}
    {shortGroups : List String} {n : Node} {ns : List Node} {g : String}
    (hg : shortGroups[i % shortGroups.length]? = some g) (hne : n.group.getD "" ≠ g) :
    assignNodes desired i counts shortGroups (n :: ns) ≠ some [] := by
  intro h
  simp only [assignNodes, hg] at h
  obtain ⟨rest, -, h⟩ := Option.map_eq_some'.mp h
  rw [if_neg hne] at h
  exact List.cons_ne_nil _ _ h

/-- `⌈N / k⌉` groups of `k` hold the `N` nodes. -/
theorem le_mul_desiredNodeCount {nodes groups : Nat} (hk : groups ≠ 0) :
    nodes ≤ groups * desiredNodeCount nodes groups := by
  have h₁ := Nat.div_add_mod (nodes + groups - 1) groups
  have h₂ := Nat.mod_lt (nodes + groups - 1) (Nat.pos_of_ne_zero hk)
  unfold desiredNodeCount
  omega

/-! ## 3. Runs that relabel nothing -/

/-- **A run that relabels no node sees a capped partition.**  If the groups are distinct,
non-empty names and there is at least one, a run of `updateNodeLabels` that sends no patch
finds every node labelled with a group, and no group with more than `⌈N / |G|⌉` nodes. -/
theorem updateNodeLabels_noRelabel {members : List EndpointItem} {order : List String}
    {nodeList : List Node} (hG : groupNames members ≠ []) (hnd : (groupNames members).Nodup)
    (hname : "" ∉ groupNames members) (hord : order ~ groupNames members)
    (h : updateNodeLabels members order nodeList = some []) :
    (∀ n ∈ nodeList, ∃ g ∈ groupNames members, n.group = some g) ∧
      ∀ g ∈ groupNames members,
        groupSize nodeList g ≤ desiredNodeCount nodeList.length (groupNames members).length := by
  have hlen : (nodeSchedulers members).length = (groupNames members).length :=
    (List.length_map _ _).symm
  have hk : (groupNames members).length ≠ 0 := fun h0 => hG (List.length_eq_zero.mp h0)
  simp only [updateNodeLabels, hlen, if_neg hk, ← groupNames.eq_1] at h
  have hshort := exists_short_of_toMove hnd nodeList (le_mul_desiredNodeCount hk)
  generalize desiredNodeCount nodeList.length (groupNames members).length = d at h hshort ⊢
  generalize hf : nodeList.foldl (keepOrMove d) (initCounts (groupNames members), []) = acc at h hshort
  obtain ⟨c, T⟩ := acc
  have hinv : PassInv (groupNames members) d (c, T) := hf ▸ passInv_foldl nodeList passInv_init
  rcases T with _ | ⟨n, T⟩
  · obtain ⟨h₁, h₂⟩ := foldl_noMove nodeList _ (by rw [hf])
    refine ⟨fun n hn => ?_, fun g hg => ?_⟩
    · obtain ⟨g, hg, hne⟩ := h₁ n hn
      exact ⟨g, by simpa using hne, hg⟩
    · have hc := h₂ g 0 (by simp [hg])
      rw [hf, Nat.zero_add] at hc
      exact hinv.le g _ hc
  -- A node is left to move, so some group is short; the first node goes to the first of them.
  exfalso
  obtain ⟨g₀, hg₀G, hg₀⟩ := hshort (List.cons_ne_nil n T)
  obtain ⟨g, short, hsh⟩ : ∃ g short, order.filter (fun g => (c g).getD 0 < d) = g :: short :=
    List.exists_cons_of_ne_nil (List.ne_nil_of_mem
      (List.mem_filter.mpr ⟨hord.mem_iff.mpr hg₀G, decide_eq_true hg₀⟩))
  rw [if_neg fun h0 => List.cons_ne_nil n T (List.length_eq_zero.mp h0), hsh, if_neg (by simp)] at h
  have hgmem := List.mem_filter.mp (hsh ▸ List.mem_cons_self g short)
  have hgG : g ∈ groupNames members := hord.subset hgmem.1
  obtain ⟨x, hx⟩ : ∃ x, c g = some x := Option.ne_none_iff_exists'.mp ((hinv.keys g).mpr hgG)
  have hlt : x < d := by simpa [hx] using hgmem.2
  -- Its label is not that group, so it is patched.
  refine assignNodes_cons_ne_nil (show (g :: short)[0 % (g :: short).length]? = some g by simp) ?_ h
  rcases hn : n.group with _ | g'
  · rintro rfl
    exact hname hgG
  · rintro rfl
    exact absurd (hinv.moved n (List.mem_cons_self n T) _ hn x hx) (by simpa using hlt)

/-- Three schedulers. -/
def threeMembers : List EndpointItem :=
  [⟨"dist-scheduler-1", ["10.0.0.1"]⟩, ⟨"dist-scheduler-2", ["10.0.0.2"]⟩,
    ⟨"dist-scheduler-3", ["10.0.0.3"]⟩]

/-- Four nodes, two on each of the first two schedulers. -/
def fourNodes : List Node :=
  [⟨"node-1", some "dist-scheduler-1"⟩, ⟨"node-2", some "dist-scheduler-1"⟩,
    ⟨"node-3", some "dist-scheduler-2"⟩, ⟨"node-4", some "dist-scheduler-2"⟩]

theorem updateNodeLabels_noRelabel_fourNodes :
    updateNodeLabels threeMembers (groupNames threeMembers) fourNodes = some [] ∧
      (∀ n ∈ fourNodes, ∃ g ∈ groupNames threeMembers, n.group = some g) ∧
      ∀ g ∈ groupNames threeMembers,
        groupSize fourNodes g ≤ desiredNodeCount fourNodes.length (groupNames threeMembers).length :=
  ⟨by decide,
    updateNodeLabels_noRelabel (by decide) (by decide) (by decide) (List.Perm.refl _) (by decide)⟩

end DistScheduler
