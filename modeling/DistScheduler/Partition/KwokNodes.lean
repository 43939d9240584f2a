/-
# The kwok tool's pre-labelled nodes

The kwok node tool lists the scheduler pods (`getSchedulerPods`: label `role=scheduler` in
`kube-system`) and creates the fake nodes `kwok-node-i` for `skip ≤ i < count`.  So that the
nodes "already have the scheduler label assigned", `createNode` labels node `i` with
`schedulerPodNames[i % len(schedulerPodNames)]`, or with `""` when it found no scheduler pod.
Otherwise, its comment says, the leader's partitioner labels them itself.

When the tool lists the schedulers that the leader's `GetMembers()` finds, in any order, those
labels are a fixed point of the partitioner.  Round robin puts at most `⌈N / G⌉` of the first
`N` nodes on each of the `G` schedulers (`countP_mod_eq_le`).  So `updateNodeLabels` on nodes
`0, ..., N-1` sends no patch, whatever order the informer lists them in
(`createNode_noRelabel`).
-/
import DistScheduler.Partition.Postconditions
import Mathlib.Data.List.GetD

namespace DistScheduler

open scoped List

/-! ## 1. `createNode` -/

/-- The node `createNode` creates, as the node informer's transform keeps it: its name
`kwok-node-%d`, and its `SchedulerGroupLabelKey` label `schedulerPodNames[index %
len(schedulerPodNames)]`, or `""` when the tool found no scheduler pod. -/
def createNode (schedulerPodNames : List String) (index : Nat) : Node :=
  ⟨"kwok-node-" ++ toString index,
    some (schedulerPodNames.getD (index % schedulerPodNames.length) "")⟩

/-- The nodes `main` creates: `createNode` for every `i` with `skip ≤ i < numNodes`. -/
def kwokNodes (schedulerPodNames : List String) (skip numNodes : Nat) : List Node :=
  (List.range' skip (numNodes - skip)).map (createNode schedulerPodNames)

/-- A node's label is the name at its index's residue. -/
theorem createNode_group {schedulerPodNames : List String} (hne : schedulerPodNames ≠ [])
    (index : Nat) :
    ∃ j, ∃ hj : j < schedulerPodNames.length, index % schedulerPodNames.length = j ∧
      (createNode schedulerPodNames index).group = some schedulerPodNames[j] := by
  have hpos : 0 < schedulerPodNames.length := List.length_pos.mpr hne
  exact ⟨_, Nat.mod_lt _ hpos, rfl, congrArg some (List.getD_eq_getElem _ _ _)⟩

/-! ## 2. Round robin fills no group past `⌈N / G⌉` -/

/-- Among `0, ..., N-1`, at most `⌈N / G⌉` numbers leave the residue `j` modulo `G`: dividing
by `G` sends them to distinct numbers below `⌈N / G⌉`. -/
theorem countP_mod_eq_le (N G j : Nat) (hG : 0 < G) :
    (List.range N).countP (fun i => i % G = j) ≤ desiredNodeCount N G := by
  rw [List.countP_eq_length_filter]
  have hmem : ∀ i ∈ (List.range N).filter (fun i => i % G = j), i < N ∧ i % G = j := by
    simp
  have hnd : (((List.range N).filter fun i => i % G = j).map (· / G)).Nodup :=
    ((List.nodup_range N).filter _).map_on fun a ha b hb hab => by
      rw [← Nat.div_add_mod a G, ← Nat.div_add_mod b G, hab, (hmem a ha).2, (hmem b hb).2]
  have hsub : ((List.range N).filter fun i => i % G = j).map (· / G) ⊆
      List.range (desiredNodeCount N G) := fun q hq => by
    obtain ⟨i, hi, rfl⟩ := List.mem_map.mp hq
    have hiN := (hmem i hi).1
    rw [List.mem_range, desiredNodeCount]
    calc i / G < (i + G) / G := by rw [Nat.add_div_right i hG]; exact Nat.lt_succ_self _
      _ ≤ (N + G - 1) / G := Nat.div_le_div_right (by omega)
  simpa using (List.subperm_of_subset hnd hsub).length_le

/-- Node `i` of the tool's run from `0` is in group `schedulerPodNames[j]` exactly when
`i % G = j`, since the names are distinct. -/
theorem groupSize_kwokNodes {schedulerPodNames : List String} (hnd : schedulerPodNames.Nodup)
    (N : Nat) {j : Nat} (hj : j < schedulerPodNames.length) :
    groupSize (kwokNodes schedulerPodNames 0 N) schedulerPodNames[j] =
      (List.range N).countP (fun i => i % schedulerPodNames.length = j) := by
  rw [groupSize, kwokNodes, Nat.sub_zero, ← List.range_eq_range', List.countP_map]
  refine List.countP_congr fun i _ => ?_
  obtain ⟨j', hj', hij, hg⟩ :=
    createNode_group (List.ne_nil_of_length_pos (Nat.zero_lt_of_lt hj)) i
  simp only [Function.comp, hg, Option.some.injEq, decide_eq_true_eq, hij]
  exact hnd.getElem_inj_iff

/-! ## 3. The labels are a fixed point of `updateNodeLabels` -/

/-- **Pre-labelled nodes need no relabel.**  When the tool has listed the leader's schedulers
(`GetMembers()` without the relays, in any order), has found at least one and has created nodes
`0, ..., N-1`, the leader's `updateNodeLabels` on those nodes, in any order and with any
iteration order of its map, sends no patch. -/
theorem createNode_noRelabel {members : List EndpointItem} {schedulerPodNames : List String}
    (order : List String) {N : Nat} {nodeList : List Node}
    (hnames : schedulerPodNames ~ groupNames members) (hnd : schedulerPodNames.Nodup)
    (hne : schedulerPodNames ≠ []) (hnodes : nodeList ~ kwokNodes schedulerPodNames 0 N) :
    updateNodeLabels members order nodeList = some [] := by
  have hlen : nodeList.length = N := by simp [hnodes.length_eq, kwokNodes]
  refine updateNodeLabels_capped order (fun h => hne (h ▸ hnames).eq_nil)
    (hnames.nodup_iff.mp hnd) (fun n hn => ?_) (fun g hg => ?_)
  · obtain ⟨i, -, rfl⟩ := List.mem_map.mp (hnodes.subset hn)
    obtain ⟨j, hj, -, hg⟩ := createNode_group hne i
    exact ⟨_, hnames.subset (List.getElem_mem hj), hg⟩
  · obtain ⟨j, hj, rfl⟩ := List.getElem_of_mem (hnames.symm.subset hg)
    rw [groupSize_perm hnodes, groupSize_kwokNodes hnd N hj, hlen, ← hnames.length_eq]
    exact countP_mod_eq_le N _ j (List.length_pos.mpr hne)

/-- The tool saw the three schedulers of `threeMembers`, and created four nodes. -/
theorem createNode_noRelabel_threeMembers :
    groupNames threeMembers ~ groupNames threeMembers ∧ (groupNames threeMembers).Nodup ∧
      groupNames threeMembers ≠ [] ∧
      kwokNodes (groupNames threeMembers) 0 4 ~ kwokNodes (groupNames threeMembers) 0 4 ∧
      updateNodeLabels threeMembers (groupNames threeMembers)
        (kwokNodes (groupNames threeMembers) 0 4) = some [] :=
  ⟨.refl _, by decide, by decide, .refl _,
    createNode_noRelabel (groupNames threeMembers) (.refl _) (by decide) (by decide) (.refl _)⟩

end DistScheduler
