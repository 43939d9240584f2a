/-
# What one run of `updateNodeLabels` achieves

`NodeLabels.lean` models the two loops of `updateNodeLabels`.  Here they are run to the end.
Under the conditions the membership gives it (distinct, non-empty pod names, at least one
scheduler) and the informer gives it (distinct node names), a run

* never panics in the second loop (`i % len(shortGroups)` with `shortGroups` empty),
* leaves, once its patches have succeeded, every node labelled with a scheduler and no
  scheduler with more than `d = ⌈N / |G|⌉` nodes,
* relabels exactly `N - Σ_g min(d, n_g)` nodes, where `n_g` counts the nodes labelled `g`
  before, and no labelling with those two properties relabels fewer,
* and is a fixed point: a second run sends no patch (`updateNodeLabels_postconditions`).

That fixed point is not balanced from below: after a scale-up from two schedulers to three,
four nodes stay split `2`, `2` and `0` (`unevenLabels_noRelabel`).

The first loop keeps, of each group, the first `min(d, n_g)` nodes (`firstLoop_split`); the
second gives each remaining node a group that is still short, and there is always one, since
the groups' remaining room, `Σ_g (d - count_g)`, is never below the number of nodes left
(`assignNodes_spec`).

The distinctness of the names is not a formality: `GetMembers` flattens every EndpointSlice
of the Service, so a pod whose endpoint sits in two slices comes twice.  Then `d` is computed
for one group too many, the groups' room falls short of the nodes, and the second loop either
reaches `i % 0` or never starts (`duplicateMember_strands`).
-/
import DistScheduler.Partition.NodeLabels
import Mathlib.Algebra.Order.BigOperators.Group.List
import Mathlib.Algebra.Order.Group.Nat

namespace DistScheduler

open scoped List

/-! ## 1. Counting nodes by group -/

/-- Of a list of distinct groups, one is `g₀`. -/
theorem sum_ite_eq_one {G : List String} (hG : G.Nodup) {g₀ : String} (h : g₀ ∈ G) :
    (G.map fun g => if g₀ = g then 1 else 0).sum = 1 := by
  induction G with
  | nil => cases h
  | cons x xs ih =>
    obtain ⟨hx, hxs⟩ := List.nodup_cons.mp hG
    rcases List.mem_cons.mp h with rfl | h
    · have : (xs.map fun g => if g₀ = g then 1 else 0).sum = 0 :=
        List.sum_eq_zero fun y hy => by
          obtain ⟨g, hg, rfl⟩ := List.mem_map.mp hy
          rw [if_neg (fun (he : g₀ = g) => hx (he ▸ hg))]
      simp [this]
    · have hne : g₀ ≠ x := fun he => hx (he ▸ h)
      simp [hne, ih hxs h]

/-- **Counting by group**: when every element that passes `p` has its key in the distinct
groups `G`, counting per group and adding up counts them all. -/
theorem sum_countP_group {α : Type} {G : List String} (hG : G.Nodup) (key : α → Option String)
    (p : α → Bool) : ∀ (xs : List α), (∀ x ∈ xs, p x → ∃ g ∈ G, key x = some g) →
      (G.map fun g => xs.countP fun x => p x ∧ key x = some g).sum = xs.countP p
  | [], _ => by simp
  | x :: xs, h => by
    have ih := sum_countP_group hG key p xs fun y hy => h y (List.mem_cons_of_mem x hy)
    simp only [List.countP_cons]
    rw [List.sum_map_add, ih]
    by_cases hp : p x
    · obtain ⟨g₀, hg₀, hk⟩ := h x (List.mem_cons_self x xs) hp
      have hsum := sum_ite_eq_one hG hg₀
      simp only [hp, hk, Option.some.injEq, true_and, decide_eq_true_eq, if_true] at hsum ⊢
      omega
    · simp [hp]

/-- Nodes all labelled with one of the distinct groups `G` are as many as `G`'s group sizes
together. -/
theorem sum_groupSize {G : List String} (hG : G.Nodup) (l : List Node)
    (h : ∀ n ∈ l, ∃ g ∈ G, n.group = some g) : (G.map (groupSize l)).sum = l.length := by
  have := sum_countP_group hG Node.group (fun _ => true) l (fun n hn _ => h n hn)
  simpa [groupSize, List.countP_true] using this

theorem groupSize_append (l l' : List Node) (g : String) :
    groupSize (l ++ l') g = groupSize l g + groupSize l' g := List.countP_append _ _ _

theorem groupSize_perm {l l' : List Node} (h : l ~ l') (g : String) :
    groupSize l g = groupSize l' g := h.countP_eq _

/-! ## 2. The first loop, run to the end -/

section FirstLoop

variable {d : Nat}

/-- **The first loop splits the nodes** into those it keeps, each counted in its group, and
those it appends to `toMove`. -/
theorem foldl_keepOrMove_split : ∀ (l : List Node) (acc : (String → Option Nat) × List Node),
    ∃ kept moved, (l.foldl (keepOrMove d) acc).2 = acc.2 ++ moved ∧ kept ++ moved ~ l ∧
      (∀ n ∈ kept, ∃ g, n.group = some g ∧ acc.1 g ≠ none) ∧
      ∀ g, (l.foldl (keepOrMove d) acc).1 g = (acc.1 g).map (· + groupSize kept g)
  | [], acc => ⟨[], [], by simp, by simp, by simp, fun g => by simp⟩
  | n :: l, acc => by
    rw [List.foldl_cons]
    rcases keepOrMove_cases acc n with ⟨g, count, hn, hc, -, he⟩ | ⟨he, -⟩ <;> rw [he]
    · -- kept: counted in `g`
      obtain ⟨kept, moved, h₁, h₂, h₃, h₄⟩ :=
        foldl_keepOrMove_split l (Function.update acc.1 g (some (count + 1)), acc.2)
      refine ⟨n :: kept, moved, h₁, h₂.cons n, fun m hm => ?_, fun g' => ?_⟩
      · rcases List.mem_cons.mp hm with rfl | hm
        · exact ⟨g, hn, by simp [hc]⟩
        · obtain ⟨g', hg', hne⟩ := h₃ m hm
          refine ⟨g', hg', ?_⟩
          by_cases hgg : g' = g
          · subst hgg; simp [hc]
          · simpa [Function.update_noteq hgg] using hne
      · rw [h₄, groupSize_cons, hn]
        by_cases hgg : g' = g
        · subst hgg; simp [hc]; omega
        · simp [Function.update_noteq hgg, Ne.symm hgg]
    · -- moved
      obtain ⟨kept, moved, h₁, h₂, h₃, h₄⟩ := foldl_keepOrMove_split l (acc.1, acc.2 ++ [n])
      exact ⟨kept, n :: moved, by rw [h₁]; simp, List.perm_middle.trans (h₂.cons n), h₃, h₄⟩

variable {G : List String}

/-- The first loop from `nodeCountPerGroup` at zero. -/
def firstLoop (d : Nat) (G : List String) (l : List Node) : (String → Option Nat) × List Node :=
  l.foldl (keepOrMove d) (initCounts G, [])

/-- **What the first loop keeps**: of each group `g`, `min(d, n_g)` nodes; the rest is
`toMove`, and no node in `toMove` carries the label of a group that is still short. -/
theorem firstLoop_split (l : List Node) :
    ∃ kept, kept ++ (firstLoop d G l).2 ~ l ∧ (∀ n ∈ kept, ∃ g ∈ G, n.group = some g) ∧
      (∀ g ∈ G, (firstLoop d G l).1 g = some (min d (groupSize l g))) ∧
      (∀ g ∈ G, groupSize kept g = min d (groupSize l g)) ∧
      ∀ n ∈ (firstLoop d G l).2, ∀ g ∈ G, min d (groupSize l g) < d → n.group ≠ some g := by
  obtain ⟨kept, moved, h₁, h₂, h₃, h₄⟩ := @foldl_keepOrMove_split d l (initCounts G, [])
  have hinv : PassInv G d (firstLoop d G l) := passInv_foldl l passInv_init
  simp only [List.nil_append] at h₁
  unfold firstLoop at hinv ⊢
  rw [h₁]
  have hcount : ∀ g ∈ G,
      (l.foldl (keepOrMove d) (initCounts G, [])).1 g = some (groupSize kept g) :=
    fun g hg => by rw [h₄]; simp [hg]
  -- a group loses a node to `toMove` only once it is full
  have hmin : ∀ g ∈ G, groupSize kept g = min d (groupSize l g) := by
    intro g hg
    have hle := hinv.le g _ (hcount g hg)
    rw [← groupSize_perm h₂, groupSize_append]
    rcases Nat.eq_zero_or_pos (groupSize moved g) with h0 | hpos
    · omega
    · obtain ⟨n, hn, hng⟩ := List.countP_pos_iff.mp hpos
      have := hinv.moved n (by rw [h₁]; exact hn) g (by simpa using hng) _ (hcount g hg)
      omega
  refine ⟨kept, h₂, fun n hn => ?_, fun g hg => by rw [hcount g hg, hmin g hg], hmin,
    fun n hn g hg hshort hng => ?_⟩
  · obtain ⟨g, hg, hne⟩ := h₃ n hn
    exact ⟨g, by simpa using hne, hg⟩
  · have := hinv.moved n (by rw [h₁]; exact hn) g hng _ (hcount g hg)
    rw [hmin g hg] at this
    omega

end FirstLoop

/-! ## 3. The second loop, run to the end -/

/-- The room the short groups have left. -/
def deficit (d : Nat) (counts : String → Option Nat) (shortGroups : List String) : Nat :=
  (shortGroups.map fun g => d - (counts g).getD 0).sum

/-- Taking the element at `k` out of a list. -/
theorem perm_cons_eraseIdx {l : List String} {k : Nat} {g : String} (h : l[k]? = some g) :
    l ~ g :: l.eraseIdx k := by
  obtain ⟨hlt, rfl⟩ := List.getElem?_eq_some_iff.mp h
  exact (List.perm_cons_erase (List.getElem_mem hlt)).trans ((List.erase_getElem hlt).cons _)

/-- One more node in a short group takes one unit of room. -/
theorem deficit_update {d : Nat} {counts : String → Option Nat} {g : String} {c : Nat}
    (hc : counts g = some c) (hlt : c < d) :
    ∀ {sg : List String}, sg.Nodup → g ∈ sg →
      deficit d (Function.update counts g (some (c + 1))) sg + 1 = deficit d counts sg
  | [], _, h => nomatch h
  | x :: xs, hnd, h => by
    obtain ⟨hx, hxs⟩ := List.nodup_cons.mp hnd
    rcases List.mem_cons.mp h with rfl | h
    · simp only [deficit, List.map_cons, List.sum_cons]
      rw [List.map_congr_left fun y hy =>
        by rw [Function.update_noteq (ne_of_mem_of_not_mem hy hx)]]
      simp [hc]
      omega
    · have hne : x ≠ g := fun he => hx (he ▸ h)
      have ih := deficit_update hc hlt hxs h
      simp only [deficit, List.map_cons, List.sum_cons, Function.update_noteq hne] at ih ⊢
      omega

/-- The second loop's invariant: the short groups are distinct and short, their room is
enough for the nodes left, and no node left carries a short group's label. -/
structure LoopInv (d : Nat) (counts : String → Option Nat) (shortGroups : List String)
    (ns : List Node) : Prop where
  nodup : shortGroups.Nodup
  short : ∀ g ∈ shortGroups, ∃ c, counts g = some c ∧ c < d
  room : ns.length ≤ deficit d counts shortGroups
  fresh : ∀ n ∈ ns, ∀ g ∈ shortGroups, n.group.getD "" ≠ g

/-- While a node is left, some group is short. -/
theorem LoopInv.ne_nil {d : Nat} {counts : String → Option Nat} {sg : List String} {n : Node}
    {ns : List Node} (hi : LoopInv d counts sg (n :: ns)) : sg ≠ [] := by
  rintro rfl
  have := hi.room
  simp [deficit] at this

/-- **One node of the second loop**: the node goes to `g = sg[k]`, which leaves the list once it
is full.  The invariant holds for the nodes left, and the groups still short are those of `sg`
other than `g`, and `g` while it has room. -/
theorem LoopInv.step {d : Nat} {counts : String → Option Nat} {sg : List String} {n : Node}
    {ns : List Node} {k : Nat} {g : String} {c : Nat} (hi : LoopInv d counts sg (n :: ns))
    (hg : sg[k]? = some g) (hc : counts g = some c) :
    let sg' := if c + 1 ≥ d then sg.eraseIdx k else sg
    LoopInv d (Function.update counts g (some (c + 1))) sg' ns ∧ (∀ h ∈ sg', h ∈ sg) ∧
      (∀ h ∈ sg, h ≠ g → h ∈ sg') ∧ (g ∈ sg' → c + 1 < d) := by
  intro sg'
  have hgsg : g ∈ sg := List.getElem?_mem hg
  have hcd : c < d := by
    obtain ⟨c', hc', hlt⟩ := hi.short g hgsg
    rw [hc] at hc'
    cases hc'
    exact hlt
  have hperm := perm_cons_eraseIdx hg
  have hg' : g ∉ sg.eraseIdx k := (List.nodup_cons.mp (hperm.nodup_iff.mp hi.nodup)).1
  set counts' := Function.update counts g (some (c + 1))
  have hsub : ∀ h ∈ sg', h ∈ sg := fun h hh => by
    by_cases hfull : c + 1 ≥ d
    · exact List.mem_of_mem_eraseIdx (by simpa [sg', hfull] using hh)
    · simpa [sg', hfull] using hh
  have hgone : g ∈ sg' → c + 1 < d := fun hh => by
    by_cases hfull : c + 1 ≥ d
    · exact absurd (by simpa [sg', hfull] using hh) hg'
    · omega
  -- the room is the same whether `g`, now at `c + 1`, is dropped or not
  have hroom : deficit d counts' sg' = deficit d counts' sg := by
    by_cases hfull : c + 1 ≥ d
    · simp only [sg', if_pos hfull]
      rw [deficit, deficit, (hperm.map _).sum_eq, List.map_cons, List.sum_cons]
      simp [counts']
      omega
    · simp only [sg', if_neg hfull]
  have hupd : deficit d counts' sg + 1 = deficit d counts sg :=
    deficit_update hc hcd hi.nodup hgsg
  refine ⟨⟨?_, fun h hh => ?_, ?_, fun n' hn' h hh =>
    hi.fresh n' (List.mem_cons_of_mem n hn') h (hsub h hh)⟩, hsub, fun h hh hne => ?_, hgone⟩
  · by_cases hfull : c + 1 ≥ d
    · simpa [sg', hfull] using List.Nodup.eraseIdx k hi.nodup
    · simpa [sg', hfull] using hi.nodup
  · by_cases hgh : h = g
    · subst hgh; exact ⟨c + 1, by simp [counts'], hgone hh⟩
    · rw [show counts' h = counts h from Function.update_noteq hgh _ _]
      exact hi.short h (hsub h hh)
  · have := hi.room
    simp only [List.length_cons] at this
    omega
  · by_cases hfull : c + 1 ≥ d
    · simpa [sg', hfull] using (List.mem_cons.mp (hperm.subset hh)).resolve_left hne
    · simpa [sg', hfull] using hh

/-- **The second loop never runs out of short groups**: it patches every node, each with a
group that was short, and fills no group past `d`. -/
theorem assignNodes_spec {d : Nat} : ∀ (ns : List Node) (i : Nat) (counts : String → Option Nat)
    (sg : List String), LoopInv d counts sg ns →
    ∃ gs : List String, gs.length = ns.length ∧
      assignNodes d i counts sg ns = some (ns.zipWith (fun n g => (n.name, g)) gs) ∧
      (∀ g ∈ gs, g ∈ sg) ∧ ∀ g ∈ sg, (counts g).getD 0 + gs.count g ≤ d
  | [], _, counts, sg, hi => by
    refine ⟨[], rfl, rfl, by simp, fun g hg => ?_⟩
    obtain ⟨c, hc, hlt⟩ := hi.short g hg
    simp [hc]
    omega
  | n :: ns, i, counts, sg, hi => by
    obtain ⟨g, hg⟩ : ∃ g, sg[i % sg.length]? = some g :=
      ⟨_, List.getElem?_eq_getElem (Nat.mod_lt _ (List.length_pos.mpr hi.ne_nil))⟩
    have hgsg : g ∈ sg := List.getElem?_mem hg
    obtain ⟨c, hc, hcd⟩ := hi.short g hgsg
    obtain ⟨hinv', hsub, hkeep, hgone⟩ := hi.step hg hc
    obtain ⟨gs, hlen, hrun, hin, hcap⟩ := assignNodes_spec ns (i + 1) _ _ hinv'
    refine ⟨g :: gs, by simp [hlen], ?_, fun h hh => ?_, fun h hh => ?_⟩
    · simp only [assignNodes, hg, hc, Option.getD_some]
      rw [hrun]
      simp [hi.fresh n (List.mem_cons_self n ns) g hgsg]
    · rcases List.mem_cons.mp hh with rfl | hh
      · exact hgsg
      · exact hsub h (hin h hh)
    · by_cases hgh : h = g
      · -- `g` took this node: it had room for it and for the ones it takes later
        subst hgh
        rw [hc, Option.getD_some, List.count_cons_self]
        by_cases hin' : h ∈ if c + 1 ≥ d then sg.eraseIdx (i % sg.length) else sg
        · have := hcap h hin'
          simp only [Function.update_same, Option.getD_some] at this
          omega
        · rw [List.count_eq_zero.mpr fun hm => hin' (hin h hm)]
          omega
      · rw [List.count_cons_of_ne hgh]
        have := hcap h (hkeep h hh hgh)
        rwa [Function.update_noteq hgh] at this

/-! ## 4. The patches, applied -/

/-- A node once the run's patches have succeeded: the merge patch that names it sets its
label. -/
def patchNode (patches : List (String × String)) (n : Node) : Node :=
  match patches.lookup n.name with
  | some g => { n with group := some g }
  | none => n

/-- The informer's nodes once every patch of a run has succeeded. -/
def applyPatches (patches : List (String × String)) (nodeList : List Node) : List Node :=
  nodeList.map (patchNode patches)

/-- The number of nodes whose label differs between two labellings of the same nodes. -/
def relabelCount (before after : List Node) : Nat :=
  (before.zip after).countP fun p => p.1.group ≠ p.2.group

theorem relabelCount_map (f : Node → Node) :
    ∀ l : List Node, relabelCount l (l.map f) = l.countP fun n => n.group ≠ (f n).group
  | [] => rfl
  | n :: l => by
    have ih := relabelCount_map f l
    simp only [relabelCount] at ih ⊢
    simp only [List.map_cons, List.zip_cons_cons, List.countP_cons, ih]

@[simp] theorem patchNode_cons_self (n : Node) (g : String) (l : List (String × String)) :
    patchNode ((n.name, g) :: l) n = { n with group := some g } := by
  simp [patchNode, List.lookup_cons]

theorem patchNode_cons_of_ne {n : Node} {k g : String} {l : List (String × String)}
    (h : n.name ≠ k) : patchNode ((k, g) :: l) n = patchNode l n := by
  rw [patchNode, List.lookup_cons, beq_false_of_ne h]; rfl

/-- A node no patch names keeps its label. -/
theorem patchNode_of_not_mem {n : Node} : ∀ {ns : List Node} {gs : List String},
    n.name ∉ ns.map Node.name → patchNode (ns.zipWith (fun m g => (m.name, g)) gs) n = n
  | [], _, _ => rfl
  | _ :: _, [], _ => rfl
  | m :: ns, g :: gs, h => by
    rw [List.zipWith_cons_cons, patchNode_cons_of_ne fun he => h (he ▸ List.mem_cons_self _ _)]
    exact patchNode_of_not_mem fun h' => h (List.mem_cons_of_mem _ h')

/-- A node of `toMove` gets the group of a patch. -/
theorem patchNode_of_mem {n : Node} : ∀ {ns : List Node} {gs : List String},
    gs.length = ns.length → n ∈ ns →
      ∃ g ∈ gs, patchNode (ns.zipWith (fun m g => (m.name, g)) gs) n = { n with group := some g }
  | m :: ns, g :: gs, hlen, h => by
    rw [List.zipWith_cons_cons]
    by_cases hnm : n.name = m.name
    · exact ⟨g, List.mem_cons_self _ _, by rw [← hnm, patchNode_cons_self]⟩
    · have hn : n ∈ ns := (List.mem_cons.mp h).resolve_left fun he => hnm (he ▸ rfl)
      obtain ⟨g', hg', he⟩ := patchNode_of_mem (by simpa using hlen) hn
      exact ⟨g', List.mem_cons_of_mem _ hg', by rw [patchNode_cons_of_ne hnm, he]⟩

/-- With distinct names, each node of `toMove` gets its own group. -/
theorem map_patchNode_zipWith : ∀ {ns : List Node} {gs : List String},
    (ns.map Node.name).Nodup → gs.length = ns.length →
      ns.map (patchNode (ns.zipWith (fun m g => (m.name, g)) gs)) =
        ns.zipWith (fun m g => { m with group := some g }) gs
  | [], _, _, _ => rfl
  | m :: ns, g :: gs, hnd, hlen => by
    obtain ⟨hm, hnd⟩ := List.nodup_cons.mp hnd
    simp only [List.zipWith_cons_cons, List.map_cons, patchNode_cons_self]
    refine congrArg _ (Eq.trans (List.map_congr_left fun n hn => ?_)
      (map_patchNode_zipWith hnd (by simpa using hlen)))
    exact patchNode_cons_of_ne fun he => hm (he ▸ List.mem_map_of_mem _ hn)

theorem groupSize_zipWith (g : String) : ∀ {ns : List Node} {gs : List String},
    gs.length = ns.length →
      groupSize (ns.zipWith (fun m g => { m with group := some g }) gs) g = gs.count g
  | [], [], _ => rfl
  | m :: ns, g' :: gs, hlen => by
    rw [List.zipWith_cons_cons, groupSize_cons, groupSize_zipWith g (by simpa using hlen),
      List.count_cons]
    by_cases h : g' = g <;> simp [h]

theorem mem_zipWith_group {n : Node} : ∀ {ns : List Node} {gs : List String},
    n ∈ ns.zipWith (fun m g => { m with group := some g }) gs → ∃ g ∈ gs, n.group = some g
  | m :: ns, g :: gs, h => by
    rcases List.mem_cons.mp h with rfl | h
    · exact ⟨g, List.mem_cons_self _ _, rfl⟩
    · obtain ⟨g', hg', he⟩ := mem_zipWith_group h
      exact ⟨g', List.mem_cons_of_mem _ hg', he⟩

section Apply

variable {nodeList kept T : List Node} {gs : List String}

/-- The nodes split into those kept and `toMove`, with distinct names: no patch of `toMove`
names a kept node. -/
theorem patchNode_kept (hperm : kept ++ T ~ nodeList) (hnodes : (nodeList.map Node.name).Nodup)
    {n : Node} (hn : n ∈ kept) : patchNode (T.zipWith (fun m g => (m.name, g)) gs) n = n := by
  have hnames := (hperm.map Node.name).nodup_iff.mpr hnodes
  rw [List.map_append, List.nodup_append] at hnames
  exact patchNode_of_not_mem fun h => hnames.2.2 (List.mem_map_of_mem _ hn) h

/-- **Only `toMove` is patched**, each node with its own group. -/
theorem applyPatches_perm (hperm : kept ++ T ~ nodeList) (hnodes : (nodeList.map Node.name).Nodup)
    (hlen : gs.length = T.length) :
    applyPatches (T.zipWith (fun m g => (m.name, g)) gs) nodeList ~
      kept ++ T.zipWith (fun m g => { m with group := some g }) gs := by
  have hT : (T.map Node.name).Nodup := by
    have := (hperm.map Node.name).nodup_iff.mpr hnodes
    rw [List.map_append] at this
    exact this.of_append_right
  have hk : kept.map (patchNode (T.zipWith (fun m g => (m.name, g)) gs)) = kept :=
    (List.map_congr_left fun n hn => patchNode_kept hperm hnodes hn).trans (List.map_id' kept)
  rw [applyPatches, ← map_patchNode_zipWith hT hlen, ← hk, ← List.map_append]
  exact (hperm.map _).symm

/-- **Every node of `toMove` changes label, and no other**, when no node of `toMove` carries its
new group already. -/
theorem relabelCount_applyPatches (hperm : kept ++ T ~ nodeList)
    (hnodes : (nodeList.map Node.name).Nodup) (hlen : gs.length = T.length)
    (hfresh : ∀ g ∈ gs, ∀ n ∈ T, n.group ≠ some g) :
    relabelCount nodeList (applyPatches (T.zipWith (fun m g => (m.name, g)) gs) nodeList) =
      T.length := by
  rw [applyPatches, relabelCount_map, hperm.symm.countP_eq, List.countP_append,
    List.countP_eq_zero.mpr fun n hn => by simp [patchNode_kept hperm hnodes hn],
    List.countP_eq_length.mpr fun n hn => ?_, Nat.zero_add]
  obtain ⟨g, hg, he⟩ := patchNode_of_mem hlen hn
  simpa [he] using hfresh g hg n hn

end Apply

/-- **No labelling that covers and caps keeps more labels**: of the nodes labelled `g` before,
at most `min(d, n_g)` keep their label, so at least `N - Σ_g min(d, n_g)` change. -/
theorem sub_sum_le_relabelCount {G : List String} (hG : G.Nodup) {d : Nat}
    {before after : List Node} (hlen : after.length = before.length)
    (hcover : ∀ n ∈ after, ∃ g ∈ G, n.group = some g) (hcap : ∀ g ∈ G, groupSize after g ≤ d) :
    before.length - (G.map fun g => min d (groupSize before g)).sum ≤
      relabelCount before after := by
  unfold relabelCount
  set Z := before.zip after
  have hZ : Z.length = before.length := by simp [Z, hlen]
  have hfst : ∀ g, groupSize before g = Z.countP fun p => p.1.group = some g := fun g => by
    rw [groupSize, ← List.map_fst_zip before after (by omega), List.countP_map]; rfl
  have hsnd : ∀ g, groupSize after g = Z.countP fun p => p.2.group = some g := fun g => by
    rw [groupSize, ← List.map_snd_zip before after (by omega), List.countP_map]; rfl
  -- the pairs that keep their label, counted per group
  have hkeep := sum_countP_group hG (fun p : Node × Node => p.2.group)
    (fun p => p.1.group = p.2.group) Z fun p hp _ => hcover p.2 (List.of_mem_zip hp).2
  have hle : ∀ g ∈ G, (Z.countP fun p => decide (p.1.group = p.2.group) ∧ p.2.group = some g) ≤
      min d (groupSize before g) := by
    intro g hg
    refine Nat.le_min.mpr ⟨le_trans ?_ (hcap g hg), ?_⟩
    · rw [hsnd g]; exact List.countP_mono_left fun p _ h => by simp_all
    · rw [hfst g]; exact List.countP_mono_left fun p _ h => by simp_all
  have hsplit := List.length_eq_countP_add_countP (fun p : Node × Node => p.1.group = p.2.group) Z
  have hsum := List.sum_le_sum hle
  simp only [decide_not, decide_eq_true_eq] at hkeep hsplit hsum ⊢
  omega

/-! ## 5. A whole run -/

/-- `updateNodeLabels` once there is a scheduler, its first loop written as `firstLoop`. -/
theorem updateNodeLabels_eq {members : List EndpointItem} (order : List String)
    (nodeList : List Node) (hG : groupNames members ≠ []) :
    updateNodeLabels members order nodeList =
      let d := desiredNodeCount nodeList.length (groupNames members).length
      let r := firstLoop d (groupNames members) nodeList
      if r.2.length = 0 then some [] else
      let shortGroups := order.filter fun g => (r.1 g).getD 0 < d
      if shortGroups.length = 0 then some [] else assignNodes d 0 r.1 shortGroups r.2 := by
  have hk : (nodeSchedulers members).length ≠ 0 := by
    simpa [groupNames, List.length_eq_zero] using hG
  simp only [updateNodeLabels, if_neg hk, ← groupNames.eq_1, groupNames, List.length_map]
  rfl

/-- The short groups' room is the room of all the groups. -/
theorem deficit_filter (d : Nat) (counts : String → Option Nat) (l : List String) :
    deficit d counts (l.filter fun g => (counts g).getD 0 < d) = deficit d counts l := by
  unfold deficit
  have hsplit := List.sum_map_filter_add_sum_map_filter_not (fun g => (counts g).getD 0 < d)
    (fun g => d - (counts g).getD 0) l
  have hfull :
      ((l.filter fun g => ¬(counts g).getD 0 < d).map fun g => d - (counts g).getD 0).sum = 0 :=
    List.sum_eq_zero fun x hx => by
      obtain ⟨g, hg, rfl⟩ := List.mem_map.mp hx
      have := (List.mem_filter.mp hg).2
      simp only [decide_eq_true_eq] at this
      omega
  rw [← hsplit, hfull, Nat.add_zero]

theorem sum_sub_add_sum {d : Nat} (m : String → Nat) :
    ∀ {G : List String}, (∀ g ∈ G, m g ≤ d) →
      (G.map fun g => d - m g).sum + (G.map m).sum = G.length * d
  | [], _ => by simp
  | g :: G, h => by
    have := h g (List.mem_cons_self _ _)
    have ih := sum_sub_add_sum m fun x hx => h x (List.mem_cons_of_mem _ hx)
    simp only [List.map_cons, List.sum_cons, List.length_cons, Nat.succ_mul]
    omega

section Run

variable {nodeList : List Node}

/-- The kept nodes are as many as the groups' capped sizes together. -/
theorem sum_min_groupSize {G : List String} (hG : G.Nodup) {d : Nat} {kept : List Node}
    (hkeptG : ∀ n ∈ kept, ∃ g ∈ G, n.group = some g)
    (hkept : ∀ g ∈ G, groupSize kept g = min d (groupSize nodeList g)) :
    (G.map fun g => min d (groupSize nodeList g)).sum = kept.length := by
  rw [← sum_groupSize hG kept hkeptG, List.map_congr_left hkept]

/-- **The second loop starts in its invariant** when the groups can hold the nodes: the short
groups are listed once each, and their room covers `toMove`. -/
theorem loopInv_firstLoop {G order : List String} {d : Nat} (hG : G.Nodup) (hname : "" ∉ G)
    (hord : order ~ G) (hN : nodeList.length ≤ G.length * d) :
    LoopInv d (firstLoop d G nodeList).1
      (order.filter fun g => ((firstLoop d G nodeList).1 g).getD 0 < d)
      (firstLoop d G nodeList).2 := by
  obtain ⟨kept, hperm, hkeptG, hcounts, hkept, hfresh⟩ := @firstLoop_split d G nodeList
  have hshort : ∀ g ∈ order.filter fun g => ((firstLoop d G nodeList).1 g).getD 0 < d,
      g ∈ G ∧ min d (groupSize nodeList g) < d := fun g hg => by
    obtain ⟨hgo, hlt⟩ := List.mem_filter.mp hg
    have hgG := hord.subset hgo
    exact ⟨hgG, by simpa [hcounts g hgG] using hlt⟩
  refine ⟨(hord.nodup_iff.mpr hG).filter _, fun g hg => ?_, ?_, fun n hn g hg => ?_⟩
  · obtain ⟨hgG, hlt⟩ := hshort g hg
    exact ⟨_, hcounts g hgG, hlt⟩
  · -- the room of all groups is `|G| d - |kept|`, and `toMove` is `N - |kept|`
    have hdef : deficit d (firstLoop d G nodeList).1 G =
        (G.map fun g => d - min d (groupSize nodeList g)).sum :=
      congrArg List.sum (List.map_congr_left fun g hg => by rw [hcounts g hg]; rfl)
    have hsum := @sum_sub_add_sum d (fun g => min d (groupSize nodeList g)) G
      fun g _ => Nat.min_le_left _ _
    beta_reduce at hsum
    have hlen := hperm.length_eq
    rw [sum_min_groupSize hG hkeptG hkept] at hsum
    rw [deficit_filter, deficit, (hord.map _).sum_eq, ← deficit, hdef]
    rw [List.length_append] at hlen
    omega
  · obtain ⟨hgG, hlt⟩ := hshort g hg
    have hng := hfresh n hn g hgG hlt
    rcases h : n.group with _ | g'
    · exact fun he => hname (by rw [← he] at hgG; exact hgG)
    · exact fun he => hng (by rw [h, ← he]; rfl)

/-- **What a run sends**: one patch per node of `toMove`, each to a group of `G` whose label the
node does not carry; with the `min(d, n_g)` nodes kept, no group is filled past `d`. -/
theorem updateNodeLabels_spec {members : List EndpointItem} {order : List String}
    (hG : groupNames members ≠ []) (hnd : (groupNames members).Nodup)
    (hname : "" ∉ groupNames members) (hord : order ~ groupNames members) :
    let G := groupNames members
    let d := desiredNodeCount nodeList.length G.length
    ∃ gs : List String, gs.length = (firstLoop d G nodeList).2.length ∧
      updateNodeLabels members order nodeList =
        some ((firstLoop d G nodeList).2.zipWith (fun n g => (n.name, g)) gs) ∧
      (∀ g ∈ gs, g ∈ G ∧ ∀ n ∈ (firstLoop d G nodeList).2, n.group ≠ some g) ∧
      ∀ g ∈ G, min d (groupSize nodeList g) + gs.count g ≤ d := by
  intro G d
  have hk : G.length ≠ 0 := fun h0 => hG (List.length_eq_zero.mp h0)
  have hinv := @loopInv_firstLoop nodeList G order d hnd hname hord (le_mul_desiredNodeCount hk)
  obtain ⟨-, -, -, hcounts, -, -⟩ := @firstLoop_split d G nodeList
  rw [updateNodeLabels_eq order nodeList hG]
  set r := firstLoop d G nodeList
  set sg := order.filter fun g => (r.1 g).getD 0 < d
  obtain ⟨gs, hlen, hrun, hin, hcap⟩ := assignNodes_spec r.2 0 r.1 sg hinv
  have hsgG : ∀ g ∈ sg, g ∈ G := fun g hg => hord.subset (List.mem_filter.mp hg).1
  refine ⟨gs, hlen, ?_, fun g hg => ⟨hsgG g (hin g hg), fun n hn hng =>
    hinv.fresh n hn g (hin g hg) (by rw [hng]; rfl)⟩, fun g hg => ?_⟩
  · show (if r.2.length = 0 then some [] else
      if sg.length = 0 then some [] else assignNodes d 0 r.1 sg r.2) = _
    by_cases hT : r.2 = []
    · rw [if_pos (by rw [hT]; rfl), hT]; rfl
    · obtain ⟨n, T, hnT⟩ := List.exists_cons_of_ne_nil hT
      have hsg : sg ≠ [] := by rw [hnT] at hinv; exact hinv.ne_nil
      rw [if_neg (by simpa using hT), if_neg (by simpa using hsg), hrun]
  · rw [← show (r.1 g).getD 0 = min d (groupSize nodeList g) by rw [hcounts g hg]; rfl]
    by_cases hgs : g ∈ sg
    · exact hcap g hgs
    · rw [List.count_eq_zero.mpr fun hm => hgs (hin g hm), hcounts g hg]
      exact Nat.min_le_left _ _

/-- **A covering, capped labelling is a fixed point**: when every node carries a group's label
and no group has more than `d` nodes, the first loop keeps every node and the run sends no
patch. -/
theorem updateNodeLabels_capped {members : List EndpointItem} (order : List String)
    (hG : groupNames members ≠ []) (hnd : (groupNames members).Nodup)
    (hcover : ∀ n ∈ nodeList, ∃ g ∈ groupNames members, n.group = some g)
    (hcap : ∀ g ∈ groupNames members,
      groupSize nodeList g ≤ desiredNodeCount nodeList.length (groupNames members).length) :
    updateNodeLabels members order nodeList = some [] := by
  obtain ⟨kept, hperm, hkeptG, -, hkept, -⟩ :=
    @firstLoop_split (desiredNodeCount nodeList.length (groupNames members).length)
      (groupNames members) nodeList
  have h₁ := sum_min_groupSize hnd hkeptG hkept
  have h₂ := sum_groupSize hnd nodeList hcover
  rw [List.map_congr_left fun g hg => Nat.min_eq_right (hcap g hg)] at h₁
  have hlen := hperm.length_eq
  rw [List.length_append] at hlen
  rw [updateNodeLabels_eq order nodeList hG]
  exact if_pos (by omega)

/-- **The postconditions of one run.**  With distinct, non-empty pod names, at least one
non-relay member, distinct node names and any iteration order of `nodeCountPerGroup`, a run
does not panic, and once its patches have succeeded every node carries the label of one
member of `G`, no member has more than `d` nodes, and exactly `N - Σ_g min(d, n_g)` nodes have
changed label, one patch each: no labelling with the first two properties changes fewer.  A
second run on the result sends no patch, whatever order it iterates the map in. -/
theorem updateNodeLabels_postconditions {members : List EndpointItem} {order : List String}
    (hG : groupNames members ≠ []) (hnd : (members.map EndpointItem.podName).Nodup)
    (hname : ∀ m ∈ members, m.podName ≠ "") (hord : order ~ groupNames members)
    (hnodes : (nodeList.map Node.name).Nodup) :
    let G := groupNames members
    let d := desiredNodeCount nodeList.length G.length
    ∃ patches, updateNodeLabels members order nodeList = some patches ∧
      let after := applyPatches patches nodeList
      (∀ n ∈ after, ∃ g ∈ G, n.group = some g) ∧ (∀ g ∈ G, groupSize after g ≤ d) ∧
      patches.length = nodeList.length - (G.map fun g => min d (groupSize nodeList g)).sum ∧
      relabelCount nodeList after =
        nodeList.length - (G.map fun g => min d (groupSize nodeList g)).sum ∧
      (∀ L : List Node, L.map Node.name = nodeList.map Node.name →
        (∀ n ∈ L, ∃ g ∈ G, n.group = some g) → (∀ g ∈ G, groupSize L g ≤ d) →
        relabelCount nodeList after ≤ relabelCount nodeList L) ∧
      ∀ order' : List String, updateNodeLabels members order' after = some [] := by
  intro G d
  have hGnd : G.Nodup := ((List.filter_sublist members).map _).nodup hnd
  have hGname : "" ∉ G := fun h => by
    obtain ⟨m, hm, he⟩ := List.mem_map.mp h
    exact hname m (List.mem_of_mem_filter hm) he
  obtain ⟨kept, hperm, hkeptG, -, hkept, -⟩ := @firstLoop_split d G nodeList
  obtain ⟨gs, hlen, hrun, hin, hcap⟩ :=
    @updateNodeLabels_spec nodeList members order hG hGnd hGname hord
  refine ⟨_, hrun, ?_⟩
  dsimp only
  have hafter := applyPatches_perm hperm hnodes hlen
  have hrelabel := relabelCount_applyPatches hperm hnodes hlen fun g hg => (hin g hg).2
  have hT : (firstLoop d G nodeList).2.length =
      nodeList.length - (G.map fun g => min d (groupSize nodeList g)).sum := by
    rw [sum_min_groupSize hGnd hkeptG hkept, ← hperm.length_eq, List.length_append]
    omega
  -- (i) and (ii)
  have hcover : ∀ n ∈ applyPatches _ nodeList, ∃ g ∈ G, n.group = some g := fun n hn => by
    rcases List.mem_append.mp (hafter.subset hn) with h | h
    · exact hkeptG n h
    · obtain ⟨g, hg, he⟩ := mem_zipWith_group h
      exact ⟨g, (hin g hg).1, he⟩
  have hcapped : ∀ g ∈ G, groupSize (applyPatches _ nodeList) g ≤ d := fun g hg => by
    rw [groupSize_perm hafter, groupSize_append, groupSize_zipWith g hlen, hkept g hg]
    exact hcap g hg
  refine ⟨hcover, hcapped, by rw [List.length_zipWith, hlen, Nat.min_self, hT],
    hrelabel.trans hT, fun L hL hLcover hLcap => ?_, ?_⟩
  · -- (iii) is the fewest
    rw [hrelabel, hT]
    exact sub_sum_le_relabelCount hGnd
      (by rw [← List.length_map L Node.name, hL, List.length_map]) hLcover hLcap
  · -- the result is a fixed point, in whatever order the second run iterates the map
    intro order'
    refine updateNodeLabels_capped order' hG hGnd hcover ?_
    rw [applyPatches, List.length_map]
    exact hcapped

end Run

/-- Five nodes: three on the first scheduler, one on a pod that has left, one unlabelled. -/
def mixedNodes : List Node :=
  [⟨"node-1", some "dist-scheduler-1"⟩, ⟨"node-2", some "dist-scheduler-1"⟩,
    ⟨"node-3", some "dist-scheduler-1"⟩, ⟨"node-4", some "dist-scheduler-9"⟩, ⟨"node-5", none⟩]

theorem updateNodeLabels_postconditions_mixedNodes :
    (groupNames threeMembers ≠ [] ∧ (threeMembers.map EndpointItem.podName).Nodup ∧
      (∀ m ∈ threeMembers, m.podName ≠ "") ∧ groupNames threeMembers ~ groupNames threeMembers ∧
      (mixedNodes.map Node.name).Nodup) ∧
    let G := groupNames threeMembers
    let d := desiredNodeCount mixedNodes.length G.length
    ∃ patches, updateNodeLabels threeMembers G mixedNodes = some patches ∧
      let after := applyPatches patches mixedNodes
      (∀ n ∈ after, ∃ g ∈ G, n.group = some g) ∧ (∀ g ∈ G, groupSize after g ≤ d) ∧
      patches.length = mixedNodes.length - (G.map fun g => min d (groupSize mixedNodes g)).sum ∧
      relabelCount mixedNodes after =
        mixedNodes.length - (G.map fun g => min d (groupSize mixedNodes g)).sum ∧
      (∀ L : List Node, L.map Node.name = mixedNodes.map Node.name →
        (∀ n ∈ L, ∃ g ∈ G, n.group = some g) → (∀ g ∈ G, groupSize L g ≤ d) →
        relabelCount mixedNodes after ≤ relabelCount mixedNodes L) ∧
      ∀ order' : List String, updateNodeLabels threeMembers order' after = some [] :=
  ⟨⟨by decide, by decide, by decide, List.Perm.refl _, by decide⟩,
    updateNodeLabels_postconditions (by decide) (by decide) (by decide) (List.Perm.refl _)
      (by decide)⟩

/-! ## 6. Scaling up

The fixed point of the last section is capped from above only.  A scheduler that joins a
cluster whose nodes are already spread over the others finds every group at `⌈N / |G|⌉` or
below, so the first loop keeps every node and the new scheduler gets none.  The function's own
comment promises more: "Re-distribute nodes to schedulers evenly". -/

/-- Two schedulers. -/
def twoMembers : List EndpointItem :=
  [⟨"dist-scheduler-1", ["10.0.0.1"]⟩, ⟨"dist-scheduler-2", ["10.0.0.2"]⟩]

/-- Four nodes that no scheduler has labelled yet. -/
def freshNodes : List Node :=
  [⟨"node-1", none⟩, ⟨"node-2", none⟩, ⟨"node-3", none⟩, ⟨"node-4", none⟩]

/-- **A scale-up that leaves a scheduler without nodes.**  Two schedulers label four fresh
nodes two each; then `dist-scheduler-3` joins.  With `desired = ⌈4 / 3⌉ = 2` every group is
full, so the next run sends no patch, in any iteration order of the map, and the groups stay
at `2`, `2` and `0`. -/
theorem unevenLabels_noRelabel :
    ∃ patches, updateNodeLabels twoMembers (groupNames twoMembers) freshNodes = some patches ∧
      let after := applyPatches patches freshNodes
      "dist-scheduler-3" ∈ groupNames threeMembers ∧
      (∀ order : List String, updateNodeLabels threeMembers order after = some []) ∧
      groupSize after "dist-scheduler-1" = 2 ∧ groupSize after "dist-scheduler-2" = 2 ∧
      groupSize after "dist-scheduler-3" = 0 :=
  ⟨_, rfl, by decide, fun order => updateNodeLabels_capped order (by decide) (by decide)
    (by decide) (by decide), by decide, by decide, by decide⟩

/-! ## 7. A pod listed twice -/

/-- The second loop with one short group: it hands out the `d - c` places left, then the group
leaves `shortGroups` and the next node meets `i % 0`. -/
theorem assignNodes_single {d : Nat} {g : String} : ∀ (ns : List Node) (i c : Nat)
    (counts : String → Option Nat), counts g = some c → c < d → d - c < ns.length →
      assignNodes d i counts [g] ns = none
  | [], _, _, _, _, _, h => absurd h (Nat.not_lt_zero _)
  | n :: ns, i, c, counts, hc, hlt, hlen => by
    simp only [List.length_cons] at hlen
    simp only [assignNodes, List.length_singleton, Nat.mod_one, List.getElem?_cons_zero, hc,
      Option.getD_some]
    by_cases hfull : c + 1 ≥ d
    · obtain ⟨m, ms, rfl⟩ : ∃ m ms, ns = m :: ms :=
        List.exists_cons_of_ne_nil (List.ne_nil_of_length_pos (by omega))
      rw [if_pos hfull]
      rfl
    · rw [if_neg hfull,
        @assignNodes_single d g ns (i + 1) (c + 1) _ (by simp) (by omega) (by omega)]
      rfl

section Repeated

variable {nodeList : List Node} {members : List EndpointItem} {a : String}

/-- **A pod listed twice, and no node on it**: `d` is computed for two groups, the one key of
`nodeCountPerGroup` takes `d` nodes and leaves `shortGroups`, and the run panics on the next
node, from two nodes on. -/
theorem updateNodeLabels_repeated_panics (hG : groupNames members = [a, a])
    (h2 : 2 ≤ nodeList.length) (hfree : ∀ n ∈ nodeList, n.group ≠ some a) :
    updateNodeLabels members [a] nodeList = none := by
  obtain ⟨kept, hperm, hkeptG, hcounts, -, -⟩ :=
    @firstLoop_split (desiredNodeCount nodeList.length 2) [a, a] nodeList
  have hkept : kept = [] := List.eq_nil_iff_forall_not_mem.mpr fun n hn => by
    obtain ⟨g, hg, hng⟩ := hkeptG n hn
    have hga : g = a := by simpa using hg
    exact hfree n (hperm.subset (List.mem_append_left _ hn)) (hga ▸ hng)
  have hzero : groupSize nodeList a = 0 :=
    List.countP_eq_zero.mpr fun n hn => by simpa using hfree n hn
  have hd : 0 < desiredNodeCount nodeList.length 2 := by unfold desiredNodeCount; omega
  have hdN : desiredNodeCount nodeList.length 2 < nodeList.length := by
    unfold desiredNodeCount; omega
  have hT := hperm.length_eq
  rw [hkept, List.nil_append] at hT
  rw [updateNodeLabels_eq _ _ (by rw [hG]; simp), hG, show [a, a].length = 2 from rfl]
  rw [if_neg (by omega), List.filter_singleton, hcounts a (by simp), hzero, Nat.min_zero]
  simp only [Option.getD_some, hd, decide_True, cond_true, List.length_singleton]
  exact assignNodes_single _ 0 0 _ (by rw [hcounts a (by simp), hzero, Nat.min_zero]) hd (by omega)

/-- **A pod listed twice, and `d` nodes on it**: the one key is full, `shortGroups` is empty,
and the run returns ("All groups are full") whatever the other nodes carry. -/
theorem updateNodeLabels_repeated_full (hG : groupNames members = [a, a])
    (hfull : desiredNodeCount nodeList.length 2 ≤ groupSize nodeList a) :
    updateNodeLabels members [a] nodeList = some [] := by
  obtain ⟨-, -, -, hcounts, -, -⟩ :=
    @firstLoop_split (desiredNodeCount nodeList.length 2) [a, a] nodeList
  rw [updateNodeLabels_eq _ _ (by rw [hG]; simp), hG, show [a, a].length = 2 from rfl]
  dsimp only
  rw [List.filter_singleton, hcounts a (by simp), Nat.min_eq_left hfull]
  simp only [Option.getD_some, Nat.lt_irrefl, decide_False, cond_false, List.length_nil]
  split_ifs <;> rfl

end Repeated

/-- The IPv4 and the IPv6 EndpointSlice of a dual-stack Service, each listing the one
scheduler. -/
def ipv4Slice : EndpointSlice :=
  ⟨"dist-scheduler-ipv4", 1, [⟨"dist-scheduler-1", ["10.0.0.1"]⟩]⟩

def ipv6Slice : EndpointSlice :=
  ⟨"dist-scheduler-ipv6", 1, [⟨"dist-scheduler-1", ["fd00::1"]⟩]⟩

/-- The leader's scheduler set with both slices in its cache. -/
def dualStackSet : SchedulerSet :=
  ⟨(EndpointSliceCache.empty.update ipv4Slice).update ipv6Slice, "dist-scheduler-1", 10, [], "",
    true, false⟩

/-- `GetMembers` lists `dist-scheduler-1` twice.  With two unlabelled nodes the run panics in
`i % len(shortGroups)`; with one node on the scheduler and one unlabelled, the unlabelled node
is in `toMove` and the run returns with "All groups are full", sending no patch. -/
theorem duplicateMember_strands :
    groupNames dualStackSet.getMembers = ["dist-scheduler-1", "dist-scheduler-1"] ∧
      updateNodeLabels dualStackSet.getMembers ["dist-scheduler-1"]
        [⟨"node-1", none⟩, ⟨"node-2", none⟩] = none ∧
      (firstLoop (desiredNodeCount 2 2) (groupNames dualStackSet.getMembers)
        [⟨"node-1", some "dist-scheduler-1"⟩, ⟨"node-2", none⟩]).2 = [⟨"node-2", none⟩] ∧
      updateNodeLabels dualStackSet.getMembers ["dist-scheduler-1"]
        [⟨"node-1", some "dist-scheduler-1"⟩, ⟨"node-2", none⟩] = some [] := by
  have hG : groupNames dualStackSet.getMembers = ["dist-scheduler-1", "dist-scheduler-1"] := by
    decide
  exact ⟨hG, updateNodeLabels_repeated_panics hG (by decide) (by decide), by rw [hG]; decide,
    updateNodeLabels_repeated_full hG (by decide)⟩

end DistScheduler
