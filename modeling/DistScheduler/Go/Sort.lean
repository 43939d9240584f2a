/-
# `sort.Search` and `slices.SortFunc`

`GetSubMembers` sorts the membership with `slices.SortFunc` and then finds its own place in
it with `sort.Search`.  Both are Go library code, modelled here as Go runs them.

* `search` is `sort.Search`'s halving loop, with `searchLoop_eq` its contract: on a
  predicate that is false below `p` and true from `p` to `n`, it returns `p`.
* `sortFunc` is `insertionSortCmpFunc`, the loop `slices.SortFunc` runs on every slice of at
  most twelve elements (longer slices go through pdqsort).  The later modules use only two
  facts about it, which pdqsort shares: the result is a permutation of the input
  (`sortFunc_perm`), ordered by every total preorder that the comparator respects
  (`sortFunc_pairwise`).  `eq_of_perm_of_pairwise` then says that when that preorder is
  antisymmetric on the input, the result does not depend on the input's order at all.
-/
import Mathlib.Data.List.Perm.Basic
import Mathlib.Data.List.Pairwise

namespace DistScheduler

open scoped List

/-! ## 1. `sort.Search` -/

/-- The halving loop of `sort.Search`: the answer stays in `[i, j]`. -/
def searchLoop (f : Nat → Bool) (i j : Nat) : Nat :=
  if i < j then
    let h := (i + j) / 2
    if !f h then searchLoop f (h + 1) j else searchLoop f i h
  else i
termination_by j - i

/-- `sort.Search(n, f)`: the least index below `n` where `f` holds, if `f` is monotone. -/
def search (n : Nat) (f : Nat → Bool) : Nat := searchLoop f 0 n

/-- **The halving loop finds the boundary.**  If `f` is false below `p` and true on
`[p, j)`, a loop started anywhere in `[i, j]` around `p` stops at `p`. -/
theorem searchLoop_eq {f : Nat → Bool} {p : Nat} (hlo : ∀ k < p, f k = false) :
    ∀ i j, i ≤ p → p ≤ j → (∀ k, p ≤ k → k < j → f k = true) → searchLoop f i j = p := by
  intro i j
  induction i, j using searchLoop.induct f with
  | case1 i j hij h hf ih =>
    intro hi hj hhi
    rw [searchLoop, if_pos hij]
    simp only [hf, if_true]
    have hhp : (i + j) / 2 < p := by
      by_contra hge
      simp [hhi _ (Nat.le_of_not_lt hge) (by omega)] at hf
    exact ih (by omega) hj hhi
  | case2 i j hij h hf ih =>
    intro hi hj hhi
    rw [searchLoop, if_pos hij]
    simp only [hf, if_false]
    have hph : p ≤ (i + j) / 2 := by
      by_contra hlt
      simp [hlo _ (Nat.lt_of_not_le hlt)] at hf
    exact ih hi hph (fun k hk _ => hhi k hk (by omega))
  | case3 i j hij =>
    intro hi hj _
    rw [searchLoop, if_neg hij]
    omega

theorem search_eq {n : Nat} {f : Nat → Bool} {p : Nat} (hp : p ≤ n)
    (hlo : ∀ k < p, f k = false) (hhi : ∀ k, p ≤ k → k < n → f k = true) :
    search n f = p :=
  searchLoop_eq hlo 0 n (Nat.zero_le p) hp hhi

/-! ## 2. `slices.SortFunc` -/

section SortFunc

variable {α : Type} (cmp : α → α → Int)

/-- The inner loop of `insertionSortCmpFunc`: the new element is swapped leftwards past
every element it compares strictly below.  The sorted prefix is kept reversed, so "left" is
"towards the tail". -/
def insertionStep (x : α) : List α → List α
  | [] => [x]
  | y :: ys => if cmp x y < 0 then y :: insertionStep x ys else x :: y :: ys

/-- `slices.SortFunc(x, cmp)`, as `insertionSortCmpFunc` computes it. -/
def sortFunc (l : List α) : List α :=
  (l.foldl (fun acc x => insertionStep cmp x acc) []).reverse

theorem insertionStep_perm (x : α) : ∀ l : List α, insertionStep cmp x l ~ x :: l
  | [] => List.Perm.refl _
  | y :: ys => by
    unfold insertionStep
    split
    · exact ((insertionStep_perm x ys).cons y).trans (List.Perm.swap x y ys)
    · exact List.Perm.refl _

theorem foldl_insertionStep_perm : ∀ (l acc : List α),
    l.foldl (fun acc x => insertionStep cmp x acc) acc ~ l.reverse ++ acc
  | [], acc => by simp
  | x :: xs, acc => by
    simp only [List.foldl_cons, List.reverse_cons, List.append_assoc, List.singleton_append]
    exact (foldl_insertionStep_perm xs _).trans
      (List.Perm.append_left _ (insertionStep_perm cmp x acc))

/-- `slices.SortFunc` permutes its input. -/
theorem sortFunc_perm (l : List α) : sortFunc cmp l ~ l := by
  have h := foldl_insertionStep_perm cmp l []
  rw [List.append_nil] at h
  exact (List.reverse_perm _).trans (h.trans (List.reverse_perm l))

variable {cmp} {le : α → α → Prop}

/-- A step keeps the reversed prefix sorted, for a transitive `le` that the comparator
respects in both directions. -/
theorem insertionStep_pairwise (htrans : ∀ a b c, le a b → le b c → le a c)
    (hlt : ∀ a b, cmp a b < 0 → le a b) (hge : ∀ a b, ¬ cmp a b < 0 → le b a) (x : α) :
    ∀ l : List α, l.Pairwise (fun a b => le b a) →
      (insertionStep cmp x l).Pairwise (fun a b => le b a)
  | [], _ => List.pairwise_singleton _ _
  | y :: ys, h => by
    rw [List.pairwise_cons] at h
    unfold insertionStep
    split
    · next hxy =>
      refine List.pairwise_cons.mpr ⟨fun z hz => ?_, insertionStep_pairwise htrans hlt hge x ys h.2⟩
      rcases List.mem_cons.mp ((insertionStep_perm cmp x ys).subset hz) with rfl | hz
      · exact hlt _ _ hxy
      · exact h.1 z hz
    · next hxy =>
      refine List.pairwise_cons.mpr ⟨fun z hz => ?_, List.pairwise_cons.mpr h⟩
      rcases List.mem_cons.mp hz with rfl | hz
      · exact hge _ _ hxy
      · exact htrans _ _ _ (h.1 z hz) (hge _ _ hxy)

/-- **`slices.SortFunc` sorts.**  The result is ordered by every transitive `le` that the
comparator respects: `cmp a b < 0` gives `le a b`, anything else gives `le b a`. -/
theorem sortFunc_pairwise (htrans : ∀ a b c, le a b → le b c → le a c)
    (hlt : ∀ a b, cmp a b < 0 → le a b) (hge : ∀ a b, ¬ cmp a b < 0 → le b a) (l : List α) :
    (sortFunc cmp l).Pairwise le := by
  have key : ∀ (xs acc : List α), acc.Pairwise (fun a b => le b a) →
      (xs.foldl (fun acc x => insertionStep cmp x acc) acc).Pairwise (fun a b => le b a) := by
    intro xs
    induction xs with
    | nil => exact fun _ h => h
    | cons x xs ih => exact fun acc h => ih _ (insertionStep_pairwise htrans hlt hge x acc h)
  exact List.pairwise_reverse.mpr (key l [] List.Pairwise.nil)

end SortFunc

/-- **A sorted permutation is unique.**  Two permutations of one list, both ordered by a
relation that is antisymmetric on the list's elements, are equal. -/
theorem eq_of_perm_of_pairwise {α : Type} {r : α → α → Prop} :
    ∀ {l₁ l₂ : List α}, l₁ ~ l₂ → l₁.Pairwise r → l₂.Pairwise r →
      (∀ a ∈ l₁, ∀ b ∈ l₁, r a b → r b a → a = b) → l₁ = l₂
  | [], _, hp, _, _, _ => hp.nil_eq
  | _ :: _, [], hp, _, _, _ => absurd hp.symm.nil_eq (List.cons_ne_nil _ _).symm
  | a :: t₁, b :: t₂, hp, h₁, h₂, hanti => by
    rw [List.pairwise_cons] at h₁ h₂
    have hab : a = b := by
      by_contra hne
      have hb : b ∈ t₁ := by
        have := hp.symm.subset (List.mem_cons_self b t₂)
        simpa [Ne.symm hne] using this
      have ha : a ∈ t₂ := by
        have := hp.subset (List.mem_cons_self a t₁)
        simpa [hne] using this
      exact hne (hanti a (List.mem_cons_self _ _) b (List.mem_cons_of_mem _ hb) (h₁.1 b hb)
        (h₂.1 a ha))
    subst hab
    rw [eq_of_perm_of_pairwise ((List.perm_cons a).mp hp) h₁.2 h₂.2
      (fun x hx y hy => hanti x (List.mem_cons_of_mem _ hx) y (List.mem_cons_of_mem _ hy))]

end DistScheduler
