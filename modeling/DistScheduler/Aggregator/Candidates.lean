/-
# What `fire`'s candidate loop computes

`fire` scans the recorded scores with a running maximum that starts at `-1`, keeps the scores
equal to it (at most `100`), and draws the winner with `rand.Intn(len(candidates))`; its
comment says "There should always be at least one".

`pickCandidates_eq` says what the loop computes: the maximum of `-1` and the recorded scores,
and the first `100` recorded scores equal to it, in arrival order.  So the slice is empty
exactly when every recorded score is below `-1` (`pickCandidates_eq_nil_iff`), which includes
no score at all, and then `rand.Intn(0)` panics.  Otherwise the winner is a recorded score of
maximal value (`chooseWinner_maximal`).

Both ways into `fire` reach an empty slice (`fire_emptyCandidates`): the quorum branch of
`RecordAndWait` with one member whose score is `-5` (`SendScore` sends `int32(TotalScore)`),
and the evaluator's timer when it fires before the caller that started it has recorded its
score.
-/
import DistScheduler.Aggregator.Evaluator

namespace DistScheduler

/-! ## 1. The loop, one score at a time -/

/-- The running maximum of `fire`'s loop after all the scores: `-1`, or the largest score
if that is larger. -/
def maxScore (scores : List Score) : Int := scores.foldl (fun m sc => max m sc.score) (-1)

@[simp] theorem maxScore_nil : maxScore [] = -1 := rfl

theorem maxScore_concat (l : List Score) (sc : Score) :
    maxScore (l ++ [sc]) = max (maxScore l) sc.score := by
  simp [maxScore]

theorem neg_one_le_maxScore (l : List Score) : -1 ≤ maxScore l := by
  induction l using List.reverseRecOn with
  | nil => exact Int.le_refl _
  | append_singleton l sc ih => rw [maxScore_concat, Int.max_def]; split_ifs <;> omega

theorem le_maxScore {l : List Score} {sc : Score} (h : sc ∈ l) : sc.score ≤ maxScore l := by
  induction l using List.reverseRecOn with
  | nil => cases h
  | append_singleton l x ih =>
    rw [maxScore_concat, Int.max_def]
    rcases List.mem_append.mp h with h | h
    · have := ih h; split_ifs <;> omega
    · rw [List.mem_singleton.mp h]; split_ifs <;> omega

/-- The maximum is `-1` or a recorded score. -/
theorem maxScore_eq_or_mem (l : List Score) :
    maxScore l = -1 ∨ ∃ sc ∈ l, sc.score = maxScore l := by
  induction l using List.reverseRecOn with
  | nil => exact .inl rfl
  | append_singleton l x ih =>
    rw [maxScore_concat, Int.max_def]
    split_ifs
    · exact .inr ⟨x, by simp, rfl⟩
    · rcases ih with h | ⟨sc, hsc, h⟩
      · exact .inl h
      · exact .inr ⟨sc, List.mem_append_left _ hsc, h⟩

/-- One more score through `fire`'s `switch`. -/
theorem pickCandidates_concat (l : List Score) (sc : Score) :
    pickCandidates (l ++ [sc]) =
      if sc.score > (pickCandidates l).1 then (sc.score, [sc])
      else if sc.score = (pickCandidates l).1 then
        (if (pickCandidates l).2.length < 100 then
          ((pickCandidates l).1, (pickCandidates l).2 ++ [sc])
        else pickCandidates l)
      else pickCandidates l := by
  simp only [pickCandidates, List.foldl_append, List.foldl_cons, List.foldl_nil]

/-- **What the loop computes**: the maximum of `-1` and the scores, and the first `100` scores
equal to it, in arrival order. -/
theorem pickCandidates_eq (scores : List Score) :
    pickCandidates scores =
      (maxScore scores, (scores.filter fun sc => sc.score == maxScore scores).take 100) := by
  induction scores using List.reverseRecOn with
  | nil => rfl
  | append_singleton l sc ih =>
    have hle : ∀ x ∈ l, x.score ≤ maxScore l := fun x hx => le_maxScore hx
    rw [pickCandidates_concat, ih, maxScore_concat, List.filter_append, Int.max_def]
    simp only [gt_iff_lt]
    rcases Int.lt_trichotomy (maxScore l) sc.score with hgt | heq | hlt
    · -- a new maximum: nothing before it reaches it
      have hnil : (l.filter fun x => x.score == sc.score) = [] :=
        List.filter_eq_nil_iff.mpr fun x hx => by have := hle x hx; simp; omega
      simp [if_pos hgt, if_pos (Int.le_of_lt hgt), hnil]
    · -- a tie: `sc` goes in while the slice has room
      have hsc : ([sc].filter fun x => x.score == sc.score) = [sc] := by simp
      rw [if_neg (by omega), if_pos heq.symm, if_pos (show maxScore l ≤ sc.score by omega), hsc,
        ← heq]
      split_ifs with hroom
      · have hF : (l.filter fun x => x.score == maxScore l).length < 100 := by
          by_contra h
          rw [List.length_take_of_le (by omega)] at hroom
          omega
        rw [List.take_of_length_le (by omega), List.take_of_length_le (by simp; omega)]
      · have := List.length_take_le' 100 (l.filter fun x => x.score == maxScore l)
        rw [List.take_append_of_le_length (by omega)]
    · -- below the maximum
      rw [if_neg (by omega), if_neg (by omega), if_neg (by omega)]
      simp [show sc.score ≠ maxScore l by omega]

/-- **The slice is empty exactly when every recorded score is below `-1`.** -/
theorem pickCandidates_eq_nil_iff (scores : List Score) :
    (pickCandidates scores).2 = [] ↔ ∀ sc ∈ scores, sc.score < -1 := by
  rw [pickCandidates_eq]
  simp only [List.take_eq_nil_iff, List.filter_eq_nil_iff, beq_iff_eq, false_or,
    show (100 : Nat) ≠ 0 by decide]
  constructor
  · intro h sc hsc
    have := le_maxScore hsc
    rcases maxScore_eq_or_mem scores with hm | ⟨x, hx, hxm⟩
    · by_contra hge
      exact h sc hsc (by omega)
    · exact absurd hxm (h x hx)
  · intro h sc hsc heq
    have := h sc hsc
    have := neg_one_le_maxScore scores
    omega

/-! ## 2. The winner -/

/-- `rand.Intn` panics exactly when every recorded score is below `-1`. -/
theorem chooseWinner_eq_none_iff (scores : List Score) (r : Nat) :
    chooseWinner scores r = none ↔ ∀ sc ∈ scores, sc.score < -1 := by
  rw [← pickCandidates_eq_nil_iff, chooseWinner, randIntn]
  by_cases h : (pickCandidates scores).2 = []
  · simp [h]
  · have hpos : 0 < (pickCandidates scores).2.length := List.length_pos.mpr h
    simp only [List.length_eq_zero, h, if_false, Option.some_bind, iff_false]
    rw [List.getElem?_eq_getElem (Nat.mod_lt _ hpos)]
    exact Option.some_ne_none _

/-- **Otherwise the winner is a recorded score of maximal value.** -/
theorem chooseWinner_maximal {scores : List Score} {r : Nat} {w : Score}
    (h : chooseWinner scores r = some w) : w ∈ scores ∧ ∀ sc ∈ scores, sc.score ≤ w.score := by
  refine ⟨chooseWinner_mem h, fun sc hsc => ?_⟩
  simp only [chooseWinner, randIntn] at h
  split at h
  · cases h
  · rw [Option.some_bind, pickCandidates_eq] at h
    have hw := List.mem_filter.mp (List.mem_of_mem_take (List.getElem?_mem h))
    rw [beq_iff_eq.mp hw.2]
    exact le_maxScore hsc

/-! ## 3. Both ways into `fire` -/

/-- One member, and `CollectScore(default/p, node-a, -5)` whose caller has taken the fresh
evaluator and not yet recorded its score. -/
def lowScoreState : EvalState :=
  (run EvalState.init [.collect "default/p" ⟨"node-a", -5⟩, .lookup 0 1]).getD EvalState.init

/-- From that state the quorum branch of `RecordAndWait` fires on `[-5]`, and the timer fires
on no score; both candidate slices are empty, and both steps panic in `rand.Intn(0)`. -/
theorem fire_emptyCandidates :
    Reachable lowScoreState ∧ lowScoreState.callers.map Caller.pc = [.fetched 0] ∧
      (pickCandidates [⟨"node-a", -5⟩]).2 = [] ∧ (pickCandidates []).2 = [] ∧
      (∀ r, step lowScoreState (.record 0 r) = none) ∧
      ∀ r, step lowScoreState (.tick 0 r) = none :=
  ⟨reachable_run .init [.collect "default/p" ⟨"node-a", -5⟩, .lookup 0 1] rfl, rfl, rfl, rfl,
    fun _ => rfl, fun _ => rfl⟩

end DistScheduler
