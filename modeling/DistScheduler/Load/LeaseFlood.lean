/-
# The etcd lease flooder

The stress tool creates the Lease keys `lease-0, ..., lease-(numKeys-1)` and starts `numWorkers`
workers that rewrite them for ever.  Worker `workerID` takes the block
`start := (len(keys) / numWorkers) * workerID` to `end := start + len(keys) / numWorkers` and
goes round it, one key a pass.  A metrics goroutine prints, every second, `putCount` and resets
it: `count := atomic.LoadInt64(&putCount)`, then `atomic.StoreInt64(&putCount, 0)`.

* With at least as many keys as workers, each worker goes round its own block
  (`worker_eq`).  The blocks stop at `numWorkers * (numKeys / numWorkers)`: the last
  `numKeys % numWorkers` keys are never rewritten, by any worker however long it runs, and
  every other key by exactly one worker (`worker_keysCovered`).
* With fewer keys than workers every block is empty and every worker rewrites `lease-0`, pass
  after pass; with no key at all, `keys[keyIndex]` panics on the first pass
  (`worker_fewKeys`).
* A put that lands between the metrics goroutine's `Load` and its `Store` is never printed:
  every tick's `Store` drops exactly the puts made since its `Load`, and no later run brings
  them back (`floodMetrics_lostPuts`).
-/
import Mathlib.Algebra.BigOperators.Group.List
import Mathlib.Algebra.Order.Ring.Nat
import Mathlib.Algebra.Order.Ring.Int

namespace DistScheduler.LeaseFlood

/-! ## 1. `worker`'s keys -/

/-- `start := (len(keys) / numWorkers) * workerID`. -/
def workerStart (numKeys numWorkers workerID : Nat) : Nat := numKeys / numWorkers * workerID

/-- `end := start + (len(keys) / numWorkers)`. -/
def workerEnd (numKeys numWorkers workerID : Nat) : Nat :=
  workerStart numKeys numWorkers workerID + numKeys / numWorkers

/-- `worker`'s loop for `iterations` passes from `keyIndex`: the index of the key each pass
rewrites, or `none` where `keys[keyIndex]` is out of range and panics.  A pass moves on to
`keyIndex + 1`, or back to `start` at `end`, whatever its encode or put error. -/
def workerLoop (numKeys start endIdx : Nat) : Nat → Nat → Option (List Nat)
  | 0, _ => some []
  | iterations + 1, keyIndex =>
    if keyIndex < numKeys then
      let next := if keyIndex + 1 ≥ endIdx then start else keyIndex + 1
      (workerLoop numKeys start endIdx iterations next).map (keyIndex :: ·)
    else none

/-- `worker(cli, keys, ..., workerID, numWorkers)` for its first `iterations` passes. -/
def worker (numKeys numWorkers workerID iterations : Nat) : Option (List Nat) :=
  workerLoop numKeys (workerStart numKeys numWorkers workerID)
    (workerEnd numKeys numWorkers workerID) iterations (workerStart numKeys numWorkers workerID)

/-- Inside a non-empty block within the keys, the loop goes round the block from where it is. -/
theorem workerLoop_eq {numKeys start b : Nat} (hb : 0 < b) (hk : start + b ≤ numKeys)
    (iterations : Nat) {j : Nat} (hj : j < b) :
    workerLoop numKeys start (start + b) iterations (start + j) =
      some ((List.range iterations).map fun i => start + (j + i) % b) := by
  induction iterations generalizing j with
  | zero => rfl
  | succ m ih =>
    have hnext : (if start + j + 1 ≥ start + b then start else start + j + 1) =
        start + (j + 1) % b := by
      split_ifs with h
      · rw [show j + 1 = b by omega, Nat.mod_self]; rfl
      · rw [Nat.mod_eq_of_lt (by omega)]; rfl
    simp only [workerLoop, show start + j < numKeys by omega, ↓reduceIte, hnext,
      ih (Nat.mod_lt _ hb), Option.map_some', List.range_succ_eq_map, List.map_cons,
      List.map_map, Nat.add_zero, Nat.mod_eq_of_lt hj]
    congr 3
    funext i
    simp only [Function.comp, Nat.mod_add_mod, Nat.add_succ, Nat.succ_add]

/-- **Each worker goes round its own block.**  With at least as many keys as workers, worker
`workerID`'s `i`-th pass rewrites key `b * workerID + i % b`, where `b = numKeys / numWorkers`. -/
theorem worker_eq {numKeys numWorkers workerID : Nat} (hw : workerID < numWorkers)
    (hk : numWorkers ≤ numKeys) (iterations : Nat) :
    worker numKeys numWorkers workerID iterations =
      some ((List.range iterations).map fun i =>
        numKeys / numWorkers * workerID + i % (numKeys / numWorkers)) := by
  have hb : 0 < numKeys / numWorkers := Nat.div_pos hk (by omega)
  have hend : workerStart numKeys numWorkers workerID + numKeys / numWorkers ≤ numKeys :=
    calc numKeys / numWorkers * workerID + numKeys / numWorkers
        = numKeys / numWorkers * (workerID + 1) := by rw [Nat.mul_succ]
      _ ≤ numKeys / numWorkers * numWorkers := Nat.mul_le_mul_left _ hw
      _ ≤ numKeys := Nat.div_mul_le_self _ _
  have := workerLoop_eq hb hend iterations hb
  simp only [Nat.add_zero, Nat.zero_add] at this
  exact this

/-- A key a worker rewrites lies in its block. -/
theorem worker_mem {numKeys numWorkers workerID iterations k : Nat} {keys : List Nat}
    (hw : workerID < numWorkers) (hk : numWorkers ≤ numKeys)
    (h : worker numKeys numWorkers workerID iterations = some keys) (hmem : k ∈ keys) :
    ∃ r < numKeys / numWorkers, k = numKeys / numWorkers * workerID + r := by
  rw [worker_eq hw hk, Option.some.injEq] at h
  subst h
  obtain ⟨i, -, rfl⟩ := List.mem_map.mp hmem
  exact ⟨_, Nat.mod_lt _ (Nat.div_pos hk (by omega)), rfl⟩

/-- **The keys past the last full block are never rewritten.**  With at least as many keys as
workers, key `k` is rewritten by some worker, after enough passes, exactly when
`k < numWorkers * (numKeys / numWorkers)`, and then by one worker only. -/
theorem worker_keysCovered {numKeys numWorkers : Nat} (hk : numWorkers ≤ numKeys) (k : Nat) :
    ((∃ w < numWorkers, ∃ iterations keys,
        worker numKeys numWorkers w iterations = some keys ∧ k ∈ keys) ↔
      k < numWorkers * (numKeys / numWorkers)) ∧
    ∀ w₁ w₂ m₁ m₂ keys₁ keys₂, w₁ < numWorkers → w₂ < numWorkers →
      worker numKeys numWorkers w₁ m₁ = some keys₁ → worker numKeys numWorkers w₂ m₂ = some keys₂ →
      k ∈ keys₁ → k ∈ keys₂ → w₁ = w₂ := by
  set b := numKeys / numWorkers
  -- A key of worker `w`'s block divides back to `w`.
  have hdiv : ∀ w r, r < b → (b * w + r) / b = w := fun w r hr => by
    rw [Nat.mul_add_div (by omega), Nat.div_eq_of_lt hr, Nat.add_zero]
  refine ⟨⟨fun ⟨w, hw, m, keys, h, hmem⟩ => ?_, fun hlt => ?_⟩,
    fun w₁ w₂ m₁ m₂ keys₁ keys₂ hw₁ hw₂ h₁ h₂ hm₁ hm₂ => ?_⟩
  · obtain ⟨r, hr, rfl⟩ := worker_mem hw hk h hmem
    calc b * w + r < b * (w + 1) := by rw [Nat.mul_succ]; omega
      _ ≤ b * numWorkers := Nat.mul_le_mul_left _ hw
      _ = numWorkers * b := Nat.mul_comm _ _
  · have hb : 0 < b := Nat.pos_of_ne_zero fun h0 => by simp [h0] at hlt
    refine ⟨k / b, (Nat.div_lt_iff_lt_mul hb).mpr hlt, k % b + 1, _,
      worker_eq ((Nat.div_lt_iff_lt_mul hb).mpr hlt) hk _, ?_⟩
    exact List.mem_map.mpr ⟨k % b, List.mem_range.mpr (Nat.lt_succ_self _), by
      rw [Nat.mod_mod]; exact Nat.div_add_mod k b⟩
  · obtain ⟨r₁, hr₁, rfl⟩ := worker_mem hw₁ hk h₁ hm₁
    obtain ⟨r₂, hr₂, he⟩ := worker_mem hw₂ hk h₂ hm₂
    rw [← hdiv w₁ r₁ hr₁, ← hdiv w₂ r₂ hr₂, he]

/-- Three workers over eight keys: `lease-6` and `lease-7` are never rewritten. -/
theorem worker_keysCovered_eightKeys :
    3 ≤ 8 ∧
      (((∃ w < 3, ∃ iterations keys, worker 8 3 w iterations = some keys ∧ 6 ∈ keys) ↔
          6 < 3 * (8 / 3)) ∧
        ∀ w₁ w₂ m₁ m₂ keys₁ keys₂, w₁ < 3 → w₂ < 3 →
          worker 8 3 w₁ m₁ = some keys₁ → worker 8 3 w₂ m₂ = some keys₂ →
          6 ∈ keys₁ → 6 ∈ keys₂ → w₁ = w₂) :=
  ⟨by decide, worker_keysCovered (by decide) 6⟩

/-- With keys, the empty block's loop rewrites `lease-0` on every pass. -/
theorem workerLoop_emptyBlock {numKeys : Nat} (hk : 0 < numKeys) (iterations : Nat) :
    workerLoop numKeys 0 0 iterations 0 = some (List.replicate iterations 0) := by
  induction iterations with
  | zero => rfl
  | succ m ih => simp [workerLoop, hk, ih, List.replicate_succ]

/-- **With fewer keys than workers, every worker floods `lease-0`.**  Every block is empty, so
each pass rewrites `keys[0]` and comes back to it; with no key at all the first pass panics. -/
theorem worker_fewKeys {numKeys numWorkers : Nat} (hlt : numKeys < numWorkers)
    (workerID iterations : Nat) :
    worker numKeys numWorkers workerID (iterations + 1) =
      if numKeys = 0 then none else some (List.replicate (iterations + 1) 0) := by
  have h0 : numKeys / numWorkers = 0 := Nat.div_eq_of_lt hlt
  simp only [worker, workerEnd, workerStart, h0, Nat.zero_mul, Nat.add_zero]
  split_ifs with hk
  · subst hk; rfl
  · exact workerLoop_emptyBlock (Nat.pos_of_ne_zero hk) _

/-- Two keys and three workers: every worker rewrites `lease-0` twice in two passes. -/
theorem worker_fewKeys_twoKeys :
    2 < 3 ∧ worker 2 3 2 (1 + 1) = if 2 = 0 then none else some (List.replicate (1 + 1) 0) :=
  ⟨by decide, worker_fewKeys (by decide) 2 1⟩

/-! ## 2. The metrics goroutine's reset -/

/-- Where the metrics goroutine is in its tick. -/
inductive MetricsPc
  /-- Waiting for the ticker. -/
  | idle
  /-- Ran `count := atomic.LoadInt64(&putCount)` and printed `count`; the
  `atomic.StoreInt64(&putCount, 0)` is next. -/
  | loaded (count : Int)
deriving DecidableEq, Repr

/-- The count a loaded tick has printed and is about to clear, `0` when idle. -/
def MetricsPc.loadedCount : MetricsPc → Int
  | .idle => 0
  | .loaded count => count

/-- The counter, the puts made so far and the counts printed. -/
structure FloodMetrics where
  putCount : Int
  /-- The successful `Put`s so far, each followed by `atomic.AddInt64(putCount, 1)`. -/
  puts : Nat
  /-- The counts `Puts/sec: %d` has printed. -/
  printed : List Int
  metrics : MetricsPc
deriving DecidableEq, Repr

/-- Before the first put and the first tick. -/
def FloodMetrics.init : FloodMetrics := ⟨0, 0, [], .idle⟩

/-- What can happen next. -/
inductive MetricsAction
  /-- A worker's `Put` succeeds and it runs `atomic.AddInt64(putCount, 1)`. -/
  | put
  /-- The ticker fires: `Load` and print. -/
  | tick
  /-- `atomic.StoreInt64(&putCount, 0)`. -/
  | store

/-- One step; `none` when the action is not enabled. -/
def metricsStep (s : FloodMetrics) : MetricsAction → Option FloodMetrics
  | .put => some { s with putCount := s.putCount + 1, puts := s.puts + 1 }
  | .tick =>
    match s.metrics with
    | .idle => some { s with metrics := .loaded s.putCount, printed := s.printed ++ [s.putCount] }
    | .loaded _ => none
  | .store =>
    match s.metrics with
    | .loaded _ => some { s with putCount := 0, metrics := .idle }
    | .idle => none

/-- Run a list of actions. -/
def metricsRun (s : FloodMetrics) : List MetricsAction → Option FloodMetrics
  | [] => some s
  | a :: as => (metricsStep s a).bind fun s' => metricsRun s' as

/-- The puts that no printed count covers and that the pending count will not print: a put
made after a `Load` and before its `Store` is counted by neither. -/
def unreported (s : FloodMetrics) : Int :=
  s.puts - s.printed.sum - (s.putCount - s.metrics.loadedCount)

/-- A `Store` drops the puts made since its `Load`; no other step changes what is unreported. -/
theorem unreported_step {s s' : FloodMetrics} {a : MetricsAction} (h : metricsStep s a = some s')
    (hc : s.metrics.loadedCount ≤ s.putCount) :
    unreported s ≤ unreported s' ∧ s'.metrics.loadedCount ≤ s'.putCount := by
  cases a with
  | put => cases h; simp only [unreported]; push_cast; omega
  | tick =>
    cases hm : s.metrics <;> simp only [metricsStep, hm, Option.some.injEq, reduceCtorEq] at h
    subst h
    simp only [unreported, hm, MetricsPc.loadedCount, List.sum_append, List.sum_singleton]
    omega
  | store =>
    cases hm : s.metrics <;> simp only [metricsStep, hm, Option.some.injEq, reduceCtorEq] at h
    subst h
    simp only [unreported, hm, MetricsPc.loadedCount] at hc ⊢
    omega

theorem unreported_run {s s' : FloodMetrics} {as : List MetricsAction}
    (h : metricsRun s as = some s') (hc : s.metrics.loadedCount ≤ s.putCount) :
    unreported s ≤ unreported s' ∧ s'.metrics.loadedCount ≤ s'.putCount := by
  induction as generalizing s with
  | nil => cases h; exact ⟨le_refl _, hc⟩
  | cons a as ih =>
    obtain ⟨s₁, h₁, h⟩ := Option.bind_eq_some.mp h
    have h1 := unreported_step h₁ hc
    have h2 := ih h h1.2
    exact ⟨h1.1.trans h2.1, h2.2⟩

/-- `m` puts in a row. -/
theorem metricsRun_puts (m : Nat) : ∀ (s : FloodMetrics) (bs : List MetricsAction),
    metricsRun s (List.replicate m .put ++ bs) =
      metricsRun { s with putCount := s.putCount + m, puts := s.puts + m } bs := by
  induction m with
  | zero => intro s bs; simp only [List.replicate_zero, List.nil_append, Nat.cast_zero, add_zero]
  | succ m ih =>
    intro s bs
    rw [List.replicate_succ, List.cons_append, metricsRun, metricsStep, Option.some_bind, ih]
    congr 2 <;> push_cast <;> omega

/-- **Puts made between `Load` and `Store` are never printed.**  From any state a run from the
start reaches with the metrics goroutine idle, where nothing is yet lost beyond what earlier
ticks lost, a tick followed by `m` puts and the `Store` loses exactly those `m` puts, and no
later run brings them back. -/
theorem floodMetrics_lostPuts {as : List MetricsAction} {s : FloodMetrics}
    (h : metricsRun FloodMetrics.init as = some s) (hidle : s.metrics = .idle) (m : Nat) :
    0 ≤ unreported s ∧
      ∃ s', metricsRun s (.tick :: List.replicate m .put ++ [.store]) = some s' ∧
        unreported s' = unreported s + m ∧
        ∀ bs s'', metricsRun s' bs = some s'' → unreported s + m ≤ unreported s'' := by
  have hlost : unreported (⟨0, s.puts + m, s.printed ++ [s.putCount], .idle⟩ : FloodMetrics) =
      unreported s + m := by
    simp only [unreported, hidle, MetricsPc.loadedCount, List.sum_append, List.sum_singleton]
    push_cast
    omega
  refine ⟨(unreported_run h (le_refl _)).1, _, ?_, hlost, fun bs s'' h' => ?_⟩
  · rw [List.cons_append, metricsRun, metricsStep, hidle, Option.some_bind, metricsRun_puts]
    rfl
  · exact hlost ▸ (unreported_run h' (le_refl _)).1

/-- One put before the first tick, which prints it; one put during that tick, which is lost. -/
theorem floodMetrics_lostPuts_putInTick :
    metricsRun FloodMetrics.init [.put] = some ⟨1, 1, [], .idle⟩ ∧
      (⟨1, 1, [], .idle⟩ : FloodMetrics).metrics = .idle ∧
      0 ≤ unreported ⟨1, 1, [], .idle⟩ ∧
      ∃ s', metricsRun ⟨1, 1, [], .idle⟩ (.tick :: List.replicate 1 .put ++ [.store]) = some s' ∧
        unreported s' = unreported ⟨1, 1, [], .idle⟩ + 1 ∧
        ∀ bs s'', metricsRun s' bs = some s'' → unreported ⟨1, 1, [], .idle⟩ + 1 ≤ unreported s'' :=
  ⟨rfl, rfl, floodMetrics_lostPuts
    (show metricsRun FloodMetrics.init [.put] = some ⟨1, 1, [], .idle⟩ from rfl) rfl 1⟩

end DistScheduler.LeaseFlood
