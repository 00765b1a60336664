import Lucendex.Router.Breaker

/-!
# The circuit breaker: the caution window and its callbacks

`EnableCautionMode(d)` at time `now` turns `cautionMode` on, sets `cautionUntil` to `now + d`,
and schedules with `time.AfterFunc(d, ...)` a callback that turns `cautionMode` off.
`TimedBreaker` is the breaker with the callbacks scheduled and not run yet, each by the time it
is due.  A callback runs at any time from its due time on (`TimedEvent.fire`), interleaved with
the calls (`TimedEvent.call`).

Every callback turns `cautionMode` off, whichever `EnableCautionMode` scheduled it.  A callback
of an earlier, shorter window therefore ends a later, longer one before its `cautionUntil`
(`cautionModeOff_ends_later_window`).
-/

namespace Lucendex.Router

open Lucendex.Decimal

/-- A breaker with the due times of the callbacks `EnableCautionMode` scheduled and that have
not run. -/
structure TimedBreaker where
  cb : CircuitBreaker
  timers : List Int

/-- What happens next: a call on the breaker, or the callback due at `due` runs. -/
inductive TimedEvent where
  | call (o : BreakerOp)
  | fire (due : Int)

/-- `NewCircuitBreaker(threshold)` at time `now`, with the callback its `EnableCautionMode`
schedules. -/
def newTimedBreaker (now : Int) (threshold cautionThreshold : Decimal) : TimedBreaker :=
  ⟨newCircuitBreaker now threshold cautionThreshold, [now + defaultCautionDuration]⟩

namespace TimedBreaker

/-- One event at time `now`: `EnableCautionMode` schedules its callback; a callback runs only
once it is due and was scheduled; `cautionModeOff` is no call of its own.  `none` for an event
that cannot happen. -/
def step (tb : TimedBreaker) (now : Int) : TimedEvent → Option TimedBreaker
  | .call (.enableCautionMode d) => some ⟨tb.cb.enableCautionMode now d, tb.timers ++ [now + d]⟩
  | .call .cautionModeOff => none
  | .call o => some ⟨o.apply now tb.cb, tb.timers⟩
  | .fire due =>
    if due ∈ tb.timers ∧ due ≤ now then some ⟨tb.cb.cautionModeOff, tb.timers.erase due⟩ else none

/-- A run of timed events, each at its clock reading. -/
def run (tb : TimedBreaker) : List (Int × TimedEvent) → Option TimedBreaker
  | [] => some tb
  | (now, e) :: es => (tb.step now e).bind fun tb => tb.run es

end TimedBreaker

/-- `NewCircuitBreaker(0.05)` at time 0, then `EnableCautionMode(10s)` at 0 and
`EnableCautionMode(60s)` at 1 s, which sets `cautionUntil` to 61 s; `RecordTrade("p", 1)` at 2 s.
The first call's callback is due at 10 s and runs then.  At 20 s, before `cautionUntil`,
`CheckPrice` compares with the full threshold, and admits the price 1.04, whose deviation 0.04
is above the halved threshold 0.025. -/
theorem cautionModeOff_ends_later_window :
  (let tb := (newTimedBreaker 0 (new 5 (-2)) (new 25 (-3))).run
      [(0, .call (.enableCautionMode (10 * 10 ^ 9))), (1 * 10 ^ 9, .call (.enableCautionMode (60 * 10 ^ 9))),
        (2 * 10 ^ 9, .call (.recordTrade "p" (newFromInt 1))), (10 * 10 ^ 9, .fire (10 * 10 ^ 9))];
    tb.map (·.cb.cautionUntil) = some (61 * 10 ^ 9) ∧
      tb.map (·.cb.effectiveThreshold (20 * 10 ^ 9)) = some (new 5 (-2)) ∧
      tb.map (fun tb => (tb.cb.getOrCreateState "p").deviation (new 104 (-2))) =
        some (some (new 400000000000000 (-16))) ∧
      (new 400000000000000 (-16)).greaterThan (new 25 (-3)) = true ∧
      tb.map (fun tb => (tb.cb.checkPrice (20 * 10 ^ 9) "p" (new 104 (-2))).2) = some (.ok ()))
  := by decide

end Lucendex.Router
