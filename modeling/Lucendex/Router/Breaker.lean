import Lucendex.Router.Types
import Mathlib.Data.List.AList

/-!
# The circuit breaker

`CircuitBreaker` is the state of `router.CircuitBreaker`: a `BreakerState` per pair, the
threshold, and the caution window.  The float threshold enters the Go code only through
`decimal.NewFromFloat(threshold)` and `decimal.NewFromFloat(threshold * 0.5)`, so the model
keeps those two decimals.  `EnableCautionMode` also schedules, with `time.AfterFunc`, a callback
that clears `cautionMode` when its duration has passed; that callback is the call
`cautionModeOff`.  The persist callback only receives the state, so it is left out.

`checkPrice` follows `CheckPrice`: an open pair rejects the call until 30 seconds after it
opened, and then turns half-open with no failures; a pair without recorded prices takes the
price; otherwise the deviation `|price - mean| / mean` is compared with the threshold.  An
out-of-threshold price counts a failure and opens the pair at the fifth; an in-threshold price
closes a half-open pair, clears its failures and is recorded.  Only the half-open path clears
`failures`.
-/

namespace Lucendex.Router

open Lucendex.Decimal

/-- `StateClosed`, `StateOpen` and `StateHalfOpen`. -/
inductive BreakerStatus where
  | stateClosed
  | stateOpen
  | stateHalfOpen
  deriving DecidableEq, Repr

/-- The strings `"closed"`, `"open"` and `"half-open"` that `GetState` returns. -/
def BreakerStatus.toString : BreakerStatus → String
  | .stateClosed => "closed"
  | .stateOpen => "open"
  | .stateHalfOpen => "half-open"

/-- `DefaultMaxPrices`. -/
def defaultMaxPrices : Nat := 100

/-- `DefaultFailureLimit`. -/
def defaultFailureLimit : Nat := 5

/-- `DefaultCautionDuration`, in nanoseconds. -/
def defaultCautionDuration : Int := 60 * 10 ^ 9

/-- The `30*time.Second` an open pair waits, in nanoseconds. -/
def openDuration : Int := 30 * 10 ^ 9

/-- A `breakerState`; `none` is the zero `time.Time`. -/
structure BreakerState where
  pair : String
  recentPrices : List Decimal
  lastTradeTs : Option Int
  state : BreakerStatus
  failures : Nat
  openedAt : Option Int
  deriving DecidableEq, Repr

/-- A `CircuitBreaker`, without its lock and its persist callback. -/
structure CircuitBreaker where
  states : AList (fun _ : String => BreakerState)
  threshold : Decimal
  cautionThreshold : Decimal
  cautionMode : Bool
  cautionUntil : Int

namespace CircuitBreaker

/-- `cb.EnableCautionMode(duration)` at time `now`, without the callback it schedules. -/
def enableCautionMode (cb : CircuitBreaker) (now duration : Int) : CircuitBreaker :=
  { cb with cautionMode := true, cautionUntil := now + duration }

/-- The callback `EnableCautionMode` schedules with `time.AfterFunc`. -/
def cautionModeOff (cb : CircuitBreaker) : CircuitBreaker :=
  { cb with cautionMode := false }

end CircuitBreaker

/-- `NewCircuitBreaker(threshold)` at time `now`, given `NewFromFloat(threshold)` and
`NewFromFloat(threshold * 0.5)`. -/
def newCircuitBreaker (now : Int) (threshold cautionThreshold : Decimal) : CircuitBreaker :=
  CircuitBreaker.enableCautionMode ⟨∅, threshold, cautionThreshold, false, 0⟩ now
    defaultCautionDuration

/-- `recordPrice(state, price)`: the price appended, the oldest dropped past
`DefaultMaxPrices`. -/
def BreakerState.recordPrice (st : BreakerState) (price : Decimal) : BreakerState :=
  { st with
    recentPrices :=
      if (st.recentPrices ++ [price]).length > defaultMaxPrices then (st.recentPrices ++ [price]).tail
      else st.recentPrices ++ [price] }

/-- `calculateAverage(prices)`: the sum divided by the count, `Zero` for no prices. -/
def calculateAverage (prices : List Decimal) : Option Decimal :=
  if prices = [] then some zero
  else (prices.foldl add zero).div (newFromInt prices.length)

/-- `price.Sub(avgPrice).Div(avgPrice).Abs()` for the mean of the recorded prices. -/
def BreakerState.deviation (st : BreakerState) (price : Decimal) : Option Decimal :=
  (calculateAverage st.recentPrices).bind fun avg => ((price.sub avg).div avg).map abs

/-- The state of a pair first seen: closed, with no prices. -/
def BreakerState.init (pair : String) : BreakerState :=
  ⟨pair, [], none, .stateClosed, 0, none⟩

/-- `time.Since(state.openedAt) > 30*time.Second`; the zero time is long past. -/
def BreakerState.openExpired (st : BreakerState) (now : Int) : Bool :=
  match st.openedAt with
  | none => true
  | some t => now - t > openDuration

/-- An open pair whose window is over: half-open, with no failures. -/
def BreakerState.toHalfOpen (st : BreakerState) : BreakerState :=
  { st with state := .stateHalfOpen, failures := 0 }

/-- The out-of-threshold branch of `CheckPrice`: one more failure, and the pair opens at `now`
once the count reaches `DefaultFailureLimit`. -/
def BreakerState.recordFailure (st : BreakerState) (now : Int) : BreakerState :=
  let st := { st with failures := st.failures + 1 }
  if st.failures ≥ defaultFailureLimit then { st with state := .stateOpen, openedAt := some now }
  else st

/-- The in-threshold branch of `CheckPrice`: a half-open pair closes with no failures, and the
price is recorded. -/
def BreakerState.acceptPrice (st : BreakerState) (price : Decimal) : BreakerState :=
  let st := if st.state = .stateHalfOpen then { st with state := .stateClosed, failures := 0 } else st
  st.recordPrice price

namespace CircuitBreaker

/-- `cb.getOrCreateState(pair)`, the state of the pair or a fresh one. -/
def getOrCreateState (cb : CircuitBreaker) (pair : String) : BreakerState :=
  (cb.states.lookup pair).getD (BreakerState.init pair)

/-- The breaker with the pair's state replaced. -/
def put (cb : CircuitBreaker) (pair : String) (st : BreakerState) : CircuitBreaker :=
  { cb with states := cb.states.insert pair st }

/-- The threshold `CheckPrice` compares with: halved while caution mode is on and `now` is
before `cautionUntil`. -/
def effectiveThreshold (cb : CircuitBreaker) (now : Int) : Decimal :=
  if cb.cautionMode ∧ now < cb.cautionUntil then cb.cautionThreshold else cb.threshold

/-- The part of `CheckPrice` after the open check, for the pair's state `st`. -/
def evaluate (cb : CircuitBreaker) (now : Int) (pair : String) (st : BreakerState)
    (price : Decimal) : CircuitBreaker × Except RouterError Unit :=
  if st.recentPrices = [] then (cb.put pair (st.recordPrice price), .ok ())
  else
    match st.deviation price with
    | none => (cb.put pair st, .error .decimalDivisionByZero)
    | some d =>
      if d.greaterThan (cb.effectiveThreshold now) then
        (cb.put pair (st.recordFailure now), .error .errCircuitBreakerOpen)
      else (cb.put pair (st.acceptPrice price), .ok ())

/-- `cb.CheckPrice(pair, price)` at time `now`. -/
def checkPrice (cb : CircuitBreaker) (now : Int) (pair : String) (price : Decimal) :
    CircuitBreaker × Except RouterError Unit :=
  let st := cb.getOrCreateState pair
  if st.state = .stateOpen then
    if st.openExpired now then
      cb.evaluate now pair st.toHalfOpen price
    else (cb.put pair st, .error .errCircuitBreakerOpen)
  else cb.evaluate now pair st price

/-- `cb.RecordTrade(pair, price)` at time `now`. -/
def recordTrade (cb : CircuitBreaker) (now : Int) (pair : String) (price : Decimal) :
    CircuitBreaker :=
  cb.put pair { (cb.getOrCreateState pair).recordPrice price with lastTradeTs := some now }

/-- `cb.GetState(pair)`. -/
def getState (cb : CircuitBreaker) (pair : String) : BreakerStatus :=
  match cb.states.lookup pair with
  | none => .stateClosed
  | some st => st.state

end CircuitBreaker

/-- The calls on a breaker. -/
inductive BreakerOp where
  | checkPrice (pair : String) (price : Decimal)
  | recordTrade (pair : String) (price : Decimal)
  | enableCautionMode (duration : Int)
  | cautionModeOff

/-- The breaker after one call at clock reading `now`. -/
def BreakerOp.apply (now : Int) (cb : CircuitBreaker) : BreakerOp → CircuitBreaker
  | .checkPrice pair price => (cb.checkPrice now pair price).1
  | .recordTrade pair price => cb.recordTrade now pair price
  | .enableCautionMode duration => cb.enableCautionMode now duration
  | .cautionModeOff => cb.cautionModeOff

/-- The breaker after a sequence of calls, each with its clock reading. -/
def runBreaker (cb : CircuitBreaker) (ops : List (Int × BreakerOp)) : CircuitBreaker :=
  ops.foldl (fun cb o => o.2.apply o.1 cb) cb

end Lucendex.Router
