import Lucendex.Router.Breaker

/-!
# The circuit breaker: transitions

What one `CheckPrice` does to the pair it checks, read off `checkPrice` once per case: a pair
that is half-open when it is evaluated (left so by an earlier call, or put so by this call at
the end of its 30 second window) counts a failure on an out-of-threshold price and opens only
when the count reaches `DefaultFailureLimit`, and closes with no failures on an in-threshold
price (`halfOpen_checkPrice_outcome`).

Three runs show where the code departs from what its documentation says: the failure count
survives admitted prices, so it is not a count of consecutive failures
(`failures_survive_admitted_prices`); a failed half-open probe leaves the pair half-open
(`halfOpen_failure_stays_halfOpen`); and a mean that rounds to zero at 16 digits makes the
deviation divide by zero (`checkPrice_mean_rounds_to_zero`).
-/

namespace Lucendex.Router

open Lucendex.Decimal

variable {cb : CircuitBreaker} {now : Int} {pair : String} {st : BreakerState}
  {price d : Decimal}

/-! ### One pair's state -/

namespace CircuitBreaker

@[simp]
theorem getOrCreateState_put_self : (cb.put pair st).getOrCreateState pair = st := by
  simp [getOrCreateState, put]

@[simp]
theorem getState_put_self : (cb.put pair st).getState pair = st.state := by
  simp [getState, put]

end CircuitBreaker

namespace BreakerState

@[simp]
theorem toHalfOpen_state : st.toHalfOpen.state = .stateHalfOpen := rfl

@[simp]
theorem toHalfOpen_failures : st.toHalfOpen.failures = 0 := rfl

@[simp]
theorem recordPrice_state : (st.recordPrice price).state = st.state := rfl

@[simp]
theorem recordPrice_failures : (st.recordPrice price).failures = st.failures := rfl

/-- The half-open transition keeps the recorded prices, and so the deviation. -/
@[simp]
theorem deviation_toHalfOpen : st.toHalfOpen.deviation price = st.deviation price := rfl

/-- With no recorded prices the mean is `Zero`, and the deviation divides by it. -/
theorem deviation_eq_none_of_nil (h : st.recentPrices = []) : st.deviation price = none := by
  simp [deviation, calculateAverage, h, Decimal.div, divRound, quoRem, Decimal.zero]

@[simp]
theorem recordFailure_failures : (st.recordFailure now).failures = st.failures + 1 := by
  by_cases h : defaultFailureLimit ≤ st.failures + 1 <;> simp [recordFailure, h]

/-- A failure opens the pair, at `now`, exactly when it brings the count to the limit. -/
theorem recordFailure_state_openedAt :
  (st.recordFailure now).state =
      (if defaultFailureLimit ≤ st.failures + 1 then .stateOpen else st.state) ∧
    (st.recordFailure now).openedAt =
      (if defaultFailureLimit ≤ st.failures + 1 then some now else st.openedAt)
  := by
  by_cases h : defaultFailureLimit ≤ st.failures + 1 <;> simp [recordFailure, h]

/-- An admitted price closes a half-open pair and clears its failures. -/
theorem acceptPrice_of_halfOpen (h : st.state = .stateHalfOpen) :
    (st.acceptPrice price).state = .stateClosed ∧ (st.acceptPrice price).failures = 0 := by
  simp [acceptPrice, h]

end BreakerState

/-! ### One check -/

namespace CircuitBreaker

open BreakerState

/-- Once the deviation is defined, the evaluation fails the pair or admits the price. -/
theorem evaluate_of_deviation (hd : st.deviation price = some d) :
  cb.evaluate now pair st price =
    if d.greaterThan (cb.effectiveThreshold now) then
      (cb.put pair (st.recordFailure now), .error .errCircuitBreakerOpen)
    else (cb.put pair (st.acceptPrice price), .ok ())
  := by
  have hne : st.recentPrices ≠ [] := fun h => by simp [deviation_eq_none_of_nil h] at hd
  simp only [evaluate, hne, hd, if_false]

/-- A pair that is not open is evaluated as it is. -/
theorem checkPrice_of_not_open (h : (cb.getOrCreateState pair).state ≠ .stateOpen) :
    cb.checkPrice now pair price = cb.evaluate now pair (cb.getOrCreateState pair) price := by
  simp [checkPrice, h]

/-- An open pair whose window is over is evaluated half-open, with no failures. -/
theorem checkPrice_of_openExpired (h : (cb.getOrCreateState pair).state = .stateOpen)
    (he : (cb.getOrCreateState pair).openExpired now) :
    cb.checkPrice now pair price =
      cb.evaluate now pair (cb.getOrCreateState pair).toHalfOpen price := by
  simp [checkPrice, h, he]

/-- A check that evaluates a half-open pair, either because the pair was half-open or because
its window is over, with a defined deviation `d`: out of threshold, the call fails and counts one
more failure than the pair had when evaluated (none, if the window just ended), and opens the pair
at `now` only if that count reaches `DefaultFailureLimit`, leaving it half-open otherwise; within
the threshold, the call succeeds and closes the pair with no failures. -/
theorem halfOpen_checkPrice_outcome
    (hhalf : (cb.getOrCreateState pair).state = .stateHalfOpen ∨
      (cb.getOrCreateState pair).state = .stateOpen ∧
        (cb.getOrCreateState pair).openExpired now)
    (hdev : (cb.getOrCreateState pair).deviation price = some d) :
  (let n := if (cb.getOrCreateState pair).state = .stateOpen then 0
      else (cb.getOrCreateState pair).failures;
    let r := cb.checkPrice now pair price;
    (d.greaterThan (cb.effectiveThreshold now) = true →
      r.2 = .error .errCircuitBreakerOpen ∧ (r.1.getOrCreateState pair).failures = n + 1 ∧
        if defaultFailureLimit ≤ n + 1 then
          r.1.getState pair = .stateOpen ∧ (r.1.getOrCreateState pair).openedAt = some now
        else r.1.getState pair = .stateHalfOpen) ∧
    (d.greaterThan (cb.effectiveThreshold now) = false →
      r.2 = .ok () ∧ r.1.getState pair = .stateClosed ∧
        (r.1.getOrCreateState pair).failures = 0))
  := by
  intro n r
  -- the state the call evaluates: half-open, with `n` failures and the same deviation
  obtain ⟨st, hhalf, hfail, hdev, hr⟩ : ∃ st : BreakerState, st.state = .stateHalfOpen ∧
      st.failures = n ∧ st.deviation price = some d ∧
      cb.checkPrice now pair price = cb.evaluate now pair st price := by
    rcases hhalf with h | ⟨h, he⟩
    · exact ⟨_, h, by simp [n, h], hdev, checkPrice_of_not_open (by simp [h])⟩
    · exact ⟨(cb.getOrCreateState pair).toHalfOpen, rfl, by simp [n, h], hdev,
        checkPrice_of_openExpired h he⟩
  simp only [r, hr, evaluate_of_deviation hdev]
  refine ⟨fun hgt => ?_, fun hle => ?_⟩
  · obtain ⟨hs, ho⟩ := @recordFailure_state_openedAt now st
    simp only [hgt, if_true, getOrCreateState_put_self, getState_put_self, hs, ho,
      recordFailure_failures, hfail, hhalf]
    split <;> simp
  · simp [hle, acceptPrice_of_halfOpen hhalf]

/-- The probe at 97 s of the pair opened at 66 s: out of threshold, it fails and leaves the
pair half-open with one failure. -/
theorem halfOpen_checkPrice_outcome_afterWindow :
  (let cb := runBreaker (newCircuitBreaker 0 (new 5 (-2)) (new 25 (-3)))
      [(61 * 10 ^ 9, .recordTrade "p" (newFromInt 1)),
        (62 * 10 ^ 9, .checkPrice "p" (new 12 (-1))), (63 * 10 ^ 9, .checkPrice "p" (new 12 (-1))),
        (64 * 10 ^ 9, .checkPrice "p" (new 12 (-1))), (65 * 10 ^ 9, .checkPrice "p" (new 12 (-1))),
        (66 * 10 ^ 9, .checkPrice "p" (new 12 (-1)))];
    ((cb.getOrCreateState "p").state = .stateHalfOpen ∨
      (cb.getOrCreateState "p").state = .stateOpen ∧
        (cb.getOrCreateState "p").openExpired (97 * 10 ^ 9)) ∧
    (cb.getOrCreateState "p").deviation (new 12 (-1)) = some (new 2000000000000000 (-16)) ∧
    (cb.checkPrice (97 * 10 ^ 9) "p" (new 12 (-1))).2 = .error .errCircuitBreakerOpen ∧
    ((cb.checkPrice (97 * 10 ^ 9) "p" (new 12 (-1))).1.getOrCreateState "p").failures = 1)
  := by
  intro cb
  have hhalf : (cb.getOrCreateState "p").state = .stateHalfOpen ∨
      (cb.getOrCreateState "p").state = .stateOpen ∧
        (cb.getOrCreateState "p").openExpired (97 * 10 ^ 9) := by decide
  have hdev : (cb.getOrCreateState "p").deviation (new 12 (-1)) =
      some (new 2000000000000000 (-16)) := by decide
  have hout := (halfOpen_checkPrice_outcome hhalf hdev).1 (by decide)
  exact ⟨hhalf, hdev, hout.1, by simpa [show (cb.getOrCreateState "p").state = .stateOpen by decide]
    using hout.2.1⟩

/-- A pair with four failures admits an in-threshold price at 66 s, which leaves the count at
four, and then opens at 67 s on its first out-of-threshold price since. -/
theorem failures_survive_admitted_prices :
  (let cb := runBreaker (newCircuitBreaker 0 (new 5 (-2)) (new 25 (-3)))
      [(61 * 10 ^ 9, .recordTrade "p" (newFromInt 1)),
        (62 * 10 ^ 9, .checkPrice "p" (new 12 (-1))), (63 * 10 ^ 9, .checkPrice "p" (new 12 (-1))),
        (64 * 10 ^ 9, .checkPrice "p" (new 12 (-1))), (65 * 10 ^ 9, .checkPrice "p" (new 12 (-1)))];
    let r₁ := cb.checkPrice (66 * 10 ^ 9) "p" (newFromInt 1);
    let r₂ := r₁.1.checkPrice (67 * 10 ^ 9) "p" (new 12 (-1));
    (cb.getOrCreateState "p").failures = 4 ∧ r₁.2 = .ok () ∧
      (r₁.1.getOrCreateState "p").failures = 4 ∧ r₂.2 = .error .errCircuitBreakerOpen ∧
      r₂.1.getState "p" = .stateOpen)
  := by decide

/-- The pair opened at 66 s is probed at 97 s with an out-of-threshold price: the call fails, and
the pair stays half-open with one failure instead of opening again. -/
theorem halfOpen_failure_stays_halfOpen :
  (let cb := runBreaker (newCircuitBreaker 0 (new 5 (-2)) (new 25 (-3)))
      [(61 * 10 ^ 9, .recordTrade "p" (newFromInt 1)),
        (62 * 10 ^ 9, .checkPrice "p" (new 12 (-1))), (63 * 10 ^ 9, .checkPrice "p" (new 12 (-1))),
        (64 * 10 ^ 9, .checkPrice "p" (new 12 (-1))), (65 * 10 ^ 9, .checkPrice "p" (new 12 (-1))),
        (66 * 10 ^ 9, .checkPrice "p" (new 12 (-1)))];
    let r := cb.checkPrice (97 * 10 ^ 9) "p" (new 12 (-1));
    cb.getState "p" = .stateOpen ∧ r.2 = .error .errCircuitBreakerOpen ∧
      r.1.getState "p" = .stateHalfOpen ∧ (r.1.getOrCreateState "p").failures = 1 ∧
      (r.1.getOrCreateState "p").openedAt = some (66 * 10 ^ 9))
  := by decide

/-- A first price of `1e-17` is admitted; the mean of the history is then `1e-17 / 1`, which
rounds to zero at 16 digits, and the next check, of the positive price 1, divides by zero. -/
theorem checkPrice_mean_rounds_to_zero :
  (let r := (newCircuitBreaker 0 (new 5 (-2)) (new 25 (-3))).checkPrice (61 * 10 ^ 9) "p"
      (new 1 (-17));
    r.2 = .ok () ∧ (r.1.getOrCreateState "p").recentPrices = [new 1 (-17)] ∧
      calculateAverage (r.1.getOrCreateState "p").recentPrices = some (new 0 (-16)) ∧
      (r.1.checkPrice (62 * 10 ^ 9) "p" (newFromInt 1)).2 = .error .decimalDivisionByZero)
  := by decide

end CircuitBreaker

end Lucendex.Router
