import Lucendex.Router.BreakerTransitions

/-!
# The circuit breaker: every run

What holds of each pair's state after any run of `CheckPrice`, `RecordTrade`,
`EnableCautionMode` and caution callbacks from `NewCircuitBreaker`, at every clock reading the
run has not passed (`breaker_run_invariant`):

* `recentPrices` is the window of the last `DefaultMaxPrices` prices the run recorded for the
  pair, in call order (`recordedPrices`): each `RecordTrade` price and each price a `CheckPrice`
  admits, and no price a check rejects;
* `failures` is at most `DefaultFailureLimit`, and below it unless the pair is open;
* an open pair has an `openedAt`, no later than the clock.

Each call changes at most the state of the pair it names, and on that pair a check either
rejects the price and leaves the prices as they were, or admits it and records it
(`BreakerOp.apply_pair`, `checkPrice_recentPrices`).
-/

namespace Lucendex.Router

open Lucendex.Decimal

/-! ### The window of recorded prices -/

/-- The last `DefaultMaxPrices` elements of a list, or all of them when there are fewer. -/
def priceWindow (l : List Decimal) : List Decimal :=
  l.drop (l.length - defaultMaxPrices)

theorem length_priceWindow_le (l : List Decimal) :
  (priceWindow l).length ≤ defaultMaxPrices
  := by simp only [priceWindow, List.length_drop]; omega

/-- Appending to the window and taking the window again is taking the window of the longer
list. -/
theorem priceWindow_append_priceWindow (l : List Decimal) (price : Decimal) :
  priceWindow (priceWindow l ++ [price]) = priceWindow (l ++ [price])
  := by
  have hD : 0 < defaultMaxPrices := by decide
  unfold priceWindow
  rw [List.length_append, List.length_singleton, List.length_drop, List.length_append,
    List.length_singleton, List.drop_append_of_le_length (by rw [List.length_drop]; omega),
    List.drop_drop, List.drop_append_of_le_length (by omega)]
  rw [show l.length - defaultMaxPrices +
      (l.length - (l.length - defaultMaxPrices) + 1 - defaultMaxPrices) =
    l.length + 1 - defaultMaxPrices by omega]

/-- `recordPrice` keeps a window of at most `DefaultMaxPrices` prices as such a window. -/
theorem BreakerState.recordPrice_recentPrices {st : BreakerState} {price : Decimal}
    (h : st.recentPrices.length ≤ defaultMaxPrices) :
  (st.recordPrice price).recentPrices = priceWindow (st.recentPrices ++ [price])
  := by
  simp only [recordPrice, priceWindow, List.length_append, List.length_singleton]
  split_ifs with hgt
  · rw [show st.recentPrices.length + 1 - defaultMaxPrices = 1 by omega, List.drop_one]
  · rw [show st.recentPrices.length + 1 - defaultMaxPrices = 0 by omega, List.drop_zero]

/-! ### One pair's invariant -/

/-- The clauses of the invariant on one pair's state, at a clock reading `t` that no call has
passed. -/
structure BreakerState.Inv (st : BreakerState) (t : Int) : Prop where
  failures_le : st.failures ≤ defaultFailureLimit
  failures_lt : st.state ≠ .stateOpen → st.failures < defaultFailureLimit
  openedAt_le : st.state = .stateOpen → ∃ o, st.openedAt = some o ∧ o ≤ t

theorem zero_lt_defaultFailureLimit :
  0 < defaultFailureLimit
  := by decide

namespace BreakerState

variable {st : BreakerState} {t now : Int} {price : Decimal}

theorem Inv.init (pair : String) (t : Int) :
  (init pair).Inv t
  := ⟨Nat.zero_le _, fun _ => zero_lt_defaultFailureLimit, fun h => by cases h⟩

theorem Inv.recordPrice (h : st.Inv t) :
  (st.recordPrice price).Inv t
  := ⟨h.failures_le, h.failures_lt, h.openedAt_le⟩

theorem Inv.toHalfOpen :
  st.toHalfOpen.Inv t
  := ⟨Nat.zero_le _, fun _ => zero_lt_defaultFailureLimit, fun h => by cases h⟩

theorem Inv.acceptPrice (h : st.Inv t) :
  (st.acceptPrice price).Inv t
  := by
  unfold BreakerState.acceptPrice
  split
  · exact Inv.recordPrice ⟨Nat.zero_le _, fun _ => zero_lt_defaultFailureLimit, fun h => by cases h⟩
  · exact h.recordPrice

/-- A failure counted on a pair that is not open, at a time no later than `t`. -/
theorem Inv.recordFailure (h : st.Inv t) (hst : st.state ≠ .stateOpen) (hnow : now ≤ t) :
  (st.recordFailure now).Inv t
  := by
  have hlt := h.failures_lt hst
  obtain ⟨hs, ho⟩ := @recordFailure_state_openedAt now st
  refine ⟨by rw [recordFailure_failures]; omega, fun hne => ?_, fun hopen => ?_⟩
  · rw [hs] at hne
    split_ifs at hne with hlim
    · exact absurd rfl hne
    · rw [recordFailure_failures]; omega
  · rw [hs] at hopen
    split_ifs at hopen with hlim
    · exact ⟨now, by rw [ho, if_pos hlim], hnow⟩
    · exact absurd hopen hst

@[simp]
theorem recordFailure_recentPrices :
  (st.recordFailure now).recentPrices = st.recentPrices
  := by simp only [recordFailure]; split <;> rfl

@[simp]
theorem acceptPrice_recentPrices :
  (st.acceptPrice price).recentPrices = (st.recordPrice price).recentPrices
  := by unfold acceptPrice; split <;> rfl

@[simp]
theorem toHalfOpen_recentPrices :
  st.toHalfOpen.recentPrices = st.recentPrices
  := rfl

end BreakerState

/-! ### One call -/

namespace CircuitBreaker

open BreakerState

variable {cb : CircuitBreaker} {now t : Int} {pair p : String} {st : BreakerState}
  {price : Decimal}

theorem getOrCreateState_put_ne (h : p ≠ pair) :
  (cb.put p st).getOrCreateState pair = cb.getOrCreateState pair
  := by simp [getOrCreateState, put, AList.lookup_insert_ne h.symm]

/-- `evaluate` rejects the price, keeping the pair's state or counting a failure, or admits it,
recording it with `recordPrice` or `acceptPrice`. -/
theorem evaluate_cases (cb : CircuitBreaker) (now : Int) (pair : String) (st : BreakerState)
    (price : Decimal) :
  ((cb.evaluate now pair st price).2 ≠ .ok () ∧
      ((cb.evaluate now pair st price).1 = cb.put pair st ∨
        (cb.evaluate now pair st price).1 = cb.put pair (st.recordFailure now))) ∨
    ((cb.evaluate now pair st price).2 = .ok () ∧
      ((cb.evaluate now pair st price).1 = cb.put pair (st.recordPrice price) ∨
        (cb.evaluate now pair st price).1 = cb.put pair (st.acceptPrice price)))
  := by
  by_cases hnil : st.recentPrices = []
  · exact .inr ⟨by simp [evaluate, hnil], .inl (by simp [evaluate, hnil])⟩
  rcases hd : st.deviation price with _ | d
  · exact .inl ⟨by simp [evaluate, hnil, hd], .inl (by simp [evaluate, hnil, hd])⟩
  by_cases hgt : d.greaterThan (cb.effectiveThreshold now) = true
  · exact .inl ⟨by simp [evaluate, hnil, hd, hgt], .inr (by simp [evaluate, hnil, hd, hgt])⟩
  · exact .inr ⟨by simp [evaluate, hnil, hd, hgt], .inr (by simp [evaluate, hnil, hd, hgt])⟩

/-- `CheckPrice` evaluates the pair's state, or that state made half-open, or rejects the
price of an open pair and leaves the state as it is. -/
theorem checkPrice_cases (cb : CircuitBreaker) (now : Int) (pair : String) (price : Decimal) :
  (∃ st, (st = cb.getOrCreateState pair ∨ st = (cb.getOrCreateState pair).toHalfOpen) ∧
      st.state ≠ .stateOpen ∧ cb.checkPrice now pair price = cb.evaluate now pair st price) ∨
    cb.checkPrice now pair price =
      (cb.put pair (cb.getOrCreateState pair), .error .errCircuitBreakerOpen)
  := by
  simp only [checkPrice]
  split
  · split
    · exact .inl ⟨_, .inr rfl, by simp, rfl⟩
    · exact .inr rfl
  · exact .inl ⟨_, .inl rfl, ‹_›, rfl⟩

/-- A check stores a new state for its own pair only. -/
theorem checkPrice_fst (cb : CircuitBreaker) (now : Int) (pair : String) (price : Decimal) :
  ∃ st, (cb.checkPrice now pair price).1 = cb.put pair st
  := by
  rcases checkPrice_cases cb now pair price with ⟨st, -, -, h⟩ | h
  · rw [h]
    rcases evaluate_cases cb now pair st price with ⟨-, h' | h'⟩ | ⟨-, h' | h'⟩ <;>
      exact ⟨_, h'⟩
  · exact ⟨_, by rw [h]⟩

/-- The pair's prices after a check: the old window with the price recorded when the check
admits it, the old window otherwise. -/
theorem checkPrice_recentPrices (h : (cb.getOrCreateState pair).recentPrices.length ≤ defaultMaxPrices) :
  ((cb.checkPrice now pair price).1.getOrCreateState pair).recentPrices =
    if (cb.checkPrice now pair price).2 = .ok () then
      priceWindow ((cb.getOrCreateState pair).recentPrices ++ [price])
    else (cb.getOrCreateState pair).recentPrices
  := by
  rcases checkPrice_cases cb now pair price with ⟨st, hst, -, hc⟩ | hc
  · have hprices : st.recentPrices = (cb.getOrCreateState pair).recentPrices := by
      rcases hst with rfl | rfl <;> rfl
    rw [hc, ← hprices]
    rcases evaluate_cases cb now pair st price with ⟨hr, he | he⟩ | ⟨hr, he | he⟩ <;>
      simp [hr, he, recordPrice_recentPrices (hprices ▸ h)]
  · simp [hc]

/-- A check at a time no later than `t` keeps the invariant of its pair. -/
theorem checkPrice_inv (h : (cb.getOrCreateState pair).Inv t) (hnow : now ≤ t) :
  ((cb.checkPrice now pair price).1.getOrCreateState pair).Inv t
  := by
  rcases checkPrice_cases cb now pair price with ⟨st, hst, hopen, hc⟩ | hc
  · have hi : st.Inv t := by rcases hst with rfl | rfl; exacts [h, Inv.toHalfOpen]
    rw [hc]
    rcases evaluate_cases cb now pair st price with ⟨-, he | he⟩ | ⟨-, he | he⟩ <;>
      simp only [he, getOrCreateState_put_self]
    exacts [hi, hi.recordFailure hopen hnow, hi.recordPrice, hi.acceptPrice]
  · simpa [hc] using h

end CircuitBreaker

/-! ### Runs -/

open CircuitBreaker

/-- The prices a call records for `pair`: a `RecordTrade` price, or a `CheckPrice` price the
check admits. -/
def BreakerOp.recorded (now : Int) (cb : CircuitBreaker) (pair : String) : BreakerOp → List Decimal
  | .checkPrice p price => if p = pair ∧ (cb.checkPrice now p price).2 = .ok () then [price] else []
  | .recordTrade p price => if p = pair then [price] else []
  | .enableCautionMode _ | .cautionModeOff => []

/-- The prices a run records for `pair`, in call order. -/
def recordedPrices (pair : String) : CircuitBreaker → List (Int × BreakerOp) → List Decimal
  | _, [] => []
  | cb, (now, o) :: ops => o.recorded now cb pair ++ recordedPrices pair (o.apply now cb) ops

/-- One call keeps the window of `pair`'s recorded prices and its invariant; a call that names
another pair leaves `pair`'s state as it is. -/
theorem BreakerOp.apply_pair {cb : CircuitBreaker} {now t : Int} {pair : String}
    {H : List Decimal} (o : BreakerOp)
    (hp : (cb.getOrCreateState pair).recentPrices = priceWindow H)
    (hi : (cb.getOrCreateState pair).Inv t) (hnow : now ≤ t) :
  ((o.apply now cb).getOrCreateState pair).recentPrices =
      priceWindow (H ++ o.recorded now cb pair) ∧
    ((o.apply now cb).getOrCreateState pair).Inv t
  := by
  have hlen : (cb.getOrCreateState pair).recentPrices.length ≤ defaultMaxPrices :=
    hp ▸ length_priceWindow_le H
  cases o with
  | checkPrice p price =>
    by_cases hpp : p = pair
    · subst hpp
      refine ⟨?_, checkPrice_inv hi hnow⟩
      rw [apply, checkPrice_recentPrices hlen, recorded]
      split_ifs with hok hok' hok'
      · rw [hp, priceWindow_append_priceWindow]
      · exact absurd ⟨rfl, hok⟩ hok'
      · exact absurd hok'.2 hok
      · rw [hp, List.append_nil]
    · obtain ⟨st, hst⟩ := checkPrice_fst cb now p price
      simp only [apply, hst, getOrCreateState_put_ne hpp, recorded, hpp, false_and, if_false,
        List.append_nil]
      exact ⟨hp, hi⟩
  | recordTrade p price =>
    by_cases hpp : p = pair
    · subst hpp
      simp only [apply, CircuitBreaker.recordTrade, getOrCreateState_put_self, recorded, if_true]
      exact ⟨by rw [BreakerState.recordPrice_recentPrices hlen, hp, priceWindow_append_priceWindow],
        hi.failures_le, hi.failures_lt, hi.openedAt_le⟩
    · simp only [apply, CircuitBreaker.recordTrade, getOrCreateState_put_ne hpp, recorded, hpp,
        if_false, List.append_nil]
      exact ⟨hp, hi⟩
  | enableCautionMode _ | cautionModeOff => exact ⟨by rw [recorded, List.append_nil]; exact hp, hi⟩

theorem runBreaker_pair {pair : String} {t : Int} :
    ∀ {cb : CircuitBreaker} {H : List Decimal} {ops : List (Int × BreakerOp)},
      (cb.getOrCreateState pair).recentPrices = priceWindow H →
      (cb.getOrCreateState pair).Inv t → (∀ o ∈ ops, o.1 ≤ t) →
      ((runBreaker cb ops).getOrCreateState pair).recentPrices =
          priceWindow (H ++ recordedPrices pair cb ops) ∧
        ((runBreaker cb ops).getOrCreateState pair).Inv t
  | _, H, [], hp, hi, _ => by simpa [runBreaker, recordedPrices] using ⟨hp, hi⟩
  | cb, H, (now, o) :: ops, hp, hi, ht => by
    obtain ⟨hp', hi'⟩ := o.apply_pair hp hi (ht _ (List.mem_cons_self _ _))
    have := runBreaker_pair hp' hi' fun x hx => ht x (List.mem_cons_of_mem _ hx)
    simpa [runBreaker, recordedPrices, List.append_assoc] using this

/-- After any run of calls from `NewCircuitBreaker`, at any clock reading `t` no call of the run
has passed, every pair's state holds the window of the last 100 prices the run recorded for it,
in call order (each `RecordTrade` price and each price a `CheckPrice` admitted); its failure
count is at most `DefaultFailureLimit`, and below it unless the pair is open; and an open pair
has an `openedAt` no later than `t`. -/
theorem breaker_run_invariant (now₀ : Int) (threshold cautionThreshold : Decimal)
    (ops : List (Int × BreakerOp)) (pair : String) {t : Int} (ht : ∀ o ∈ ops, o.1 ≤ t) :
  ((runBreaker (newCircuitBreaker now₀ threshold cautionThreshold) ops).getOrCreateState pair).recentPrices =
      priceWindow (recordedPrices pair (newCircuitBreaker now₀ threshold cautionThreshold) ops) ∧
    ((runBreaker (newCircuitBreaker now₀ threshold cautionThreshold) ops).getOrCreateState pair).failures ≤
      defaultFailureLimit ∧
    (((runBreaker (newCircuitBreaker now₀ threshold cautionThreshold) ops).getOrCreateState pair).state ≠
      .stateOpen →
      ((runBreaker (newCircuitBreaker now₀ threshold cautionThreshold) ops).getOrCreateState pair).failures <
        defaultFailureLimit) ∧
    (((runBreaker (newCircuitBreaker now₀ threshold cautionThreshold) ops).getOrCreateState pair).state =
      .stateOpen →
      ∃ o, ((runBreaker (newCircuitBreaker now₀ threshold cautionThreshold) ops).getOrCreateState
        pair).openedAt = some o ∧ o ≤ t)
  := by
  obtain ⟨hp, hi⟩ := @runBreaker_pair pair t (newCircuitBreaker now₀ threshold cautionThreshold) [] ops
    rfl (BreakerState.Inv.init pair t) ht
  exact ⟨hp, hi.failures_le, hi.failures_lt, hi.openedAt_le⟩

/-- The run of `failures_survive_admitted_prices`, observed at 66 s. -/
theorem breaker_run_invariant_failures :
  (∀ o ∈ [((61 : Int) * 10 ^ 9, BreakerOp.recordTrade "p" (newFromInt 1)),
      (62 * 10 ^ 9, .checkPrice "p" (new 12 (-1))), (63 * 10 ^ 9, .checkPrice "p" (new 12 (-1)))],
      o.1 ≤ 66 * 10 ^ 9) ∧
    ((runBreaker (newCircuitBreaker 0 (new 5 (-2)) (new 25 (-3)))
        [(61 * 10 ^ 9, .recordTrade "p" (newFromInt 1)),
          (62 * 10 ^ 9, .checkPrice "p" (new 12 (-1))),
          (63 * 10 ^ 9, .checkPrice "p" (new 12 (-1)))]).getOrCreateState "p").failures ≤
      defaultFailureLimit
  := ⟨by decide, (@breaker_run_invariant 0 (new 5 (-2)) (new 25 (-3)) _ "p" (66 * 10 ^ 9)
    (by decide)).2.1⟩

end Lucendex.Router
