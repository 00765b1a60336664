import Lucendex.Router.Validator
import Lucendex.Router.Routes
import Lucendex.Router.Breaker
import Lucendex.Router.Hash

/-!
# The quote engine

`generateQuote` follows `QuoteEngine.GenerateQuote`: validate the request, find the route,
compose the fees (`calculateTotalFees`, with the engine's `routerBps`), take the last hop's
output, divide it by the amount for the price, record the price impact, check the price with the
circuit breaker for the pair `in-out`, and hash the quote with a ttl of 100 ledgers.  The breaker
is the only state the call changes; it is passed in and returned.  A panic of a decimal
division by zero is the error `decimalDivisionByZero`, and `none` stands for a pathfinder that
does not return.

The engine's validator holds no state and its key-value store is never used by
`GenerateQuote`, so the model keeps the pathfinder and `routerBps` only.
-/

namespace Lucendex.Router

open Lucendex.Decimal

/-- A `QuoteEngine`, with the breaker passed separately. -/
structure QuoteEngine where
  pathfinder : Pathfinder
  routerBps : Int

/-- One iteration of the loop of `calculateTotalFees`: an `amm` hop adds
`(AmountIn - AmountOut) / AmountIn`; `none` for the panic of a zero `AmountIn`. -/
def addHopFee (total : Decimal) (hop : Hop) : Option Decimal :=
  if hop.type = "amm" then ((hop.amountIn.sub hop.amountOut).div hop.amountIn).map total.add
  else some total

/-- `qe.calculateTotalFees(route)`: the trading fees summed over the hops, no router fee and no
estimated fee. -/
def calculateTotalFees (route : Route) : Option Fees :=
  (route.hops.foldlM addHopFee zero).map fun total => ⟨0, total, zero⟩

/-- `qe.calculatePriceImpact(route, amountIn)`: `|1 - out / amountIn|`, zero for a route without
hops or a zero amount. -/
def calculatePriceImpact (route : Route) (amountIn : Decimal) : Decimal :=
  match route.hops.getLast? with
  | none => zero
  | some last =>
    if h : amountIn.value = 0 then zero
    else ((newFromInt 1).sub (last.amountOut.divNonzero amountIn h)).abs

namespace QuoteEngine

/-- `qe.GenerateQuote(ctx, req, ledgerIndex)` at time `now`, on the breaker `cb`, for the digest
`sum256`: the breaker afterwards and the response or the error. -/
def generateQuote (sum256 : List UInt8 → List UInt8) (qe : QuoteEngine) (cb : CircuitBreaker)
    (now : Int) (req : QuoteRequest) (ledgerIndex : UInt32) :
    Option (CircuitBreaker × Except RouterError QuoteResponse) :=
  match validateQuoteRequest req with
  | .error e => some (cb, .error e)
  | .ok () =>
    (qe.pathfinder.findBestRoute req.in req.out req.amount).map fun
      | .error e => (cb, .error e)
      | .ok route =>
        match calculateTotalFees route with
        | none => (cb, .error .decimalDivisionByZero)
        | some fees =>
          let totalFees := { fees with routerBps := qe.routerBps }
          match route.hops.getLast? with
          | none => (cb, .error .indexOutOfRange)
          | some last =>
            match last.amountOut.div req.amount with
            | none => (cb, .error .decimalDivisionByZero)
            | some price =>
              let route := { route with priceImpact := calculatePriceImpact route req.amount }
              match cb.checkPrice now (req.in.toString ++ "-" ++ req.out.toString) price with
              | (cb, .error e) => (cb, .error e)
              | (cb, .ok ()) =>
                (cb, .ok ⟨route, last.amountOut, price, totalFees, ledgerIndex,
                  computeQuoteHash sum256 req totalFees ledgerIndex 100, 100⟩)

end QuoteEngine

/-! ### Where the fees panic -/

/-- A hop makes the fee loop panic exactly when it is an `amm` hop with a zero input. -/
theorem addHopFee_eq_none {total : Decimal} {hop : Hop} :
    addHopFee total hop = none ↔ hop.type = "amm" ∧ hop.amountIn.value = 0 := by
  unfold addHopFee
  split <;> simp [*, div_eq_none_iff]

/-- `calculateTotalFees` panics exactly on a route with an `amm` hop whose input is zero. -/
theorem calculateTotalFees_eq_none_iff (route : Route) :
    calculateTotalFees route = none ↔
      ∃ hop ∈ route.hops, hop.type = "amm" ∧ hop.amountIn.value = 0 := by
  suffices h : ∀ (hops : List Hop) (total : Decimal), hops.foldlM addHopFee total = none ↔
      ∃ hop ∈ hops, hop.type = "amm" ∧ hop.amountIn.value = 0 by
    simp [calculateTotalFees, h]
  intro hops
  induction hops with
  | nil => simp
  | cons hop hops ih =>
    intro total
    rw [List.foldlM_cons]
    cases h : addHopFee total hop with
    | none => simpa [h] using Or.inl (addHopFee_eq_none.mp h)
    | some t =>
      have hhop : ¬(hop.type = "amm" ∧ hop.amountIn.value = 0) := fun hp => by
        simp [addHopFee_eq_none.mpr hp] at h
      simp [ih, hhop]

namespace QuoteEngine

variable {sum256 : List UInt8 → List UInt8} {qe : QuoteEngine} {cb : CircuitBreaker} {now : Int}
  {req : QuoteRequest} {ledgerIndex : UInt32} {route : Route}

/-- A valid request whose route makes `calculateTotalFees` panic makes `GenerateQuote` panic,
before the breaker sees the price. -/
theorem generateQuote_of_calculateTotalFees_none (hv : validateQuoteRequest req = .ok ())
    (hr : qe.pathfinder.findBestRoute req.in req.out req.amount = some (.ok route))
    (hf : calculateTotalFees route = none) :
    qe.generateQuote sum256 cb now req ledgerIndex =
      some (cb, .error .decimalDivisionByZero) := by
  simp [generateQuote, hv, hr, hf]

/-- An engine without pools or offers answers every request with an error, before the breaker
sees a price: the validator's, or for a request it accepts, which names two different assets,
"no route found". -/
theorem generateQuote_empty (routerBps : Int) :
    (⟨⟨[], []⟩, routerBps⟩ : QuoteEngine).generateQuote sum256 cb now req ledgerIndex =
      some (cb, .error (match validateQuoteRequest req with
        | .error e => e
        | .ok () => .errNoRoute)) := by
  unfold generateQuote
  cases hv : validateQuoteRequest req with
  | error e => rfl
  | ok _ => simp [Pathfinder.findBestRoute_empty, validateQuoteRequest_eq_ok hv]

variable {fees : Fees} {last : Hop} {price : Decimal} {cb' : CircuitBreaker}
  {quote : QuoteResponse}

/-- The successful path of `GenerateQuote`: the response carries the route with its price impact,
the last hop's output, the price, the fees with the engine's `routerBps`, and the hash of the
request with those fees and a ttl of 100. -/
theorem generateQuote_eq_ok (hv : validateQuoteRequest req = .ok ())
    (hr : qe.pathfinder.findBestRoute req.in req.out req.amount = some (.ok route))
    (hf : calculateTotalFees route = some fees) (hlast : route.hops.getLast? = some last)
    (hp : last.amountOut.div req.amount = some price)
    (hc : (cb.checkPrice now (req.in.toString ++ "-" ++ req.out.toString) price).2 = .ok ()) :
    qe.generateQuote sum256 cb now req ledgerIndex =
      some ((cb.checkPrice now (req.in.toString ++ "-" ++ req.out.toString) price).1,
        .ok ⟨{ route with priceImpact := calculatePriceImpact route req.amount }, last.amountOut,
          price, { fees with routerBps := qe.routerBps }, ledgerIndex,
          computeQuoteHash sum256 req { fees with routerBps := qe.routerBps } ledgerIndex 100,
          100⟩) := by
  have hc' : cb.checkPrice now (req.in.toString ++ "-" ++ req.out.toString) price =
      ((cb.checkPrice now (req.in.toString ++ "-" ++ req.out.toString) price).1, .ok ()) :=
    Prod.ext rfl hc
  simp only [generateQuote, hv, hr, hf, hlast, hp, Option.map_some']
  rw [hc']

/-- Every quote `GenerateQuote` answers commits, in its fees and in its hash, the engine's
`routerBps`, whoever asks, with a ttl of 100 ledgers. -/
theorem generateQuote_routerBps
    (h : qe.generateQuote sum256 cb now req ledgerIndex = some (cb', .ok quote)) :
    quote.fees.routerBps = qe.routerBps ∧ quote.ttlLedgers = 100 ∧
      quote.quoteHash = computeQuoteHash sum256 req quote.fees ledgerIndex 100 := by
  simp only [generateQuote] at h
  split at h
  · simp at h
  obtain ⟨r, -, h⟩ := Option.map_eq_some'.mp h
  repeat' split at h
  all_goals simp only [Prod.mk.injEq, reduceCtorEq, Except.ok.injEq, and_false] at h
  obtain ⟨-, rfl⟩ := h
  exact ⟨rfl, rfl, rfl⟩

set_option exponentiation.threshold 400 in
/-- Two pools at the tests' 30 bps fee, `XRP/USD` with reserves 10000 and 15000 and `USD/EUR`
with 100 and 100, and a request of `1e-17` XRP for EUR, which the validator accepts: the first
hop's output rounds to zero at 16 digits, so the second hop's input is zero, and
`GenerateQuote` panics in `calculateTotalFees`, whatever the breaker, the clock, the ledger
index and the digest. -/
theorem generateQuote_zero_hop_input :
  (let xrp : Asset := ⟨"XRP", ""⟩;
    let usd : Asset := ⟨"USD", "rvYAfWj5gh67oV6fW32ZzP3Aw4Eubs59B"⟩;
    let eur : Asset := ⟨"EUR", "rvYAfWj5gh67oV6fW32ZzP3Aw4Eubs59B"⟩;
    let qe : QuoteEngine := ⟨⟨[⟨xrp, usd, newFromInt 10000, newFromInt 15000, 30⟩,
      ⟨usd, eur, newFromInt 100, newFromInt 100, 30⟩], []⟩, 20⟩;
    let req : QuoteRequest := ⟨xrp, eur, new 1 (-17)⟩;
    validateQuoteRequest req = .ok () ∧
      qe.pathfinder.findBestRoute xrp eur (new 1 (-17)) =
        some (.ok ⟨[⟨"amm", xrp, usd, new 1 (-17), new 0 (-16)⟩,
          ⟨"amm", usd, eur, new 0 (-16), new 0 (-16)⟩], ⟨0, zero, zero⟩, zero⟩) ∧
      ∀ sum256 cb now ledgerIndex,
        qe.generateQuote sum256 cb now req ledgerIndex = some (cb, .error .decimalDivisionByZero))
  := by
  refine ⟨by decide, ?route, fun _ _ _ _ =>
    generateQuote_of_calculateTotalFees_none (by decide) ?route (by decide)⟩
  case route =>
    rw [Pathfinder.findBestRoute, dijkstra_of_loop
      ⟨(∅ : AList _).insert "EUR.rvYAfWj5gh67oV6fW32ZzP3Aw4Eubs59B" (new 60000000000000 (-16)),
        ((∅ : AList _).insert "USD.rvYAfWj5gh67oV6fW32ZzP3Aw4Eubs59B" "XRP").insert
          "EUR.rvYAfWj5gh67oV6fW32ZzP3Aw4Eubs59B" "USD.rvYAfWj5gh67oV6fW32ZzP3Aw4Eubs59B", [], []⟩
      ?loop]
    · decide
    case loop => decide

end QuoteEngine

end Lucendex.Router
