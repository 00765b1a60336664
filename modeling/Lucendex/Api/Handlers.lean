import Lucendex.Router.Quote
import Lucendex.Decimal.Parse

/-!
# The quote handler

`quoteHandler` follows `Handlers.QuoteHandler` from the decoded body on: the method and the
three fields are checked, the amount is parsed with `decimal.NewFromString` and must be positive,
the assets are parsed with `parseAsset`, and the router generates the quote at its current
ledger index.  On success the handler writes a `quote_registry` row for later attribution, with
the partner's own `RouterBps` (`storeQuoteRegistry`), and answers `buildQuoteResponse`.

The registry table is a map from the primary key `quote_hash` to its rows; an insert of a key
already present fails, and the handler ignores the failure.  A panic of the router (a decimal
division by zero, an index out of range) ends the request without an answer and without a row.
The request's JSON decoding, the audit log the router writes and the route's JSON in the row
are left out.
-/

namespace Lucendex.Api

open Lucendex.Router Lucendex.Decimal Lucendex.Go

/-- A `Partner`, with the one field the quote path reads. -/
structure Partner where
  routerBps : Int
  deriving DecidableEq, Repr

/-- The body of a quote request. -/
structure QuoteRequest where
  «in» : String
  out : String
  amount : String
  deriving DecidableEq, Repr

/-- `parseAsset(s)`: the text before the first dot is the currency, the text after it up to the
next dot the issuer.  `strings.Split(s, ".")` is taken on the characters, which the one-byte
separator splits where it splits the bytes. -/
def parseAsset (s : String) : Asset :=
  match s.data.splitOn '.' with
  | c :: i :: _ => ⟨String.mk c, String.mk i⟩
  | parts => ⟨String.mk (parts.headD []), ""⟩

/-- A `QuoteRegistry` row, without its route JSON. -/
structure QuoteRegistry where
  quoteHash : List UInt8
  partnerID : String
  amountIn : Decimal
  amountOut : Decimal
  routerBps : Int
  expiresAt : Int
  createdAt : Int
  deriving DecidableEq, Repr

/-- The `quote_registry` table, keyed by `quote_hash`. -/
abbrev RegistryTable := AList (fun _ : List UInt8 => QuoteRegistry)

/-- `StoreQuoteRegistry`: the `INSERT`, which leaves the table as it is for a key already
present. -/
def insertRegistry (t : RegistryTable) (r : QuoteRegistry) : RegistryTable :=
  if r.quoteHash ∈ t then t else t.insert r.quoteHash r

/-- `h.storeQuoteRegistry(ctx, quote, partnerID, routerBps, expiresAt)` at time `now`: the row
takes the first hop's input, the quote's output and the `routerBps` it is given; a quote without
hops panics on `Hops[0]`. -/
def storeQuoteRegistry (t : RegistryTable) (quote : QuoteResponse) (partnerID : String)
    (routerBps : Int) (expiresAt now : Int) : Except RouterError RegistryTable :=
  match quote.route.hops.head? with
  | none => .error .indexOutOfRange
  | some hop =>
    .ok (insertRegistry t ⟨quote.quoteHash, partnerID, hop.amountIn, quote.out, routerBps,
      expiresAt, now⟩)

/-- A `HopResponse`. -/
structure HopResponse where
  type : String
  «in» : String
  out : String
  amountIn : String
  amountOut : String
  deriving DecidableEq, Repr

/-- The `QuoteResponse` of the API, with `expires_at` as a time rather than its RFC 3339 text. -/
structure ApiQuoteResponse where
  quoteHash : String
  hops : List HopResponse
  priceImpact : String
  amountOut : String
  price : String
  routerBps : Int
  tradingFees : String
  estOutFee : String
  ledgerIndex : UInt32
  ttl : UInt16
  expiresAt : Int
  deriving DecidableEq, Repr

/-- `h.buildQuoteResponse(quote, expiresAt)`. -/
def buildQuoteResponse (quote : QuoteResponse) (expiresAt : Int) : ApiQuoteResponse :=
  ⟨encodeToString quote.quoteHash,
    quote.route.hops.map fun hop => ⟨hop.type, hop.in.toString, hop.out.toString,
      hop.amountIn.toString, hop.amountOut.toString⟩,
    quote.route.priceImpact.toString, quote.out.toString, quote.price.toString,
    quote.fees.routerBps, quote.fees.tradingFees.toString, quote.fees.estOutFee.toString,
    quote.ledgerIndex, quote.ttlLedgers, expiresAt⟩

/-- What the handler does with the request: an error status and its message, a quote, or a
panic, after which nothing is written. -/
inductive HandlerResult where
  | error (status : Nat) (message : String)
  | quote (response : ApiQuoteResponse)
  | panic
  deriving DecidableEq, Repr

/-- `h.QuoteHandler(w, r)` at time `now`, for a partner with the id `partnerID`, against the
router's engine, breaker and current ledger index: the breaker and the registry afterwards and
the result; `none` where the router does not return. -/
def quoteHandler (sum256 : List UInt8 → List UInt8) (qe : QuoteEngine) (cb : CircuitBreaker)
    (ledgerIndex : UInt32) (t : RegistryTable) (now : Int) (method partnerID : String)
    (partner : Partner) (req : QuoteRequest) :
    Option (CircuitBreaker × RegistryTable × HandlerResult) :=
  if method ≠ "POST" then some (cb, t, .error 405 "method not allowed")
  else if req.in = "" ∨ req.out = "" ∨ req.amount = "" then
    some (cb, t, .error 400 "missing required fields")
  else
    match newFromString req.amount with
    | .error _ => some (cb, t, .error 400 "invalid amount format")
    | .ok amount =>
      if amount.lessThanOrEqual zero then some (cb, t, .error 400 "amount must be positive")
      else
        (qe.generateQuote sum256 cb now ⟨parseAsset req.in, parseAsset req.out, amount⟩
            ledgerIndex).map fun
          | (cb, .error e) => (cb, t, if e.isPanic then .panic else .error 400 e.message)
          | (cb, .ok quote) =>
            let expiresAt := now + quote.ttlLedgers.toNat * 4 * 10 ^ 9
            match storeQuoteRegistry t quote partnerID partner.routerBps expiresAt now with
            | .error _ => (cb, t, .panic)
            | .ok t => (cb, t, .quote (buildQuoteResponse quote expiresAt))

/-! ### The answered quotes -/

/-- A new key is found in the table after its insert. -/
theorem insertRegistry_lookup_self {t : RegistryTable} {r : QuoteRegistry} (h : r.quoteHash ∉ t) :
    (insertRegistry t r).lookup r.quoteHash = some r := by
  simp [insertRegistry, h]

variable {sum256 : List UInt8 → List UInt8} {qe : QuoteEngine} {cb cb' : CircuitBreaker}
  {ledgerIndex : UInt32} {t t' : RegistryTable} {now : Int} {method partnerID : String}
  {partner : Partner} {req : QuoteRequest} {amount : Decimal} {quote : QuoteResponse} {hop : Hop}
  {resp : ApiQuoteResponse}

/-- The successful path of `QuoteHandler`: the router's quote, a registry row with the partner's
`RouterBps`, and the quote's answer. -/
theorem quoteHandler_eq_quote (hm : method = "POST") (hin : req.in ≠ "") (hout : req.out ≠ "")
    (hamt : req.amount ≠ "") (ha : newFromString req.amount = .ok amount)
    (hpos : amount.lessThanOrEqual zero = false)
    (hq : qe.generateQuote sum256 cb now ⟨parseAsset req.in, parseAsset req.out, amount⟩
      ledgerIndex = some (cb', .ok quote))
    (hhop : quote.route.hops.head? = some hop) :
    quoteHandler sum256 qe cb ledgerIndex t now method partnerID partner req =
      some (cb', insertRegistry t ⟨quote.quoteHash, partnerID, hop.amountIn, quote.out,
          partner.routerBps, now + quote.ttlLedgers.toNat * 4 * 10 ^ 9, now⟩,
        .quote (buildQuoteResponse quote (now + quote.ttlLedgers.toNat * 4 * 10 ^ 9))) := by
  simp [quoteHandler, hm, hin, hout, hamt, ha, hpos, hq, storeQuoteRegistry, hhop]

/-- Every answered quote comes from the router's quote for the parsed request, and the handler
has inserted its registry row with the partner's `RouterBps`. -/
theorem quoteHandler_quote_inv
    (h : quoteHandler sum256 qe cb ledgerIndex t now method partnerID partner req =
      some (cb', t', .quote resp)) :
    ∃ amount quote hop, newFromString req.amount = .ok amount ∧
      qe.generateQuote sum256 cb now ⟨parseAsset req.in, parseAsset req.out, amount⟩
        ledgerIndex = some (cb', .ok quote) ∧ quote.route.hops.head? = some hop ∧
      t' = insertRegistry t ⟨quote.quoteHash, partnerID, hop.amountIn, quote.out,
        partner.routerBps, now + quote.ttlLedgers.toNat * 4 * 10 ^ 9, now⟩ ∧
      resp = buildQuoteResponse quote (now + quote.ttlLedgers.toNat * 4 * 10 ^ 9) := by
  simp only [quoteHandler] at h
  split at h
  · simp at h
  split at h
  · simp at h
  split at h
  · simp at h
  rename_i amount ha
  split at h
  · simp at h
  obtain ⟨r, hq, h⟩ := Option.map_eq_some'.mp h
  split at h
  · split at h <;> simp at h
  rename_i quote
  rcases hhop : quote.route.hops.head? with _ | hop <;>
    simp only [storeQuoteRegistry, hhop, Prod.mk.injEq, HandlerResult.quote.injEq,
      reduceCtorEq, and_false] at h
  obtain ⟨rfl, rfl, rfl⟩ := h
  exact ⟨amount, quote, hop, ha, hq, hhop, rfl, rfl⟩

/-- `cmd/router` builds its engine on `router.NewPathfinder([]router.AMMPool{}, []router.Offer{})`,
and such an engine never quotes: whatever the request, the breaker, the registry, the clock and
the digest, `QuoteHandler` answers an error, never a panic, and leaves the breaker and the
registry as they were.  A request that passes the handler's own checks gets 400 with the
validator's message, or, once validated, "no route found": a validated request names two
different assets, so the "insufficient liquidity" of one asset alone is never reached. -/
theorem quoteHandler_empty_never_quotes (routerBps : Int) :
    ∃ r, quoteHandler sum256 ⟨⟨[], []⟩, routerBps⟩ cb ledgerIndex t now method partnerID partner
        req = some (cb, t, r) ∧ (∃ status message, r = .error status message) ∧
      ∀ amount, method = "POST" → req.in ≠ "" → req.out ≠ "" → req.amount ≠ "" →
        newFromString req.amount = .ok amount → amount.lessThanOrEqual zero = false →
        r = .error 400 (match validateQuoteRequest ⟨parseAsset req.in, parseAsset req.out, amount⟩
          with
          | .error e => e.message
          | .ok () => RouterError.errNoRoute.message) := by
  unfold quoteHandler
  split_ifs with hm hf
  · exact ⟨_, rfl, ⟨_, _, rfl⟩, fun _ hm' => absurd hm' hm⟩
  · exact ⟨_, rfl, ⟨_, _, rfl⟩, fun _ _ hin hout hamt => by
      rcases hf with h | h | h <;> contradiction⟩
  split
  · exact ⟨_, rfl, ⟨_, _, rfl⟩, fun _ _ _ _ _ ha => by simp_all⟩
  rename_i amount ha
  split_ifs with hpos
  · exact ⟨_, rfl, ⟨_, _, rfl⟩, fun _ _ _ _ _ ha' hpos' => by simp_all⟩
  -- the engine's error: the validator's, which is never a panic, or "no route found"
  rw [QuoteEngine.generateQuote_empty]
  have hamount : ∀ a, newFromString req.amount = .ok a → a = amount := fun _ ha' => by simp_all
  rcases hv : validateQuoteRequest ⟨parseAsset req.in, parseAsset req.out, amount⟩ with e | _
  · refine ⟨_, rfl, ?_⟩
    simp only [validateQuoteRequest_error_isPanic hv]
    exact ⟨⟨_, _, rfl⟩, fun a _ _ _ _ ha' _ => by rw [hamount a ha', hv]; rfl⟩
  · exact ⟨_, rfl, ⟨_, _, rfl⟩, fun a _ _ _ _ ha' _ => by rw [hamount a ha', hv]; rfl⟩

end Lucendex.Api
