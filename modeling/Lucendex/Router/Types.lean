import Lucendex.Decimal.Basic
import Lucendex.Go.Strconv

/-!
# Router types

The data the router passes around (`types.go`): assets and their canonical strings, quote
requests and responses, hops, routes, fees, pools and offers, and the router's errors
(`errors.go`).  The panic `decimal division by 0` of the decimal library is one more outcome
of the functions that divide, and an index out of range one more of those that index a slice,
so both sit among the errors.
-/

namespace Lucendex.Router

/-- An `Asset`: a currency code and an issuer, empty for the native asset. -/
structure Asset where
  currency : String
  issuer : String
  deriving DecidableEq, Repr

/-- `a.String()`: the currency alone without an issuer, else `currency + "." + issuer`. -/
def Asset.toString (a : Asset) : String :=
  if a.issuer = "" then a.currency else a.currency ++ "." ++ a.issuer

/-- `a.IsXRP()`. -/
def Asset.isXRP (a : Asset) : Bool :=
  a.currency = "XRP" ∧ a.issuer = ""

/-- A `QuoteRequest`. -/
structure QuoteRequest where
  «in» : Asset
  out : Asset
  amount : Decimal
  deriving DecidableEq, Repr

/-- A `Hop`: its `Type` is `"amm"` or `"orderbook"`. -/
structure Hop where
  type : String
  «in» : Asset
  out : Asset
  amountIn : Decimal
  amountOut : Decimal
  deriving DecidableEq, Repr

/-- `Fees`. -/
structure Fees where
  routerBps : Int
  tradingFees : Decimal
  estOutFee : Decimal
  deriving DecidableEq, Repr

/-- A `Route`. -/
structure Route where
  hops : List Hop
  totalFees : Fees
  priceImpact : Decimal
  deriving DecidableEq, Repr

/-- An `AMMPool`, without `LPToken` and `Account`, which the router never reads. -/
structure AMMPool where
  asset1 : Asset
  asset2 : Asset
  asset1Reserve : Decimal
  asset2Reserve : Decimal
  tradingFeeBps : Int
  deriving DecidableEq, Repr

/-- An `Offer`, without `Account` and `Sequence`, which the router never reads. -/
structure Offer where
  takerPays : Asset
  takerGets : Asset
  quality : Decimal
  deriving DecidableEq, Repr

/-- A `QuoteResponse`. -/
structure QuoteResponse where
  route : Route
  out : Decimal
  price : Decimal
  fees : Fees
  ledgerIndex : UInt32
  quoteHash : List UInt8
  ttlLedgers : UInt16
  deriving DecidableEq

/-- The errors of package `router`, and the panic of a decimal division by zero. -/
inductive RouterError where
  | errInvalidAmount
  | errAmountTooLarge
  | errInvalidAsset
  | errSameAssets
  | errInvalidAddress
  | errNoRoute
  | errInsufficientLiquidity
  | errCircuitBreakerOpen
  | decimalDivisionByZero
  | indexOutOfRange
  deriving DecidableEq, Repr

/-- The text of each error, and of the panic. -/
def RouterError.message : RouterError → String
  | .errInvalidAmount => "invalid amount"
  | .errAmountTooLarge => "amount too large"
  | .errInvalidAsset => "invalid asset format"
  | .errSameAssets => "input and output assets cannot be the same"
  | .errInvalidAddress => "invalid XRPL address"
  | .errNoRoute => "no route found"
  | .errInsufficientLiquidity => "insufficient liquidity"
  | .errCircuitBreakerOpen => "circuit breaker open"
  | .decimalDivisionByZero => "decimal division by 0"
  | .indexOutOfRange => "index out of range"

/-- The panics among the outcomes. -/
def RouterError.isPanic : RouterError → Bool
  | .decimalDivisionByZero | .indexOutOfRange => true
  | _ => false

end Lucendex.Router
