import Lucendex.Router.Types

/-!
# The request validator

`validateQuoteRequest` follows `ValidateQuoteRequest`: the amount must be positive and at most
`10^18`, both assets must pass `ValidateAsset`, and their strings must differ.  The two regular
expressions are written out as the character tests they are: `currencyRegex` is
`^[A-Z0-9]{3,40}$` and `xrplAddressRegex` is `^r[1-9A-HJ-NP-Za-km-z]{24,34}$`, matched against
the issuer after `strings.TrimSpace`, which drops Unicode white space at both ends.  A Go string
is a byte string and a Lean `String` is a sequence of characters; the model takes the valid
UTF-8 strings, on which the regular expressions count characters.
-/

namespace Lucendex.Router

open Lucendex.Decimal

/-- A character of the class `[A-Z0-9]`. -/
def isUpperOrDigit (c : Char) : Bool :=
  ('A' ≤ c && c ≤ 'Z') || ('0' ≤ c && c ≤ '9')

/-- A character of the class `[1-9A-HJ-NP-Za-km-z]`, the base58 alphabet of XRPL addresses. -/
def isBase58 (c : Char) : Bool :=
  ('1' ≤ c && c ≤ '9') || ('A' ≤ c && c ≤ 'H') || ('J' ≤ c && c ≤ 'N') ||
    ('P' ≤ c && c ≤ 'Z') || ('a' ≤ c && c ≤ 'k') || ('m' ≤ c && c ≤ 'z')

/-- `currencyRegex.MatchString(s)`: three to forty characters of `[A-Z0-9]`. -/
def currencyMatches (s : String) : Bool :=
  3 ≤ s.length && s.length ≤ 40 && s.data.all isUpperOrDigit

/-- `xrplAddressRegex.MatchString(s)`: an `r` and then 24 to 34 base58 characters. -/
def xrplAddressMatches (s : String) : Bool :=
  match s.data with
  | 'r' :: rest => 24 ≤ rest.length && rest.length ≤ 34 && rest.all isBase58
  | _ => false

/-- `unicode.IsSpace`. -/
def isSpace (c : Char) : Bool :=
  c = '\t' || c = '\n' || c = '\x0b' || c = '\x0c' || c = '\r' || c = ' ' ||
    c.val = 0x85 || c.val = 0xA0 || c.val = 0x1680 || (0x2000 ≤ c.val && c.val ≤ 0x200A) ||
    c.val = 0x2028 || c.val = 0x2029 || c.val = 0x202F || c.val = 0x205F || c.val = 0x3000

/-- `strings.TrimSpace(s)`. -/
def trimSpace (s : String) : String :=
  String.mk ((s.data.dropWhile isSpace).reverse.dropWhile isSpace).reverse

/-- `v.IsValidXRPLAddress(address)`. -/
def isValidXRPLAddress (address : String) : Bool :=
  address ≠ "" && xrplAddressMatches (trimSpace address)

/-- `v.ValidateAsset(asset)`. -/
def validateAsset (asset : Asset) : Except RouterError Unit :=
  if asset.currency = "" then .error .errInvalidAsset
  else if asset.currency = "XRP" then
    if asset.issuer ≠ "" then .error .errInvalidAsset else .ok ()
  else if !currencyMatches asset.currency then .error .errInvalidAsset
  else if asset.issuer = "" then .error .errInvalidAsset
  else if !isValidXRPLAddress asset.issuer then .error .errInvalidAddress
  else .ok ()

/-- `MaxAmount`, as `decimal.NewFromInt(1e18)`. -/
def maxAmount : Decimal :=
  newFromInt (10 ^ 18)

/-- `v.ValidateQuoteRequest(req)`. -/
def validateQuoteRequest (req : QuoteRequest) : Except RouterError Unit := do
  if req.amount.lessThanOrEqual zero then throw .errInvalidAmount
  if req.amount.greaterThan maxAmount then throw .errAmountTooLarge
  validateAsset req.in
  validateAsset req.out
  if req.in.toString = req.out.toString then throw .errSameAssets

/-- The validator's errors are the request errors, never the two that `HandleQuote` turns into a
panic. -/
theorem validateAsset_error_isPanic {a : Asset} {e : RouterError} (h : validateAsset a = .error e) :
    e.isPanic = false := by
  unfold validateAsset at h
  split_ifs at h <;> cases h <;> rfl

theorem validateQuoteRequest_error_isPanic {req : QuoteRequest} {e : RouterError}
    (h : validateQuoteRequest req = .error e) : e.isPanic = false := by
  revert h
  simp only [validateQuoteRequest]
  split_ifs <;> rcases ha : validateAsset req.in with _ | _ <;>
    rcases hb : validateAsset req.out with _ | _ <;> intro h <;> cases h <;>
    first | rfl | exact validateAsset_error_isPanic ha | exact validateAsset_error_isPanic hb

/-- A validated request names two different assets. -/
theorem validateQuoteRequest_eq_ok {req : QuoteRequest} (h : validateQuoteRequest req = .ok ()) :
    req.in.toString ≠ req.out.toString := by
  intro heq
  revert h
  simp only [validateQuoteRequest, heq]
  split_ifs <;> cases validateAsset req.in <;> cases validateAsset req.out <;> exact nofun

end Lucendex.Router
