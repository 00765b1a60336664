import Lucendex.Router.Types
import Mathlib.Data.List.Sort
import Mathlib.Data.String.Basic

/-!
# The quote hash

`computeQuoteHash` follows `ComputeQuoteHash`: the request, the fees, the ledger index and the
ttl fill a `hashInput`, whose decimals enter as their `String()`, and the hash is
`blake2b.Sum256` of `canonicalJSON(input)`.  The digest is a parameter `sum256` of the model.

`canonicalJSON` marshals the struct, unmarshals it into a `map[string]interface{}` and marshals
the map, whose keys `encoding/json` writes in sorted order.  Unmarshalling gives every string
field back as it was and every number as the `float64` nearest to it (`float64OfInt`, ties to
even, as `strconv.ParseFloat` rounds), so the model goes straight to that map
(`HashInput.decoded`).  Marshalling then writes each string with the escapes of
`encoding/json` (`jsonString`, with HTML escaping on) and each number as
`strconv.AppendFloat(f, 'f', -1, 64)`: for a float below `2^53` in absolute value this is the
exact-integer path of `ryuFtoaShortest`, the integer's digits; above, the shortest decimal that
reads back as the same float, which the model computes as the multiple of the largest power of
ten that lies in the float's rounding interval (`shortestNat`).  `router_bps` is a Go `int`,
whose floats stay below `1e21`, so the encoder's exponent format is never chosen.

Past `2^53` two router fees can share a float and so a hash
(`computeQuoteHash_routerBps_collision`).  Below it, and for strings of characters the encoder
writes as their own bytes, the canonical form is injective (`canonicalJSON_injective`): each
string ends at its closing quote and each number at the comma or brace after it.
-/

namespace Lucendex.Router

open Lucendex.Go Lucendex.Decimal

/-! ### Strings -/

/-- The hexadecimal digit of `encoding/json`'s `hex` table. -/
def jsonHex (n : Nat) : UInt8 :=
  (hexDigit n).toNat.toUInt8

/-- The bytes `encoding/json` writes for one character of a string, HTML escaping on: the
characters of `htmlSafeSet` as they are, `\\`, `\"` and the short escapes of `\b`, `\f`, `\n`,
`\r`, `\t`, a `\u00XX` escape for the other control characters and for `<`, `>`, `&`, a
`\u2028` or `\u2029` escape for the two line separators, and the UTF-8 bytes of the others. -/
def jsonEscapeChar (c : Char) : List UInt8 :=
  if c.val < 0x80 then
    let b := c.val.toUInt8
    if c = '\\' || c = '"' then [0x5C, b]
    else if c = '\x08' then [0x5C, 0x62]
    else if c = '\x0c' then [0x5C, 0x66]
    else if c = '\n' then [0x5C, 0x6E]
    else if c = '\r' then [0x5C, 0x72]
    else if c = '\t' then [0x5C, 0x74]
    else if c.val < 0x20 || c = '<' || c = '>' || c = '&' then
      [0x5C, 0x75, 0x30, 0x30, jsonHex (c.val.toNat / 16), jsonHex (c.val.toNat % 16)]
    else [b]
  else if c.val = 0x2028 || c.val = 0x2029 then
    [0x5C, 0x75, 0x32, 0x30, 0x32, jsonHex (c.val.toNat % 16)]
  else String.utf8EncodeChar c

/-- A JSON string: the escaped characters between double quotes. -/
def jsonString (s : String) : List UInt8 :=
  0x22 :: s.data.flatMap jsonEscapeChar ++ [0x22]

/-! ### Numbers -/

/-- The exponent `e` of the spacing `2^e` between the `float64`s around `n`: the number of
halvings that bring `n` below `2^53`, within the 1024 of the format's range. -/
def spacingExp : Nat → Nat → Nat
  | 0, _ => 0
  | fuel + 1, n => if n < 2 ^ 53 then 0 else spacingExp fuel (n / 2) + 1

/-- The `float64` nearest to the natural number `n`, ties to even, as the integer it holds. -/
def float64OfNat (n : Nat) : Nat :=
  let ulp := 2 ^ spacingExp 1024 n
  let q := n / ulp
  let r := n % ulp
  (if ulp < 2 * r ∨ (2 * r = ulp ∧ q % 2 = 1) then q + 1 else q) * ulp

/-- `strconv.ParseFloat` of the decimal text of the integer `n`. -/
def float64OfInt (n : Int) : Int :=
  if n < 0 then -(float64OfNat n.natAbs : Int) else float64OfNat n.natAbs

/-- The number `FormatFloat(f, 'f', -1, 64)` writes for a float holding the natural number `n`:
`n` itself below `2^53`; above, the multiple of the largest power of ten that lies in the
interval of reals rounding to `n` (closed when the mantissa is even), the one nearest to `n`. -/
def shortestNat (n : Nat) : Nat :=
  if n < 2 ^ 53 then n
  else
    let ulp := 2 ^ spacingExp 1024 n
    let below := if n / ulp = 2 ^ 52 then ulp / 2 else ulp
    let inside (c : Nat) : Bool :=
      if (n / ulp) % 2 = 0 then 2 * n ≤ 2 * c + below && 2 * c ≤ 2 * n + ulp
      else 2 * n < 2 * c + below && 2 * c < 2 * n + ulp
    let nearest (p : Nat) : List Nat := [(n + p / 2) / p * p, (n + p / 2) / p * p - p,
      (n + p / 2) / p * p + p]
    ((List.range 21).reverse.findSome? fun q => (nearest (10 ^ q)).find? inside).getD n

/-- `strconv.AppendFloat(f, 'f', -1, 64)` for a float holding the integer `v`. -/
def formatFloat64 (v : Int) : List UInt8 :=
  (if v < 0 then [0x2D] else []) ++ formatUint (shortestNat v.natAbs)

/-! ### The canonical form -/

/-- A value of the decoded map: a string or a `float64`, held as the integer it equals. -/
inductive JsonValue where
  | string (s : String)
  | number (f : Int)
  deriving DecidableEq, Repr

/-- The bytes `json.Marshal` writes for a value. -/
def JsonValue.marshal : JsonValue → List UInt8
  | .string s => jsonString s
  | .number f => formatFloat64 f

/-- `json.Marshal` of a `map[string]interface{}`: the entries in increasing order of their keys,
as `"key":value`, separated by commas, in braces. -/
def marshalObject (obj : List (String × JsonValue)) : List UInt8 :=
  let entries := obj.insertionSort fun a b => a.1 ≤ b.1
  0x7B :: (List.intercalate [0x2C] (entries.map fun e => jsonString e.1 ++ 0x3A :: e.2.marshal))
    ++ [0x7D]

/-- A `hashInput`. -/
structure HashInput where
  «in» : String
  out : String
  amount : String
  routerBps : Int
  tradingFees : String
  estOutFee : String
  ledgerIndex : UInt32
  ttl : UInt16
  deriving DecidableEq, Repr

/-- `json.Unmarshal(json.Marshal(input), &obj)`: the map of the JSON names of the fields to the
strings and to the floats nearest to the numbers. -/
def HashInput.decoded (input : HashInput) : List (String × JsonValue) :=
  [("in", .string input.in), ("out", .string input.out), ("amount", .string input.amount),
    ("router_bps", .number (float64OfInt input.routerBps)),
    ("trading_fees", .string input.tradingFees), ("est_out_fee", .string input.estOutFee),
    ("ledger_index", .number (float64OfInt input.ledgerIndex.toNat)),
    ("ttl", .number (float64OfInt input.ttl.toNat))]

/-- `canonicalJSON(input)`. -/
def canonicalJSON (input : HashInput) : List UInt8 :=
  marshalObject input.decoded

/-- The `hashInput` of `ComputeQuoteHash(req, fees, ledgerIndex, ttl)`. -/
def hashInputOf (req : QuoteRequest) (fees : Fees) (ledgerIndex : UInt32) (ttl : UInt16) :
    HashInput :=
  ⟨req.in.toString, req.out.toString, req.amount.toString, fees.routerBps,
    fees.tradingFees.toString, fees.estOutFee.toString, ledgerIndex, ttl⟩

/-- `ComputeQuoteHash(req, fees, ledgerIndex, ttl)`, for the digest `sum256`. -/
def computeQuoteHash (sum256 : List UInt8 → List UInt8) (req : QuoteRequest) (fees : Fees)
    (ledgerIndex : UInt32) (ttl : UInt16) : List UInt8 :=
  sum256 (canonicalJSON (hashInputOf req fees ledgerIndex ttl))

/-! ### Router fees past `2^53` -/

/-- The canonical bytes see `RouterBps` only through the float nearest to it. -/
theorem canonicalJSON_eq_of_float64OfInt {i j : HashInput}
    (h : float64OfInt i.routerBps = float64OfInt j.routerBps)
    (hrest : { i with routerBps := 0 } = { j with routerBps := 0 }) :
    canonicalJSON i = canonicalJSON j := by
  cases i
  cases j
  simp only [HashInput.mk.injEq, and_true, true_and] at hrest
  obtain ⟨rfl, rfl, rfl, rfl, rfl, rfl, rfl⟩ := hrest
  simp only [canonicalJSON, HashInput.decoded] at h ⊢
  rw [h]

/-- The quote of the tests (100 XRP for USD, trading fees 0.3, estimated fee 0.1, ledger 12345,
ttl 100) with `RouterBps` `2^53 + 1` hashes as with `2^53`, whatever the digest: both numbers
come back from `json.Unmarshal` as the float `2^53`, which is written `9007199254740992`. -/
theorem computeQuoteHash_routerBps_collision :
  float64OfInt (2 ^ 53 + 1) = 2 ^ 53 ∧ formatFloat64 (2 ^ 53) = goBytes "9007199254740992" ∧
    ∀ sum256 : List UInt8 → List UInt8,
      computeQuoteHash sum256 ⟨⟨"XRP", ""⟩, ⟨"USD", "rvYAfWj5gh67oV6fW32ZzP3Aw4Eubs59B"⟩,
          newFromInt 100⟩ ⟨2 ^ 53 + 1, new 3 (-1), new 1 (-1)⟩ 12345 100 =
        computeQuoteHash sum256 ⟨⟨"XRP", ""⟩, ⟨"USD", "rvYAfWj5gh67oV6fW32ZzP3Aw4Eubs59B"⟩,
          newFromInt 100⟩ ⟨2 ^ 53, new 3 (-1), new 1 (-1)⟩ 12345 100
  := ⟨by decide, by decide, fun sum256 => congrArg sum256 (canonicalJSON_eq_of_float64OfInt
    (by decide) rfl)⟩


/-! ### Separation below `2^53` -/

/-- A character `encoding/json` writes as its own ASCII byte with HTML escaping on: printable
ASCII other than `"`, `\\`, `<`, `>` and `&`. -/
def jsonPlain (c : Char) : Bool :=
  0x20 ≤ c.toNat && c.toNat < 0x80 && c != '"' && c != '\\' && c != '<' && c != '>' && c != '&'

/-- A plain character is written as its byte. -/
theorem jsonEscapeChar_of_plain {c : Char} (h : jsonPlain c = true) :
    jsonEscapeChar c = [c.val.toUInt8] := by
  simp only [jsonPlain, Bool.and_eq_true, decide_eq_true_eq, bne_iff_ne, ne_eq] at h
  obtain ⟨⟨⟨⟨⟨⟨h1, h2⟩, h3⟩, h4⟩, h5⟩, h6⟩, h7⟩ := h
  have hlt : c.val < 0x80 := by rw [UInt32.lt_def, BitVec.lt_def]; exact h2
  have hge : ¬ c.val < 0x20 := by rw [UInt32.lt_def, BitVec.lt_def]; exact Nat.not_lt.mpr h1
  have hctl : ∀ d : Char, d.toNat < 0x20 → c ≠ d := fun d hd hcd => by subst hcd; omega
  simp [jsonEscapeChar, hlt, hge, h3, h4, h5, h6, h7, hctl '\x08' (by decide),
    hctl '\x0c' (by decide), hctl '\n' (by decide), hctl '\r' (by decide), hctl '\t' (by decide)]

/-- The byte of a plain character is its code point. -/
theorem toUInt8_toNat_of_plain {c : Char} (h : jsonPlain c = true) :
    c.val.toUInt8.toNat = c.toNat := by
  simp only [jsonPlain, Bool.and_eq_true, decide_eq_true_eq] at h
  show c.toNat % 256 = c.toNat
  omega

/-- A string of plain characters is written as its bytes between double quotes. -/
theorem jsonString_of_plain {cs : List Char} (h : ∀ c ∈ cs, jsonPlain c = true) :
    jsonString (String.mk cs) = 0x22 :: (cs.map fun c => c.val.toUInt8) ++ [0x22] := by
  suffices hf : cs.flatMap jsonEscapeChar = cs.map fun c => c.val.toUInt8 by
    rw [jsonString, ← hf]
  induction cs with
  | nil => rfl
  | cons c cs ih =>
    rw [List.flatMap_cons, List.map_cons, jsonEscapeChar_of_plain (h c (.head _)),
      ih fun c hc => h c (.tail _ hc), List.singleton_append]

/-- Plain characters are told apart by their bytes. -/
theorem map_toUInt8_inj {cs ds : List Char} (hc : ∀ c ∈ cs, jsonPlain c = true)
    (hd : ∀ d ∈ ds, jsonPlain d = true)
    (h : (cs.map fun c => c.val.toUInt8) = ds.map fun c => c.val.toUInt8) : cs = ds := by
  induction cs generalizing ds with
  | nil => exact (List.map_eq_nil_iff.mp h.symm).symm
  | cons c cs ih =>
    obtain _ | ⟨d, ds⟩ := ds
    · cases h
    obtain ⟨hb, ht⟩ := List.cons.inj h
    have hcd : c.toNat = d.toNat := by
      rw [← toUInt8_toNat_of_plain (hc c (.head _)), ← toUInt8_toNat_of_plain (hd d (.head _))]
      exact congrArg UInt8.toNat hb
    rw [← Char.ofNat_toNat c, ← Char.ofNat_toNat d, hcd,
      ih (fun c h => hc c (.tail _ h)) (fun d h => hd d (.tail _ h)) ht]

/-- A plain string ends at the first double quote after its opening one, so it is read off the
front of what follows it. -/
theorem jsonString_append_inj {s t : String} {r r' : List UInt8}
    (hs : ∀ c ∈ s.data, jsonPlain c = true) (ht : ∀ c ∈ t.data, jsonPlain c = true)
    (h : jsonString s ++ r = jsonString t ++ r') : s = t ∧ r = r' := by
  have hq : ∀ {cs : List Char}, (∀ c ∈ cs, jsonPlain c = true) →
      (0x22 : UInt8) ∉ cs.map fun c => c.val.toUInt8 := fun hcs hm => by
    obtain ⟨c, hc, hb⟩ := List.mem_map.mp hm
    have := toUInt8_toNat_of_plain (hcs c hc)
    rw [hb] at this
    have hplain := hcs c hc
    rw [← Char.ofNat_toNat c, ← this] at hplain
    exact absurd hplain (by decide)
  obtain ⟨s⟩ := s
  obtain ⟨t⟩ := t
  rw [jsonString_of_plain hs, jsonString_of_plain ht] at h
  simp only [List.cons_append, List.append_assoc, List.singleton_append, List.cons.injEq,
    true_and] at h
  obtain ⟨hst, rfl⟩ := append_cons_inj (hq hs) (hq ht) h
  exact ⟨congrArg String.mk (map_toUInt8_inj hs ht hst), rfl⟩

/-- Below `2^53` a natural number is its own nearest float. -/
theorem float64OfNat_of_lt {n : Nat} (h : n < 2 ^ 53) : float64OfNat n = n := by
  have hs : spacingExp 1024 n = 0 := by rw [spacingExp, if_pos h]
  simp [float64OfNat, hs, Nat.mod_one]

/-- Strictly between `-2^53` and `2^53` an integer is its own nearest float. -/
theorem float64OfInt_of_natAbs_lt {v : Int} (h : v.natAbs < 2 ^ 53) : float64OfInt v = v := by
  unfold float64OfInt
  rw [float64OfNat_of_lt h]
  split <;> omega

/-- Strictly between `-2^53` and `2^53` a float is written as `FormatInt` writes the integer. -/
theorem formatFloat64_of_natAbs_lt {v : Int} (h : v.natAbs < 2 ^ 53) :
    formatFloat64 v = formatInt v := by
  rw [formatFloat64, shortestNat, if_pos h]
  cases v with
  | ofNat n => rfl
  | negSucc n => simp [formatInt, Int.negSucc_lt_zero]

/-- A number strictly between `-2^53` and `2^53` is read off the front of what follows it, up to
the comma or the closing brace after it. -/
theorem formatFloat64_append_inj {v w : Int} {d : UInt8} {r r' : List UInt8}
    (hv : v.natAbs < 2 ^ 53) (hw : w.natAbs < 2 ^ 53) (hd : d = 0x2C ∨ d = 0x7D)
    (h : formatFloat64 (float64OfInt v) ++ d :: r = formatFloat64 (float64OfInt w) ++ d :: r') :
    v = w ∧ r = r' := by
  have hd' : ∀ u : Int, d ∉ formatInt u := fun u hm => by
    rcases hd with rfl | rfl <;> rcases formatInt_bytes u _ hm with h | h <;>
      exact absurd h (by decide)
  rw [float64OfInt_of_natAbs_lt hv, float64OfInt_of_natAbs_lt hw,
    formatFloat64_of_natAbs_lt hv, formatFloat64_of_natAbs_lt hw] at h
  obtain ⟨hf, rfl⟩ := append_cons_inj (hd' v) (hd' w) h
  exact ⟨formatInt_inj (by omega) (by omega) hf, rfl⟩

/-- The decoded map in the order `encoding/json` writes its keys. -/
theorem decoded_sorted (i : HashInput) : (i.decoded.insertionSort fun a b => a.1 ≤ b.1) =
    [("amount", .string i.amount), ("est_out_fee", .string i.estOutFee), ("in", .string i.in),
      ("ledger_index", .number (float64OfInt i.ledgerIndex.toNat)), ("out", .string i.out),
      ("router_bps", .number (float64OfInt i.routerBps)),
      ("trading_fees", .string i.tradingFees), ("ttl", .number (float64OfInt i.ttl.toNat))] := by
  simp +decide [HashInput.decoded, List.insertionSort, List.orderedInsert, String.le_iff_toList_le]

/-- The canonical bytes, key after key. -/
theorem canonicalJSON_eq (i : HashInput) :
    canonicalJSON i =
      0x7B :: (jsonString "amount" ++ 0x3A :: (jsonString i.amount ++
      0x2C :: (jsonString "est_out_fee" ++ 0x3A :: (jsonString i.estOutFee ++
      0x2C :: (jsonString "in" ++ 0x3A :: (jsonString i.in ++
      0x2C :: (jsonString "ledger_index" ++ 0x3A ::
        (formatFloat64 (float64OfInt i.ledgerIndex.toNat) ++
      0x2C :: (jsonString "out" ++ 0x3A :: (jsonString i.out ++
      0x2C :: (jsonString "router_bps" ++ 0x3A :: (formatFloat64 (float64OfInt i.routerBps) ++
      0x2C :: (jsonString "trading_fees" ++ 0x3A :: (jsonString i.tradingFees ++
      0x2C :: (jsonString "ttl" ++ 0x3A ::
        (formatFloat64 (float64OfInt i.ttl.toNat) ++ [0x7D])))))))))))))))) := by
  rw [canonicalJSON, marshalObject, decoded_sorted]
  simp [List.intercalate, JsonValue.marshal]

/-- The strings of a hash input are made of plain characters. -/
def HashInput.plain (i : HashInput) : Bool :=
  [i.in, i.out, i.amount, i.tradingFees, i.estOutFee].all fun s => s.data.all jsonPlain

/-- A key's bytes and the colon after it, common to both sides, are cancelled. -/
theorem key_cancel {c : UInt8} {k r r' : List UInt8}
    (h : c :: (k ++ 0x3A :: r) = c :: (k ++ 0x3A :: r')) :
    r = r' := by
  simpa using h

/-- Below `2^53` the canonical form is injective: two hash inputs whose strings are plain and
whose router fees lie strictly between `-2^53` and `2^53` have the same canonical bytes only if
they are equal. -/
theorem canonicalJSON_injective {i j : HashInput} (hi : i.plain = true) (hj : j.plain = true)
    (hbi : i.routerBps.natAbs < 2 ^ 53) (hbj : j.routerBps.natAbs < 2 ^ 53)
    (h : canonicalJSON i = canonicalJSON j) : i = j := by
  simp only [HashInput.plain, List.all_cons, List.all_nil, Bool.and_true, Bool.and_eq_true,
    List.all_eq_true] at hi hj
  obtain ⟨hin, hout, hamt, htf, hest⟩ := hi
  obtain ⟨hin', hout', hamt', htf', hest'⟩ := hj
  have hli : ∀ x : UInt32, (x.toNat : Int).natAbs < 2 ^ 53 := fun x => by
    have := x.toNat_lt_size; unfold UInt32.size at this; omega
  have httl : ∀ x : UInt16, (x.toNat : Int).natAbs < 2 ^ 53 := fun x => by
    have := x.toNat_lt_size; unfold UInt16.size at this; omega
  rw [canonicalJSON_eq, canonicalJSON_eq] at h
  obtain ⟨h1, h⟩ := jsonString_append_inj hamt hamt' (key_cancel h)
  obtain ⟨h2, h⟩ := jsonString_append_inj hest hest' (key_cancel h)
  obtain ⟨h3, h⟩ := jsonString_append_inj hin hin' (key_cancel h)
  obtain ⟨h4, h⟩ := formatFloat64_append_inj (hli _) (hli _) (.inl rfl) (key_cancel h)
  obtain ⟨h5, h⟩ := jsonString_append_inj hout hout' (key_cancel h)
  obtain ⟨h6, h⟩ := formatFloat64_append_inj hbi hbj (.inl rfl) (key_cancel h)
  obtain ⟨h7, h⟩ := jsonString_append_inj htf htf' (key_cancel h)
  obtain ⟨h8, -⟩ := formatFloat64_append_inj (httl _) (httl _) (.inr rfl) (key_cancel h)
  cases i
  cases j
  simp only at h1 h2 h3 h4 h5 h6 h7 h8
  subst h1 h2 h3 h5 h6 h7
  rw [UInt32.toNat.inj (Int.ofNat.inj h4), UInt16.toNat.inj (Int.ofNat.inj h8)]

/-- `ComputeQuoteHash` separates two inputs whose strings are plain and whose router fees lie
strictly between `-2^53` and `2^53`, up to a collision of the digest: when their hash inputs
differ, either the hashes differ or `sum256` maps two different byte strings to one hash. -/
theorem computeQuoteHash_separates {sum256 : List UInt8 → List UInt8} {req req' : QuoteRequest}
    {fees fees' : Fees} {ledgerIndex ledgerIndex' : UInt32} {ttl ttl' : UInt16}
    (hp : (hashInputOf req fees ledgerIndex ttl).plain = true)
    (hp' : (hashInputOf req' fees' ledgerIndex' ttl').plain = true)
    (hb : fees.routerBps.natAbs < 2 ^ 53) (hb' : fees'.routerBps.natAbs < 2 ^ 53)
    (hne : hashInputOf req fees ledgerIndex ttl ≠ hashInputOf req' fees' ledgerIndex' ttl') :
  computeQuoteHash sum256 req fees ledgerIndex ttl ≠
      computeQuoteHash sum256 req' fees' ledgerIndex' ttl' ∨
    ∃ a b, a ≠ b ∧ sum256 a = sum256 b
  := by
  by_cases h : computeQuoteHash sum256 req fees ledgerIndex ttl =
      computeQuoteHash sum256 req' fees' ledgerIndex' ttl'
  · exact .inr ⟨_, _, fun hc => hne (canonicalJSON_injective hp hp' hb hb' hc), h⟩
  · exact .inl h

/-- The tests' request at ledger 12345 with a ttl of 100 and the fees `(20, 0.3, 0.1)` and
`(21, 0.3, 0.1)`, for the identity as digest. -/
theorem computeQuoteHash_separates_bps :
  computeQuoteHash id ⟨⟨"XRP", ""⟩, ⟨"USD", "rvYAfWj5gh67oV6fW32ZzP3Aw4Eubs59B"⟩, newFromInt 100⟩
      ⟨20, new 3 (-1), new 1 (-1)⟩ 12345 100 ≠
    computeQuoteHash id ⟨⟨"XRP", ""⟩, ⟨"USD", "rvYAfWj5gh67oV6fW32ZzP3Aw4Eubs59B"⟩, newFromInt 100⟩
      ⟨21, new 3 (-1), new 1 (-1)⟩ 12345 100 ∨
    ∃ a b : List UInt8, a ≠ b ∧ id a = id b
  := computeQuoteHash_separates (by decide) (by decide) (by decide) (by decide) (by decide)

end Lucendex.Router
