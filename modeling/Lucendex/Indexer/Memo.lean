import Lucendex.Indexer.Ledger

/-!
# Memos and trade details

How `processLedger` reads a transaction.  It marshals the transaction to JSON and unmarshals it
into a `map[string]interface{}`; `hasLucendexQuoteHash` looks in that map for the quote hash,
and `extractTradeDetails` for the assets and amounts of a Payment.  `LedgerTx.ofJson` is what the
two hand to the Lucendex branch modelled in `Indexer.Ledger`.

The hash is read one byte at a time, with `fmt.Sscanf(memoData[i*2:i*2+2], "%02x", &quoteHash[i])`,
and the scan's error is dropped.  `scanHexByte` follows `fmt`'s scanner on such a two-byte window:
the runes `readRune` decodes from it, `SkipSpace`, then one or two hexadecimal digits of either
case; where the scan fails the byte keeps the 0 that `make` gave it.

* `scanHexByte_eq` is the whole table of the scan of a window.
* `decodeMemoData_encodeToString`: the text `hex.EncodeToString(h)` of any hash, in lower or
  upper case, reads back as `h`.
* `hasLucendexQuoteHash_accepts`: every Lucendex memo with 64 bytes of data is accepted, so data
  that is no hexadecimal text still gives a hash (64 `z`s give the zero hash).
* `quoteHandler_memo_billed`: the `quote_hash` text of every quote the API answers, put in the
  first memo of a Payment, makes the indexer bill the registry row the API stored under the
  quote's hash, and, for a new hash, the partner that asked, with its fee.
-/

namespace Lucendex.Indexer

open Lucendex.Go Lucendex.Api

/-- A value `json.Unmarshal` stores in an `interface{}`: `nil` for `null`, a `bool`, a `float64`
(whose value neither function reads), a `string`, a `[]interface{}`, or a
`map[string]interface{}` with its entries. -/
inductive JsonAny where
  | null
  | bool (b : Bool)
  | number
  | string (s : String)
  | array (elems : List JsonAny)
  | object (fields : List (String × JsonAny))

namespace JsonAny

/-- `m[key]` of a decoded map: the entry's value, or `nil` for a missing key.  The keys of a map
`json.Unmarshal` fills are distinct, so the first entry with the key is the only one. -/
def get (fields : List (String × JsonAny)) (key : String) : JsonAny :=
  ((fields.find? (·.1 = key)).map (·.2)).getD .null

/-- `v, _ := m[key].(string)`: the string, or `""` for any other value. -/
def getString (fields : List (String × JsonAny)) (key : String) : String :=
  match get fields key with
  | .string s => s
  | _ => ""

end JsonAny

/-! ### The quote hash in the memos -/

/-- `"lucendex/quote"` in hexadecimal, the `MemoType` of a Lucendex memo. -/
def lucendexMemoType : String := "6c7563656e6465782f71756f7465"

/-- One pass of the loop of `hasLucendexQuoteHash`: the bytes of the memo's `MemoData` when its
`MemoType` is `lucendexMemoType` and the data is 64 bytes long; `none` where the loop goes on to
the next memo. -/
def lucendexMemoData (memo : JsonAny) : Option (List UInt8) :=
  match memo with
  | .object memoObj =>
    match JsonAny.get memoObj "Memo" with
    | .object memoWrapper =>
      match JsonAny.get memoWrapper "MemoType" with
      | .string memoType =>
        if memoType = lucendexMemoType then
          match JsonAny.get memoWrapper "MemoData" with
          | .string memoData =>
            if (goBytes memoData).length = 64 then some (goBytes memoData) else none
          | _ => none
        else none
      | _ => none
    | _ => none
  | _ => none

/-- `utf8.RuneError`, U+FFFD. -/
def runeError : Nat := 0xFFFD

/-- The rune of a byte `readRune` reads alone: the byte itself below 0x80, else `RuneError`. -/
def loneRune (b : UInt8) : Nat :=
  if b < 0x80 then b.toNat else runeError

/-- The runes `fmt`'s `readRune` reads from the two bytes of `memoData[i*2:i*2+2]`: a lead byte
0xC2 to 0xDF and a continuation byte 0x80 to 0xBF are one rune; otherwise each byte is read
alone, since `utf8.DecodeRune` refuses a longer sequence cut short at two bytes and takes one
byte of it as `RuneError`. -/
def windowRunes (a b : UInt8) : List Nat :=
  if 0xC2 ≤ a ∧ a ≤ 0xDF ∧ 0x80 ≤ b ∧ b ≤ 0xBF then [a.toNat % 32 * 64 + b.toNat % 64]
  else [loneRune a, loneRune b]

/-- `isSpace` of `fmt`'s scanner: the runes of its table of space ranges. -/
def isScanSpace (r : Nat) : Bool :=
  (0x09 ≤ r && r ≤ 0x0D) || r = 0x20 || r = 0x85 || r = 0xA0 || r = 0x1680 ||
    (0x2000 ≤ r && r ≤ 0x200A) || r = 0x2028 || r = 0x2029 || r = 0x202F || r = 0x205F ||
    r = 0x3000

/-- `s.SkipSpace()` of `Sscanf`, for which a newline is no space: the runes after the blanks, or
`none` for its error "unexpected newline", also after a carriage return. -/
def skipSpace : List Nat → Option (List Nat)
  | [] => some []
  | r :: rs =>
    if r = 0x0D ∧ rs.head? = some 0x0A then skipSpace rs
    else if r = 0x0A then none
    else if isScanSpace r then skipSpace rs
    else some (r :: rs)

/-- A rune of `hexadecimalDigits`, `0123456789aAbBcCdDeEfF`, and its value. -/
def hexDigitValue (r : Nat) : Option Nat :=
  if 0x30 ≤ r ∧ r ≤ 0x39 then some (r - 0x30)
  else if 0x61 ≤ r ∧ r ≤ 0x66 then some (r - 0x61 + 10)
  else if 0x41 ≤ r ∧ r ≤ 0x46 then some (r - 0x41 + 10)
  else none

/-- The digits `scanNumber` accepts within a width: the values of the leading hexadecimal
digits, at most `width` of them. -/
def scanDigits : Nat → List Nat → List Nat
  | 0, _ => []
  | _, [] => []
  | width + 1, r :: rs =>
    match hexDigitValue r with
    | some d => d :: scanDigits width rs
    | none => []

/-- `fmt.Sscanf(s, "%02x", &b)` into a byte, on the runes of `s`: `SkipSpace`, then the width of
2 runes, in which at least one hexadecimal digit must come; the value `ParseUint` gives the
digits, or `none` where the scan fails. -/
def sscanfHex (rs : List Nat) : Option UInt8 :=
  (skipSpace rs).bind fun rs =>
    match scanDigits 2 rs with
    | [] => none
    | ds => some (ds.foldl (fun v d => 16 * v + d) 0).toUInt8

/-- Byte `i` of the hash, scanned from `memoData[i*2:i*2+2]`: 0 where `Sscanf` fails. -/
def scanHexByte (a b : UInt8) : UInt8 :=
  (sscanfHex (windowRunes a b)).getD 0

/-- The loop over the 32 bytes of the hash, two bytes of 64 bytes of `MemoData` each. -/
def decodeMemoData : List UInt8 → List UInt8
  | a :: b :: rest => scanHexByte a b :: decodeMemoData rest
  | _ => []

/-- `hasLucendexQuoteHash(tx)`: the hash in the first Lucendex memo with 64 bytes of data, or
`none` for a transaction without one. -/
def hasLucendexQuoteHash (tx : List (String × JsonAny)) : Option (List UInt8) :=
  match JsonAny.get tx "Memos" with
  | .array memos => (memos.findSome? lucendexMemoData).map decodeMemoData
  | _ => none

/-! ### The trade details -/

/-- An amount as `extractTradeDetails` reads it: a string is an amount of XRP; a map is an issued
currency, named `fmt.Sprintf("%s.%s", currency, issuer)`, and its value, each `""` where it is
not a string; anything else fails. -/
def readAmount : JsonAny → Option (String × String)
  | .string s => some ("XRP", s)
  | .object amount =>
    some (JsonAny.getString amount "currency" ++ "." ++ JsonAny.getString amount "issuer",
      JsonAny.getString amount "value")
  | _ => none

/-- `extractTradeDetails(tx)`: the asset and amount sent and the asset and amount delivered, or
`none` where it returns `ok` false.  The sender must be a string; the delivered amount is the
metadata's `delivered_amount`, or `DeliverMax` where that is `nil`. -/
def extractTradeDetails (tx : List (String × JsonAny)) :
    Option (String × String × String × String) :=
  match JsonAny.get tx "Account" with
  | .string _ =>
    (readAmount (JsonAny.get tx "Amount")).bind fun (inAsset, amountIn) =>
      match JsonAny.get tx "meta" with
      | .object meta =>
        let delivered := match JsonAny.get meta "delivered_amount" with
          | .null => JsonAny.get tx "DeliverMax"
          | d => d
        (readAmount delivered).map fun (outAsset, amountOut) =>
          (inAsset, outAsset, amountIn, amountOut)
      | _ => none
  | _ => none

/-- The transaction the Lucendex branch of `processLedger` sees, from its JSON map and the `Hash`
and `Account` fields of the transaction. -/
def LedgerTx.ofJson (txHash account : String) (txMap : List (String × JsonAny)) : LedgerTx :=
  ⟨hasLucendexQuoteHash txMap, (extractTradeDetails txMap).map
    fun (inAsset, outAsset, amountIn, amountOut) =>
      ⟨txHash, account, inAsset, outAsset, amountIn, amountOut⟩⟩

/-! ### The scan of a window -/

/-- The bytes `SkipSpace` passes over before a digit in a window: tab, vertical tab, form feed,
carriage return and space. -/
def isBlankByte (a : UInt8) : Bool :=
  a.toNat = 0x09 || a.toNat = 0x0B || a.toNat = 0x0C || a.toNat = 0x0D || a.toNat = 0x20

theorem hexDigitValue_spec {r x : Nat} (h : hexDigitValue r = some x) :
    x < 16 ∧ 0x30 ≤ r ∧ r ≤ 0x66 := by
  unfold hexDigitValue at h
  split_ifs at h <;> cases h <;> omega

theorem hexDigitValue_eq_none {r : Nat} (h : 0x66 < r) : hexDigitValue r = none := by
  unfold hexDigitValue
  split_ifs <;> first | rfl | omega

theorem isScanSpace_of_hexDigitValue {r x : Nat} (h : hexDigitValue r = some x) :
    isScanSpace r = false := by
  obtain ⟨-, h1, h2⟩ := hexDigitValue_spec h
  simp only [isScanSpace, Bool.or_eq_false_iff, Bool.and_eq_false_iff, decide_eq_false_iff_not]
  omega

/-- `SkipSpace` stops at a digit. -/
theorem skipSpace_of_hexDigitValue {r x : Nat} (h : hexDigitValue r = some x) (rs : List Nat) :
    skipSpace (r :: rs) = some (r :: rs) := by
  obtain ⟨-, h1, -⟩ := hexDigitValue_spec h
  rw [skipSpace, if_neg fun hc => absurd hc.1 (by omega), if_neg (by omega),
    if_neg (by rw [isScanSpace_of_hexDigitValue h]; decide)]

/-- The scan of one rune: its value if it is a digit. -/
theorem sscanfHex_single (r : Nat) : sscanfHex [r] = (hexDigitValue r).map (·.toUInt8) := by
  cases hx : hexDigitValue r with
  | some x => simp [sscanfHex, skipSpace_of_hexDigitValue hx, scanDigits, hx]
  | none =>
    simp only [sscanfHex, skipSpace, List.head?_nil, reduceCtorEq, and_false, if_false,
      Option.map_none']
    split_ifs <;> simp [scanDigits, hx]

/-- The scan of two runes: two digits, a digit and a rune that is none, or a blank (no newline)
and a digit give a value; everything else fails. -/
theorem sscanfHex_pair (r₁ r₂ : Nat) :
    sscanfHex [r₁, r₂] =
      match hexDigitValue r₁, hexDigitValue r₂ with
      | some x, some y => some (16 * x + y).toUInt8
      | some x, none => some x.toUInt8
      | none, some y => if isScanSpace r₁ ∧ r₁ ≠ 0x0A then some y.toUInt8 else none
      | none, none => none := by
  cases hx : hexDigitValue r₁ with
  | some x =>
    rw [sscanfHex, skipSpace_of_hexDigitValue hx]
    cases hy : hexDigitValue r₂ <;> simp [scanDigits, hx, hy]
  | none =>
    rw [sscanfHex, skipSpace]
    by_cases hcr : r₁ = 0x0D ∧ [r₂].head? = some 0x0A
    · -- a carriage return before a newline
      obtain ⟨rfl, hr₂⟩ := hcr
      simp only [List.head?_cons, Option.some.injEq] at hr₂
      subst hr₂
      rfl
    rw [if_neg hcr]
    by_cases hnl : r₁ = 0x0A
    · subst hnl
      cases hexDigitValue r₂ <;> rfl
    rw [if_neg hnl]
    by_cases hsp : isScanSpace r₁
    · -- a blank: the scan of the second rune
      rw [if_pos hsp, show ((skipSpace [r₂]).bind _ : Option UInt8) = sscanfHex [r₂] from rfl,
        sscanfHex_single]
      cases hexDigitValue r₂ <;> simp [hsp, hnl]
    · rw [if_neg hsp]
      cases hexDigitValue r₂ <;> simp [scanDigits, hx, hsp]

theorem loneRune_eq (b : UInt8) : loneRune b = if b.toNat < 0x80 then b.toNat else runeError := by
  unfold loneRune
  split_ifs with h₁ h₂ h₂
  · rfl
  · exact absurd h₁ h₂
  · exact absurd h₂ h₁
  · rfl

theorem hexDigitValue_loneRune (b : UInt8) : hexDigitValue (loneRune b) = hexDigitValue b.toNat := by
  rw [loneRune_eq]
  split_ifs with h
  · rfl
  · rw [hexDigitValue_eq_none (by decide), hexDigitValue_eq_none (by omega)]

theorem isScanSpace_loneRune (a : UInt8) :
    (isScanSpace (loneRune a) ∧ loneRune a ≠ 0x0A) ↔ isBlankByte a = true := by
  rw [loneRune_eq]
  simp only [isBlankByte, Bool.or_eq_true, decide_eq_true_eq]
  split_ifs with h
  · simp only [isScanSpace, Bool.or_eq_true, Bool.and_eq_true, decide_eq_true_eq]
    omega
  · -- `RuneError` is no space, and no blank is above 0x7F
    exact ⟨fun h₁ => absurd h₁.1 (by decide), by omega⟩

/-- The whole table of the scan of a window of two bytes: two digits give their value, a digit
and another byte the digit's, a blank and a digit the digit's; everything else fails and leaves
0. -/
theorem scanHexByte_eq (a b : UInt8) :
    scanHexByte a b =
      match hexDigitValue a.toNat, hexDigitValue b.toNat with
      | some x, some y => (16 * x + y).toUInt8
      | some x, none => x.toUInt8
      | none, some y => if isBlankByte a then y.toUInt8 else 0
      | none, none => 0 := by
  unfold scanHexByte windowRunes
  by_cases h2 : 0xC2 ≤ a ∧ a ≤ 0xDF ∧ 0x80 ≤ b ∧ b ≤ 0xBF
  · -- one rune of two bytes: above 0x7F, so no digit, and `a` is no digit either
    have ha : 194 ≤ a.toNat ∧ a.toNat ≤ 223 := ⟨h2.1, h2.2.1⟩
    have hb : 128 ≤ b.toNat := h2.2.2.1
    rw [if_pos h2, sscanfHex_single, hexDigitValue_eq_none (by omega),
      hexDigitValue_eq_none (by omega : 0x66 < a.toNat),
      hexDigitValue_eq_none (by omega : 0x66 < b.toNat)]
    rfl
  · rw [if_neg h2, sscanfHex_pair, hexDigitValue_loneRune, hexDigitValue_loneRune]
    cases hexDigitValue a.toNat <;> cases hexDigitValue b.toNat <;> try rfl
    -- a blank before a digit
    simp only [isScanSpace_loneRune]
    split_ifs <;> rfl

/-! ### Round trip -/

/-- Each digit `hex.EncodeToString` writes, in lower or in upper case, is one byte, which the scan
reads as the digit. -/
theorem hexDigit_byte : ∀ x : Fin 16, ∀ c ∈ [hexDigit x, (hexDigit x).toUpper],
    String.utf8EncodeChar c = [c.toNat.toUInt8] ∧ hexDigitValue c.toNat.toUInt8.toNat = some x.val := by
  decide

/-- The bytes of the hexadecimal text of `h`, with each digit written by `g`. -/
theorem goBytes_hexText (g : Char → Char)
    (hg : ∀ x : Fin 16, String.utf8EncodeChar (g (hexDigit x)) = [(g (hexDigit x)).toNat.toUInt8])
    (h : List UInt8) :
    goBytes ⟨(encodeToString h).data.map g⟩ =
      h.flatMap fun v => [(g (hexDigit (v.toNat / 16))).toNat.toUInt8,
        (g (hexDigit (v.toNat % 16))).toNat.toUInt8] := by
  have hv : ∀ v : UInt8, v.toNat / 16 < 16 ∧ v.toNat % 16 < 16 := fun v => by
    have := v.toNat_lt_size
    unfold UInt8.size at this
    omega
  induction h with
  | nil => rfl
  | cons v vs ih =>
    simp only [goBytes, encodeToString, List.flatMap_cons, List.map_append, List.flatMap_append,
      List.map_cons, List.map_nil] at ih ⊢
    rw [ih, hg ⟨_, (hv v).1⟩, hg ⟨_, (hv v).2⟩]
    rfl

/-- Decoding the text of `h` with each digit written by a `g` the scan reads back. -/
theorem decodeMemoData_hexText (g : Char → Char)
    (hg : ∀ x : Fin 16, String.utf8EncodeChar (g (hexDigit x)) = [(g (hexDigit x)).toNat.toUInt8] ∧
      hexDigitValue (g (hexDigit x)).toNat.toUInt8.toNat = some x.val)
    (h : List UInt8) :
    decodeMemoData (goBytes ⟨(encodeToString h).data.map g⟩) = h := by
  rw [goBytes_hexText g fun x => (hg x).1]
  induction h with
  | nil => rfl
  | cons v vs ih =>
    have hv := v.toNat_lt_size
    unfold UInt8.size at hv
    rw [List.flatMap_cons, List.cons_append, List.cons_append, List.nil_append, decodeMemoData, ih,
      scanHexByte_eq, (hg ⟨_, by omega⟩).2, (hg ⟨_, Nat.mod_lt _ (by decide)⟩).2]
    congr 1
    apply UInt8.toNat.inj
    rw [UInt8.toNat_ofNat_of_lt] <;> simp only [Fin.val_mk, UInt8.size] <;> omega

/-- The text `hex.EncodeToString(h)` of any bytes, and that text in upper case, decode back to
`h`. -/
theorem decodeMemoData_encodeToString (h : List UInt8) :
    decodeMemoData (goBytes (encodeToString h)) = h ∧
      decodeMemoData (goBytes ⟨(encodeToString h).data.map Char.toUpper⟩) = h := by
  refine ⟨?_, decodeMemoData_hexText _ (fun x => hexDigit_byte x _ (by simp)) h⟩
  simpa using decodeMemoData_hexText id (fun x => hexDigit_byte x _ (by simp)) h

theorem length_goBytes_encodeToString (h : List UInt8) :
    (goBytes (encodeToString h)).length = 2 * h.length := by
  have := goBytes_hexText id (fun x => (hexDigit_byte x _ (by simp)).1) h
  simp only [List.map_id] at this
  rw [this]
  clear this
  induction h with
  | nil => rfl
  | cons v vs ih =>
    simp only [List.flatMap_cons, List.length_append, ih, List.length_cons, List.length_nil]
    omega

/-! ### What the memo walk accepts -/

/-- A memo of `MemoType` `lucendexMemoType` with the `MemoData` `memoData`. -/
def IsLucendexMemo (memo : JsonAny) (memoData : String) : Prop :=
  ∃ memoObj memoWrapper, memo = .object memoObj ∧
    JsonAny.get memoObj "Memo" = .object memoWrapper ∧
    JsonAny.get memoWrapper "MemoType" = .string lucendexMemoType ∧
    JsonAny.get memoWrapper "MemoData" = .string memoData

theorem lucendexMemoData_of_isLucendexMemo {m : JsonAny} {memoData : String}
    (hm : IsLucendexMemo m memoData) (hlen : (goBytes memoData).length = 64) :
    lucendexMemoData m = some (goBytes memoData) := by
  obtain ⟨memoObj, memoWrapper, rfl, h₁, h₂, h₃⟩ := hm
  simp [lucendexMemoData, h₁, h₂, h₃, hlen]

/-- The memo walk reads the first Lucendex memo with 64 bytes of data. -/
theorem hasLucendexQuoteHash_of_memo {tx : List (String × JsonAny)} {pre post : List JsonAny}
    {m : JsonAny} {memoData : String} (hmemos : JsonAny.get tx "Memos" = .array (pre ++ m :: post))
    (hpre : ∀ m' ∈ pre, lucendexMemoData m' = none) (hm : IsLucendexMemo m memoData)
    (hlen : (goBytes memoData).length = 64) :
    hasLucendexQuoteHash tx = some (decodeMemoData (goBytes memoData)) := by
  simp only [hasLucendexQuoteHash, hmemos, List.findSome?_append,
    List.findSome?_eq_none_iff.mpr hpre, Option.none_or, List.findSome?_cons,
    lucendexMemoData_of_isLucendexMemo hm hlen, Option.map_some']

theorem length_decodeMemoData : ∀ l : List UInt8, (decodeMemoData l).length = l.length / 2
  | a :: b :: rest => by
    simp only [decodeMemoData, List.length_cons, length_decodeMemoData rest]
    omega
  | [] => rfl
  | [_] => by simp [decodeMemoData]

theorem getElem?_decodeMemoData : ∀ (l : List UInt8) (i : Nat) {a b : UInt8},
    l[2 * i]? = some a → l[2 * i + 1]? = some b → (decodeMemoData l)[i]? = some (scanHexByte a b)
  | x :: y :: rest, 0, a, b, ha, hb => by
    simp only [Nat.mul_zero, List.getElem?_cons_zero, Nat.zero_add, List.getElem?_cons_succ,
      Option.some.injEq] at ha hb
    rw [decodeMemoData, ha, hb, List.getElem?_cons_zero]
  | x :: y :: rest, i + 1, a, b, ha, hb => by
    rw [show 2 * (i + 1) = 2 * i + 1 + 1 by omega, List.getElem?_cons_succ,
      List.getElem?_cons_succ] at ha hb
    rw [decodeMemoData, List.getElem?_cons_succ]
    exact getElem?_decodeMemoData rest i ha hb
  | [], _, _, _, ha, _ => by simp at ha
  | [_], _, _, _, _, hb => by simp at hb

/-- Every Lucendex memo with 64 bytes of data is accepted, whatever the bytes: the walk returns a
hash of 32 bytes, byte `i` read from bytes `2i` and `2i+1` by the table of `scanHexByte_eq`.
Data that is no hexadecimal text still gives a hash, and texts that differ give the same one. -/
theorem hasLucendexQuoteHash_accepts {tx : List (String × JsonAny)} {pre post : List JsonAny}
    {m : JsonAny} {memoData : String} (hmemos : JsonAny.get tx "Memos" = .array (pre ++ m :: post))
    (hpre : ∀ m' ∈ pre, lucendexMemoData m' = none) (hm : IsLucendexMemo m memoData)
    (hlen : (goBytes memoData).length = 64) :
    ∃ h : List UInt8, hasLucendexQuoteHash tx = some h ∧ h.length = 32 ∧
      ∀ i a b, (goBytes memoData)[2 * i]? = some a → (goBytes memoData)[2 * i + 1]? = some b →
        h[i]? = some (match hexDigitValue a.toNat, hexDigitValue b.toNat with
          | some x, some y => (16 * x + y).toUInt8
          | some x, none => x.toUInt8
          | none, some y => if isBlankByte a then y.toUInt8 else 0
          | none, none => 0) :=
  ⟨_, hasLucendexQuoteHash_of_memo hmemos hpre hm hlen,
    by rw [length_decodeMemoData, hlen],
    fun i _ _ ha hb => by rw [getElem?_decodeMemoData _ i ha hb, scanHexByte_eq]⟩

/-- A Payment whose only memo is a Lucendex memo with the data `memoData`, sending 100 XRP and
delivering 148.07 USD. -/
def memoPayment (memoData : String) : List (String × JsonAny) :=
  [("Memos", .array [.object [("Memo", .object [("MemoType", .string lucendexMemoType),
      ("MemoData", .string memoData)])]]),
    ("Account", .string "rSender"), ("Amount", .string "100000000"),
    ("meta", .object [("delivered_amount", .object [("currency", .string "USD"),
      ("issuer", .string "rvYAfWj5gh67oV6fW32ZzP3Aw4Eubs59B"), ("value", .string "148.07")])])]

/-- Sixty-four `z`s are accepted, as the zero hash. -/
theorem hasLucendexQuoteHash_accepts_zs :
    hasLucendexQuoteHash (memoPayment ⟨List.replicate 64 'z'⟩) = some (List.replicate 32 0) ∧
    ∃ h : List UInt8, hasLucendexQuoteHash (memoPayment ⟨List.replicate 64 'z'⟩) = some h ∧
      h.length = 32 ∧
      ∀ i a b, (goBytes ⟨List.replicate 64 'z'⟩)[2 * i]? = some a →
        (goBytes ⟨List.replicate 64 'z'⟩)[2 * i + 1]? = some b →
        h[i]? = some (match hexDigitValue a.toNat, hexDigitValue b.toNat with
          | some x, some y => (16 * x + y).toUInt8
          | some x, none => x.toUInt8
          | none, some y => if isBlankByte a then y.toUInt8 else 0
          | none, none => 0) :=
  ⟨by decide, @hasLucendexQuoteHash_accepts _ [] [] _ _ rfl nofun ⟨_, _, rfl, rfl, rfl, rfl⟩
    (by decide)⟩

/-! ### From the quote answered to the trade billed -/

/-- The row the handler inserts is under its hash afterwards, new or not. -/
theorem mem_insertRegistry (t : RegistryTable) (r : QuoteRegistry) :
    r.quoteHash ∈ insertRegistry t r := by
  unfold insertRegistry
  split_ifs with h
  · exact h
  · exact (AList.mem_insert _).mpr (.inl rfl)

section Answered

open Lucendex.Router Lucendex.Decimal

variable {sum256 : List UInt8 → List UInt8} {qe : QuoteEngine} {cb cb' : CircuitBreaker}
  {ledgerIndex : UInt32} {t t' : RegistryTable} {now : Int} {method partnerID : String}
  {partner : Partner} {req : Api.QuoteRequest} {resp : ApiQuoteResponse}

/-- The `quote_hash` text of every quote the API answers, put by the partner in the first Lucendex
memo of a Payment the indexer can read, is read back as the quote's hash, under which the
registry holds a row: the indexer deletes the row and appends one usage event, billing the row's
partner with the row's fee (20 for 0).  When the hash was new to the registry, that row is the
one the handler stored: the partner that asked, with its `RouterBps`. -/
theorem quoteHandler_memo_billed (hsum : ∀ b, (sum256 b).length = 32)
    (h : quoteHandler sum256 qe cb ledgerIndex t now method partnerID partner req =
      some (cb', t', .quote resp))
    {txMap : List (String × JsonAny)} {pre post : List JsonAny} {m : JsonAny}
    (hmemos : JsonAny.get txMap "Memos" = .array (pre ++ m :: post))
    (hpre : ∀ m' ∈ pre, lucendexMemoData m' = none) (hm : IsLucendexMemo m resp.quoteHash)
    (hpay : (extractTradeDetails txMap).isSome) (s : IndexerState) (hs : s.registry = t')
    (txHash account : String) (li : Int) (lh : String) :
    ∃ key row u, resp.quoteHash = encodeToString key ∧ t'.lookup key = some row ∧
      (processTx li lh s (LedgerTx.ofJson txHash account txMap)).registry = t'.erase key ∧
      (processTx li lh s (LedgerTx.ofJson txHash account txMap)).usage = s.usage ++ [u] ∧
      u.quoteHash = key ∧ u.partnerID = row.partnerID ∧
      u.routerBps = routerFeeOf ⟨row.partnerID, row.routerBps⟩ ∧
      (key ∉ t → row.partnerID = partnerID ∧ row.routerBps = partner.routerBps) := by
  obtain ⟨amount, quote, hop, -, hq, -, rfl, rfl⟩ := quoteHandler_quote_inv h
  have hkey : quote.quoteHash.length = 32 := by
    rw [(QuoteEngine.generateQuote_routerBps hq).2.2, computeQuoteHash]
    exact hsum _
  -- the indexer reads the quote's hash back from the text the partner was given
  have hread : hasLucendexQuoteHash txMap = some quote.quoteHash := by
    rw [hasLucendexQuoteHash_of_memo hmemos hpre hm
      (by rw [buildQuoteResponse, length_goBytes_encodeToString, hkey]),
      buildQuoteResponse, (decodeMemoData_encodeToString _).1]
  obtain ⟨row, hrow⟩ := Option.isSome_iff_exists.mp (AList.lookup_isSome.mpr
    (mem_insertRegistry t ⟨quote.quoteHash, partnerID, hop.amountIn, quote.out,
      partner.routerBps, now + quote.ttlLedgers.toNat * 4 * 10 ^ 9, now⟩))
  obtain ⟨⟨inAsset, outAsset, amountIn, amountOut⟩, hd⟩ := Option.isSome_iff_exists.mp hpay
  obtain ⟨trade, u, hat, -⟩ := attributeTrade_of_lookup (hs ▸ hrow)
    ⟨txHash, account, inAsset, outAsset, amountIn, amountOut⟩ li lh
  obtain ⟨row', hrow', -, hu, hpid, hfee⟩ := attributeTrade_eq_some hat
  obtain rfl : row' = row := Option.some.inj ((hs ▸ hrow').symm.trans (hs ▸ hrow))
  have hproc : processTx li lh s (LedgerTx.ofJson txHash account txMap) =
      { s with registry := s.registry.erase quote.quoteHash,
               trades := insertCompletedTrade s.trades trade, usage := s.usage ++ [u] } := by
    simp only [processTx, LedgerTx.ofJson, hread, hd, Option.map_some', hat]
  refine ⟨quote.quoteHash, row', u, rfl, hrow, by rw [hproc, hs], by rw [hproc], hu, hpid, hfee,
    fun hnew => ?_⟩
  rw [insertRegistry_lookup_self hnew, Option.some.injEq] at hrow
  rw [← hrow]
  exact ⟨rfl, rfl⟩

/-- At the run of the tests, with a digest of 32 bytes: the Payment that carries the answered
`quote_hash` in its memo is billed to the partner that asked, at its 10 bps. -/
theorem quoteHandler_memo_billed_tenBps :
  (let xrp : Asset := ⟨"XRP", ""⟩;
    let usd : Asset := ⟨"USD", "rvYAfWj5gh67oV6fW32ZzP3Aw4Eubs59B"⟩;
    let qe : QuoteEngine := ⟨⟨[⟨xrp, usd, newFromInt 10000, newFromInt 15000, 30⟩], []⟩, 20⟩;
    ∃ cb' t' resp, quoteHandler (fun _ => List.replicate 32 0) qe
        (newCircuitBreaker 0 (new 5 (-2)) (new 25 (-3))) 12345 ∅ (61 * 10 ^ 9) "POST" "partner-1"
        ⟨10⟩ ⟨"XRP", "USD.rvYAfWj5gh67oV6fW32ZzP3Aw4Eubs59B", "100"⟩ =
        some (cb', t', .quote resp) ∧
      ∃ key u, resp.quoteHash = encodeToString key ∧
        (processTx 12346 "LEDGER" ⟨t', [], [], []⟩
          (LedgerTx.ofJson "TX" "rSender" (memoPayment resp.quoteHash))).usage = [u] ∧
        u.quoteHash = key ∧ u.partnerID = "partner-1" ∧ u.routerBps = 10)
  := by
  intro xrp usd qe
  obtain ⟨cb', row, resp, h, -⟩ := quoteHandler_tenBps_run fun _ => List.replicate 32 0
  obtain ⟨key, row', u, hkey, -, -, husage, hu, hpid, hfee, hnew⟩ :=
    quoteHandler_memo_billed (fun _ => List.length_replicate _ _) h
      (show JsonAny.get (memoPayment resp.quoteHash) "Memos" = .array ([] ++ _ :: []) from rfl)
      nofun ⟨_, _, rfl, rfl, rfl, rfl⟩ rfl ⟨insertRegistry ∅ row, [], [], []⟩ rfl "TX" "rSender"
      12346 "LEDGER"
  obtain ⟨hp, hb⟩ := hnew (AList.not_mem_empty _)
  refine ⟨cb', _, resp, h, key, u, hkey, husage, hu, hpid.trans hp, ?_⟩
  rw [hfee, hp, hb]
  rfl

end Answered

end Lucendex.Indexer
