import Lucendex.Api.Handlers
import Lucendex.Router.Hash

/-!
# The usage report

`GetPartnerUsage` reads the partner's rows of `usage_events` for a month and turns each into a
`UsageDetail`, whose `QuoteHash` is `string(quoteHash)`: the hash's raw bytes as a Go string.
`UsageHandler` writes the report with `json.NewEncoder(w).Encode`, so each hash goes through
`encoding/json`'s `appendString` as arbitrary bytes.  A byte that starts no UTF-8 sequence comes
out as `\ufffd`, a control byte as an escape, and a byte of a valid multi-byte sequence as itself.
The quote response, on the other hand, carried `hex.EncodeToString` of the same hash.

* `appendStringBytes` follows `appendString` over bytes, with `decodeRuneInString` for
  `utf8.DecodeRuneInString` built from Go's `first` and `acceptRanges` tables.
* `appendStringLoop_copy_or_nonHex`: the encoder either writes its input as it is, or writes a
  byte that is no hexadecimal digit.
* `usageReport_quoteHash_ne_quoteResponse`: every row of a quote the partner was answered gets a
  detail in the report, and the text that detail's `quote_hash` is written as is never the text
  of the quote response's `quote_hash`, for any non-empty hash.  A partner cannot find its quotes
  in its usage report.
-/

namespace Lucendex.Api

open Lucendex.Go Lucendex.Router

/-! ### `utf8.DecodeRuneInString` -/

/-- `utf8.RuneError`, U+FFFD. -/
def utf8RuneError : Nat := 0xFFFD

/-- `first[b]` of `unicode/utf8`: `as` (0xF0) for ASCII, `xx` (0xF1) for a byte that starts no
sequence, and otherwise the index of the accept range of the second byte in the high nibble and
the length of the sequence in the low one. -/
def utf8First (b : UInt8) : UInt8 :=
  if b < 0x80 then 0xF0
  else if b < 0xC2 then 0xF1
  else if b < 0xE0 then 0x02
  else if b = 0xE0 then 0x13
  else if b < 0xED then 0x03
  else if b = 0xED then 0x23
  else if b < 0xF0 then 0x03
  else if b = 0xF0 then 0x34
  else if b < 0xF4 then 0x04
  else if b = 0xF4 then 0x44
  else 0xF1

/-- `acceptRanges[i]`: the bytes the second byte of a sequence may be. -/
def acceptRange : UInt8 → UInt8 × UInt8
  | 1 => (0xA0, 0xBF)
  | 2 => (0x80, 0x9F)
  | 3 => (0x90, 0xBF)
  | 4 => (0x80, 0x8F)
  | _ => (0x80, 0xBF)

/-- `utf8.DecodeRuneInString(s)`: the first rune of `s` and its length in bytes; `RuneError` of
length 1 for a byte that starts no valid sequence, and of length 0 for the empty string. -/
def decodeRuneInString (s : List UInt8) : Nat × Nat :=
  match s with
  | [] => (utf8RuneError, 0)
  | s0 :: rest =>
    let x := utf8First s0
    if 0xF0 ≤ x then
      -- the mask `rune(x) << 31 >> 31` is all ones exactly for `xx`
      (if x % 2 = 1 then utf8RuneError else s0.toNat, 1)
    else
      let sz := (x &&& 7).toNat
      let accept := acceptRange (x >>> 4)
      if s.length < sz then (utf8RuneError, 1)
      else match rest with
        | [] => (utf8RuneError, 1)
        | s1 :: rest =>
          if s1 < accept.1 || accept.2 < s1 then (utf8RuneError, 1)
          else if sz ≤ 2 then ((s0 &&& 0x1F).toNat <<< 6 ||| (s1 &&& 0x3F).toNat, 2)
          else match rest with
            | [] => (utf8RuneError, 1)
            | s2 :: rest =>
              if s2 < 0x80 || 0xBF < s2 then (utf8RuneError, 1)
              else if sz ≤ 3 then
                ((s0 &&& 0x0F).toNat <<< 12 ||| (s1 &&& 0x3F).toNat <<< 6 |||
                  (s2 &&& 0x3F).toNat, 3)
              else match rest with
                | [] => (utf8RuneError, 1)
                | s3 :: _ =>
                  if s3 < 0x80 || 0xBF < s3 then (utf8RuneError, 1)
                  else
                    ((s0 &&& 0x07).toNat <<< 18 ||| (s1 &&& 0x3F).toNat <<< 12 |||
                      (s2 &&& 0x3F).toNat <<< 6 ||| (s3 &&& 0x3F).toNat, 4)

/-- A non-empty string starts with a rune of at least one byte. -/
theorem decodeRuneInString_size_pos {s0 : UInt8} {rest : List UInt8} :
    1 ≤ (decodeRuneInString (s0 :: rest)).2 := by
  simp only [decodeRuneInString]
  repeat' split
  all_goals exact Nat.le_of_ble_eq_true rfl

/-! ### `appendString` over bytes -/

/-- The loop of `appendString(dst, src, true)` of `encoding/json` over arbitrary bytes, between
the quotes.  An ASCII byte is written as `jsonEscapeChar` writes its character; a byte that starts
no rune as `\ufffd`; U+2028 and U+2029 as their escapes; and the bytes of any other rune as they
are.  The Go loop copies runs of unescaped bytes as `src[start:i]`; they come out in the same
order here, one rune at a time. -/
def appendStringLoop : List UInt8 → List UInt8
  | [] => []
  | b :: rest =>
    if b < 0x80 then jsonEscapeChar (Char.ofNat b.toNat) ++ appendStringLoop rest
    else
      let r := decodeRuneInString ((b :: rest).take 4)
      (if r.1 = utf8RuneError ∧ r.2 = 1 then [0x5C, 0x75, 0x66, 0x66, 0x66, 0x64]
        else if r.1 = 0x2028 ∨ r.1 = 0x2029 then [0x5C, 0x75, 0x32, 0x30, 0x32, jsonHex (r.1 % 16)]
        else (b :: rest).take r.2) ++ appendStringLoop ((b :: rest).drop r.2)
termination_by src => src.length
decreasing_by
  all_goals simp_wf
  exact decodeRuneInString_size_pos

/-- `appendString(nil, src, true)`: the JSON string `encoding/json` writes for the Go string of
the bytes `src`. -/
def appendStringBytes (src : List UInt8) : List UInt8 :=
  0x22 :: appendStringLoop src ++ [0x22]

/-- A lowercase hexadecimal digit, as a byte. -/
def isHexByte (b : UInt8) : Bool :=
  (0x30 ≤ b && b ≤ 0x39) || (0x61 ≤ b && b ≤ 0x66)

/-- An ASCII character is written as its own byte or as an escape. -/
theorem jsonEscapeChar_ascii {b : UInt8} (hb : b < 0x80) :
    jsonEscapeChar (Char.ofNat b.toNat) = [b] ∨ 0x5C ∈ jsonEscapeChar (Char.ofNat b.toNat) := by
  have key : ∀ n : Fin 128, jsonEscapeChar (Char.ofNat n) = [n.val.toUInt8] ∨
      0x5C ∈ jsonEscapeChar (Char.ofNat n) := by decide
  have hb' : b.toNat.toUInt8 = b := UInt8.toNat.inj (UInt8.toNat_ofNat_of_lt b.toNat_lt_size)
  simpa only [hb'] using key ⟨b.toNat, hb⟩

/-- No byte above ASCII is a hexadecimal digit. -/
theorem isHexByte_eq_false {b : UInt8} (hb : ¬b < 0x80) : isHexByte b = false := by
  have : 128 ≤ b.toNat := Nat.not_lt.mp hb
  have h39 : ¬b ≤ 0x39 := fun h => by have : b.toNat ≤ 57 := h; omega
  have h66 : ¬b ≤ 0x66 := fun h => by have : b.toNat ≤ 102 := h; omega
  simp [isHexByte, h39, h66]

/-- The encoder writes its input as it is, or writes a byte that is no hexadecimal digit: a
backslash of an escape, or the first byte of a copied multi-byte rune. -/
theorem appendStringLoop_copy_or_nonHex (src : List UInt8) :
    appendStringLoop src = src ∨ ∃ x ∈ appendStringLoop src, isHexByte x = false := by
  induction src using appendStringLoop.induct with
  | case1 => exact .inl (by rw [appendStringLoop])
  | case2 b rest hb ih =>
    rw [appendStringLoop, if_pos hb]
    rcases jsonEscapeChar_ascii hb with he | he
    · rw [he]
      rcases ih with ih | ⟨x, hx, hhex⟩
      · exact .inl (by rw [ih]; rfl)
      · exact .inr ⟨x, List.mem_append_right _ hx, hhex⟩
    · exact .inr ⟨0x5C, List.mem_append_left _ he, rfl⟩
  | case3 b rest hb _ =>
    -- an escape starts with a backslash, and a copied rune with `b`, which is no ASCII byte
    have hsize : 0 < (decodeRuneInString ((b :: rest).take 4)).2 := by
      rw [List.take_cons (by decide)]
      exact decodeRuneInString_size_pos
    refine .inr ?_
    rw [appendStringLoop, if_neg hb]
    dsimp only
    split_ifs
    · exact ⟨0x5C, by simp, rfl⟩
    · exact ⟨0x5C, by simp, rfl⟩
    · refine ⟨b, List.mem_append_left _ ?_, isHexByte_eq_false hb⟩
      rw [List.take_cons hsize]
      exact List.mem_cons_self _ _

/-! ### The quote response's hash -/

/-- Each hexadecimal digit is written as its own byte, a hexadecimal digit. -/
theorem jsonEscapeChar_hexDigit : ∀ x : Fin 16,
    jsonEscapeChar (hexDigit x) = [(hexDigit x).val.toUInt8] ∧
      isHexByte (hexDigit x).val.toUInt8 = true := by
  decide

/-- The JSON text of `hex.EncodeToString(h)` holds two bytes per byte of `h`, each a hexadecimal
digit. -/
theorem jsonEscape_encodeToString (h : List UInt8) :
    ((encodeToString h).data.flatMap jsonEscapeChar).length = 2 * h.length ∧
      ∀ x ∈ (encodeToString h).data.flatMap jsonEscapeChar, isHexByte x = true := by
  induction h with
  | nil => exact ⟨rfl, nofun⟩
  | cons v vs ih =>
    have hv := v.toNat_lt_size
    unfold UInt8.size at hv
    obtain ⟨hhi, hhi'⟩ := jsonEscapeChar_hexDigit ⟨v.toNat / 16, by omega⟩
    obtain ⟨hlo, hlo'⟩ := jsonEscapeChar_hexDigit ⟨v.toNat % 16, Nat.mod_lt _ (by decide)⟩
    have hdata : (encodeToString (v :: vs)).data =
        hexDigit (v.toNat / 16) :: hexDigit (v.toNat % 16) :: (encodeToString vs).data := rfl
    rw [hdata, List.flatMap_cons, List.flatMap_cons, hhi, hlo]
    simp only [List.singleton_append, List.cons_append, List.nil_append]
    refine ⟨by simp only [List.length_cons, ih.1]; omega, fun x hx => ?_⟩
    simp only [List.mem_cons] at hx
    rcases hx with rfl | rfl | hx
    · exact hhi'
    · exact hlo'
    · exact ih.2 x hx

/-- The report's text of a non-empty hash is not the quote response's text of it. -/
theorem appendStringBytes_ne_jsonString {h : List UInt8} (hne : h ≠ []) :
    appendStringBytes h ≠ jsonString (encodeToString h) := by
  intro heq
  have hloop : appendStringLoop h = (encodeToString h).data.flatMap jsonEscapeChar :=
    List.append_cancel_right (List.cons.inj heq).2
  obtain ⟨hlen, hhex⟩ := jsonEscape_encodeToString h
  rcases appendStringLoop_copy_or_nonHex h with hcopy | ⟨x, hx, hx'⟩
  · -- a copy has as many bytes as the hash, the hexadecimal text twice as many
    have := congrArg List.length (hcopy.symm.trans hloop)
    rw [hlen] at this
    exact hne (List.length_eq_zero.mp (by omega))
  · rw [hloop] at hx
    rw [hhex x hx] at hx'
    cases hx'

/-! ### `GetPartnerUsage` -/

/-- A row of the first query of `GetPartnerUsage`: `quote_hash`, `pair`, `amount_in`,
`amount_out`, `fee_amount`, `tx_hash`, `ledger_index` and `ts` of `usage_events`, the amounts as
the text they scan into. -/
structure UsageRow where
  quoteHash : List UInt8
  pair : String
  amountIn : String
  amountOut : String
  feeAmount : String
  txHash : String
  ledgerIndex : Int
  ts : Int
  deriving DecidableEq, Repr

/-- `UsageDetail`, its `QuoteHash` a Go string as its bytes. -/
structure UsageDetail where
  quoteHash : List UInt8
  pair : String
  amountIn : String
  amountOut : String
  feeAmount : String
  txHash : String
  ledgerIndex : Int
  timestamp : Int
  deriving DecidableEq, Repr

/-- `UsageResponse`. -/
structure UsageResponse where
  month : String
  txCount : Int
  totalVolume : String
  totalFees : String
  details : List UsageDetail
  deriving DecidableEq, Repr

/-- The loop over the rows of `GetPartnerUsage`: the row scanned into a detail, with
`d.QuoteHash = string(quoteHash)`. -/
def usageDetail (r : UsageRow) : UsageDetail :=
  ⟨r.quoteHash, r.pair, r.amountIn, r.amountOut, r.feeAmount, r.txHash, r.ledgerIndex, r.ts⟩

/-- `s.GetPartnerUsage(ctx, partnerID, month)`, given the rows of its first query in the order
they come and the two sums of its second. -/
def getPartnerUsage (month : String) (rows : List UsageRow) (totalVolume totalFees : String) :
    UsageResponse :=
  ⟨month, rows.length, totalVolume, totalFees, rows.map usageDetail⟩

/-- A partner cannot find its quotes in its usage report.  For every quote the handler answered
with a non-empty hash, every row of the report's query billed under that hash gets a detail, and
the JSON text `UsageHandler` writes for the detail's `quote_hash` is never the text the quote
response's `quote_hash` was written as. -/
theorem usageReport_quoteHash_ne_quoteResponse (month totalVolume totalFees : String)
    (rows : List UsageRow) (quote : QuoteResponse) (expiresAt : Int) (hq : quote.quoteHash ≠ []) :
    ∀ r ∈ rows, r.quoteHash = quote.quoteHash →
      ∃ d ∈ (getPartnerUsage month rows totalVolume totalFees).details, d.quoteHash = r.quoteHash ∧
        appendStringBytes d.quoteHash ≠ jsonString (buildQuoteResponse quote expiresAt).quoteHash :=
  fun r hr hrq => ⟨usageDetail r, List.mem_map_of_mem _ hr, rfl,
    show appendStringBytes r.quoteHash ≠ _ from hrq ▸ appendStringBytes_ne_jsonString hq⟩

/-- A quote of hash `[0xAB]`, a byte that starts no UTF-8 sequence, and its billed row. -/
def sampleQuote : QuoteResponse :=
  ⟨⟨[], ⟨0, Decimal.zero, Decimal.zero⟩, Decimal.zero⟩, Decimal.zero, Decimal.zero,
    ⟨0, Decimal.zero, Decimal.zero⟩, 0, [0xAB], 0⟩

/-- The row of `sampleQuote` in `usage_events`. -/
def sampleRow : UsageRow :=
  ⟨[0xAB], "XRP-USD", "1", "1", "0", "t", 1, 0⟩

theorem usageReport_quoteHash_ne_sample :
    sampleQuote.quoteHash ≠ [] ∧
      ∀ r ∈ [sampleRow], r.quoteHash = sampleQuote.quoteHash →
        ∃ d ∈ (getPartnerUsage "2025-01" [sampleRow] "1" "0").details, d.quoteHash = r.quoteHash ∧
          appendStringBytes d.quoteHash ≠ jsonString (buildQuoteResponse sampleQuote 0).quoteHash :=
  ⟨by decide, usageReport_quoteHash_ne_quoteResponse _ _ _ _ _ _ (by decide)⟩

end Lucendex.Api
