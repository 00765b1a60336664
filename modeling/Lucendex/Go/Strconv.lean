import Mathlib.Data.List.Basic
import Mathlib.Data.String.Basic
import Mathlib.Algebra.Group.Int
import Mathlib.Data.Nat.Digits

/-!
# Byte strings, `strconv` and `encoding/hex`

The parts of Go's standard library the in-memory store calls: `[]byte(s)` as the UTF-8
bytes of a string, `strconv.ParseInt` and `strconv.ParseUint` in base 10 with their
`*NumError` results, `strconv.FormatInt` and `strconv.FormatUint` in base 10, and
`hex.EncodeToString`.  Go's `uint64` arithmetic inside `ParseUint` is done on `Nat`; its
overflow tests are written as the comparisons with `maxVal` they decide.
-/

namespace Lucendex.Go

/-- Results are equal when they are built by the same constructor from equal contents, so that
`decide` can compare the model's `Except`s. -/
instance instDecidableEqExcept {ε α : Type} [DecidableEq ε] [DecidableEq α] :
    DecidableEq (Except ε α)
  | .error a, .error b => decidable_of_iff (a = b) ⟨congrArg _, Except.error.inj⟩
  | .ok a, .ok b => decidable_of_iff (a = b) ⟨congrArg _, Except.ok.inj⟩
  | .error _, .ok _ => isFalse Except.noConfusion
  | .ok _, .error _ => isFalse Except.noConfusion

/-- `[]byte(s)`: the UTF-8 bytes of a string. -/
def goBytes (s : String) : List UInt8 :=
  s.data.flatMap String.utf8EncodeChar

/-- Splitting at the first occurrence of a separator that neither left part contains. -/
theorem append_cons_inj {α : Type} {c : α} :
    ∀ {a a' b b' : List α}, c ∉ a → c ∉ a' → a ++ c :: b = a' ++ c :: b' → a = a' ∧ b = b'
  | [], [], _, _, _, _, h => ⟨rfl, (List.cons.inj h).2⟩
  | [], _ :: _, _, _, _, h', h => absurd ((List.cons.inj h).1 ▸ List.mem_cons_self _ _) h'
  | _ :: _, [], _, _, h, _, h' => absurd ((List.cons.inj h').1 ▸ List.mem_cons_self _ _) h
  | x :: a, y :: a', _, _, h, h', he => by
    obtain ⟨rfl, ht⟩ := List.cons.inj he
    obtain ⟨rfl, rfl⟩ :=
      append_cons_inj (List.not_mem_of_not_mem_cons h) (List.not_mem_of_not_mem_cons h') ht
    exact ⟨rfl, rfl⟩

/-- The two errors a `*strconv.NumError` wraps. -/
inductive NumErrorKind where
  | errSyntax
  | errRange
  deriving DecidableEq, Repr

/-- The message of `strconv.ErrSyntax` or `strconv.ErrRange`. -/
def NumErrorKind.message : NumErrorKind → String
  | .errSyntax => "invalid syntax"
  | .errRange => "value out of range"

/-- `*strconv.NumError`: the function that failed, its input and the reason. -/
structure NumError where
  func : String
  num : List UInt8
  err : NumErrorKind
  deriving DecidableEq, Repr

/-- The digit value of an ASCII decimal digit. -/
def digitValue (c : UInt8) : Option Nat :=
  if 48 ≤ c ∧ c ≤ 57 then some (c.toNat - 48) else none

/-- `maxUint64/10 + 1`, the `cutoff` of `ParseUint` in base 10. -/
def parseUintCutoff : Nat := (2 ^ 64 - 1) / 10 + 1

/-- The digit loop of `strconv.ParseUint(s, 10, bitSize)` from the accumulated value `n`:
a non-digit is a syntax error, and a value past `maxVal` a range error, reported at the
first byte where it happens. -/
def parseUintLoop (maxVal : Nat) : Nat → List UInt8 → Except NumErrorKind Nat
  | n, [] => .ok n
  | n, c :: cs =>
    match digitValue c with
    | none => .error .errSyntax
    | some d =>
      if n ≥ parseUintCutoff then .error .errRange
      else if n * 10 + d > maxVal then .error .errRange
      else parseUintLoop maxVal (n * 10 + d) cs

/-- `strconv.ParseUint(s, 10, bitSize)`. -/
def parseUint (s : List UInt8) (bitSize : Nat) : Except NumError Nat :=
  if s = [] then .error ⟨"ParseUint", s, .errSyntax⟩
  else match parseUintLoop (2 ^ bitSize - 1) 0 s with
    | .ok n => .ok n
    | .error k => .error ⟨"ParseUint", s, k⟩

/-- `strconv.ParseInt(s, 10, bitSize)`: an optional sign, then `ParseUint` of the rest; a range
error of `ParseUint` stands for the value `maxVal` and is checked against the signed range. -/
def parseInt (s : List UInt8) (bitSize : Nat) : Except NumError Int :=
  match s with
  | [] => .error ⟨"ParseInt", s, .errSyntax⟩
  | c :: cs =>
    let neg := c = 45
    let rest := if c = 43 ∨ c = 45 then cs else c :: cs
    let un : Except NumError Nat :=
      match parseUint rest bitSize with
      | .ok n => .ok n
      | .error ⟨_, _, .errRange⟩ => .ok (2 ^ bitSize - 1)
      | .error ⟨_, _, .errSyntax⟩ => .error ⟨"ParseInt", s, .errSyntax⟩
    match un with
    | .error e => .error e
    | .ok un =>
      if ¬neg ∧ un ≥ 2 ^ (bitSize - 1) then .error ⟨"ParseInt", s, .errRange⟩
      else if neg ∧ un > 2 ^ (bitSize - 1) then .error ⟨"ParseInt", s, .errRange⟩
      else .ok (if neg then -(un : Int) else un)

/-- `strconv.FormatUint(n, 10)`, as bytes. -/
def formatUint (n : Nat) : List UInt8 :=
  goBytes (String.mk (Nat.toDigits 10 n))

/-- `strconv.FormatInt(i, 10)`, as bytes. -/
def formatInt (i : Int) : List UInt8 :=
  match i with
  | .ofNat n => formatUint n
  | .negSucc n => 45 :: formatUint (n + 1)

/-- Two's-complement wrap-around of `int64` addition. -/
def wrapInt64 (i : Int) : Int :=
  (i + 2 ^ 63) % 2 ^ 64 - 2 ^ 63

/-- The lower-case hexadecimal digit of a value below 16. -/
def hexDigit (n : Nat) : Char :=
  "0123456789abcdef".get ⟨n⟩

/-- `hex.EncodeToString(src)`. -/
def encodeToString (src : List UInt8) : String :=
  String.mk (src.flatMap fun v => [hexDigit (v.toNat / 16), hexDigit (v.toNat % 16)])

/-! ### Round trips -/

/-- The digits `toDigitsCore` produces come before the list it is given. -/
theorem toDigitsCore_append (f m : Nat) (ds : List Char) :
    Nat.toDigitsCore 10 f m ds = Nat.toDigitsCore 10 f m [] ++ ds := by
  induction f generalizing m ds with
  | zero => rfl
  | succ f ih =>
    simp only [Nat.toDigitsCore]
    split
    · rfl
    · rw [ih _ (_ :: ds), ih _ [_], List.append_assoc, List.singleton_append]

/-- Any fuel above the number gives the same digits. -/
theorem toDigitsCore_fuel {f g m : Nat} (hf : m < f) (hg : m < g) (ds : List Char) :
    Nat.toDigitsCore 10 f m ds = Nat.toDigitsCore 10 g m ds := by
  induction f generalizing g m ds with
  | zero => omega
  | succ f ih =>
    obtain ⟨g, rfl⟩ : ∃ g', g = g' + 1 := ⟨g - 1, by omega⟩
    simp only [Nat.toDigitsCore]
    split
    · rfl
    · exact ih (by omega) (by omega) _

/-- The decimal text of a number of two digits or more is that of its tenth, then its last
digit. -/
theorem toDigits_of_ge {n : Nat} (h : 10 ≤ n) :
    Nat.toDigits 10 n = Nat.toDigits 10 (n / 10) ++ [Nat.digitChar (n % 10)] := by
  obtain ⟨k, rfl⟩ : ∃ k, n = k + 1 := ⟨n - 1, by omega⟩
  rw [Nat.toDigits, Nat.toDigitsCore, if_neg (by omega), toDigitsCore_append,
    @toDigitsCore_fuel _ ((k + 1) / 10 + 1) _ (by omega) (by omega)]
  rfl

/-- The text of a digit is its ASCII byte. -/
theorem formatUint_of_lt {d : Nat} (h : d < 10) : formatUint d = [UInt8.ofNat (48 + d)] := by
  have : ∀ d < 10, formatUint d = [UInt8.ofNat (48 + d)] := by decide
  exact this d h

/-- The ASCII byte of a digit reads back as the digit. -/
theorem digitValue_ofNat {d : Nat} (h : d < 10) : digitValue (UInt8.ofNat (48 + d)) = some d := by
  have : ∀ d < 10, digitValue (UInt8.ofNat (48 + d)) = some d := by decide
  exact this d h

/-- `FormatUint` of a number of two digits or more: the text of its tenth, then its last
digit. -/
theorem formatUint_of_ge {n : Nat} (h : 10 ≤ n) :
    formatUint n = formatUint (n / 10) ++ [UInt8.ofNat (48 + n % 10)] := by
  rw [← formatUint_of_lt (Nat.mod_lt n (by decide)), formatUint, formatUint, formatUint,
    toDigits_of_ge h, goBytes, goBytes, goBytes]
  simp [List.flatMap_append, Nat.toDigits, Nat.toDigitsCore,
    Nat.div_eq_of_lt (Nat.mod_lt n (show 10 > 0 by decide))]

/-- The digit loop over a concatenation runs over the first part, then from its result over the
second. -/
theorem parseUintLoop_append (maxVal m : Nat) (xs ys : List UInt8) :
    parseUintLoop maxVal m (xs ++ ys) =
      (parseUintLoop maxVal m xs).bind fun k => parseUintLoop maxVal k ys := by
  induction xs generalizing m with
  | nil => rfl
  | cons c cs ih =>
    simp only [List.cons_append, parseUintLoop]
    split
    · rfl
    · split
      · rfl
      · split
        · rfl
        · exact ih _

/-- The digit loop reads back the decimal text of every number up to its bound. -/
theorem parseUintLoop_formatUint {maxVal : Nat} (hmax : maxVal ≤ 2 ^ 64 - 1) :
    ∀ n ≤ maxVal, parseUintLoop maxVal 0 (formatUint n) = .ok n := by
  intro n
  induction n using Nat.strong_induction_on with
  | _ n ih =>
    intro hn
    have hcut : n / 10 < parseUintCutoff := by unfold parseUintCutoff; omega
    by_cases h : n < 10
    · rw [formatUint_of_lt h]
      simp [parseUintLoop, digitValue_ofNat h, parseUintCutoff]
      omega
    · rw [formatUint_of_ge (by omega), parseUintLoop_append,
        ih (n / 10) (by omega) (by omega)]
      simp only [Except.bind, parseUintLoop, digitValue_ofNat (Nat.mod_lt n (by decide))]
      rw [if_neg (by omega), if_neg (by omega)]
      congr 1
      omega

/-- The decimal text of a number starts with a digit. -/
theorem formatUint_cons (n : Nat) : ∃ d cs, d < 10 ∧ formatUint n = UInt8.ofNat (48 + d) :: cs := by
  induction n using Nat.strong_induction_on with
  | _ n ih =>
    by_cases h : n < 10
    · exact ⟨n, [], h, formatUint_of_lt h⟩
    · obtain ⟨d, cs, hd, hcs⟩ := ih (n / 10) (by omega)
      exact ⟨d, cs ++ _, hd, by rw [formatUint_of_ge (by omega), hcs, List.cons_append]⟩

/-- `ParseUint` reads back `FormatUint` of every value of its range. -/
theorem parseUint_formatUint {n bitSize : Nat} (hb : bitSize ≤ 64) (hn : n ≤ 2 ^ bitSize - 1) :
    parseUint (formatUint n) bitSize = .ok n := by
  have h64 : 2 ^ bitSize ≤ 2 ^ 64 := Nat.pow_le_pow_right (by decide) hb
  obtain ⟨d, cs, -, hcs⟩ := formatUint_cons n
  rw [parseUint, if_neg (by simp [hcs]), parseUintLoop_formatUint (by omega) n hn]

/-- `ParseInt` reads back `FormatInt` of every `int64`. -/
theorem parseInt_formatInt {i : Int} (hlo : -2 ^ 63 ≤ i) (hhi : i < 2 ^ 63) :
    parseInt (formatInt i) 64 = .ok i := by
  cases i with
  | ofNat n =>
    obtain ⟨d, cs, hd, hcs⟩ := formatUint_cons n
    have hsign : UInt8.ofNat (48 + d) ≠ 43 ∧ UInt8.ofNat (48 + d) ≠ 45 := by
      have : ∀ d < 10, UInt8.ofNat (48 + d) ≠ 43 ∧ UInt8.ofNat (48 + d) ≠ 45 := by decide
      exact this d hd
    have hn : n < 2 ^ 63 := by simp only [Int.ofNat_eq_coe] at hhi; omega
    simp only [formatInt, hcs, parseInt, hsign, or_self, if_false]
    rw [← hcs, parseUint_formatUint le_rfl (by omega)]
    simp only [hsign.2, false_and, if_false, ge_iff_le, not_le.mpr hn, and_false]
    rfl
  | negSucc n =>
    have hn : n + 1 ≤ 2 ^ 63 := by rw [Int.negSucc_eq] at hlo; omega
    simp only [formatInt, parseInt, or_true, if_true]
    rw [parseUint_formatUint le_rfl (by omega)]
    simp only [true_and, not_true_eq_false, false_and, if_false, gt_iff_lt, not_lt.mpr hn, if_true]
    rw [Int.negSucc_eq]
    rfl

/-- Every byte of `FormatUint` is an ASCII digit. -/
theorem formatUint_bytes (n : Nat) : ∀ b ∈ formatUint n, 48 ≤ b.toNat ∧ b.toNat < 58 := by
  induction n using Nat.strong_induction_on with
  | _ n ih =>
    have hdigit : ∀ d < 10, (UInt8.ofNat (48 + d)).toNat = 48 + d := by decide
    by_cases h : n < 10
    · intro b hb
      rw [formatUint_of_lt h, List.mem_singleton] at hb
      rw [hb, hdigit n h]
      omega
    · intro b hb
      rw [formatUint_of_ge (by omega), List.mem_append, List.mem_singleton] at hb
      rcases hb with hb | rfl
      · exact ih (n / 10) (by omega) b hb
      · rw [hdigit _ (Nat.mod_lt n (by decide))]
        omega

/-- Every byte of `FormatInt` is a minus sign or an ASCII digit. -/
theorem formatInt_bytes (v : Int) : ∀ b ∈ formatInt v, b = 45 ∨ 48 ≤ b.toNat ∧ b.toNat < 58 := by
  cases v with
  | ofNat n => exact fun b hb => .inr (formatUint_bytes n b hb)
  | negSucc n =>
    intro b hb
    rcases List.mem_cons.mp hb with rfl | hb
    · exact .inl rfl
    · exact .inr (formatUint_bytes _ b hb)

/-- `FormatInt` is injective on `int64`s, since `ParseInt` reads it back. -/
theorem formatInt_inj {v w : Int} (hv : -2 ^ 63 ≤ v ∧ v < 2 ^ 63) (hw : -2 ^ 63 ≤ w ∧ w < 2 ^ 63)
    (h : formatInt v = formatInt w) : v = w := by
  have := (parseInt_formatInt hv.1 hv.2).symm.trans (h ▸ parseInt_formatInt hw.1 hw.2)
  exact Except.ok.inj this

/-! ### Hexadecimal text -/

/-- The sixteen digits of `hexDigit` are distinct. -/
theorem hexDigit_inj {a b : Nat} (ha : a < 16) (hb : b < 16) (h : hexDigit a = hexDigit b) :
    a = b :=
  congrArg Fin.val
    ((show ∀ a b : Fin 16, hexDigit a = hexDigit b → a = b by decide) ⟨a, ha⟩ ⟨b, hb⟩ h)

/-- No hexadecimal digit is a newline. -/
theorem hexDigit_ne_newline {a : Nat} (ha : a < 16) : hexDigit a ≠ '\n' :=
  (show ∀ a : Fin 16, hexDigit a ≠ '\n' by decide) ⟨a, ha⟩

/-- The two digits of a byte determine it. -/
theorem hexDigits_inj {v w : UInt8}
    (h : [hexDigit (v.toNat / 16), hexDigit (v.toNat % 16)] =
      [hexDigit (w.toNat / 16), hexDigit (w.toNat % 16)]) : v = w := by
  have hv := v.toNat_lt_size
  have hw := w.toNat_lt_size
  unfold UInt8.size at hv hw
  simp only [List.cons.injEq, and_true] at h
  have hdiv := hexDigit_inj (by omega) (by omega) h.1
  have hmod := hexDigit_inj (Nat.mod_lt _ (by decide)) (Nat.mod_lt _ (by decide)) h.2
  exact UInt8.toNat.inj (by omega)

/-- `hex.EncodeToString` is injective. -/
theorem encodeToString_inj {src src' : List UInt8} (h : encodeToString src = encodeToString src') :
    src = src' := by
  induction src generalizing src' with
  | nil => cases src' with
    | nil => rfl
    | cons w ws => cases h
  | cons v vs ih =>
    cases src' with
    | nil => cases h
    | cons w ws =>
      obtain ⟨hhead, htail⟩ := List.append_inj (congrArg String.data h :) rfl
      rw [hexDigits_inj hhead, ih (congrArg String.mk htail)]

/-- `len` of a concatenation of strings. -/
theorem utf8ByteSize_append (a b : String) :
    (a ++ b).utf8ByteSize = a.utf8ByteSize + b.utf8ByteSize :=
  String.utf8Len_append a.data b.data

/-- Hexadecimal text has two one-byte digits per byte. -/
theorem utf8ByteSize_encodeToString (src : List UInt8) :
    (encodeToString src).utf8ByteSize = 2 * src.length := by
  have hsize : ∀ a : Fin 16, (hexDigit a).utf8Size = 1 := by decide
  induction src with
  | nil => rfl
  | cons v vs ih =>
    have hv := v.toNat_lt_size
    unfold UInt8.size at hv
    simp only [encodeToString, String.utf8ByteSize_mk, List.flatMap_cons, String.utf8Len_append,
      String.utf8Len_cons, String.utf8Len_nil, List.length_cons] at ih ⊢
    rw [ih, hsize ⟨_, (by omega : v.toNat / 16 < 16)⟩, hsize ⟨_, Nat.mod_lt _ (by decide)⟩]
    omega

/-- Hexadecimal text holds no newline. -/
theorem newline_not_mem_encodeToString (src : List UInt8) :
    '\n' ∉ (encodeToString src).data := by
  simp only [encodeToString, List.mem_flatMap, List.mem_cons, List.mem_singleton, not_exists,
    not_and]
  intro v _ h
  have hv := v.toNat_lt_size
  unfold UInt8.size at hv
  rcases h with h | h | h
  · exact hexDigit_ne_newline (by omega) h.symm
  · exact hexDigit_ne_newline (Nat.mod_lt _ (by decide)) h.symm
  · exact List.not_mem_nil _ h

end Lucendex.Go
