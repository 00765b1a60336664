import Lucendex.Decimal.Parse

/-!
# The text of a decimal, read back

`d.String()` writes the digits of `|value|` with the point `-exp` places from the right, the
trailing zeros of the fraction dropped and a minus sign for a negative value
(`toString_data`).  `NewFromString` reads such a text as the integer of all its digits with the
exponent minus the count of digits after the point (`newFromString_text`), so it reads
`d.String()` back as a decimal of the same number whenever `d`'s exponent is an `int32`.  And the
text depends on the number only (`toString_eq_of_val_eq`): ten times the value at one place less
is written alike (`toString_mul_ten`).  Together (`toString_roundTrip`), two decimals are written
alike exactly when they are the same number.  The API writes every amount of a quote with
`String()` and reads the requested amount with `NewFromString`, and the quote hash commits to
`Amount.String()`.
-/

namespace Lucendex.Decimal

open Lucendex.Go

/-! ### Digit text -/

/-- The ten ASCII decimal digits. -/
def digitChars : List Char :=
  ['0', '1', '2', '3', '4', '5', '6', '7', '8', '9']

/-- One step of reading decimal text: the number read so far, then one more digit. -/
def digitStep (n : Nat) (c : Char) : Nat :=
  10 * n + (c.toNat - 48)

/-- The number a text of decimal digits stands for. -/
def digitsValue (s : List Char) : Nat :=
  s.foldl digitStep 0

@[simp]
theorem digitsValue_nil : digitsValue [] = 0 := rfl

theorem foldl_digitStep (m : Nat) (s : List Char) :
  s.foldl digitStep m = m * 10 ^ s.length + digitsValue s
  := by
  induction s generalizing m with
  | nil => simp
  | cons c s ih =>
    rw [digitsValue, List.foldl_cons, List.foldl_cons, ih, ih (digitStep 0 c), digitStep,
      digitStep, List.length_cons]
    ring

theorem digitsValue_append (a b : List Char) :
  digitsValue (a ++ b) = digitsValue a * 10 ^ b.length + digitsValue b
  := by
  rw [digitsValue, List.foldl_append, foldl_digitStep]
  rfl

theorem digitsValue_cons (c : Char) (s : List Char) :
  digitsValue (c :: s) = (c.toNat - 48) * 10 ^ s.length + digitsValue s
  := by
  rw [digitsValue, List.foldl_cons, foldl_digitStep, digitStep, Nat.mul_zero, Nat.zero_add]

@[simp]
theorem digitsValue_replicate_zero (j : Nat) :
  digitsValue (List.replicate j '0') = 0
  := by
  induction j with
  | zero => rfl
  | succ j ih =>
    rw [List.replicate_succ, digitsValue_cons, ih, show '0'.toNat - 48 = 0 from rfl, Nat.zero_mul]

/-- Leading zeros do not change the number. -/
theorem digitsValue_zeros_append (j : Nat) (s : List Char) :
  digitsValue (List.replicate j '0' ++ s) = digitsValue s
  := by
  rw [digitsValue_append, digitsValue_replicate_zero, Nat.zero_mul, Nat.zero_add]

/-- Trailing zeros multiply it by a power of ten. -/
theorem digitsValue_append_zeros (s : List Char) (j : Nat) :
  digitsValue (s ++ List.replicate j '0') = digitsValue s * 10 ^ j
  := by
  rw [digitsValue_append, digitsValue_replicate_zero, List.length_replicate, Nat.add_zero]

theorem toNat_sub_lt_of_mem_digitChars {c : Char} (h : c ∈ digitChars) : c.toNat - 48 < 10 := by
  have : ∀ c ∈ digitChars, c.toNat - 48 < 10 := by decide
  exact this c h

/-- A text of `n` digits stands for a number below `10 ^ n`. -/
theorem digitsValue_lt {s : List Char} (hs : ∀ c ∈ s, c ∈ digitChars) :
  digitsValue s < 10 ^ s.length
  := by
  induction s with
  | nil => exact Nat.one_pos
  | cons c s ih =>
    have hc := toNat_sub_lt_of_mem_digitChars (hs c (List.mem_cons_self c s))
    have hs' := ih fun x hx => hs x (List.mem_cons_of_mem c hx)
    calc digitsValue (c :: s)
        = (c.toNat - 48) * 10 ^ s.length + digitsValue s := digitsValue_cons c s
      _ < (c.toNat - 48 + 1) * 10 ^ s.length := by rw [Nat.succ_mul]; omega
      _ ≤ 10 * 10 ^ s.length := Nat.mul_le_mul_right _ hc
      _ = 10 ^ (c :: s).length := by rw [List.length_cons, Nat.pow_succ, Nat.mul_comm]

/-- The digits of `Nat.toDigits` are ASCII decimal digits, and they read back as the number. -/
theorem toDigits_digits (n : Nat) :
  Nat.toDigits 10 n ≠ [] ∧ (∀ c ∈ Nat.toDigits 10 n, c ∈ digitChars) ∧
    digitsValue (Nat.toDigits 10 n) = n
  := by
  induction n using Nat.strong_induction_on with
  | _ n ih =>
    by_cases h : n < 10
    · have : ∀ n < 10, Nat.toDigits 10 n ≠ [] ∧
          (∀ c ∈ Nat.toDigits 10 n, c ∈ digitChars) ∧
          digitsValue (Nat.toDigits 10 n) = n := by
        decide
      exact this n h
    · have hlast : ∀ d < 10,
          Nat.digitChar d ∈ digitChars ∧ (Nat.digitChar d).toNat - 48 = d := by decide
      obtain ⟨-, ihd, ihv⟩ := ih (n / 10) (by omega)
      obtain ⟨hmem, hval⟩ := hlast (n % 10) (Nat.mod_lt n (by decide))
      rw [toDigits_of_ge (by omega)]
      refine ⟨by simp, fun c hc => ?_, ?_⟩
      · rcases List.mem_append.mp hc with hc | hc
        · exact ihd c hc
        · rw [List.mem_singleton.mp hc]; exact hmem
      · rw [digitsValue_append, ihv, List.length_singleton, pow_one, digitsValue_cons, hval,
          List.length_nil, pow_zero, digitsValue_nil]
        omega

/-! ### What `String()` writes -/

/-- `trimTrailingZeros` takes zeros off the end and nothing else. -/
theorem trimTrailingZeros_append_zeros (s : List Char) :
  ∃ j, s = trimTrailingZeros s ++ List.replicate j '0'
  := by
  have hsplit := List.takeWhile_append_dropWhile (fun c : Char => decide (c = '0')) s.reverse
  obtain ⟨j, hzeros⟩ : ∃ j, s.reverse.takeWhile (fun c : Char => decide (c = '0')) =
      List.replicate j '0' :=
    ⟨_, List.eq_replicate_iff.mpr
      ⟨rfl, fun _ hb => by simpa using List.mem_takeWhile_imp hb⟩⟩
  refine ⟨j, ?_⟩
  calc s = (s.reverse.takeWhile (fun c : Char => decide (c = '0')) ++
        s.reverse.dropWhile (fun c : Char => decide (c = '0'))).reverse := by
          rw [hsplit, List.reverse_reverse]
    _ = _ := by rw [List.reverse_append, hzeros, List.reverse_replicate]; rfl

/-- One more trailing zero is trimmed away. -/
theorem trimTrailingZeros_append_zero (s : List Char) :
  trimTrailingZeros (s ++ ['0']) = trimTrailingZeros s
  := by
  rw [trimTrailingZeros, trimTrailingZeros, List.reverse_append, List.reverse_singleton,
    List.singleton_append, List.dropWhile_cons_of_pos (by decide)]

/-- `Int`'s text: a minus sign for a negative number, then the digits of its absolute value. -/
theorem toString_int_data (w : Int) :
  (ToString.toString w).data = (if w < 0 then ['-'] else []) ++ Nat.toDigits 10 w.natAbs
  := by
  cases w with
  | ofNat n => rw [if_neg (show ¬Int.ofNat n < 0 from not_lt.mpr (Int.ofNat_zero_le n))]; rfl
  | negSucc n => rw [if_pos (Int.negSucc_lt_zero n)]; rfl

/-- `intPart` and `fractionalPart` of `string(true)`, for the digits `str` of `|value|` and
`k = -exp`: the digits split `k` places from the right, or `0` and the digits padded with zeros
to `k` places. -/
def intFractionalParts (str : List Char) (k : Nat) : List Char × List Char :=
  if str.length > k then (str.take (str.length - k), str.drop (str.length - k))
  else (['0'], List.replicate (k - str.length) '0' ++ str)

/-- The number `string(true)` writes from its parts: the integer part, then a point and the
fractional part without its trailing zeros, unless nothing is left of it. -/
def pointText (parts : List Char × List Char) : List Char :=
  if trimTrailingZeros parts.2 = [] then parts.1 else parts.1 ++ '.' :: trimTrailingZeros parts.2

theorem rescale_zero_value (v : Int) (k : Nat) :
  (rescale ⟨v, k⟩ 0).value = v * 10 ^ k
  := by
  unfold rescale
  by_cases hk : k = 0
  · subst hk; simp
  · simp [pow10, show (0 : Int) < k by omega]

/-- `String()` of a decimal with a non-negative exponent: the integer `value * 10 ^ exp`. -/
theorem toString_data_of_nonneg (v : Int) (k : Nat) :
  (Decimal.toString ⟨v, k⟩).data =
    (if v < 0 then ['-'] else []) ++ Nat.toDigits 10 (v.natAbs * 10 ^ k)
  := by
  have hsign : v * 10 ^ k < 0 ↔ v < 0 := by
    have : (0 : Int) < 10 ^ k := by positivity
    constructor <;> intro h <;> nlinarith
  rw [toString, if_pos (Int.ofNat_zero_le k), rescale_zero_value, toString_int_data,
    Int.natAbs_mul, Int.natAbs_pow]
  simp only [hsign]
  rfl

/-- `String()` of a decimal with a negative exponent: the parts of the digits of `|value|`
around the point. -/
theorem toString_data_of_neg (v : Int) {k : Nat} (hk : 0 < k) :
  (Decimal.toString ⟨v, -k⟩).data =
    (if v < 0 then ['-'] else []) ++ pointText (intFractionalParts (Nat.toDigits 10 v.natAbs) k)
  := by
  have hk' : (-(-(k : Int))).toNat = k := by omega
  rw [toString, if_neg (show ¬(0 : Int) ≤ -(k : Int) by omega)]
  simp only [absDigits, hk', pointText, intFractionalParts]
  by_cases hv : v < 0 <;> simp only [hv, if_true, if_false, List.singleton_append, List.nil_append]

/-- The split keeps the number and has `k` fractional digits. -/
theorem intFractionalParts_spec (str : List Char) (k : Nat) (hs : ∀ c ∈ str, c ∈ digitChars) :
  ∃ a b : List Char, intFractionalParts str k = (a, b) ∧
    a ≠ [] ∧ (∀ c ∈ a ++ b, c ∈ digitChars) ∧ b.length = k ∧
    digitsValue (a ++ b) = digitsValue str
  := by
  unfold intFractionalParts
  split
  · rename_i hk
    refine ⟨_, _, rfl, List.ne_nil_of_length_pos (by rw [List.length_take]; omega),
      by rwa [List.take_append_drop], by rw [List.length_drop]; omega,
      by rw [List.take_append_drop]⟩
  · rename_i hk
    have hzero : ['0'] = List.replicate 1 '0' := rfl
    refine ⟨_, _, rfl, List.cons_ne_nil _ _, ?_, by simp; omega, ?_⟩
    · intro c hc
      simp only [List.mem_append, List.mem_singleton, List.mem_replicate] at hc
      rcases hc with rfl | ⟨-, rfl⟩ | hc
      · decide
      · decide
      · exact hs c hc
    · rw [hzero, digitsValue_zeros_append, digitsValue_zeros_append]

/-- The text of `d.String()`: a minus sign when the value is negative, the integer part, and the
fractional part after a point unless it is empty.  The parts are ASCII digits, the fractional
part has at most `-exp` of them, and together they stand for `|d|` times `10` to the number of
fractional digits. -/
theorem toString_data (d : Decimal) :
  ∃ ip fr : List Char,
    d.toString.data = (if d.value < 0 then ['-'] else []) ++ ip ++
      (if fr = [] then [] else '.' :: fr) ∧
    ip ≠ [] ∧ (∀ c ∈ ip ++ fr, c ∈ digitChars) ∧ fr.length ≤ (-d.exp).toNat ∧
    (digitsValue (ip ++ fr) : ℚ) / 10 ^ fr.length = |d.val|
  := by
  obtain ⟨v, e⟩ := d
  by_cases he : 0 ≤ e
  · obtain ⟨k, rfl⟩ : ∃ k : Nat, e = k := ⟨e.toNat, (Int.toNat_of_nonneg he).symm⟩
    obtain ⟨hne, hd, hv⟩ := toDigits_digits (v.natAbs * 10 ^ k)
    refine ⟨_, [], by rw [toString_data_of_nonneg]; simp, hne, by simpa using hd, by simp, ?_⟩
    rw [List.append_nil, hv]
    simp [val, abs_mul, Nat.cast_natAbs]
  · obtain ⟨k, rfl⟩ : ∃ k : Nat, e = -k := ⟨(-e).toNat, by omega⟩
    obtain ⟨-, hd, hv⟩ := toDigits_digits v.natAbs
    obtain ⟨a, b, hab, ha, habd, hb, habv⟩ :=
      intFractionalParts_spec (Nat.toDigits 10 v.natAbs) k hd
    obtain ⟨j, hj⟩ := trimTrailingZeros_append_zeros b
    have hlen : (trimTrailingZeros b).length + j = k := by
      rw [← hb, hj, List.length_append, List.length_replicate, ← hj]
    have hkey : digitsValue (a ++ trimTrailingZeros b) * 10 ^ j = v.natAbs := by
      rw [← digitsValue_append_zeros, List.append_assoc, ← hj, habv, hv]
    refine ⟨a, trimTrailingZeros b, ?_, ha, fun c hc => ?_,
      by show _ ≤ (-(-(k : Int))).toNat; omega, ?_⟩
    · rw [toString_data_of_neg v (by omega), hab, pointText]
      by_cases hf : trimTrailingZeros b = [] <;> simp [hf]
    · rcases List.mem_append.mp hc with hc | hc
      · exact habd c (List.mem_append_left _ hc)
      · exact habd c (List.mem_append_right _ (hj ▸ List.mem_append_left _ hc))
    · have habs : |(v : ℚ)| = (v.natAbs : ℚ) := by simp [Nat.cast_natAbs]
      show _ = |(v : ℚ) * 10 ^ (-(k : Int))|
      rw [abs_mul, abs_of_pos (show (0 : ℚ) < 10 ^ (-(k : Int)) by positivity), habs, ← hkey,
        zpow_neg, zpow_natCast, ← hlen, pow_add, ← div_eq_mul_inv]
      push_cast
      exact (mul_div_mul_right _ _ (by positivity)).symm

/-! ### What `NewFromString` reads -/

/-- A digit is one byte of UTF-8, which `digitValue` reads as the digit and which is no sign. -/
theorem byte_of_mem_digitChars {c : Char} (h : c ∈ digitChars) :
  String.utf8EncodeChar c = [UInt8.ofNat c.toNat] ∧
    digitValue (UInt8.ofNat c.toNat) = some (c.toNat - 48) ∧
    UInt8.ofNat c.toNat ≠ 43 ∧ UInt8.ofNat c.toNat ≠ 45
  := by
  have : ∀ c ∈ digitChars, String.utf8EncodeChar c = [UInt8.ofNat c.toNat] ∧
      digitValue (UInt8.ofNat c.toNat) = some (c.toNat - 48) ∧
      UInt8.ofNat c.toNat ≠ 43 ∧ UInt8.ofNat c.toNat ≠ 45 := by decide
  exact this c h

/-- The bytes of a text of an optional minus sign and digits, one per character. -/
theorem goBytes_digits (neg : Prop) [Decidable neg] {s : List Char}
    (hs : ∀ c ∈ s, c ∈ digitChars) :
  goBytes (String.mk ((if neg then ['-'] else []) ++ s)) =
    (if neg then [45] else []) ++ s.map fun c => UInt8.ofNat c.toNat
  := by
  have hdigits : s.flatMap String.utf8EncodeChar = s.map fun c => UInt8.ofNat c.toNat := by
    induction s with
    | nil => rfl
    | cons c s ih =>
      rw [List.flatMap_cons, (byte_of_mem_digitChars (hs c (List.mem_cons_self c s))).1,
        ih fun x hx => hs x (List.mem_cons_of_mem c hx)]
      rfl
  rw [goBytes, List.flatMap_append, hdigits]
  split <;> rfl

/-- The digit loop reads digit bytes as the number their text stands for, from any start, up to
its bound. -/
theorem parseUintLoop_digits {maxVal : Nat} (hmax : maxVal ≤ 2 ^ 64 - 1) (m : Nat)
    {s : List Char} (hs : ∀ c ∈ s, c ∈ digitChars)
    (h : m * 10 ^ s.length + digitsValue s ≤ maxVal) :
  parseUintLoop maxVal m (s.map fun c => UInt8.ofNat c.toNat) =
    .ok (m * 10 ^ s.length + digitsValue s)
  := by
  induction s generalizing m with
  | nil => simp [parseUintLoop]
  | cons c s ih =>
    have hc := hs c (List.mem_cons_self c s)
    have hstep : m * 10 ^ (c :: s).length + digitsValue (c :: s) =
        (m * 10 + (c.toNat - 48)) * 10 ^ s.length + digitsValue s := by
      rw [digitsValue_cons, List.length_cons]
      ring
    have hle : m * 10 + (c.toNat - 48) ≤ maxVal :=
      le_trans (Nat.le_mul_of_pos_right _ (Nat.pos_pow_of_pos _ (by decide)))
        (le_trans (Nat.le_add_right _ _) (hstep ▸ h))
    rw [List.map_cons, parseUintLoop, (byte_of_mem_digitChars hc).2.1]
    dsimp only
    rw [if_neg (by unfold parseUintCutoff; omega), if_neg (by omega), hstep,
      ih _ (fun x hx => hs x (List.mem_cons_of_mem c hx)) (hstep ▸ h)]

/-- `ParseUint(_, 10, 64)` reads non-empty digit text of a number below `2 ^ 64`. -/
theorem parseUint_digits {s : List Char} (hs : ∀ c ∈ s, c ∈ digitChars) (hne : s ≠ [])
    (h : digitsValue s ≤ 2 ^ 64 - 1) :
  parseUint (s.map fun c => UInt8.ofNat c.toNat) 64 = .ok (digitsValue s)
  := by
  have hloop := parseUintLoop_digits le_rfl 0 hs (by rwa [Nat.zero_mul, Nat.zero_add])
  rw [Nat.zero_mul, Nat.zero_add] at hloop
  rw [parseUint, if_neg (by simpa using hne), hloop]

/-- `ParseInt(_, 10, 64)` reads an optional minus sign and non-empty digit text of a number below
`2 ^ 63`. -/
theorem parseInt_digits (neg : Prop) [Decidable neg] {s : List Char}
    (hs : ∀ c ∈ s, c ∈ digitChars) (hne : s ≠ []) (h : digitsValue s < 2 ^ 63) :
  parseInt ((if neg then [45] else []) ++ s.map fun c => UInt8.ofNat c.toNat) 64 =
    .ok (if neg then -(digitsValue s : Int) else digitsValue s)
  := by
  have hu := parseUint_digits hs hne (by omega)
  obtain ⟨c, t, rfl⟩ := List.exists_cons_of_ne_nil hne
  have hc := byte_of_mem_digitChars (hs c (List.mem_cons_self c t))
  rw [List.map_cons] at hu
  by_cases hneg : neg
  · simp [parseInt, hneg, hu]
    omega
  · simp [parseInt, hneg, hu, hc.2.2.1, hc.2.2.2]
    omega

/-- `SetString`'s sum of the digits, taken in `Int`, is the sum taken in `Nat`. -/
theorem foldl_digits_intCast (m : Nat) (l : List Nat) :
  (l.flatMap fun a => [(a : Int)]).foldl (fun n d => 10 * n + d) (m : Int) =
    ((l.foldl (fun n d => 10 * n + d) m : Nat) : Int)
  := by
  induction l generalizing m with
  | nil => rfl
  | cons a l ih =>
    rw [List.flatMap_cons, List.singleton_append, List.foldl_cons, List.foldl_cons, ← ih]
    push_cast
    rfl

/-- `digitValue` reads each byte of digit text. -/
theorem mapM_digitValue_digits {s : List Char} (hs : ∀ c ∈ s, c ∈ digitChars) :
  (s.map fun c => UInt8.ofNat c.toNat).mapM digitValue = some (s.map fun c => c.toNat - 48)
  := by
  induction s with
  | nil => rfl
  | cons c s ih =>
    rw [List.map_cons, List.mapM_cons, (byte_of_mem_digitChars (hs c (List.mem_cons_self c s))).2.1,
      ih fun x hx => hs x (List.mem_cons_of_mem c hx)]
    rfl

/-- `big.Int.SetString(_, 10)` reads an optional minus sign and non-empty digit text. -/
theorem setString10_digits (neg : Prop) [Decidable neg] {s : List Char}
    (hs : ∀ c ∈ s, c ∈ digitChars) (hne : s ≠ []) :
  setString10 ((if neg then [45] else []) ++ s.map fun c => UInt8.ofNat c.toNat) =
    some (if neg then -(digitsValue s : Int) else digitsValue s)
  := by
  have hm := mapM_digitValue_digits hs
  have hv : ((s.map fun c => (c.toNat - 48 : Nat)).flatMap fun a => [(a : Int)]).foldl
      (fun n d => 10 * n + d) (0 : Int) = ((digitsValue s : Nat) : Int) := by
    rw [show (0 : Int) = ((0 : Nat) : Int) from rfl, foldl_digits_intCast, List.foldl_map]
    rfl
  obtain ⟨c, t, rfl⟩ := List.exists_cons_of_ne_nil hne
  have hc := byte_of_mem_digitChars (hs c (List.mem_cons_self c t))
  rw [List.map_cons] at hm
  by_cases hneg : neg
  · simp only [if_pos hneg, List.singleton_append, setString10, List.map_cons, List.cons_ne_nil,
      if_false, hm, Option.map_some', if_true]
    exact congrArg (fun x => some (-x)) hv
  · simp only [if_neg hneg, List.nil_append]
    unfold setString10
    delta setString10.match_1
    simp only [dif_neg hc.2.2.1, dif_neg hc.2.2.2, List.map_cons, List.cons_ne_nil, if_false, hm,
      Option.map_some', Bool.false_eq_true]
    exact congrArg some hv

/-- The integer of the digits of a decimal, read from an optional minus sign and non-empty digit
text, whichever of `ParseInt` and `SetString` reads it. -/
theorem parseDigits_digits (neg : Prop) [Decidable neg] {s : List Char}
    (hs : ∀ c ∈ s, c ∈ digitChars) (hne : s ≠ []) :
  parseDigits (goBytes (String.mk ((if neg then ['-'] else []) ++ s))) =
    some (if neg then -(digitsValue s : Int) else digitsValue s)
  := by
  rw [goBytes_digits neg hs, parseDigits]
  by_cases hlen :
      ((if neg then [(45 : UInt8)] else []) ++ s.map fun c => UInt8.ofNat c.toNat).length ≤ 18
  · rw [if_pos hlen]
    have hs18 : s.length ≤ 18 := le_trans (by simp) hlen
    have hlt : digitsValue s < 2 ^ 63 :=
      calc digitsValue s < 10 ^ s.length := digitsValue_lt hs
        _ ≤ 10 ^ 18 := Nat.pow_le_pow_right (by decide) hs18
        _ < 2 ^ 63 := by norm_num
    rw [parseInt_digits neg hs hne hlt]
  · rw [if_neg hlen]
    exact setString10_digits neg hs hne

/-- A text with one point: its count of points, where the point stands, and the two sides of
it. -/
theorem point_split {pre fr : List Char} (hpre : '.' ∉ pre) (hfr : '.' ∉ fr) :
  List.count '.' (pre ++ '.' :: fr) = 1 ∧
    (pre ++ '.' :: fr).findIdx? (· = '.') = some pre.length ∧
    (pre ++ '.' :: fr).take pre.length = pre ∧
    (pre ++ '.' :: fr).drop (pre.length + 1) = fr ∧
    (pre ++ '.' :: fr).length - (pre.length + 1) = fr.length
  := by
  refine ⟨?_, ?_, List.take_left' rfl, by rw [← List.drop_drop, List.drop_left' rfl]; rfl,
    by simp; omega⟩
  · rw [List.count_append, List.count_eq_zero.mpr hpre, List.count_cons_self,
      List.count_eq_zero.mpr hfr]
  · rw [List.findIdx?_append,
      List.findIdx?_eq_none_iff.mpr fun c hc => decide_eq_false (ne_of_mem_of_not_mem hc hpre)]
    simp

/-- `NewFromString` of an optional minus sign, digits, and a point and more digits unless there
are none: the digits on both sides read as one integer, with the exponent minus the count of
digits after the point. -/
theorem newFromString_text (neg : Prop) [Decidable neg] {ip fr : List Char} (hip : ip ≠ [])
    (hd : ∀ c ∈ ip ++ fr, c ∈ digitChars) (hfr : fr.length ≤ 2 ^ 31) :
  newFromString (String.mk ((if neg then ['-'] else []) ++ ip ++
      (if fr = [] then [] else '.' :: fr))) =
    .ok ⟨if neg then -(digitsValue (ip ++ fr) : Int) else digitsValue (ip ++ fr),
      -(fr.length : Int)⟩
  := by
  have hdigit : ∀ c ∈ digitChars, c ≠ '.' ∧ c ≠ 'E' ∧ c ≠ 'e' := by decide
  have hchar : ∀ c ∈ (if neg then ['-'] else []) ++ (ip ++ fr),
      c ≠ '.' ∧ c ≠ 'E' ∧ c ≠ 'e' := by
    intro c hc
    rcases List.mem_append.mp hc with hc | hc
    · split at hc
      · rw [List.mem_singleton.mp hc]; decide
      · exact absurd hc (List.not_mem_nil c)
    · exact hdigit c (hd c hc)
  have hparse := parseDigits_digits neg hd (List.append_ne_nil_of_left_ne_nil hip fr)
  rw [← List.append_assoc] at hchar hparse
  generalize (if neg then ['-'] else []) ++ ip = pre at hchar hparse ⊢
  have hpre : ∀ c ∈ pre, c ≠ '.' ∧ c ≠ 'E' ∧ c ≠ 'e' :=
    fun c hc => hchar c (List.mem_append_left _ hc)
  have hnoE : pre.findIdx? (fun c => c = 'E' || c = 'e') = none :=
    List.findIdx?_eq_none_iff.mpr fun c hc => by simpa using (hpre c hc).2
  by_cases hf : fr = []
  · subst hf
    simp only [List.append_nil, if_true] at hparse ⊢
    simp only [newFromString, hnoE, pure_bind, List.count_eq_zero.mpr fun h => (hpre '.' h).1 rfl,
      List.findIdx?_eq_none_iff.mpr fun c hc => decide_eq_false (hpre c hc).1, hparse]
    rw [if_neg (by decide), if_neg (by norm_num)]
    rfl
  · have hfrDot : ∀ c ∈ fr, c ≠ '.' ∧ c ≠ 'E' ∧ c ≠ 'e' :=
      fun c hc => hchar c (List.mem_append_right _ hc)
    obtain ⟨hcount, hidx, htake, hdrop, hlen⟩ :=
      point_split (fun h => (hpre '.' h).1 rfl) (fun h => (hfrDot '.' h).1 rfl)
    have hE : (pre ++ '.' :: fr).findIdx? (fun c => c = 'E' || c = 'e') = none := by
      rw [List.findIdx?_append, hnoE]
      simpa using fun c hc => (hfrDot c hc).2
    have hfrInt : (fr.length : Int) ≤ 2 ^ 31 := by exact_mod_cast hfr
    simp only [newFromString, if_neg hf, hE, pure_bind, hcount, hidx, htake, hdrop, hlen, hparse]
    rw [if_neg (lt_irrefl 1), if_neg (by omega), zero_sub]
    rfl

/-! ### One number, one text -/

@[simp]
theorem trimTrailingZeros_replicate (m : Nat) :
  trimTrailingZeros (List.replicate m '0') = []
  := by
  induction m with
  | zero => rfl
  | succ m ih => rw [List.replicate_succ', trimTrailingZeros_append_zero, ih]

/-- One more digit and one more fractional place: the same integer part, and the fractional part
with one more trailing zero. -/
theorem intFractionalParts_append_zero (str : List Char) (k : Nat) :
  intFractionalParts (str ++ ['0']) (k + 1) =
    ((intFractionalParts str k).1, (intFractionalParts str k).2 ++ ['0'])
  := by
  unfold intFractionalParts
  rw [List.length_append, List.length_singleton]
  by_cases h : str.length > k
  · rw [if_pos (by omega), if_pos h, show str.length + 1 - (k + 1) = str.length - k by omega,
      List.take_append_of_le_length (by omega), List.drop_append_of_le_length (by omega)]
  · rw [if_neg (by omega), if_neg h, show k + 1 - (str.length + 1) = k - str.length by omega,
      List.append_assoc]

theorem pointText_append_zero (a b : List Char) :
  pointText (a, b ++ ['0']) = pointText (a, b)
  := by
  simp only [pointText, trimTrailingZeros_append_zero]

/-- Zero is written `0`, whatever its exponent. -/
theorem toString_zero (e : Int) :
  Decimal.toString ⟨0, e⟩ = "0"
  := by
  apply String.ext
  by_cases he : 0 ≤ e
  · obtain ⟨k, rfl⟩ : ∃ k : Nat, e = k := ⟨e.toNat, (Int.toNat_of_nonneg he).symm⟩
    rw [toString_data_of_nonneg]
    simp
    rfl
  · obtain ⟨k, rfl⟩ : ∃ k : Nat, e = -k := ⟨(-e).toNat, by omega⟩
    have hparts : intFractionalParts (Nat.toDigits 10 (0 : Int).natAbs) k =
        (['0'], List.replicate (k - 1) '0' ++ ['0']) := by
      rw [intFractionalParts, if_neg (by show ¬1 > k; omega)]
      rfl
    rw [toString_data_of_neg 0 (by omega), hparts, pointText, ← List.replicate_succ',
      trimTrailingZeros_replicate]
    rfl

/-- Ten times the value at one place less stands for the same number and is written alike. -/
theorem toString_mul_ten (v e : Int) :
  Decimal.toString ⟨v * 10, e - 1⟩ = Decimal.toString ⟨v, e⟩
  := by
  by_cases hv : v = 0
  · rw [hv, Int.zero_mul, toString_zero, toString_zero]
  have hsign : v * 10 < 0 ↔ v < 0 := by omega
  have habs : (v * 10).natAbs = v.natAbs * 10 := Int.natAbs_mul v 10
  have hdig : Nat.toDigits 10 (v * 10).natAbs = Nat.toDigits 10 v.natAbs ++ ['0'] := by
    rw [habs, toDigits_of_ge (by omega), Nat.mul_div_cancel _ (by decide), Nat.mul_mod_left]
    rfl
  apply String.ext
  rcases lt_trichotomy e 0 with he | rfl | he
  · obtain ⟨k, rfl⟩ : ∃ k : Nat, e = -k := ⟨(-e).toNat, by omega⟩
    rw [show -(k : Int) - 1 = -((k + 1 : Nat) : Int) by push_cast; ring,
      toString_data_of_neg _ (by omega), toString_data_of_neg _ (by omega), hdig,
      intFractionalParts_append_zero, pointText_append_zero]
    simp only [hsign]
  · have hne := (toDigits_digits v.natAbs).1
    have hparts :
        intFractionalParts (Nat.toDigits 10 v.natAbs) 0 = (Nat.toDigits 10 v.natAbs, []) := by
      rw [intFractionalParts, if_pos (List.length_pos.mpr hne), Nat.sub_zero, List.take_length,
        List.drop_length]
    have hone := intFractionalParts_append_zero (Nat.toDigits 10 v.natAbs) 0
    rw [Nat.zero_add, hparts] at hone
    have hzero := toString_data_of_nonneg v 0
    rw [Nat.cast_zero, Nat.pow_zero, Nat.mul_one] at hzero
    rw [show (0 : Int) - 1 = -((1 : Nat) : Int) by norm_num, toString_data_of_neg _ Nat.one_pos,
      hzero, hdig, hone, List.nil_append]
    simp only [hsign, pointText, show trimTrailingZeros ['0'] = [] from rfl, if_true]
  · obtain ⟨k, rfl⟩ : ∃ k : Nat, e = k + 1 := ⟨(e - 1).toNat, by omega⟩
    rw [show (k : Int) + 1 - 1 = (k : Int) by ring, show (k : Int) + 1 = ((k + 1 : Nat) : Int) by
      push_cast; ring, toString_data_of_nonneg, toString_data_of_nonneg, habs, Nat.pow_succ]
    simp only [hsign, Nat.mul_assoc, Nat.mul_comm 10]

theorem toString_mul_pow_ten (v e : Int) (n : Nat) :
  Decimal.toString ⟨v * 10 ^ n, e - n⟩ = Decimal.toString ⟨v, e⟩
  := by
  induction n with
  | zero => simp
  | succ n ih =>
    rw [show v * 10 ^ (n + 1) = v * 10 ^ n * 10 by ring,
      show e - ((n + 1 : Nat) : Int) = e - n - 1 by push_cast; ring, toString_mul_ten, ih]

/-- Two decimals of the same number, the second with the larger exponent, are written alike. -/
theorem toString_eq_of_exp_le {d d' : Decimal} (hle : d.exp ≤ d'.exp) (h : d.val = d'.val) :
  d.toString = d'.toString
  := by
  obtain ⟨v, e⟩ := d
  obtain ⟨v', e'⟩ := d'
  obtain ⟨n, hn⟩ : ∃ n : Nat, e' - e = n := ⟨(e' - e).toNat, by simp at hle; omega⟩
  have hv : v = v' * 10 ^ n := by
    have h10 : (10 : ℚ) ^ e ≠ 0 := zpow_ne_zero _ (by norm_num)
    have hq : (v : ℚ) = v' * 10 ^ (e' - e) := by
      rw [zpow_sub₀ (by norm_num), ← mul_div_assoc, eq_div_iff h10]
      exact h
    rw [hn, zpow_natCast] at hq
    exact_mod_cast hq
  rw [hv, show e = e' - n by omega, toString_mul_pow_ten]

/-- `String()` depends on the number only. -/
theorem toString_eq_of_val_eq {d d' : Decimal} (h : d.val = d'.val) :
  d.toString = d'.toString
  := by
  rcases le_total d.exp d'.exp with hle | hle
  · exact toString_eq_of_exp_le hle h
  · exact (toString_eq_of_exp_le hle h.symm).symm

/-! ### The round trip -/

/-- `NewFromString` reads `d.String()` back as a decimal of the same number, when `d`'s exponent
is an `int32`. -/
theorem newFromString_toString_val (d : Decimal) (hd : -2 ^ 31 ≤ d.exp) :
  ∃ r, newFromString d.toString = .ok r ∧ r.val = d.val
  := by
  obtain ⟨ip, fr, hdata, hip, hdig, hfrk, hval⟩ := toString_data d
  have hpos : (0 : ℚ) < 10 ^ d.exp := zpow_pos (by norm_num) _
  refine ⟨_, by rw [String.ext hdata]; exact newFromString_text (d.value < 0) hip hdig (by omega),
    ?_⟩
  show ((if d.value < 0 then -(digitsValue (ip ++ fr) : Int) else digitsValue (ip ++ fr) : Int) :
    ℚ) * 10 ^ (-(fr.length : Int)) = d.val
  rw [zpow_neg, zpow_natCast]
  by_cases hv : d.value < 0
  · have hneg : d.val < 0 := mul_neg_of_neg_of_pos (by exact_mod_cast hv) hpos
    rw [abs_of_neg hneg] at hval
    rw [if_pos hv]
    push_cast
    rw [neg_mul, ← div_eq_mul_inv, hval, neg_neg]
  · have hnn : 0 ≤ d.val := mul_nonneg (by exact_mod_cast not_lt.mp hv) hpos.le
    rw [abs_of_nonneg hnn] at hval
    rw [if_neg hv]
    push_cast
    rw [← div_eq_mul_inv, hval]

/-- For decimals whose exponents are `int32`s, `NewFromString(d.String())` succeeds with a decimal
of the same number, and two decimals are written alike exactly when they stand for the same
number. -/
theorem toString_roundTrip {d d' : Decimal} (hd : -2 ^ 31 ≤ d.exp) (hd' : -2 ^ 31 ≤ d'.exp) :
  (∃ r, newFromString d.toString = .ok r ∧ r.val = d.val) ∧
    (d.toString = d'.toString ↔ d.val = d'.val)
  := by
  obtain ⟨r, hr, hrv⟩ := newFromString_toString_val d hd
  refine ⟨⟨r, hr, hrv⟩, fun h => ?_, toString_eq_of_val_eq⟩
  obtain ⟨r', hr', hrv'⟩ := newFromString_toString_val d' hd'
  rw [h, hr'] at hr
  rw [← hrv, ← hrv', Except.ok.inj hr]

/-- `1.50` and `1.5` are both written `1.5`, which reads back as `1.5`. -/
theorem toString_roundTrip_one_point_five :
  (-2 ^ 31 ≤ (new 150 (-2)).exp ∧ -2 ^ 31 ≤ (new 15 (-1)).exp) ∧
    (∃ r, newFromString (new 150 (-2)).toString = .ok r ∧ r.val = (new 150 (-2)).val) ∧
    ((new 150 (-2)).toString = (new 15 (-1)).toString ↔ (new 150 (-2)).val = (new 15 (-1)).val)
  := ⟨⟨by decide, by decide⟩, toString_roundTrip (by decide) (by decide)⟩

end Lucendex.Decimal
