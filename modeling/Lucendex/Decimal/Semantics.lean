import Mathlib.Algebra.Order.Field.Rat
import Mathlib.Tactic.LinearCombination
import Mathlib.Tactic.Linarith
import Lucendex.Decimal.Basic

/-!
# What a decimal stands for

`Decimal.val` reads a decimal as the rational `value * 10 ^ exp`.  Over it, the operations of
`shopspring/decimal` that the router and the handlers call mean what their names say.

* `Rescale` to a smaller exponent keeps the number, and so does `RescalePair`.
* `Add`, `Sub` and `Mul` are the operations of `ℚ`, and `Cmp` is its order, so `LessThan`,
  `LessThanOrEqual` and `GreaterThan` are `<`, `≤` and `>` on the numbers.
* `QuoRem` splits the dividend into a quotient with `precision` fractional digits and a
  remainder below one unit of the divisor at that precision, of the dividend's sign.
* `DivRound`, and so `Div`, returns a multiple of `10 ^ -precision` within half a unit of the
  exact quotient, and so a nearest one.
-/

namespace Lucendex.Decimal

/-! ### Numbers and exponents -/

@[simp] theorem val_mk (value exp : Int) : (Decimal.mk value exp).val = value * 10 ^ exp := rfl

/-- One unit at the exponent `e`. -/
theorem val_new_one (e : Int) : (new 1 e).val = 10 ^ e := by
  simp [new]

@[simp] theorem pow10_cast (k : Nat) : ((pow10 k : Int) : ℚ) = 10 ^ k := by
  simp [pow10]

theorem pow10_ne_zero (k : Nat) : pow10 k ≠ 0 :=
  Int.natCast_ne_zero.mpr (pow_ne_zero _ (by norm_num))

theorem ten_zpow_pos (e : Int) : (0 : ℚ) < 10 ^ e := zpow_pos (by norm_num) e

/-- Moving a factor `10 ^ k` of the value into the exponent. -/
theorem mul_pow10_val (v k e e' : Int) (hk : k = e - e') (h : 0 ≤ k) :
    ((v * pow10 k.toNat : Int) : ℚ) * 10 ^ e' = v * 10 ^ e := by
  rw [Int.cast_mul, pow10_cast, mul_assoc, ← zpow_natCast, ← zpow_add₀ (by norm_num),
    Int.toNat_of_nonneg h, hk, sub_add_cancel]

/-- A decimal stands for zero exactly when its value is zero. -/
theorem val_eq_zero_iff {d : Decimal} : d.val = 0 ↔ d.value = 0 := by
  simp [val, (ten_zpow_pos _).ne']

/-- A decimal is positive exactly when its value is. -/
theorem val_pos_iff {d : Decimal} : 0 < d.val ↔ 0 < d.value := by
  rw [val, mul_pos_iff_of_pos_right (ten_zpow_pos _), Int.cast_pos]

/-- A decimal is negative exactly when its value is. -/
theorem val_neg_iff {d : Decimal} : d.val < 0 ↔ d.value < 0 := by
  rw [val, ← zero_mul ((10 : ℚ) ^ d.exp), mul_lt_mul_right (ten_zpow_pos _), Int.cast_lt_zero]

@[simp] theorem rescale_exp (d : Decimal) (exp : Int) : (d.rescale exp).exp = exp := by
  unfold rescale
  split_ifs <;> first | rfl | omega

/-- Rescaling to a smaller exponent keeps the number. -/
theorem rescale_val {d : Decimal} {exp : Int} (h : exp ≤ d.exp) :
    (d.rescale exp).val = d.val := by
  unfold rescale
  split_ifs with h1 h2
  · exact mul_pow10_val d.value _ d.exp exp rfl (by omega)
  · omega
  · rfl

/-- `RescalePair` keeps its first number. -/
theorem rescalePair_fst_val (d1 d2 : Decimal) : (rescalePair d1 d2).1.val = d1.val := by
  unfold rescalePair
  split_ifs <;> first | rfl | exact rescale_val (by omega)

/-- `RescalePair` keeps its second number. -/
theorem rescalePair_snd_val (d1 d2 : Decimal) : (rescalePair d1 d2).2.val = d2.val := by
  unfold rescalePair
  split_ifs <;> first | rfl | exact rescale_val (by omega)

/-- `RescalePair` brings both to the smaller exponent. -/
theorem rescalePair_fst_exp (d1 d2 : Decimal) :
    (rescalePair d1 d2).1.exp = min d1.exp d2.exp := by
  unfold rescalePair
  split_ifs <;> simp only [rescale_exp] <;> omega

theorem rescalePair_exp (d1 d2 : Decimal) :
    (rescalePair d1 d2).2.exp = (rescalePair d1 d2).1.exp := by
  unfold rescalePair
  split_ifs <;> simp only [rescale_exp]; omega

/-! ### The exact operations -/

theorem add_exp (d d2 : Decimal) : (d.add d2).exp = min d.exp d2.exp :=
  rescalePair_fst_exp d d2

theorem sub_exp (d d2 : Decimal) : (d.sub d2).exp = min d.exp d2.exp :=
  rescalePair_fst_exp d d2

theorem add_val (d d2 : Decimal) : (d.add d2).val = d.val + d2.val := by
  rw [← rescalePair_fst_val d d2, ← rescalePair_snd_val d d2]
  simp only [add, val, rescalePair_exp, Int.cast_add, add_mul]

theorem sub_val (d d2 : Decimal) : (d.sub d2).val = d.val - d2.val := by
  rw [← rescalePair_fst_val d d2, ← rescalePair_snd_val d d2]
  simp only [sub, val, rescalePair_exp, Int.cast_sub, sub_mul]

theorem mul_val (d d2 : Decimal) : (d.mul d2).val = d.val * d2.val := by
  simp only [mul, val, Int.cast_mul, zpow_add₀ (show (10 : ℚ) ≠ 0 by norm_num)]
  ring

theorem abs_val (d : Decimal) : d.abs.val = |d.val| := by
  simp only [abs, val, abs_mul, abs_of_pos (ten_zpow_pos d.exp), Int.natCast_natAbs,
    Int.cast_abs]

/-- `Cmp` compares the values at the common exponent, where `10 ^ exp` is a positive factor of
both, so it compares the numbers. -/
theorem cmp_eq_compare_val (d d2 : Decimal) : d.cmp d2 = compare d.val d2.val := by
  have hmono : StrictMono fun v : Int => (v : ℚ) * 10 ^ (rescalePair d d2).1.exp :=
    fun _ _ h => mul_lt_mul_of_pos_right (Int.cast_lt.mpr h) (ten_zpow_pos _)
  rw [eq_comm, compare_iff, ← rescalePair_fst_val d d2, ← rescalePair_snd_val d d2]
  have h := (compare_iff (rescalePair d d2).1.value (rescalePair d d2).2.value).mp rfl
  simpa only [val, rescalePair_exp] using hmono.compares.mpr h

theorem lessThan_iff {d d2 : Decimal} : d.lessThan d2 = true ↔ d.val < d2.val := by
  rw [lessThan, decide_eq_true_eq, cmp_eq_compare_val, compare_lt_iff_lt]

theorem lessThanOrEqual_iff {d d2 : Decimal} : d.lessThanOrEqual d2 = true ↔ d.val ≤ d2.val := by
  rw [lessThanOrEqual, decide_eq_true_eq, cmp_eq_compare_val, compare_le_iff_le]

theorem greaterThan_iff {d d2 : Decimal} : d.greaterThan d2 = true ↔ d2.val < d.val := by
  rw [greaterThan, decide_eq_true_eq, cmp_eq_compare_val, compare_gt_iff_gt]

/-! ### Truncated remainders -/

/-- `Int.tmod` is the remainder of `|a|` by `|b|`, up to sign. -/
theorem natAbs_tmod (a b : Int) : (a.tmod b).natAbs = a.natAbs % b.natAbs := by
  cases a <;> cases b <;> simp only [Int.tmod, Int.natAbs_neg] <;> rfl

/-- `Int.tmod` of a nonpositive dividend is nonpositive. -/
theorem tmod_nonpos {a : Int} (b : Int) (h : a ≤ 0) : a.tmod b ≤ 0 := by
  cases a with
  | ofNat m =>
    obtain rfl : m = 0 := by rw [Int.ofNat_eq_coe] at h; omega
    simp
  | negSucc m => cases b <;> simp only [Int.tmod, Int.ofNat_eq_coe] <;> omega

/-- The truncated remainder is below the divisor. -/
theorem abs_tmod_lt (a : Int) {b : Int} (hb : b ≠ 0) : |(a.tmod b : ℚ)| < |(b : ℚ)| := by
  rw [← Int.cast_abs, ← Int.cast_abs, Int.cast_lt, Int.abs_eq_natAbs, Int.abs_eq_natAbs,
    natAbs_tmod]
  exact Int.ofNat_lt.mpr (Nat.mod_lt _ (Int.natAbs_pos.mpr hb))

/-- The truncated remainder has the sign of the dividend. -/
theorem tmod_mul_self_nonneg (a b : Int) : 0 ≤ (a.tmod b : ℚ) * a := by
  rcases le_total 0 a with h | h
  · exact mul_nonneg (Int.cast_nonneg.mpr (Int.tmod_nonneg b h)) (Int.cast_nonneg.mpr h)
  · exact mul_nonneg_of_nonpos_of_nonpos (Int.cast_nonpos.mpr (tmod_nonpos b h))
      (Int.cast_nonpos.mpr h)


/-! ### Division -/

/-- The truncated division of `a` by `b ≠ 0`, read at a positive scale `c`: the parts add up,
the remainder is below the divisor, and it has the dividend's sign. -/
theorem tdiv_tmod_scaled (a : Int) {b : Int} (hb : b ≠ 0) {c : ℚ} (hc : 0 < c) :
    (a : ℚ) * c = a.tdiv b * (b * c) + a.tmod b * c ∧
      |(a.tmod b : ℚ) * c| < |(b : ℚ) * c| ∧ 0 ≤ (a.tmod b : ℚ) * c * (a * c) := by
  refine ⟨?_, ?_, ?_⟩
  · have h := congrArg (fun z : Int => (z : ℚ) * c) (Int.tdiv_add_tmod a b)
    simp only [Int.cast_add, Int.cast_mul] at h
    linear_combination -h
  · rw [abs_mul, abs_mul, abs_of_pos hc]
    exact mul_lt_mul_of_pos_right (abs_tmod_lt a hb) hc
  · rw [show (a.tmod b : ℚ) * c * (a * c) = a.tmod b * a * (c * c) by ring]
    exact mul_nonneg (tmod_mul_self_nonneg a b) (mul_self_nonneg c)

/-- `QuoRem` splits the dividend: the quotient has the exponent `-precision`, the remainder is
below the divisor times `10 ^ -precision`, and it has the dividend's sign. -/
theorem quoRem_spec {d d2 q r : Decimal} {precision : Int}
    (h : d.quoRem d2 precision = some (q, r)) :
    d2.value ≠ 0 ∧ q.exp = -precision ∧ d.val = q.val * d2.val + r.val ∧
      |r.val| < |d2.val| * 10 ^ (-precision) ∧ 0 ≤ r.val * d.val ∧
      (d.value = 0 → r.value = 0) := by
  unfold quoRem at h
  dsimp only at h
  split_ifs at h with h0 he
  all_goals obtain ⟨rfl, rfl⟩ := Prod.mk.inj (Option.some.inj h)
  · -- the divisor is scaled up by `10 ^ -e`
    have hbb : ((d2.value * pow10 (-(d.exp - d2.exp - -precision)).toNat : Int) : ℚ) *
        10 ^ d.exp = d2.val * 10 ^ (-precision) := by
      rw [mul_pow10_val d2.value _ (d2.exp + -precision) d.exp (by ring) (by omega),
        zpow_add₀ (by norm_num), val, mul_assoc]
    obtain ⟨hid, hlt, hsg⟩ := tdiv_tmod_scaled d.value (mul_ne_zero h0 (pow10_ne_zero _))
      (ten_zpow_pos d.exp)
    rw [hbb] at hid hlt
    refine ⟨h0, rfl, ?_, ?_, hsg, fun hz => by simp [hz]⟩
    · rw [val, hid]
      simp only [val_mk]
      ring
    · rw [abs_mul d2.val, abs_of_pos (ten_zpow_pos _)] at hlt
      exact hlt
  · -- the dividend is scaled up by `10 ^ e`
    have haa : ((d.value * pow10 (d.exp - d2.exp - -precision).toNat : Int) : ℚ) *
        10 ^ (-precision + d2.exp) = d.val :=
      mul_pow10_val d.value _ d.exp _ (by ring) (by omega)
    obtain ⟨hid, hlt, hsg⟩ := tdiv_tmod_scaled (d.value * pow10 (d.exp - d2.exp - -precision).toNat)
      h0 (ten_zpow_pos (-precision + d2.exp))
    rw [haa] at hid hsg
    refine ⟨h0, rfl, ?_, ?_, hsg, fun hz => by simp [hz]⟩
    · rw [hid, val_mk, val_mk, val, zpow_add₀ (by norm_num)]
      ring
    · refine hlt.trans_eq ?_
      rw [zpow_add₀ (by norm_num), val, abs_mul, abs_mul, abs_mul,
        abs_of_pos (ten_zpow_pos (-precision)), abs_of_pos (ten_zpow_pos d2.exp)]
      ring

/-- `DivRound`'s three answers.  The exact quotient is the truncated quotient `q0` plus the
remainder's share `t`, less than one unit and of the quotient's sign; `DivRound` returns `q0`
when `2 |t|` is below one unit, and otherwise `q0` moved one unit away from zero. -/
theorem divRound_cases {d d2 q : Decimal} {precision : Int}
    (h : d.divRound d2 precision = some q) :
    ∃ (q0 : Decimal) (t : ℚ), q0.exp = -precision ∧ d.val / d2.val = q0.val + t ∧
      |t| < 10 ^ (-precision) ∧ (0 ≤ d.val / d2.val → 0 ≤ t) ∧ (d.val / d2.val < 0 → t ≤ 0) ∧
      ((2 * |t| < 10 ^ (-precision) ∧ q = q0) ∨
        (10 ^ (-precision) ≤ 2 * |t| ∧ d.val / d2.val < 0 ∧ q = q0.sub (new 1 (-precision))) ∨
        (10 ^ (-precision) ≤ 2 * |t| ∧ 0 ≤ d.val / d2.val ∧ q = q0.add (new 1 (-precision)))) := by
  obtain ⟨⟨q0, r⟩, hqr, rfl⟩ := Option.map_eq_some'.mp h
  obtain ⟨h0, hexp, hid, hlt, hsg, hz⟩ := quoRem_spec hqr
  have hD : d2.val ≠ 0 := fun h => h0 (val_eq_zero_iff.mp h)
  -- the exact quotient is `q0` plus the remainder's share
  have hx : d.val / d2.val = q0.val + r.val / d2.val := by
    rw [hid, add_div, mul_div_assoc, div_self hD, mul_one]
  have ht : |r.val / d2.val| < 10 ^ (-precision) := by
    rwa [abs_div, div_lt_iff₀ (abs_pos.mpr hD), mul_comm]
  have htx : 0 ≤ r.val / d2.val * (d.val / d2.val) := by
    rw [div_mul_div_comm]
    exact div_nonneg hsg (mul_self_nonneg _)
  have htz : d.val / d2.val = 0 → r.val / d2.val = 0 := fun h0x => by
    rcases div_eq_zero_iff.mp h0x with h0x | h0x
    · rw [val_eq_zero_iff.mpr (hz (val_eq_zero_iff.mp h0x)), zero_div]
    · exact absurd h0x hD
  -- the two tests of `DivRound`, read on the share and on the exact quotient
  have hhalf : (Decimal.mk (2 * r.value.natAbs) (r.exp + precision)).val =
      2 * |r.val| * 10 ^ precision := by
    rw [val_mk, zpow_add₀ (by norm_num), val, abs_mul, abs_of_pos (ten_zpow_pos _)]
    push_cast
    ring
  have hcond : (Decimal.mk (2 * r.value.natAbs) (r.exp + precision)).cmp d2.abs = .lt ↔
      2 * |r.val / d2.val| < 10 ^ (-precision) := by
    rw [cmp_eq_compare_val, compare_lt_iff_lt, hhalf, abs_val, abs_div, mul_div_assoc',
      div_lt_iff₀ (abs_pos.mpr hD), ← lt_div_iff₀ (ten_zpow_pos _), zpow_neg, div_eq_mul_inv,
      mul_comm |d2.val|]
  have hsign : d.value.sign * d2.value.sign < 0 ↔ d.val / d2.val < 0 := by
    rw [← Int.sign_mul, ← not_le, Int.sign_nonneg, not_le, div_neg_iff, mul_neg_iff, val_pos_iff,
      val_pos_iff, val_neg_iff, val_neg_iff]
  generalize r.val / d2.val = t at hx ht htx htz hcond
  generalize d.val / d2.val = x at hx htx htz hsign
  have hpos : 0 ≤ x → 0 ≤ t := fun hx0 => (hx0.lt_or_eq).elim
    (fun hp => not_lt.mp fun hn => (mul_neg_of_neg_of_pos hn hp).not_le htx) fun h0x => (htz h0x.symm).ge
  have hneg : x < 0 → t ≤ 0 := fun hn => not_lt.mp fun hp => (mul_neg_of_pos_of_neg hp hn).not_le htx
  refine ⟨q0, t, hexp, hx, ht, hpos, hneg, ?_⟩
  dsimp only
  split_ifs with h1 h2
  · exact .inl ⟨hcond.mp h1, rfl⟩
  · exact .inr (.inl ⟨not_lt.mp (mt hcond.mpr h1), hsign.mp h2, rfl⟩)
  · exact .inr (.inr ⟨not_lt.mp (mt hcond.mpr h1), not_lt.mp (mt hsign.mpr h2), rfl⟩)

/-- `DivRound` rounds the exact quotient to a multiple of `10 ^ -precision`, within half a unit
of it. -/
theorem divRound_spec {d d2 q : Decimal} {precision : Int}
    (h : d.divRound d2 precision = some q) :
    q.exp = -precision ∧ |q.val - d.val / d2.val| ≤ 10 ^ (-precision) / 2 := by
  obtain ⟨q0, t, hexp, hx, ht, hpos, hneg, hq⟩ := divRound_cases h
  generalize d.val / d2.val = x at hx hpos hneg hq
  have ht' := abs_lt.mp ht
  rcases hq with ⟨h1, rfl⟩ | ⟨hge, hn, rfl⟩ | ⟨hge, hp, rfl⟩
  · -- below half a unit: the truncated quotient
    refine ⟨hexp, ?_⟩
    rw [hx, sub_add_cancel_left, abs_neg]
    linarith
  · -- a negative quotient, rounded down
    rw [abs_of_nonpos (hneg hn)] at hge
    refine ⟨by simp [sub_exp, hexp, new], ?_⟩
    rw [sub_val, hx, val_new_one, abs_le]
    constructor <;> linarith
  · -- a nonnegative quotient, rounded up
    rw [abs_of_nonneg (hpos hp)] at hge
    refine ⟨by simp [add_exp, hexp, new], ?_⟩
    rw [add_val, hx, val_new_one, abs_le]
    constructor <;> linarith

/-- On a nonnegative quotient, `DivRound` rounds half up: the exact quotient lies in the half-open
interval of one unit around the answer. -/
theorem divRound_half_up {d d2 q : Decimal} {precision : Int}
    (h : d.divRound d2 precision = some q) (hx0 : 0 ≤ d.val / d2.val) :
    q.val - 10 ^ (-precision) / 2 ≤ d.val / d2.val ∧ d.val / d2.val < q.val + 10 ^ (-precision) / 2 := by
  obtain ⟨q0, t, -, hx, ht, hpos, -, hq⟩ := divRound_cases h
  have htp := hpos hx0
  rw [abs_of_nonneg htp] at ht hq
  rcases hq with ⟨h1, rfl⟩ | ⟨-, hn, -⟩ | ⟨hge, -, rfl⟩
  · rw [hx]
    constructor <;> linarith
  · exact absurd hx0 (not_le.mpr hn)
  · rw [add_val, val_new_one, hx]
    constructor <;> linarith

/-- A multiple of `10 ^ -p` within half a unit of the multiple `n * 10 ^ -p` is that multiple. -/
theorem val_eq_of_near_grid {q : Decimal} {p n : Int} (hq : q.exp = -p)
    (h : |q.val - n * 10 ^ (-p)| ≤ 10 ^ (-p) / 2) :
    q.val = n * 10 ^ (-p) := by
  have hu := ten_zpow_pos (-p)
  rw [val, hq, ← sub_mul, abs_mul, abs_of_pos hu] at h
  have hlt : |((q.value - n : Int) : ℚ)| < 1 := by
    push_cast
    nlinarith
  have heq : q.value = n := sub_eq_zero.mp (Int.abs_lt_one_iff.mp (by exact_mod_cast hlt))
  rw [val, hq, heq]

/-- A multiple of `10 ^ -p` within half a unit of a nonnegative number is nonnegative. -/
theorem val_nonneg_of_near {q : Decimal} {p : Int} {x : ℚ} (hq : q.exp = -p) (hx : 0 ≤ x)
    (h : |q.val - x| ≤ 10 ^ (-p) / 2) :
    0 ≤ q.val := by
  have hu := ten_zpow_pos (-p)
  have hge : -(10 ^ (-p) / 2) ≤ q.val := by linarith [(abs_le.mp h).1]
  rw [val, hq] at hge ⊢
  have hv : (-1 : ℚ) < q.value := by nlinarith
  exact mul_nonneg (by exact_mod_cast (show (-1 : Int) < q.value by exact_mod_cast hv)) hu.le

/-- `Div` is exact on a quotient with at most `DivisionPrecision` fractional digits. -/
theorem div_val_of_grid {d d2 q : Decimal} {n : Int} (h : d.div d2 = some q)
    (hn : d.val / d2.val = n * 10 ^ (-divisionPrecision)) :
    q.val = d.val / d2.val := by
  obtain ⟨hexp, hb⟩ := divRound_spec h
  rw [hn] at hb ⊢
  exact val_eq_of_near_grid hexp hb

/-- On nonnegative quotients `Div` is monotone: it rounds half up there. -/
theorem div_le_div_of_le {d d2 e e2 q q' : Decimal} (h : d.div d2 = some q) (h' : e.div e2 = some q')
    (hx : 0 ≤ d.val / d2.val) (hle : d.val / d2.val ≤ e.val / e2.val) :
    q.val ≤ q'.val := by
  have hu := ten_zpow_pos (-divisionPrecision)
  have hq : q.val = q.value * 10 ^ (-divisionPrecision) := by rw [val, (divRound_spec h).1]
  have hq' : q'.val = q'.value * 10 ^ (-divisionPrecision) := by rw [val, (divRound_spec h').1]
  have hlt : (q.value : ℚ) < q'.value + 1 := by
    have h1 := (divRound_half_up h hx).1
    have h2 := (divRound_half_up h' (hx.trans hle)).2
    rw [hq] at h1
    rw [hq'] at h2
    nlinarith
  have hint : q.value ≤ q'.value := Int.lt_add_one_iff.mp (by exact_mod_cast hlt)
  rw [hq, hq']
  exact mul_le_mul_of_nonneg_right (by exact_mod_cast hint) hu.le

/-- On nonnegative quotients a unit apart, `Div` keeps the strict order: the first rounds to at
most half a unit above its quotient, the second to more than half a unit below its own. -/
theorem div_lt_div_of_apart {d d2 e e2 q q' : Decimal} (h : d.div d2 = some q)
    (h' : e.div e2 = some q') (hx : 0 ≤ d.val / d2.val)
    (hgap : d.val / d2.val + 10 ^ (-divisionPrecision) ≤ e.val / e2.val) :
    q.val < q'.val := by
  have hu := ten_zpow_pos (-divisionPrecision)
  have h1 := (divRound_half_up h hx).1
  have h2 := (divRound_half_up h' (by linarith)).2
  linarith

/-- `Div` returns a nearest decimal with `DivisionPrecision` fractional digits to the exact
quotient: its exponent is `-16`, and no multiple of `10 ^ -16` is closer. -/
theorem div_nearest {d d2 q : Decimal} (h : d.div d2 = some q) :
    q.exp = -divisionPrecision ∧ ∀ m : Int,
      |q.val - d.val / d2.val| ≤ |(new m (-divisionPrecision)).val - d.val / d2.val| := by
  obtain ⟨hexp, hb⟩ := divRound_spec h
  refine ⟨hexp, fun m => ?_⟩
  by_cases hm : m = q.value
  · rw [hm, ← hexp]
    rfl
  -- another multiple of `10 ^ -16` is at least one unit away from `q`
  have hgap : 10 ^ (-divisionPrecision) ≤ |(new m (-divisionPrecision)).val - q.val| := by
    rw [new, val_mk, val, hexp, ← sub_mul, abs_mul, abs_of_pos (ten_zpow_pos _)]
    refine le_mul_of_one_le_left (ten_zpow_pos _).le ?_
    exact_mod_cast Int.one_le_abs (sub_ne_zero.mpr hm)
  have htri := abs_sub_le (new m (-divisionPrecision)).val (d.val / d2.val) q.val
  rw [abs_sub_comm (d.val / d2.val)] at htri
  linarith

end Lucendex.Decimal
