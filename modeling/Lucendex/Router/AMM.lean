import Lucendex.Decimal.Semantics
import Lucendex.Router.Pathfinder

/-!
# The constant-product output of a pool

`calculateAMMOutput` computes `x' = amountIn * (1 - fee / 10000)` and then
`x' * R_out / (R_in + x')`.  `Sub`, `Mul` and `Add` are exact, and so is the fee's `Div`, whose
quotient has at most four fractional digits (`feeMultiplier_val`).  The last `Div` rounds the
exact quotient to sixteen fractional digits, half away from zero.  So on every pool with
positive reserves, for every fee of at most 10000 bps, in either direction and for every input
`amountIn ≥ 0`, the output is a nonnegative multiple of `10 ^ -16` within half a unit of the
exact constant-product output `exactAMMOutput` (`calculateAMMOutput_nearest`).

Half a unit is all that can be said.  The rounding can go up, past the exact output and up to
the whole reserve: `10 ^ 18` into a pool of reserves 1 and 1 gives exactly 1, where the exact
output is below 1, and the pool's constant product after the trade would be zero
(`calculateAMMOutput_reaches_reserve`).  And the rounding merges nearby outputs, so the output
is not strictly increasing in the input, nor strictly decreasing in the fee
(`calculateAMMOutput_not_strict`).  It is monotone, not strictly: on a nonnegative quotient
`Div` rounds half up, so it keeps the order of the exact outputs
(`calculateAMMOutput_monotone`), and the strict order of exact outputs a unit of the last digit
apart (`calculateAMMOutput_strict_of_apart`).
-/

namespace Lucendex.Router

open Lucendex.Decimal

/-! ### The exact operations of the formula -/

/-- The fee multiplier is `1 - bps / 10000` exactly, for every integer `bps`. -/
theorem feeMultiplier_val (bps : Int) :
  (feeMultiplier bps).val = 1 - bps / 10000
  := by
  rw [feeMultiplier, sub_val, divNonzero,
    @div_val_of_grid _ _ _ (bps * 10 ^ 12) (Option.some_get _).symm ?grid]
  · simp [newFromInt, val]
  case grid =>
    simp only [newFromInt, val, divisionPrecision, zpow_zero, mul_one, zpow_neg]
    push_cast
    ring

/-- The constant-product output `x' * R_out / (R_in + x')` with `x' = amountIn * (1 - fee / 10000)`,
in exact arithmetic. -/
def exactAMMOutput (pool : AMMPool) (amountIn : Decimal) (asset1ToAsset2 : Bool) : ℚ :=
  let reserveIn := if asset1ToAsset2 then pool.asset1Reserve else pool.asset2Reserve
  let reserveOut := if asset1ToAsset2 then pool.asset2Reserve else pool.asset1Reserve
  let x := amountIn.val * (1 - pool.tradingFeeBps / 10000)
  x * reserveOut.val / (reserveIn.val + x)

/-- A fee of at most 10000 bps leaves a nonnegative part of the input. -/
theorem feeFactor_nonneg {bps : Int} (hf : bps ≤ 10000) : 0 ≤ 1 - (bps : ℚ) / 10000 := by
  rw [sub_nonneg, div_le_one (by norm_num)]
  exact_mod_cast hf

/-! ### Within half a unit of the exact output -/

section Nearest

variable {reserveIn reserveOut amountIn : Decimal} {bps : Int}

/-- The formula on positive reserves, a fee of at most 10000 bps and a nonnegative input returns a
nonnegative multiple of `10 ^ -16` within half a unit of its exact value. -/
theorem ammFormula_nearest (hIn : 0 < reserveIn.val) (hOut : 0 < reserveOut.val) (hf : bps ≤ 10000)
    (ha : 0 ≤ amountIn.val) :
  ∃ y, ((amountIn.mul (feeMultiplier bps)).mul reserveOut).div
      (reserveIn.add (amountIn.mul (feeMultiplier bps))) = some y ∧
    y.exp = -divisionPrecision ∧ 0 ≤ y.val ∧
    |y.val - amountIn.val * (1 - bps / 10000) * reserveOut.val /
      (reserveIn.val + amountIn.val * (1 - bps / 10000))| ≤ 10 ^ (-divisionPrecision) / 2
  := by
  have hx : 0 ≤ amountIn.val * (1 - bps / 10000) := mul_nonneg ha (feeFactor_nonneg hf)
  have hden : (reserveIn.add (amountIn.mul (feeMultiplier bps))).value ≠ 0 := fun h0 => by
    have h0 := val_eq_zero_iff.mpr h0
    rw [add_val, mul_val, feeMultiplier_val] at h0
    linarith
  obtain ⟨y, hy⟩ := Option.isSome_iff_exists.mp
    (@div_isSome ((amountIn.mul (feeMultiplier bps)).mul reserveOut) _ hden)
  obtain ⟨hexp, hb⟩ := divRound_spec hy
  rw [mul_val, add_val, mul_val, feeMultiplier_val] at hb
  exact ⟨y, hy, hexp, val_nonneg_of_near hexp (div_nonneg (mul_nonneg hx hOut.le) (by linarith)) hb, hb⟩

end Nearest

/-- On every pool with positive reserves and a fee of at most 10000 bps, in either direction and
for every input `amountIn ≥ 0`, `calculateAMMOutput` returns a nonnegative decimal with sixteen
fractional digits, within half a unit of the last digit of the exact constant-product output. -/
theorem calculateAMMOutput_nearest {pool : AMMPool} {amountIn : Decimal} (asset1ToAsset2 : Bool)
    (h1 : 0 < pool.asset1Reserve.val) (h2 : 0 < pool.asset2Reserve.val)
    (hf : pool.tradingFeeBps ≤ 10000) (ha : 0 ≤ amountIn.val) :
  ∃ y, calculateAMMOutput pool amountIn asset1ToAsset2 = some y ∧ y.exp = -divisionPrecision ∧
    0 ≤ y.val ∧ |y.val - exactAMMOutput pool amountIn asset1ToAsset2| ≤ 10 ^ (-divisionPrecision) / 2
  := by
  cases asset1ToAsset2
  · exact ammFormula_nearest h2 h1 hf ha
  · exact ammFormula_nearest h1 h2 hf ha

/-- The pool of the code's test, 10000 and 15000 at 30 bps, for an input of 100. -/
theorem calculateAMMOutput_nearest_test :
  (let pool : AMMPool := ⟨⟨"XRP", ""⟩, ⟨"USD", "rvYAfWj5gh67oV6fW32ZzP3Aw4Eubs59B"⟩,
      newFromInt 10000, newFromInt 15000, 30⟩;
    0 < pool.asset1Reserve.val ∧ 0 < pool.asset2Reserve.val ∧ pool.tradingFeeBps ≤ 10000 ∧
      0 ≤ (newFromInt 100).val ∧
      ∃ y, calculateAMMOutput pool (newFromInt 100) true = some y ∧ y.exp = -divisionPrecision ∧
        0 ≤ y.val ∧ |y.val - exactAMMOutput pool (newFromInt 100) true| ≤ 10 ^ (-divisionPrecision) / 2)
  := by
  have hv : ∀ v : Int, (newFromInt v).val = v := fun v => by simp [newFromInt, val]
  refine ⟨by rw [hv]; norm_num, by rw [hv]; norm_num, by decide, by rw [hv]; norm_num, ?_⟩
  exact calculateAMMOutput_nearest true (by rw [hv]; norm_num) (by rw [hv]; norm_num) (by decide)
    (by rw [hv]; norm_num)

/-! ### Monotone, not strictly -/

/-- The exact constant-product output does not decrease with the input after the fee. -/
theorem constantProduct_mono {rIn rOut x x' : ℚ} (hIn : 0 < rIn) (hOut : 0 < rOut) (hx : 0 ≤ x)
    (hle : x ≤ x') :
  x * rOut / (rIn + x) ≤ x' * rOut / (rIn + x')
  := by
  rw [div_le_div_iff₀ (by linarith) (by linarith)]
  nlinarith [mul_le_mul_of_nonneg_left hle (mul_pos hIn hOut).le]

section Monotone

variable {reserveIn reserveOut a a' : Decimal} {bps bps' : Int}

/-- The formula returns, for two inputs and two fees, outputs in the order of the inputs after
the fee, and strictly so when the exact outputs are a unit of the last digit apart. -/
theorem ammFormula_order (hIn : 0 < reserveIn.val) (hOut : 0 < reserveOut.val) (hf : bps ≤ 10000)
    (hf' : bps' ≤ 10000) (ha : 0 ≤ a.val) (ha' : 0 ≤ a'.val)
    (hle : a.val * (1 - bps / 10000) ≤ a'.val * (1 - bps' / 10000)) :
  ∃ y y', ((a.mul (feeMultiplier bps)).mul reserveOut).div
      (reserveIn.add (a.mul (feeMultiplier bps))) = some y ∧
    ((a'.mul (feeMultiplier bps')).mul reserveOut).div
      (reserveIn.add (a'.mul (feeMultiplier bps'))) = some y' ∧ y.val ≤ y'.val ∧
    (a.val * (1 - bps / 10000) * reserveOut.val / (reserveIn.val + a.val * (1 - bps / 10000)) +
        10 ^ (-divisionPrecision) ≤
      a'.val * (1 - bps' / 10000) * reserveOut.val / (reserveIn.val + a'.val * (1 - bps' / 10000)) →
      y.val < y'.val)
  := by
  obtain ⟨y, hy, -⟩ := ammFormula_nearest hIn hOut hf ha
  obtain ⟨y', hy', -⟩ := ammFormula_nearest hIn hOut hf' ha'
  have hx := mul_nonneg ha (feeFactor_nonneg hf)
  have hq : 0 ≤ a.val * (1 - bps / 10000) * reserveOut.val /
      (reserveIn.val + a.val * (1 - bps / 10000)) :=
    div_nonneg (mul_nonneg hx hOut.le) (by linarith)
  refine ⟨y, y', hy, hy', div_le_div_of_le hy hy' ?_ ?_, fun hgap => div_lt_div_of_apart hy hy' ?_ ?_⟩ <;>
    simp only [mul_val, add_val, feeMultiplier_val]
  · exact hq
  · exact constantProduct_mono hIn hOut hx hle
  · exact hq
  · exact hgap

end Monotone

/-- On every pool with positive reserves, in either direction, for fees of at most 10000 bps and
nonnegative inputs: a larger input gives an output at least as large, and a larger fee an output
at most as large.  The spec's strict monotonicity fails (`calculateAMMOutput_not_strict`); this
is what the rounding keeps of it. -/
theorem calculateAMMOutput_monotone {pool : AMMPool} (asset1ToAsset2 : Bool)
    (h1 : 0 < pool.asset1Reserve.val) (h2 : 0 < pool.asset2Reserve.val) :
  (∀ a a' : Decimal, pool.tradingFeeBps ≤ 10000 → 0 ≤ a.val → a.val ≤ a'.val →
    ∃ y y', calculateAMMOutput pool a asset1ToAsset2 = some y ∧
      calculateAMMOutput pool a' asset1ToAsset2 = some y' ∧ y.val ≤ y'.val) ∧
  (∀ (a : Decimal) (f f' : Int), f ≤ f' → f' ≤ 10000 → 0 ≤ a.val →
    ∃ y y', calculateAMMOutput { pool with tradingFeeBps := f' } a asset1ToAsset2 = some y ∧
      calculateAMMOutput { pool with tradingFeeBps := f } a asset1ToAsset2 = some y' ∧
      y.val ≤ y'.val)
  := by
  refine ⟨fun a a' hf ha hle => ?_, fun a f f' hff hf ha => ?_⟩
  · have hle' := mul_le_mul_of_nonneg_right hle (feeFactor_nonneg hf)
    cases asset1ToAsset2
    · exact (ammFormula_order h2 h1 hf hf ha (ha.trans hle) hle').imp
        fun y ⟨y', hy, hy', hyy, _⟩ => ⟨y', hy, hy', hyy⟩
    · exact (ammFormula_order h1 h2 hf hf ha (ha.trans hle) hle').imp
        fun y ⟨y', hy, hy', hyy, _⟩ => ⟨y', hy, hy', hyy⟩
  · have hle' : a.val * (1 - (f' : ℚ) / 10000) ≤ a.val * (1 - f / 10000) :=
      mul_le_mul_of_nonneg_left (by gcongr) ha
    cases asset1ToAsset2
    · exact (ammFormula_order h2 h1 hf (hff.trans hf) ha ha hle').imp
        fun y ⟨y', hy, hy', hyy, _⟩ => ⟨y', hy, hy', hyy⟩
    · exact (ammFormula_order h1 h2 hf (hff.trans hf) ha ha hle').imp
        fun y ⟨y', hy, hy', hyy, _⟩ => ⟨y', hy, hy', hyy⟩

/-- The pool of the code's test: 100 gives at most what 200 gives, and a fee of 30 bps at least
what a fee of 100 bps gives. -/
theorem calculateAMMOutput_monotone_test :
  (let pool : AMMPool := ⟨⟨"XRP", ""⟩, ⟨"USD", "rvYAfWj5gh67oV6fW32ZzP3Aw4Eubs59B"⟩,
      newFromInt 10000, newFromInt 15000, 30⟩;
    0 < pool.asset1Reserve.val ∧ 0 < pool.asset2Reserve.val ∧
      (∀ a a' : Decimal, pool.tradingFeeBps ≤ 10000 → 0 ≤ a.val → a.val ≤ a'.val →
        ∃ y y', calculateAMMOutput pool a true = some y ∧
          calculateAMMOutput pool a' true = some y' ∧ y.val ≤ y'.val) ∧
      (∀ (a : Decimal) (f f' : Int), f ≤ f' → f' ≤ 10000 → 0 ≤ a.val →
        ∃ y y', calculateAMMOutput { pool with tradingFeeBps := f' } a true = some y ∧
          calculateAMMOutput { pool with tradingFeeBps := f } a true = some y' ∧
          y.val ≤ y'.val))
  := by
  have hv : ∀ v : Int, (newFromInt v).val = v := fun v => by simp [newFromInt, val]
  have h1 : (0 : ℚ) < (newFromInt 10000).val := by rw [hv]; norm_num
  have h2 : (0 : ℚ) < (newFromInt 15000).val := by rw [hv]; norm_num
  exact ⟨h1, h2, calculateAMMOutput_monotone true h1 h2⟩

/-! ### What the rounding breaks -/

/-- `10 ^ 18` into a pool of reserves 1 and 1 with no fee: the exact output `10^18 / (10^18 + 1)`
is below 1, and `Div` rounds it up to 1, the whole output reserve.  The output is above the exact
bound, it is not below the reserve, and the constant product after the trade, `(1 + 10^18) * 0`,
is below the one before. -/
theorem calculateAMMOutput_reaches_reserve :
  (let pool : AMMPool := ⟨⟨"XRP", ""⟩, ⟨"USD", "rvYAfWj5gh67oV6fW32ZzP3Aw4Eubs59B"⟩,
      newFromInt 1, newFromInt 1, 0⟩;
    let y := new (10 ^ 16) (-16);
    calculateAMMOutput pool (newFromInt (10 ^ 18)) true = some y ∧
      exactAMMOutput pool (newFromInt (10 ^ 18)) true < y.val ∧ y.val = pool.asset2Reserve.val ∧
      (pool.asset1Reserve.val + (newFromInt (10 ^ 18)).val) * (pool.asset2Reserve.val - y.val) <
        pool.asset1Reserve.val * pool.asset2Reserve.val)
  := by
  refine ⟨by decide, ?_, ?_, ?_⟩ <;> norm_num [exactAMMOutput, newFromInt, new, val]

/-- On the pool of reserves 1 and 1 with no fee, the inputs 1 and `1 + 10^-20` give the same
output 0.5, and the input `10^-20` gives the output 0 with a fee of 0 bps and with a fee of 1 bp. -/
theorem calculateAMMOutput_not_strict :
  (let pool : AMMPool := ⟨⟨"XRP", ""⟩, ⟨"USD", "rvYAfWj5gh67oV6fW32ZzP3Aw4Eubs59B"⟩,
      newFromInt 1, newFromInt 1, 0⟩;
    (newFromInt 1).lessThan (new (10 ^ 20 + 1) (-20)) = true ∧
      calculateAMMOutput pool (newFromInt 1) true = some (new (5 * 10 ^ 15) (-16)) ∧
      calculateAMMOutput pool (new (10 ^ 20 + 1) (-20)) true = some (new (5 * 10 ^ 15) (-16)) ∧
      zero.lessThan (new 1 (-20)) = true ∧
      calculateAMMOutput pool (new 1 (-20)) true = some (new 0 (-16)) ∧
      calculateAMMOutput { pool with tradingFeeBps := 1 } (new 1 (-20)) true = some (new 0 (-16)))
  := by decide

/-! ### Strict a unit apart -/

/-- What the rounding keeps of strict monotonicity.  On every pool with positive reserves, in
either direction, for fees of at most 10000 bps and nonnegative inputs: a larger input gives an
output at least as large, and a strictly larger one as soon as the exact outputs are a unit of
the sixteenth fractional digit apart; a larger fee gives an output at most as large, and a
strictly smaller one as soon as the exact outputs are a unit apart.  Closer exact outputs can
round to one output (`calculateAMMOutput_not_strict`). -/
theorem calculateAMMOutput_strict_of_apart {pool : AMMPool} (asset1ToAsset2 : Bool)
    (h1 : 0 < pool.asset1Reserve.val) (h2 : 0 < pool.asset2Reserve.val) :
  (∀ a a' : Decimal, pool.tradingFeeBps ≤ 10000 → 0 ≤ a.val → a.val ≤ a'.val →
    ∃ y y', calculateAMMOutput pool a asset1ToAsset2 = some y ∧
      calculateAMMOutput pool a' asset1ToAsset2 = some y' ∧ y.val ≤ y'.val ∧
      (exactAMMOutput pool a asset1ToAsset2 + 10 ^ (-divisionPrecision) ≤
        exactAMMOutput pool a' asset1ToAsset2 → y.val < y'.val)) ∧
  (∀ (a : Decimal) (f f' : Int), f ≤ f' → f' ≤ 10000 → 0 ≤ a.val →
    ∃ y y', calculateAMMOutput { pool with tradingFeeBps := f' } a asset1ToAsset2 = some y ∧
      calculateAMMOutput { pool with tradingFeeBps := f } a asset1ToAsset2 = some y' ∧
      y.val ≤ y'.val ∧
      (exactAMMOutput { pool with tradingFeeBps := f' } a asset1ToAsset2 +
          10 ^ (-divisionPrecision) ≤ exactAMMOutput { pool with tradingFeeBps := f } a asset1ToAsset2 →
        y.val < y'.val))
  := by
  refine ⟨fun a a' hf ha hle => ?_, fun a f f' hff hf ha => ?_⟩
  · have hle' := mul_le_mul_of_nonneg_right hle (feeFactor_nonneg hf)
    cases asset1ToAsset2
    · exact ammFormula_order h2 h1 hf hf ha (ha.trans hle) hle'
    · exact ammFormula_order h1 h2 hf hf ha (ha.trans hle) hle'
  · have hle' : a.val * (1 - (f' : ℚ) / 10000) ≤ a.val * (1 - f / 10000) :=
      mul_le_mul_of_nonneg_left (by gcongr) ha
    cases asset1ToAsset2
    · exact ammFormula_order h2 h1 hf (hff.trans hf) ha ha hle'
    · exact ammFormula_order h1 h2 hf (hff.trans hf) ha ha hle'

/-- The pool of the code's test, reserves 10000 and 15000 at 30 bps. -/
theorem calculateAMMOutput_strict_of_apart_test :
  (let pool : AMMPool := ⟨⟨"XRP", ""⟩, ⟨"USD", "rvYAfWj5gh67oV6fW32ZzP3Aw4Eubs59B"⟩,
      newFromInt 10000, newFromInt 15000, 30⟩;
    0 < pool.asset1Reserve.val ∧ 0 < pool.asset2Reserve.val ∧
      (∀ a a' : Decimal, pool.tradingFeeBps ≤ 10000 → 0 ≤ a.val → a.val ≤ a'.val →
        ∃ y y', calculateAMMOutput pool a true = some y ∧
          calculateAMMOutput pool a' true = some y' ∧ y.val ≤ y'.val ∧
          (exactAMMOutput pool a true + 10 ^ (-divisionPrecision) ≤ exactAMMOutput pool a' true →
            y.val < y'.val)) ∧
      (∀ (a : Decimal) (f f' : Int), f ≤ f' → f' ≤ 10000 → 0 ≤ a.val →
        ∃ y y', calculateAMMOutput { pool with tradingFeeBps := f' } a true = some y ∧
          calculateAMMOutput { pool with tradingFeeBps := f } a true = some y' ∧
          y.val ≤ y'.val ∧
          (exactAMMOutput { pool with tradingFeeBps := f' } a true + 10 ^ (-divisionPrecision) ≤
            exactAMMOutput { pool with tradingFeeBps := f } a true → y.val < y'.val)))
  := by
  have hv : ∀ v : Int, (newFromInt v).val = v := fun v => by simp [newFromInt, val]
  have h1 : (0 : ℚ) < (newFromInt 10000).val := by rw [hv]; norm_num
  have h2 : (0 : ℚ) < (newFromInt 15000).val := by rw [hv]; norm_num
  exact ⟨h1, h2, calculateAMMOutput_strict_of_apart true h1 h2⟩

end Lucendex.Router
