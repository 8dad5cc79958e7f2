import DocScript.Decimal.Positional
import DocScript.Proofs.LiteralFronts
import DocScript.Proofs.ValueOrder
import Mathlib.Algebra.Order.Field.Power
import Mathlib.Algebra.Order.Field.Rat
import Mathlib.Tactic.FieldSimp
import Mathlib.Tactic.Positivity
import Mathlib.Tactic.Ring

/-!
# Numbers that are read off their texts

The text of a number has the fewest digits that read back. How they are found does not matter
here: whatever decimal is written, it is one that is rounded to the number. All that is rounded
to a number makes up an interval around it, and the intervals of two numbers do not overlap; two
neighbours share an end at most, which is rounded to the one with the even significand. So a
decimal tells which number it is written for, and positional notation tells which decimal it is.
Only zero has two forms, with the same text.

**Results.**
* `Decimal.partsOf_eq`: the parts of a number and its form as sign, significand and exponent.
* `Decimal.Binary.rounds_shortestFrom`: what is written is rounded to the number.
* `Decimal.Binary.eq_of_rounds`: nothing is rounded to two numbers.
* `Decimal.valueOf_chars`: the number that a decimal in positional notation stands for.
* `Decimal.numberChars_eq_iff`: numbers have the same text just if they are equal.
-/

namespace DocScript
namespace Decimal

section Parts

open Float.Model (Format UnpackedFloat)
open Float.Model.UnpackedFloat (Sign unpackMantissa unpackExponent unpackSign)

/-- Whether a sign is the minus sign. -/
def isMinus : UnpackedFloat.Sign → Bool
  | .negative => true
  | .positive => false

/-- Below the least significand of an exponent, but for the least exponent, numbers lie closer. -/
def Binary.scaled (m : Nat) (e : Int) : Binary :=
  ⟨m, e, m = twoPow 52 && -1074 < e⟩

@[simp]
theorem Binary.scaled_significand (m : Nat) (e : Int) : (scaled m e).significand = m := rfl

@[simp]
theorem Binary.scaled_exponent (m : Nat) (e : Int) : (scaled m e).exponent = e := rfl

theorem Binary.scaled_inj {m n : Nat} {e f : Int} : scaled m e = scaled n f ↔ m = n ∧ e = f := by
  constructor
  · intro h
    exact ⟨congrArg significand h, congrArg exponent h⟩
  · rintro ⟨rfl, rfl⟩
    rfl

/-- The parts of a number that is given by its sign, significand and exponent. -/
def Parts.ofUnpacked : UnpackedFloat → Parts
  | .notANumber => .undefined
  | .infinity sign => .infinite (isMinus sign)
  | .zero sign => .zero (isMinus sign)
  | .finite sign m e _ => .finite (isMinus sign) (.scaled m e)

theorem Parts.ofUnpacked_finite (sign : Sign) (m : Nat) (e : Int) (h : 0 < m) :
    ofUnpacked (.finite sign m e h) = .finite (isMinus sign) (.scaled m e) := rfl

/-- The forms that the parts of a number have, each sign on its own. -/
theorem Parts.ofUnpacked_cases (x : UnpackedFloat) :
    ofUnpacked x = .undefined ∨ (∃ negative, ofUnpacked x = .zero negative) ∨
    ofUnpacked x = .infinite true ∨ ofUnpacked x = .infinite false ∨
    (∃ m e, ofUnpacked x = .finite true (.scaled m e)) ∨
    ∃ m e, ofUnpacked x = .finite false (.scaled m e) := by
  cases x with
  | notANumber =>
      exact .inl rfl
  | zero sign =>
      exact .inr (.inl ⟨_, rfl⟩)
  | infinity sign =>
      cases sign with
      | negative =>
          exact .inr (.inr (.inl rfl))
      | positive =>
          exact .inr (.inr (.inr (.inl rfl)))
  | finite sign m e =>
      cases sign with
      | negative =>
          exact .inr (.inr (.inr (.inr (.inl ⟨m, e, rfl⟩))))
      | positive =>
          exact .inr (.inr (.inr (.inr (.inr ⟨m, e, rfl⟩))))

theorem unpackMantissa_toNat (b : BitVec Format.binary64.numBits) :
    (unpackMantissa b).toNat = b.toNat % 2 ^ 52 := by
  simp [unpackMantissa]

/-- The significand of a normal number has a leading one that its bits leave out. -/
theorem one_append_unpackMantissa_toNat (b : BitVec Format.binary64.numBits) :
    (1#1 ++ unpackMantissa b).toNat = twoPow 52 + b.toNat % twoPow 52 := by
  have hbelow : b.toNat % 2 ^ 52 < 2 ^ 52 := Nat.mod_lt _ (by decide)
  rw [BitVec.toNat_append, unpackMantissa_toNat, BitVec.toNat_ofNat,
    ← Nat.shiftLeft_add_eq_or_of_lt hbelow]
  rfl

theorem unpackExponent_toNat (b : BitVec Format.binary64.numBits) :
    (unpackExponent b).toNat = b.toNat / 2 ^ 52 % 2 ^ 11 := by
  simp [unpackExponent, Nat.shiftRight_eq_div_pow]

/-- The highest bit of a number is its sign. -/
theorem isMinus_unpackSign (b : BitVec Format.binary64.numBits) :
    isMinus (Sign.ofBitVec (unpackSign b)) = decide (twoPow 63 ≤ b.toNat) := by
  have hsign : (unpackSign b).toNat = b.toNat / 2 ^ 63 % 2 := by
    change (b.extractLsb 63 63).toNat = b.toNat / 2 ^ 63 % 2
    simp [Nat.shiftRight_eq_div_pow]
  have hbits : b.toNat < 2 ^ 64 := b.isLt
  have hzero : unpackSign b = 0#1 ↔ ¬ twoPow 63 ≤ b.toNat := by
    rw [← BitVec.toNat_inj, hsign]
    change b.toNat / 2 ^ 63 % 2 = 0 ↔ ¬ 2 ^ 63 ≤ b.toNat
    omega
  by_cases hlarge : twoPow 63 ≤ b.toNat <;> simp [Sign.ofBitVec, hzero, hlarge, isMinus]

/-- The parts read off the bits of a number are those that it is unpacked into. -/
theorem ofUnpacked_unpack (b : BitVec Format.binary64.numBits) :
    Parts.ofUnpacked (UnpackedFloat.unpack .binary64 b) = partsOfBits b.toNat := by
  have hfraction := unpackMantissa_toNat b
  have hbiased := unpackExponent_toNat b
  have hones : unpackExponent b = -1#11 ↔ b.toNat / twoPow 52 % twoPow 11 = twoPow 11 - 1 := by
    rw [← BitVec.toNat_inj, hbiased]
    rfl
  have hzeros : unpackExponent b = 0#11 ↔ b.toNat / twoPow 52 % twoPow 11 = 0 := by
    rw [← BitVec.toNat_inj, hbiased]
    rfl
  have hnone : unpackMantissa b = 0#52 ↔ b.toNat % twoPow 52 = 0 := by
    rw [← BitVec.toNat_inj, hfraction]
    rfl
  rw [partsOfBits, ← isMinus_unpackSign]
  delta UnpackedFloat.unpack
  dsimp only
  by_cases hinfinite : b.toNat / twoPow 52 % twoPow 11 = twoPow 11 - 1
  · rw [if_pos (hones.mpr hinfinite), if_pos hinfinite]
    by_cases hzero : b.toNat % twoPow 52 = 0
    · rw [if_pos (hnone.mpr hzero), if_pos hzero]
      rfl
    · rw [if_neg (mt hnone.mp hzero), if_neg hzero]
      rfl
  · rw [if_neg (mt hones.mp hinfinite), if_neg hinfinite]
    by_cases hsmall : b.toNat / twoPow 52 % twoPow 11 = 0
    · rw [if_pos (hzeros.mpr hsmall), if_pos hsmall]
      by_cases hzero : b.toNat % twoPow 52 = 0
      · rw [dif_pos (hnone.mpr hzero), if_pos hzero]
        rfl
      · rw [dif_neg (mt hnone.mp hzero), if_neg hzero]
        have hsubnormal : (unpackExponent b).toNat = 0 := hbiased.trans hsmall
        have hbelow : b.toNat % 2 ^ 52 < 2 ^ 52 := Nat.mod_lt _ (by decide)
        have hnarrow : b.toNat % 2 ^ 52 ≠ twoPow 52 := hbelow.ne
        rw [Parts.ofUnpacked_finite, Binary.scaled]
        simp only [hfraction, hsubnormal, hnarrow]
        rfl
    · rw [if_neg (mt hzeros.mp hsmall), if_neg hsmall]
      have hexponent : (((unpackExponent b).toNat : Int) -
          (Format.binary64.exponentBias + Format.binary64.mantissaBitsWithoutImplicit)) =
          ((b.toNat / twoPow 52 % twoPow 11 : Nat) : Int) - 1075 := by
        rw [hbiased]
        rfl
      rw [Parts.ofUnpacked_finite, Binary.scaled, one_append_unpackMantissa_toNat]
      simp only [hexponent]
      congr 2
      have hfirst : twoPow 52 + b.toNat % twoPow 52 = twoPow 52 ↔ b.toNat % twoPow 52 = 0 := by
        omega
      have hsecond : -1074 < ((b.toNat / twoPow 52 % twoPow 11 : Nat) : Int) - 1075 ↔
          1 < b.toNat / twoPow 52 % twoPow 11 := by
        omega
      simp only [hfirst, hsecond]

/-- The parts of a number are those of its form as sign, significand and exponent. -/
theorem partsOf_eq (x : Float) : partsOf x = .ofUnpacked x.toModel.unpack :=
  (ofUnpacked_unpack x.toModel.toBits.toBitVec).symm

/-- Parts of numbers that are equal: only the sign of zero is left out of account. -/
def Parts.Alike : Parts → Parts → Prop
  | .infinite m, .infinite n => m = n
  | .zero _, .zero _ => True
  | .finite m x, .finite n y => m = n ∧ x = y
  | _, _ => False

/-- The place that parts have in the order of numbers. -/
def Parts.rank? : Parts → Option (List Int)
  | .undefined => none
  | .infinite true => some [-2]
  | .infinite false => some [2]
  | .zero _ => some [0]
  | .finite true x => some [-1, -x.exponent, -x.significand]
  | .finite false x => some [1, x.exponent, x.significand]

theorem Parts.rank?_ofUnpacked (x : UnpackedFloat) :
    (ofUnpacked x).rank? = Value.unpackedRank? x := by
  cases x with
  | notANumber =>
      rfl
  | infinity sign | zero sign | finite sign m e =>
      cases sign <;> rfl

/-- Parts are alike just if they have the same rank in the order of numbers. -/
theorem alike_iff_rank (a b : UnpackedFloat) :
    (Parts.ofUnpacked a).Alike (Parts.ofUnpacked b) ↔
      ∃ rank, (Parts.ofUnpacked a).rank? = some rank ∧ (Parts.ofUnpacked b).rank? = some rank := by
  rcases Parts.ofUnpacked_cases a with ha | ⟨m, ha⟩ | ha | ha | ⟨k, e, ha⟩ | ⟨k, e, ha⟩ <;>
    rcases Parts.ofUnpacked_cases b with hb | ⟨n, hb⟩ | hb | hb | ⟨l, f, hb⟩ | ⟨l, f, hb⟩ <;>
    simp [ha, hb, Parts.Alike, Parts.rank?, Binary.scaled_inj] <;> omega

/-- Numbers are equal just if their parts are alike. -/
theorem beq_iff_alike {x y : Float} : (x == y) = true ↔ (partsOf x).Alike (partsOf y) := by
  rw [Value.beq_iff_rank, partsOf_eq, partsOf_eq, alike_iff_rank, Parts.rank?_ofUnpacked,
    Parts.rank?_ofUnpacked]
  rfl

end Parts

section Intervals

/-- The number that a decimal stands for. -/
def Point.value (point : Point) : ℚ :=
  point.digits * 10 ^ point.exponent

/-- A power with a negative exponent is made whole by the power that it divides by. -/
theorem zpow_mul_pow_toNat {c : ℚ} (hc : c ≠ 0) (p : Int) :
    c ^ p * c ^ (-p).toNat = c ^ p.toNat := by
  rw [← zpow_natCast, ← zpow_natCast, ← zpow_add₀ hc]
  congr 1
  omega

/-- The comparison of whole numbers is that of the numbers that they are made from. -/
theorem compareScaled_eq (a : Nat) (p : Int) (b : Nat) (j : Int) :
    compareScaled a p b j = compare ((a : ℚ) * 2 ^ p) (b * 10 ^ j) := by
  have htwo := zpow_mul_pow_toNat (c := 2) (by norm_num) p
  have hten := zpow_mul_pow_toNat (c := 10) (by norm_num) j
  have hscale : (0 : ℚ) < 2 ^ (-p).toNat * 10 ^ (-j).toNat := by
    positivity
  have hleft : (a : ℚ) * 2 ^ p * (2 ^ (-p).toNat * 10 ^ (-j).toNat) =
      (a * twoPow p.toNat * tenPow (-j).toNat : Nat) := by
    simp only [twoPow, tenPow, Nat.pow_eq]
    push_cast
    rw [← htwo]
    ring
  have hright : (b : ℚ) * 10 ^ j * (2 ^ (-p).toNat * 10 ^ (-j).toNat) =
      (b * tenPow j.toNat * twoPow (-p).toNat : Nat) := by
    simp only [twoPow, tenPow, Nat.pow_eq]
    push_cast
    rw [← hten]
    ring
  unfold compareScaled
  rw [← cmp_eq_compare, ← cmp_eq_compare, ← cmp_mul_pos_right hscale, hleft, hright,
    Nat.strictMono_cast.cmp_map_eq]

namespace Binary

variable {x y : Binary} {v : ℚ}

/-- The lower end of the interval of all that is rounded to a number. -/
def lower (x : Binary) : ℚ :=
  x.lowerEnd * 2 ^ (x.exponent - 2)

/-- The upper end of the interval of all that is rounded to a number. -/
def upper (x : Binary) : ℚ :=
  x.upperEnd * 2 ^ (x.exponent - 2)

/-- What is rounded to a number. The ends of the interval are if the significand is even. -/
def Rounds (x : Binary) (v : ℚ) : Prop :=
  x.lower ≤ v ∧ v ≤ x.upper ∧ (x.significand % 2 = 1 → x.lower ≠ v ∧ v ≠ x.upper)

/-- The test on whole numbers says whether a decimal lies in the interval of a number. -/
theorem admits_iff {point : Point} : x.admits point = true ↔ x.Rounds point.value := by
  have hlower : compareScaled x.lowerEnd (x.exponent - 2) point.digits point.exponent =
      compare x.lower point.value :=
    compareScaled_eq _ _ _ _
  have hupper : compareScaled x.upperEnd (x.exponent - 2) point.digits point.exponent =
      compare x.upper point.value :=
    compareScaled_eq _ _ _ _
  simp only [admits, hlower, hupper, Rounds]
  split
  · rename_i heven
    simp [compare_gt_iff_gt, compare_lt_iff_lt, heven]
  · rename_i hodd
    have hone : x.significand % 2 = 1 := by
      omega
    simp only [Bool.and_eq_true, beq_iff_eq, compare_gt_iff_gt, compare_lt_iff_lt, hone]
    constructor
    · rintro ⟨hbelow, habove⟩
      exact ⟨hbelow.le, habove.le, fun _ => ⟨hbelow.ne, habove.ne⟩⟩
    · rintro ⟨hbelow, habove, hne⟩
      exact ⟨hbelow.lt_of_ne (hne trivial).1, habove.lt_of_ne (hne trivial).2⟩

/-- A decimal that is taken from a grid has passed the test. -/
theorem rounds_of_hit? {j : Int} {point : Point} (h : x.hit? j = some point) :
    x.Rounds point.value := by
  rw [← admits_iff]
  simp only [hit?] at h
  split at h
  · split at h
    · simp_all
    · simp_all
  · split at h
    · simp_all
    · simp_all

/-- The exact decimal of a number stands for the number itself. -/
theorem value_exact (x : Binary) : x.exact.value = x.significand * 2 ^ x.exponent := by
  unfold exact Point.value
  split
  · rename_i hnonneg
    obtain ⟨n, hn⟩ := Int.eq_ofNat_of_zero_le hnonneg
    simp [hn, twoPow]
  · rename_i hneg
    obtain ⟨n, hn⟩ := Int.eq_ofNat_of_zero_le (by omega : 0 ≤ -x.exponent)
    have hexponent : x.exponent = -n := by
      omega
    have htens : (10 : ℚ) ^ n = 5 ^ n * 2 ^ n := by
      rw [← mul_pow]
      norm_num
    simp only [hexponent, neg_neg, Int.toNat_natCast, zpow_neg, zpow_natCast, Nat.pow_eq,
      Nat.cast_mul, Nat.cast_pow, Nat.cast_ofNat, htens]
    field_simp

/-- A number lies inside of its own interval. -/
theorem rounds_exact (h : 0 < x.significand) : x.Rounds x.exact.value := by
  have hscale : (0 : ℚ) < 2 ^ (x.exponent - 2) := by
    positivity
  have hvalue : x.exact.value = (4 * x.significand : Nat) * 2 ^ (x.exponent - 2) := by
    rw [value_exact, zpow_sub₀ (by norm_num)]
    push_cast
    ring
  have hlower : x.lowerEnd < 4 * x.significand := by
    unfold lowerEnd
    split <;> omega
  have hupper : 4 * x.significand < x.upperEnd := by
    unfold upperEnd
    omega
  have hbelow : x.lower < x.exact.value := by
    rw [hvalue, lower]
    exact mul_lt_mul_of_pos_right (Nat.cast_lt.mpr hlower) hscale
  have habove : x.exact.value < x.upper := by
    rw [hvalue, upper]
    exact mul_lt_mul_of_pos_right (Nat.cast_lt.mpr hupper) hscale
  exact ⟨hbelow.le, habove.le, fun _ => ⟨hbelow.ne, habove.ne⟩⟩

/-- Whatever grid a decimal is found on, it is rounded to the number it is found for. -/
theorem rounds_shortestFrom (h : 0 < x.significand) (grids : Nat) (j : Int) :
    x.Rounds (x.shortestFrom grids j).value := by
  induction grids generalizing j with
  | zero =>
      exact rounds_exact h
  | succ grids ih =>
      rw [shortestFrom]
      split
      · rename_i hhit
        exact rounds_of_hit? hhit
      · exact ih (j - 1)

/-- The numbers that the parts of a floating-point number can make up. -/
structure Canonical (x : Binary) : Prop where
  positive : 0 < x.significand
  below : x.significand < 2 ^ 53
  least : -1074 ≤ x.exponent
  normal : x.exponent ≠ -1074 → 2 ^ 52 ≤ x.significand
  narrow : x.narrowBelow = true ↔ x.significand = 2 ^ 52 ∧ x.exponent ≠ -1074

/-- The parts of a number are bounded as its fraction and its exponent are. -/
theorem canonical_of_partsOf {number : Float} {negative : Bool}
    (h : partsOf number = .finite negative x) : x.Canonical := by
  have hfraction : number.toBits.toNat % twoPow 52 < 2 ^ 52 := Nat.mod_lt _ (by decide)
  have hleast : twoPow 52 = 2 ^ 52 := rfl
  simp only [partsOf, partsOfBits] at h
  generalize number.toBits.toNat % twoPow 52 = fraction at h hfraction
  generalize number.toBits.toNat / twoPow 52 % twoPow 11 = biased at h
  split at h
  · split at h <;> cases h
  · split at h
    · split at h
      · cases h
      · cases h
        constructor <;> grind
    · cases h
      constructor <;> grind

/-- Nothing but positive numbers is rounded to a positive number. -/
theorem Rounds.pos (hx : 0 < x.significand) (h : x.Rounds v) : 0 < v := by
  refine lt_of_lt_of_le ?_ h.1
  have hlower : 0 < x.lowerEnd := by
    unfold lowerEnd
    split <;> omega
  exact mul_pos (Nat.cast_pos.mpr hlower) (by positivity)

/-- Intervals that do not overlap, and do not share an end. -/
def Precedes (x y : Binary) : Prop :=
  x.upper ≤ y.lower ∧
    (x.upper = y.lower → x.significand % 2 = 1 ∨ y.significand % 2 = 1)

/-- Nothing is rounded to two numbers of which one precedes the other. -/
theorem Precedes.not_rounds (h : x.Precedes y) (hx : x.Rounds v) (hy : y.Rounds v) : False := by
  have hmeet : x.upper = v := le_antisymm (h.1.trans hy.1) hx.2.1
  have hend : x.upper = y.lower := le_antisymm h.1 (hy.1.trans hmeet.ge)
  rcases h.2 hend with hodd | hodd
  · exact (hx.2.2 hodd).2 hmeet.symm
  · exact (hy.2.2 hodd).1 (hend.symm.trans hmeet)

/-- At one exponent, intervals lie in the order of the significands. -/
theorem precedes_of_significand_lt (hexponent : x.exponent = y.exponent)
    (h : x.significand < y.significand) : x.Precedes y := by
  have hscale : (0 : ℚ) < 2 ^ (y.exponent - 2) := by
    positivity
  have hends : x.upperEnd ≤ y.lowerEnd := by
    unfold upperEnd lowerEnd
    split <;> omega
  unfold Precedes upper lower
  rw [hexponent]
  refine ⟨mul_le_mul_of_nonneg_right (Nat.cast_le.mpr hends) hscale.le, ?_⟩
  intro hmeet
  have hsame : x.upperEnd = y.lowerEnd := by
    exact_mod_cast mul_right_cancel₀ hscale.ne' hmeet
  unfold upperEnd lowerEnd at hsame
  split at hsame <;> omega

/-- The interval of the least significand of an exponent reaches down only half as far. -/
theorem precedes_of_exponent_lt (hx : x.Canonical) (hy : y.Canonical)
    (h : x.exponent < y.exponent) : x.Precedes y := by
  have hscale : (0 : ℚ) < 2 ^ (x.exponent - 2) := by
    positivity
  have hnormal := hy.normal (by have := hx.least; omega)
  -- The next exponent doubles the unit, so the upper end of `x` meets twice the lower one of `y`.
  have hends : x.upperEnd ≤ 2 * y.lowerEnd := by
    have hbelow := hx.below
    unfold upperEnd lowerEnd
    split
    · omega
    · rename_i hwide
      have hne : y.significand ≠ 2 ^ 52 := by
        intro hleast
        exact hwide (hy.narrow.mpr ⟨hleast, by have := hx.least; omega⟩)
      omega
  have hstep : 2 * (2 : ℚ) ^ (x.exponent - 2) ≤ 2 ^ (y.exponent - 2) := by
    rw [← zpow_one_add₀ (by norm_num)]
    exact zpow_le_zpow_right₀ (by norm_num) (by omega)
  have hupper : x.upper ≤ (2 * y.lowerEnd : Nat) * 2 ^ (x.exponent - 2) :=
    mul_le_mul_of_nonneg_right (Nat.cast_le.mpr hends) hscale.le
  have hlower : (2 * y.lowerEnd : Nat) * 2 ^ (x.exponent - 2) ≤ y.lower := by
    calc
      ((2 * y.lowerEnd : Nat) : ℚ) * 2 ^ (x.exponent - 2) =
          y.lowerEnd * (2 * 2 ^ (x.exponent - 2)) := by
        push_cast
        ring
      _ ≤ y.lower := mul_le_mul_of_nonneg_left hstep (Nat.cast_nonneg _)
  refine ⟨hupper.trans hlower, ?_⟩
  intro hmeet
  have hsame : x.upperEnd = 2 * y.lowerEnd := by
    have hboth := le_antisymm hupper (hlower.trans hmeet.ge)
    exact_mod_cast mul_right_cancel₀ hscale.ne' hboth
  unfold upperEnd lowerEnd at hsame
  split at hsame <;> omega

/-- No two numbers have the same decimal rounded to them. -/
theorem eq_of_rounds (hx : x.Canonical) (hy : y.Canonical) (h : x.Rounds v) (h' : y.Rounds v) :
    x = y := by
  rcases lt_trichotomy x.exponent y.exponent with hlt | hexponent | hgt
  · exact ((precedes_of_exponent_lt hx hy hlt).not_rounds h h').elim
  · rcases lt_trichotomy x.significand y.significand with hlt | hsignificand | hgt
    · exact ((precedes_of_significand_lt hexponent hlt).not_rounds h h').elim
    · have hnarrow : x.narrowBelow = y.narrowBelow := by
        rw [Bool.eq_iff_iff, hx.narrow, hy.narrow, hexponent, hsignificand]
      cases x
      cases y
      simp_all
    · exact ((precedes_of_significand_lt hexponent.symm hgt).not_rounds h' h).elim
  · exact ((precedes_of_exponent_lt hy hx hgt).not_rounds h' h).elim

end Binary

end Intervals

section Texts

/-- Digits and the point between them. -/
def isNumeral (c : Char) : Bool :=
  c.isDigit || c == '.'

/-- The number that is written in positional notation. -/
def valueOf (text : List Char) : ℚ :=
  let whole := text.takeWhile (· != '.')
  let fraction := (text.dropWhile (· != '.')).tail
  (Nat.ofDigitChars 10 (whole ++ fraction) 0 : ℚ) / 10 ^ fraction.length

theorem isDigit_of_mem_digitsOf {n : Nat} {c : Char} (h : c ∈ digitsOf n) : c.isDigit = true :=
  Nat.isDigit_of_mem_toDigits (by decide) (by decide) h

theorem isDigit_of_mem_padLeft {length n : Nat} {c : Char} (h : c ∈ padLeft length (digitsOf n)) :
    c.isDigit = true := by
  rcases List.mem_append.mp h with hzero | hdigit
  · rw [List.eq_of_mem_replicate hzero]
    rfl
  · exact isDigit_of_mem_digitsOf hdigit

/-- Leading zeros do not change the number that digits stand for. -/
theorem ofDigitChars_padLeft (length n : Nat) :
    Nat.ofDigitChars 10 (padLeft length (digitsOf n)) 0 = n := by
  unfold padLeft digitsOf
  rw [Nat.ofDigitChars_append, Nat.ofDigitChars_replicate_zero, Nat.mul_zero,
    Nat.ofDigitChars_ten_toDigits]

theorem length_padLeft (length : Nat) (digits : List Char) :
    length ≤ (padLeft length digits).length := by
  simp only [padLeft, List.length_append, List.length_replicate]
  omega

theorem ne_point_of_isDigit {c : Char} (h : c.isDigit = true) : (c != '.') = true := by
  rw [bne_iff_ne]
  rintro rfl
  cases h

theorem valueOf_whole {digits : List Char} (h : ∀ c ∈ digits, c.isDigit = true) :
    valueOf digits = Nat.ofDigitChars 10 digits 0 := by
  have hkind : ∀ c ∈ digits, (c != '.') = true := fun c hc => ne_point_of_isDigit (h c hc)
  simp [valueOf, List.takeWhile_eq_self_iff.mpr hkind, List.dropWhile_eq_nil_iff.mpr hkind]

/-- Digits after the point are divided by a power of ten, one for each of them. -/
theorem valueOf_fraction {whole : List Char} (hwhole : ∀ c ∈ whole, c.isDigit = true)
    (fraction : List Char) :
    valueOf (whole ++ '.' :: fraction) =
      Nat.ofDigitChars 10 (whole ++ fraction) 0 / 10 ^ fraction.length := by
  have hkind : ∀ c ∈ whole, (c != '.') = true := fun c hc => ne_point_of_isDigit (hwhole c hc)
  have hhalts : Halts (· != '.') ('.' :: fraction) := by
    rintro c ⟨⟩
    rfl
  unfold valueOf
  rw [takeWhile_append_of_halts hkind hhalts, dropWhile_append_of_halts hkind hhalts]
  rfl

/-- The text of a decimal tells which number it stands for. -/
theorem valueOf_chars (point : Point) : valueOf point.chars = point.value := by
  unfold Point.chars Point.value
  split
  · rename_i hnonneg
    obtain ⟨n, hn⟩ := Int.eq_ofNat_of_zero_le hnonneg
    rw [valueOf_whole fun c => isDigit_of_mem_digitsOf]
    simp [digitsOf, hn, tenPow]
  · rename_i hneg
    obtain ⟨places, hplaces⟩ := Int.eq_ofNat_of_zero_le (by omega : 0 ≤ -point.exponent)
    have hexponent : point.exponent = -places := by
      omega
    have hlength := length_padLeft (places + 1) (digitsOf point.digits)
    simp only [hplaces, Int.toNat_natCast]
    rw [valueOf_fraction fun c hc => isDigit_of_mem_padLeft (List.mem_of_mem_take hc),
      List.take_append_drop, ofDigitChars_padLeft, List.length_drop, Nat.sub_sub_self (by omega),
      hexponent, zpow_neg, zpow_natCast, div_eq_mul_inv]

/-- Positional notation has digits and a point, and no other character. -/
theorem isNumeral_of_mem_chars {point : Point} {c : Char} (h : c ∈ point.chars) :
    isNumeral c = true := by
  unfold Point.chars at h
  split at h
  · simp [isNumeral, isDigit_of_mem_digitsOf h]
  · rcases List.mem_append.mp h with hwhole | hfraction
    · simp [isNumeral, isDigit_of_mem_padLeft (List.mem_of_mem_take hwhole)]
    · rcases List.mem_cons.mp hfraction with rfl | hdigit
      · rfl
      · simp [isNumeral, isDigit_of_mem_padLeft (List.mem_of_mem_drop hdigit)]

end Texts

section Numbers

/-- Whether the text of a number starts with a minus sign. -/
def Parts.isNegative : Parts → Bool
  | .infinite negative | .finite negative _ => negative
  | .undefined | .zero _ => false

/-- The text of a number without its sign. -/
def Parts.unsignedChars : Parts → List Char
  | .undefined => ['N', 'a', 'N']
  | .infinite _ => ['i', 'n', 'f']
  | .zero _ => ['0']
  | .finite _ magnitude => magnitude.shortest.chars

theorem numberChars_eq (x : Float) :
    numberChars x = if (partsOf x).isNegative then '-' :: (partsOf x).unsignedChars
      else (partsOf x).unsignedChars := by
  unfold numberChars
  cases partsOf x <;> rfl

/-- The text of a number is a numeral, or one of two words. -/
theorem mem_unsignedChars {parts : Parts} {c : Char} (h : c ∈ parts.unsignedChars) :
    isNumeral c = true ∨ c ∈ ['N', 'a', 'i', 'n', 'f'] := by
  cases parts with
  | undefined =>
      have hletters : ['N', 'a', 'N'] ⊆ ['N', 'a', 'i', 'n', 'f'] := by
        simp
      exact .inr (hletters h)
  | infinite negative =>
      exact .inr (List.mem_of_mem_drop (i := 2) h)
  | zero negative =>
      exact .inl (List.mem_singleton.mp h ▸ rfl)
  | finite negative magnitude =>
      exact .inl (isNumeral_of_mem_chars h)

theorem minus_notMem_unsignedChars (parts : Parts) : '-' ∉ parts.unsignedChars := by
  intro h
  rcases mem_unsignedChars h with hnumeral | hword
  · cases hnumeral
  · revert hword
    decide

/-- The characters that texts of numbers are made of. -/
def isNumberChar (c : Char) : Bool :=
  isNumeral c || ['-', 'N', 'a', 'i', 'n', 'f'].contains c

theorem isNumberChar_of_mem {x : Float} {c : Char} (h : c ∈ numberChars x) :
    isNumberChar c = true := by
  have hmem : c = '-' ∨ c ∈ (partsOf x).unsignedChars := by
    rw [numberChars_eq] at h
    split at h
    · exact List.mem_cons.mp h
    · exact .inr h
  rcases hmem with rfl | hunsigned
  · rfl
  · rcases mem_unsignedChars hunsigned with hnumeral | hletter
    · simp [isNumberChar, hnumeral]
    · simp [isNumberChar, hletter]

/-- A minus sign can be told from a text that has none. -/
theorem signed_inj {m n : Bool} {a b : List Char} (ha : '-' ∉ a) (hb : '-' ∉ b) :
    (if m then '-' :: a else a) = (if n then '-' :: b else b) ↔ m = n ∧ a = b := by
  cases m <;> cases n <;> grind

theorem numberChars_inj_iff {x y : Float} :
    numberChars x = numberChars y ↔ (partsOf x).isNegative = (partsOf y).isNegative ∧
      (partsOf x).unsignedChars = (partsOf y).unsignedChars := by
  rw [numberChars_eq, numberChars_eq]
  exact signed_inj (minus_notMem_unsignedChars _) (minus_notMem_unsignedChars _)

/-- Equal numbers have the same text, and so the two zeros do. -/
theorem numberChars_eq_of_beq {x y : Float} (h : (x == y) = true) :
    numberChars x = numberChars y := by
  rw [numberChars_inj_iff]
  have halike := beq_iff_alike.mp h
  cases hx : partsOf x <;> cases hy : partsOf y <;>
    simp_all [Parts.Alike, Parts.isNegative, Parts.unsignedChars]

theorem isNaN_iff_partsOf {x : Float} : x.isNaN = true ↔ partsOf x = .undefined := by
  rw [partsOf_eq]
  change x.toModel.unpack.isNaN = true ↔ _
  cases x.toModel.unpack with
  | notANumber =>
      exact iff_of_true rfl rfl
  | infinity sign | zero sign | finite sign m e =>
      exact iff_of_false Bool.false_ne_true Parts.noConfusion

theorem chars_ne_of_not_isNumeral {point : Point} {text : List Char} {c : Char} (hc : c ∈ text)
    (hnot : isNumeral c = false) : point.chars ≠ text := by
  rintro rfl
  rw [isNumeral_of_mem_chars hc] at hnot
  cases hnot

/-- What the text of a number stands for is rounded to the number. -/
theorem valueOf_shortest {x : Binary} (h : x.Canonical) : x.Rounds (valueOf x.shortest.chars) := by
  rw [valueOf_chars]
  exact Binary.rounds_shortestFrom h.positive _ _

/-- Only zero is written as zero. -/
theorem shortest_chars_ne_zero {x : Binary} (h : x.Canonical) : x.shortest.chars ≠ ['0'] := by
  intro hzero
  have hpos := (valueOf_shortest h).pos h.positive
  have hvalue : valueOf ['0'] = 0 := by
    rw [valueOf_whole (List.forall_mem_singleton.mpr rfl)]
    rfl
  rw [hzero, hvalue] at hpos
  exact hpos.false

/-- The text of a positive number tells which number it is. -/
theorem eq_of_shortest_chars {x y : Binary} (hx : x.Canonical) (hy : y.Canonical)
    (h : x.shortest.chars = y.shortest.chars) : x = y :=
  Binary.eq_of_rounds hx hy (valueOf_shortest hx) (h ▸ valueOf_shortest hy)

/-- Parts that are those of some number. -/
def Parts.IsNumber : Parts → Prop
  | .undefined => False
  | .infinite _ | .zero _ => True
  | .finite _ magnitude => magnitude.Canonical

theorem isNumber_partsOf {x : Float} (h : x.isNaN = false) : (partsOf x).IsNumber := by
  cases hparts : partsOf x with
  | undefined =>
      rw [isNaN_iff_partsOf.mpr hparts] at h
      cases h
  | infinite negative | zero negative =>
      trivial
  | finite negative magnitude =>
      exact Binary.canonical_of_partsOf hparts

/-- Numbers of the same text are equal: what their texts stand for is rounded to both. -/
theorem alike_of_unsignedChars {p q : Parts} (hp : p.IsNumber) (hq : q.IsNumber)
    (hnegative : p.isNegative = q.isNegative) (h : p.unsignedChars = q.unsignedChars) :
    p.Alike q := by
  have hinfinite (point : Point) : point.chars ≠ ['i', 'n', 'f'] :=
    chars_ne_of_not_isNumeral List.mem_cons_self rfl
  cases p with
  | undefined =>
      cases hp
  | infinite m =>
      cases q with
      | undefined =>
          cases hq
      | infinite n =>
          exact hnegative
      | zero n =>
          cases h
      | finite n y =>
          exact absurd h.symm (hinfinite _)
  | zero m =>
      cases q with
      | undefined =>
          cases hq
      | infinite n =>
          cases h
      | zero n =>
          trivial
      | finite n y =>
          exact absurd h.symm (shortest_chars_ne_zero hq)
  | finite m x =>
      cases q with
      | undefined =>
          cases hq
      | infinite n =>
          exact absurd h (hinfinite _)
      | zero n =>
          exact absurd h (shortest_chars_ne_zero hp)
      | finite n y =>
          exact ⟨hnegative, eq_of_shortest_chars hp hq h⟩

/-- Numbers have the same text just if they are equal. -/
theorem numberChars_eq_iff {x y : Float} (hx : x.isNaN = false) (hy : y.isNaN = false) :
    numberChars x = numberChars y ↔ (x == y) = true := by
  refine ⟨fun h => ?_, numberChars_eq_of_beq⟩
  obtain ⟨hnegative, hunsigned⟩ := numberChars_inj_iff.mp h
  exact beq_iff_alike.mpr
    (alike_of_unsignedChars (isNumber_partsOf hx) (isNumber_partsOf hy) hnegative hunsigned)

theorem point_chars_ne_nil (point : Point) : point.chars ≠ [] := by
  unfold Point.chars
  split
  · exact Nat.toDigits_ne_nil
  · exact List.append_ne_nil_of_right_ne_nil _ (List.cons_ne_nil _ _)

theorem numberChars_ne_nil (x : Float) : numberChars x ≠ [] := by
  unfold numberChars
  cases partsOf x with
  | undefined | zero negative =>
      exact List.cons_ne_nil _ _
  | infinite negative =>
      cases negative <;> exact List.cons_ne_nil _ _
  | finite negative magnitude =>
      cases negative
      · exact point_chars_ne_nil _
      · exact List.cons_ne_nil _ _

end Numbers

end Decimal
end DocScript
