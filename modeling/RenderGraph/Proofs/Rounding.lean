import Mathlib.Algebra.Order.Field.Power
import Mathlib.Data.Rat.Cast.Order
import Mathlib.Tactic.FieldSimp
import Mathlib.Tactic.Linarith
import Mathlib.Tactic.Positivity
import Mathlib.Tactic.Ring
import RenderGraph.Number.Arithmetic
/-!
# Rounding to the nearest number

A quotient is rounded to a number or below just if it lies below the middle
between that number and the next, or on it and the number is even
(`roundMagnitude_le_iff`).
-/

namespace RenderGraph

namespace Binary

/-! ## Whole numbers -/

theorem div_le_roundQuotient (num den : Nat) : num / den ≤ roundQuotient num den := by
  unfold roundQuotient
  dsimp only
  split <;> omega

theorem roundQuotient_le_succ (num den : Nat) : roundQuotient num den ≤ num / den + 1 := by
  unfold roundQuotient
  dsimp only
  split <;> omega

/-- A quotient is rounded to `s` or below just if it is below `s + 1 / 2`, or is that and `s` is even. -/
theorem roundQuotient_le_iff {num den : Nat} (hden : 0 < den) (s : Nat) :
    roundQuotient num den ≤ s ↔ 2 * num < (2 * s + 1) * den ∨ 2 * num = (2 * s + 1) * den ∧ s % 2 = 0 := by
  have hdiv : den * (num / den) + num % den = num := Nat.div_add_mod num den
  have hmod : num % den < den := Nat.mod_lt num hden
  have hexpand : (2 * s + 1) * den = 2 * (den * s) + den := by ring
  rcases Nat.lt_trichotomy s (num / den) with hlt | rfl | hlt
  · have hle : den * s + den ≤ den * (num / den) := Nat.mul_le_mul_left den hlt
    have hround := div_le_roundQuotient num den
    omega
  · unfold roundQuotient
    dsimp only
    split <;> omega
  · have hle : den * (num / den) + den ≤ den * s := Nat.mul_le_mul_left den hlt
    have hround := roundQuotient_le_succ num den
    omega

/-! ## The last place -/

section Places
variable {p : Precision} {num den : Nat}

theorem cast_hiddenBit (p : Precision) : (p.hiddenBit : ℚ) = 2 ^ (p.fractionBits : ℤ) := by
  simp [Precision.hiddenBit, Nat.shiftLeft_eq]

/-- A quotient counted in units of `2 ^ e`, as the two whole numbers that are divided. -/
theorem cast_div_shiftLeft (e : Int) (num den : Nat) :
    ((num <<< (-e).toNat : Nat) : ℚ) / (den <<< e.toNat : Nat) = num / den / 2 ^ e := by
  have hpow : (2 : ℚ) ^ e.toNat = 2 ^ e * 2 ^ (-e).toNat := by
    rw [← zpow_natCast, ← zpow_natCast, ← zpow_add₀ (by norm_num)]
    congr 1
    omega
  rw [Nat.shiftLeft_eq, Nat.shiftLeft_eq, Nat.cast_mul, Nat.cast_mul, Nat.cast_pow, Nat.cast_pow, Nat.cast_ofNat, hpow]
  have hne : (2 : ℚ) ^ (-e).toNat ≠ 0 := by positivity
  field_simp

theorem shiftLeft_pos (hden : 0 < den) (k : Nat) : 0 < den <<< k := by
  rw [Nat.shiftLeft_eq]
  positivity

theorem div_shiftLeft_lt_iff (hden : 0 < den) (e : Int) (k : Nat) :
    (num <<< (-e).toNat) / (den <<< e.toNat) < k ↔ (num / den : ℚ) < k * 2 ^ e := by
  have hpos := shiftLeft_pos hden e.toNat
  rw [Nat.div_lt_iff_lt_mul hpos, ← Nat.cast_lt (α := ℚ), Nat.cast_mul, ← div_lt_iff₀ (by exact_mod_cast hpos),
    cast_div_shiftLeft, div_lt_iff₀ (by positivity)]

theorem roundQuotient_shiftLeft_le_iff (hden : 0 < den) (e : Int) (s : Nat) :
    roundQuotient (num <<< (-e).toNat) (den <<< e.toNat) ≤ s ↔
      (num / den : ℚ) < (s + 1 / 2) * 2 ^ e ∨ (num / den : ℚ) = (s + 1 / 2) * 2 ^ e ∧ s % 2 = 0 := by
  have hpos := shiftLeft_pos hden e.toNat
  have hcast : (0 : ℚ) < (den <<< e.toNat : Nat) := by exact_mod_cast hpos
  have hunit : (0 : ℚ) < 2 ^ e := by positivity
  have hquotient := cast_div_shiftLeft e num den
  rw [roundQuotient_le_iff hpos]
  have hlt : 2 * (num <<< (-e).toNat) < (2 * s + 1) * (den <<< e.toNat) ↔ (num / den : ℚ) < (s + 1 / 2) * 2 ^ e := by
    rw [← div_lt_iff₀ hunit, ← hquotient, div_lt_iff₀ hcast, ← Nat.cast_lt (α := ℚ)]
    push_cast
    constructor <;> intro h <;> linarith
  have heq : 2 * (num <<< (-e).toNat) = (2 * s + 1) * (den <<< e.toNat) ↔ (num / den : ℚ) = (s + 1 / 2) * 2 ^ e := by
    rw [← div_eq_iff hunit.ne', ← hquotient, div_eq_iff hcast.ne', ← Nat.cast_inj (R := ℚ)]
    push_cast
    constructor <;> intro h <;> linarith
  rw [hlt, heq]

/-- A quotient lies within a factor of two of what the lengths of its parts say. -/
theorem log2_bounds (hnum : 0 < num) (hden : 0 < den) :
    (2 : ℚ) ^ ((num.log2 : ℤ) - den.log2 - 1) ≤ num / den ∧ (num / den : ℚ) < 2 ^ ((num.log2 : ℤ) - den.log2 + 1) := by
  have hnum_le : (2 : ℚ) ^ num.log2 ≤ num := by exact_mod_cast Nat.log2_self_le hnum.ne'
  have hnum_lt : (num : ℚ) < 2 ^ (num.log2 + 1) := by exact_mod_cast Nat.lt_log2_self
  have hden_le : (2 : ℚ) ^ den.log2 ≤ den := by exact_mod_cast Nat.log2_self_le hden.ne'
  have hden_lt : (den : ℚ) < 2 ^ (den.log2 + 1) := by exact_mod_cast Nat.lt_log2_self
  have hpos : (0 : ℚ) < den := by exact_mod_cast hden
  have hbase : (2 : ℚ) ≠ 0 := by norm_num
  have hlow : (2 : ℚ) ^ ((num.log2 : ℤ) - den.log2 - 1) * 2 ^ (den.log2 + 1) = 2 ^ num.log2 := by
    rw [← zpow_natCast, ← zpow_natCast, ← zpow_add₀ hbase]
    congr 1
    omega
  have hhigh : (2 : ℚ) ^ ((num.log2 : ℤ) - den.log2 + 1) * 2 ^ den.log2 = 2 ^ (num.log2 + 1) := by
    rw [← zpow_natCast, ← zpow_natCast, ← zpow_add₀ hbase]
    congr 1
    omega
  constructor
  · rw [le_div_iff₀ hpos]
    calc (2 : ℚ) ^ ((num.log2 : ℤ) - den.log2 - 1) * den
        ≤ 2 ^ ((num.log2 : ℤ) - den.log2 - 1) * 2 ^ (den.log2 + 1) := by gcongr
      _ = 2 ^ num.log2 := hlow
      _ ≤ num := hnum_le
  · rw [div_lt_iff₀ hpos]
    calc (num : ℚ) < 2 ^ (num.log2 + 1) := hnum_lt
      _ = 2 ^ ((num.log2 : ℤ) - den.log2 + 1) * 2 ^ den.log2 := hhigh.symm
      _ ≤ 2 ^ ((num.log2 : ℤ) - den.log2 + 1) * den := by gcongr

theorem leastExponent_le_lastPlace (p : Precision) (num den : Nat) : p.leastExponent ≤ lastPlace p num den := by
  unfold lastPlace
  dsimp only
  split <;> omega

/-- Above its last place a quotient has no more digits than a significand. -/
theorem lt_lastPlace (p : Precision) (hnum : 0 < num) (hden : 0 < den) :
    (num / den : ℚ) < 2 * p.hiddenBit * 2 ^ lastPlace p num den := by
  unfold lastPlace
  dsimp only
  generalize hlow : max p.leastExponent ((num.log2 : Int) - den.log2 - (p.fractionBits + 1)) = low
  split
  · rename_i hfew
    simpa using (div_shiftLeft_lt_iff hden low (2 * p.hiddenBit)).1 hfew
  · calc (num / den : ℚ) < 2 ^ ((num.log2 : ℤ) - den.log2 + 1) := (log2_bounds hnum hden).2
      _ ≤ 2 ^ (1 + (p.fractionBits : ℤ) + (low + 1)) := zpow_le_zpow_right₀ (by norm_num) (by omega)
      _ = 2 * p.hiddenBit * 2 ^ (low + 1) := by
        rw [zpow_add₀ (by norm_num), zpow_add₀ (by norm_num), zpow_one, cast_hiddenBit]

/-- A place above the least one is not higher than it has to be. -/
theorem lastPlace_le (hnum : 0 < num) (hden : 0 < den) (h : p.leastExponent < lastPlace p num den) :
    p.hiddenBit * 2 ^ lastPlace p num den ≤ (num / den : ℚ) := by
  revert h
  unfold lastPlace
  dsimp only
  generalize hlow : max p.leastExponent ((num.log2 : Int) - den.log2 - (p.fractionBits + 1)) = low
  split
  · intro h
    calc p.hiddenBit * (2 : ℚ) ^ low = 2 ^ ((p.fractionBits : ℤ) + low) := by rw [zpow_add₀ (by norm_num), cast_hiddenBit]
      _ ≤ 2 ^ ((num.log2 : ℤ) - den.log2 - 1) := zpow_le_zpow_right₀ (by norm_num) (by omega)
      _ ≤ num / den := (log2_bounds hnum hden).1
  · rename_i hmany
    intro _
    have hge := not_lt.1 ((div_shiftLeft_lt_iff hden low (2 * p.hiddenBit)).not.1 hmany)
    calc p.hiddenBit * (2 : ℚ) ^ (low + 1) = ((2 * p.hiddenBit : Nat) : ℚ) * 2 ^ low := by
          rw [zpow_add₀ (by norm_num), zpow_one]
          push_cast
          ring
      _ ≤ num / den := hge

/-- The digits that are kept of a quotient, down to its last place. -/
def kept (p : Precision) (num den : Nat) : Nat :=
  roundQuotient (num <<< (-lastPlace p num den).toNat) (den <<< (lastPlace p num den).toNat)

theorem kept_le_iff (p : Precision) (hden : 0 < den) (s : Nat) : kept p num den ≤ s ↔
    (num / den : ℚ) < (s + 1 / 2) * 2 ^ lastPlace p num den ∨
      (num / den : ℚ) = (s + 1 / 2) * 2 ^ lastPlace p num den ∧ s % 2 = 0 :=
  roundQuotient_shiftLeft_le_iff hden _ s

theorem kept_le (p : Precision) (hnum : 0 < num) (hden : 0 < den) : kept p num den ≤ 2 * p.hiddenBit := by
  have hplace : (num / den : ℚ) < (2 * p.hiddenBit : Nat) * 2 ^ lastPlace p num den := by
    push_cast
    exact lt_lastPlace p hnum hden
  exact Nat.le_trans (roundQuotient_le_succ _ _) ((div_shiftLeft_lt_iff hden _ _).2 hplace)

theorem hiddenBit_le_kept (hnum : 0 < num) (hden : 0 < den) (h : p.leastExponent < lastPlace p num den) :
    p.hiddenBit ≤ kept p num den := by
  have hfloor := (div_shiftLeft_lt_iff hden (lastPlace p num den) p.hiddenBit).not.2 (not_lt.2 (lastPlace_le hnum hden h))
  exact Nat.le_trans (not_lt.1 hfloor) (div_le_roundQuotient _ _)

end Places

/-! ## Numbers as whole numbers of units -/

section Magnitudes
variable {p : Precision} {num den : Nat}

theorem hiddenBit_pos (p : Precision) : 0 < p.hiddenBit := by cases p <;> decide

theorem leastExponent_le_exponent (x : Binary p) : p.leastExponent ≤ x.exponent := by
  unfold exponent
  split
  · exact Int.le_refl _
  · rename_i h
    have hone : 1 ≤ x.magnitude >>> p.fractionBits := by
      rw [Nat.shiftRight_eq_div_pow, Nat.one_le_div_iff (by positivity)]
      simpa [Precision.hiddenBit, Nat.shiftLeft_eq] using not_lt.1 h
    omega

theorem significand_lt (x : Binary p) : x.significand < 2 * p.hiddenBit := by
  have hmod := Nat.mod_lt x.magnitude (hiddenBit_pos p)
  unfold significand
  split <;> omega

theorem hiddenBit_le_significand {x : Binary p} (h : p.leastExponent < x.exponent) : p.hiddenBit ≤ x.significand := by
  unfold exponent at h
  unfold significand
  split at h
  · exact absurd h (Int.lt_irrefl _)
  · rename_i hmag
    rw [if_neg hmag]
    exact Nat.le_add_right ..

/-- The magnitude bits count the numbers: those below the exponent's, and the significand. -/
theorem magnitude_eq (x : Binary p) :
    x.magnitude = (x.exponent - p.leastExponent).toNat * p.hiddenBit + x.significand := by
  unfold exponent significand
  split
  · simp
  · rename_i h
    have hdiv : x.magnitude >>> p.fractionBits = x.magnitude / p.hiddenBit := by
      rw [Nat.shiftRight_eq_div_pow, Precision.hiddenBit, Nat.one_shiftLeft]
    have hone : 1 ≤ x.magnitude / p.hiddenBit := (Nat.one_le_div_iff (hiddenBit_pos p)).2 (not_lt.1 h)
    have hexponent : (p.leastExponent + (x.magnitude >>> p.fractionBits : Nat) - 1 - p.leastExponent).toNat =
        x.magnitude / p.hiddenBit - 1 := by
      rw [hdiv]
      omega
    have hsplit : p.hiddenBit * (x.magnitude / p.hiddenBit) + x.magnitude % p.hiddenBit = x.magnitude := Nat.div_add_mod ..
    rw [hexponent, Nat.sub_mul, Nat.mul_comm (x.magnitude / p.hiddenBit)]
    have hle : 1 * p.hiddenBit ≤ p.hiddenBit * (x.magnitude / p.hiddenBit) := by
      rw [Nat.one_mul]
      exact Nat.le_mul_of_pos_right _ hone
    omega

/-- A higher place starts where the numbers of the one below end, counted in bits. -/
theorem offset_add_hiddenBit_le {e e' : Int} (hleast : p.leastExponent ≤ e) (h : e < e') :
    (e - p.leastExponent).toNat * p.hiddenBit + p.hiddenBit ≤ (e' - p.leastExponent).toNat * p.hiddenBit := by
  rw [← Nat.succ_mul]
  exact Nat.mul_le_mul_right _ (by omega)

/-- A higher place starts where the numbers of the one below end. -/
theorem two_mul_hiddenBit_le (p : Precision) {e e' : Int} (h : e < e') :
    2 * p.hiddenBit * (2 : ℚ) ^ e ≤ p.hiddenBit * 2 ^ e' := by
  have hstep : (2 : ℚ) ^ (e + 1) ≤ 2 ^ e' := zpow_le_zpow_right₀ (by norm_num) h
  calc 2 * p.hiddenBit * (2 : ℚ) ^ e = p.hiddenBit * 2 ^ (e + 1) := by rw [zpow_add_one₀ (by norm_num)]; ring
    _ ≤ p.hiddenBit * 2 ^ e' := by gcongr

/-- The middle between the magnitude of a number and the next. -/
def midpoint (x : Binary p) : ℚ := (x.significand + 1 / 2) * 2 ^ x.exponent

theorem midpoint_pos (x : Binary p) : 0 < x.midpoint := by
  unfold midpoint
  positivity

theorem roundMagnitude_eq_min (hnum : 0 < num) : roundMagnitude p num den =
    min p.infinityBits ((lastPlace p num den - p.leastExponent).toNat * p.hiddenBit + kept p num den) := by
  rw [roundMagnitude, if_neg hnum.ne', Precision.hiddenBit, Nat.one_shiftLeft, ← Nat.shiftLeft_eq]
  rfl

theorem roundMagnitude_le_iff_kept {x : Binary p} (hx : x.isFinite = true) (hnum : 0 < num) :
    roundMagnitude p num den ≤ x.magnitude ↔
      (lastPlace p num den - p.leastExponent).toNat * p.hiddenBit + kept p num den ≤
        (x.exponent - p.leastExponent).toNat * p.hiddenBit + x.significand := by
  have hfinite : x.magnitude < p.infinityBits := of_decide_eq_true hx
  rw [← magnitude_eq, roundMagnitude_eq_min hnum]
  omega

/-- A quotient is rounded to the magnitude of `x` or below just if it is below the middle between `x` and the next number, or is
that and `x` is even. -/
theorem roundMagnitude_le_iff {x : Binary p} (hx : x.isFinite = true) (hden : 0 < den) :
    roundMagnitude p num den ≤ x.magnitude ↔
      (num / den : ℚ) < x.midpoint ∨ (num / den : ℚ) = x.midpoint ∧ x.significand % 2 = 0 := by
  rcases Nat.eq_zero_or_pos num with rfl | hnum
  · have hmid := x.midpoint_pos
    simp [roundMagnitude, hmid]
  have hleast := leastExponent_le_lastPlace p num den
  have hexponent := x.leastExponent_le_exponent
  have hsignificand : (x.significand : ℚ) + 1 ≤ 2 * p.hiddenBit := by exact_mod_cast x.significand_lt
  rw [roundMagnitude_le_iff_kept hx hnum]
  -- The last places of the quotient and of `x` decide, unless they are the same one.
  rcases lt_trichotomy (lastPlace p num den) x.exponent with hlt | heq | hlt
  · have hhidden : p.hiddenBit ≤ x.significand := hiddenBit_le_significand (by omega)
    have hoffset := offset_add_hiddenBit_le hleast hlt
    have hkept := kept_le p hnum hden
    have hbelow : (num / den : ℚ) < x.midpoint :=
      calc (num / den : ℚ) < 2 * p.hiddenBit * 2 ^ lastPlace p num den := lt_lastPlace p hnum hden
        _ ≤ p.hiddenBit * 2 ^ x.exponent := two_mul_hiddenBit_le p hlt
        _ ≤ x.significand * 2 ^ x.exponent := by gcongr
        _ ≤ x.midpoint := by rw [midpoint]; gcongr; norm_num
    exact iff_of_true (by omega) (.inl hbelow)
  · rw [heq, Nat.add_le_add_iff_left, kept_le_iff p hden, heq]
    rfl
  · have hhidden : p.hiddenBit ≤ kept p num den := hiddenBit_le_kept hnum hden (by omega)
    have hoffset := offset_add_hiddenBit_le hexponent hlt
    have hsignificand_lt := x.significand_lt
    have habove : x.midpoint < (num / den : ℚ) :=
      calc x.midpoint < (x.significand + 1) * 2 ^ x.exponent := by rw [midpoint]; gcongr; norm_num
        _ ≤ 2 * p.hiddenBit * 2 ^ x.exponent := by gcongr
        _ ≤ p.hiddenBit * 2 ^ lastPlace p num den := two_mul_hiddenBit_le p hlt
        _ ≤ num / den := lastPlace_le hnum hden (by omega)
    refine iff_of_false (by omega) ?_
    rintro (h | ⟨h, -⟩)
    · exact lt_asymm h habove
    · exact habove.ne' h

/-- The size of a finite number. -/
def absolute (x : Binary p) : ℚ := x.significand * 2 ^ x.exponent

theorem denominator_pos (x : Binary p) : 0 < x.denominator := shiftLeft_pos Nat.one_pos _

theorem numerator_div_denominator (x : Binary p) : (x.numerator / x.denominator : ℚ) = x.absolute := by
  have h := cast_div_shiftLeft (-x.exponent) x.significand 1
  rw [Int.neg_neg, Nat.cast_one, div_one, zpow_neg, div_inv_eq_mul] at h
  exact h

/-- The bits below the sign order the sizes. -/
theorem absolute_le_absolute {x y : Binary p} (h : x.magnitude ≤ y.magnitude) : x.absolute ≤ y.absolute := by
  rw [magnitude_eq, magnitude_eq] at h
  have hx := x.leastExponent_le_exponent
  have hy := y.leastExponent_le_exponent
  have hxs : (x.significand : ℚ) ≤ 2 * p.hiddenBit := by exact_mod_cast x.significand_lt.le
  unfold absolute
  rcases lt_trichotomy x.exponent y.exponent with hlt | heq | hlt
  · have hhidden : p.hiddenBit ≤ y.significand := hiddenBit_le_significand (by omega)
    calc x.significand * (2 : ℚ) ^ x.exponent ≤ 2 * p.hiddenBit * 2 ^ x.exponent := by gcongr
      _ ≤ p.hiddenBit * 2 ^ y.exponent := two_mul_hiddenBit_le p hlt
      _ ≤ y.significand * 2 ^ y.exponent := by gcongr
  · rw [heq, Nat.add_le_add_iff_left] at h
    rw [heq]
    gcongr
  · have hoffset := offset_add_hiddenBit_le hy hlt
    have hhidden : p.hiddenBit ≤ x.significand := hiddenBit_le_significand (by omega)
    have hys := y.significand_lt
    omega

/-- What is not above a number is not rounded to above it. -/
theorem roundMagnitude_le_of_le {x : Binary p} (hx : x.isFinite = true) (hden : 0 < den) (h : (num / den : ℚ) ≤ x.absolute) :
    roundMagnitude p num den ≤ x.magnitude := by
  refine (roundMagnitude_le_iff hx hden).2 (.inl (lt_of_le_of_lt h ?_))
  unfold absolute midpoint
  gcongr
  norm_num

end Magnitudes

/-! ## The parts of a rounded number -/

section Parts
variable {p : Precision}

theorem infinityBits_lt_signWeight (p : Precision) : p.infinityBits < p.signWeight := by cases p <;> decide

theorem roundMagnitude_le_infinityBits (num den : Nat) : roundMagnitude p num den ≤ p.infinityBits := by
  unfold roundMagnitude
  split
  · exact Nat.zero_le _
  · exact Nat.min_le_left ..

theorem toNat_bits_ofMagnitude {m : Nat} (negative : Bool) (hm : m < p.signWeight) :
    (ofMagnitude negative m : Binary p).bits.toNat = if negative then p.signWeight + m else m := by
  have hwidth : 2 ^ p.width = 2 * p.signWeight := by
    rw [Precision.width, Precision.signWeight, Nat.one_shiftLeft, Nat.add_assoc, Nat.pow_add]
  have hlt : (if negative then p.signWeight + m else m) < 2 ^ p.width := by
    rw [hwidth]
    split <;> omega
  rw [ofMagnitude, ofBits, BitVec.toNat_ofNat, Nat.mod_eq_of_lt hlt]

theorem magnitude_ofMagnitude {m : Nat} (negative : Bool) (hm : m < p.signWeight) :
    (ofMagnitude negative m : Binary p).magnitude = m := by
  rw [magnitude, toNat_bits_ofMagnitude negative hm]
  split
  · rw [Nat.add_mod_left, Nat.mod_eq_of_lt hm]
  · exact Nat.mod_eq_of_lt hm

theorem isNegative_ofMagnitude {m : Nat} (negative : Bool) (hm : m < p.signWeight) :
    (ofMagnitude negative m : Binary p).isNegative = negative := by
  rw [isNegative, toNat_bits_ofMagnitude negative hm]
  cases negative <;> simp [hm]

end Parts

/-! ## From 64 to 32 bits -/

section Narrowing
variable {x : Double}

/-- Whether a positive number stays positive and finite among the 32-bit ones: it is above half of the least of them and below
the middle between the greatest and what would follow. -/
def Narrows (x : Double) : Prop :=
  x.denominator < x.numerator * 2 ^ 150 ∧ x.numerator < (2 ^ 128 - 2 ^ 103) * x.denominator

instance : DecidablePred Narrows := fun x => inferInstanceAs
  (Decidable (x.denominator < x.numerator * 2 ^ 150 ∧ x.numerator < (2 ^ 128 - 2 ^ 103) * x.denominator))

theorem isPositive_iff {p : Precision} {x : Binary p} :
    x.isPositive = true ↔ x.isNegative = false ∧ 0 < x.magnitude ∧ x.magnitude < p.infinityBits := by
  simp only [isPositive, isFinite, Bool.and_eq_true, decide_eq_true_eq]
  cases h : x.isNegative
  · simp [rank, h, and_comm]
  · have hrank : x.rank ≤ 0 := by
      rw [rank, if_pos h]
      omega
    simp [hrank]

theorem toSingle_of_isFinite (hx : x.isFinite = true) :
    x.toSingle = ofMagnitude x.isNegative (roundMagnitude .single x.numerator x.denominator) := by
  have hlt : x.magnitude < Precision.double.infinityBits := of_decide_eq_true hx
  have hnan : x.isNaN = false := decide_eq_false (by omega)
  have hinfinite : x.isInfinite = false := decide_eq_false (by omega)
  simp only [toSingle, convert, hnan, hinfinite, Bool.false_eq_true, if_false, ofQuotient]

theorem isNegative_toSingle (hx : x.isFinite = true) : x.toSingle.isNegative = x.isNegative := by
  rw [toSingle_of_isFinite hx]
  exact isNegative_ofMagnitude _ (Nat.lt_of_le_of_lt (roundMagnitude_le_infinityBits _ _) (infinityBits_lt_signWeight _))

theorem magnitude_toSingle (hx : x.isFinite = true) :
    x.toSingle.magnitude = roundMagnitude .single x.numerator x.denominator := by
  rw [toSingle_of_isFinite hx]
  exact magnitude_ofMagnitude _ (Nat.lt_of_le_of_lt (roundMagnitude_le_infinityBits _ _) (infinityBits_lt_signWeight _))

/-- The 32-bit number before infinity. -/
def greatest : Single := ofMagnitude false (Precision.single.infinityBits - 1)

theorem midpoint_zero : (zero false : Single).midpoint = 1 / 2 ^ 150 := by
  have hsignificand : (zero false : Single).significand = 0 := by decide
  have hexponent : (zero false : Single).exponent = -149 := by decide
  rw [midpoint, hsignificand, hexponent]
  norm_num

theorem midpoint_greatest : greatest.midpoint = 2 ^ 128 - 2 ^ 103 := by
  have hsignificand : greatest.significand = 2 ^ 24 - 1 := by decide
  have hexponent : greatest.exponent = 104 := by decide
  rw [midpoint, hsignificand, hexponent]
  norm_num

theorem narrows_iff (x : Double) : x.Narrows ↔ 1 / 2 ^ 150 < x.absolute ∧ x.absolute < 2 ^ 128 - 2 ^ 103 := by
  have hden : (0 : ℚ) < x.denominator := by exact_mod_cast x.denominator_pos
  have hlow : x.denominator < x.numerator * 2 ^ 150 ↔ (1 / 2 ^ 150 : ℚ) < x.absolute := by
    rw [← numerator_div_denominator, div_lt_div_iff₀ (by norm_num) hden, one_mul]
    exact_mod_cast Iff.rfl
  have hhigh : x.numerator < (2 ^ 128 - 2 ^ 103) * x.denominator ↔ x.absolute < (2 ^ 128 - 2 ^ 103 : ℚ) := by
    have hbound : (2 ^ 128 - 2 ^ 103 : ℚ) = (2 ^ 128 - 2 ^ 103 : Nat) := by norm_num
    rw [← numerator_div_denominator, div_lt_iff₀ hden, hbound]
    exact_mod_cast Iff.rfl
  rw [Narrows, hlow, hhigh]

/-- A positive number is rounded to one just if it narrows. -/
theorem isPositive_toSingle_iff (hx : x.isPositive = true) : x.toSingle.isPositive = true ↔ x.Narrows := by
  obtain ⟨hsign, -, hlt⟩ := isPositive_iff.1 hx
  have hfinite : x.isFinite = true := decide_eq_true hlt
  have hzero : roundMagnitude .single x.numerator x.denominator ≤ 0 ↔ x.absolute ≤ 1 / 2 ^ 150 := by
    have heven : (zero false : Single).significand % 2 = 0 := by decide
    have hround : roundMagnitude .single x.numerator x.denominator ≤ (zero false : Single).magnitude ↔ _ :=
      roundMagnitude_le_iff (by decide) x.denominator_pos
    rwa [midpoint_zero, numerator_div_denominator, and_iff_left heven, ← le_iff_lt_or_eq] at hround
  have hgreatest : roundMagnitude .single x.numerator x.denominator ≤ Precision.single.infinityBits - 1 ↔
      x.absolute < 2 ^ 128 - 2 ^ 103 := by
    have hodd : ¬greatest.significand % 2 = 0 := by decide
    have hround : roundMagnitude .single x.numerator x.denominator ≤ greatest.magnitude ↔ _ :=
      roundMagnitude_le_iff (by decide) x.denominator_pos
    rwa [midpoint_greatest, numerator_div_denominator, or_iff_left fun h => hodd h.2] at hround
  have hpos : 0 < Precision.single.infinityBits := by decide
  rw [isPositive_iff, isNegative_toSingle hfinite, magnitude_toSingle hfinite, narrows_iff, ← not_le (a := x.absolute), ← hzero,
    ← hgreatest, not_le, Nat.lt_iff_le_pred hpos]
  exact and_iff_right hsign

/-- Between zero and one a number has no sign, unless it is zero, and no bits above those of one. -/
theorem le_le_iff {p : Precision} {x : Binary p} :
    le (ofNat 0) x = true ∧ le x (ofNat 1) = true ↔
      (x.isNegative = true → x.magnitude = 0) ∧ x.magnitude ≤ (ofNat 1 : Binary p).magnitude := by
  have hzero : (ofNat 0 : Binary p).isNaN = false ∧ (ofNat 0 : Binary p).rank = 0 := by cases p <;> decide
  have hone : (ofNat 1 : Binary p).isNaN = false ∧ (ofNat 1 : Binary p).rank = (ofNat 1 : Binary p).magnitude := by
    cases p <;> decide
  have hlt : (ofNat 1 : Binary p).magnitude < p.infinityBits := by cases p <;> decide
  simp only [le, hzero.1, hone.1, hzero.2, hone.2, Bool.not_false, Bool.true_and, Bool.and_eq_true, Bool.not_eq_true',
    decide_eq_true_eq, Bool.and_true]
  cases h : x.isNegative
  · simp [isNaN, rank, h]
    omega
  · simp [isNaN, rank, h]
    omega

/-- A number between zero and one stays there. -/
theorem le_toSingle_of_le {x : Double} (h : le (ofNat 0) x = true ∧ le x (ofNat 1) = true) :
    le (ofNat 0) x.toSingle = true ∧ le x.toSingle (ofNat 1) = true := by
  obtain ⟨hsign, hle⟩ := le_le_iff.1 h
  have hlt : (ofNat 1 : Double).magnitude < Precision.double.infinityBits := by decide
  have hfinite : x.isFinite = true := decide_eq_true (Nat.lt_of_le_of_lt hle hlt)
  have habsolute : (ofNat 1 : Double).absolute = (ofNat 1 : Single).absolute := by
    have hdouble : (ofNat 1 : Double).significand = 2 ^ 52 ∧ (ofNat 1 : Double).exponent = -52 := by decide
    have hsingle : (ofNat 1 : Single).significand = 2 ^ 23 ∧ (ofNat 1 : Single).exponent = -23 := by decide
    simp only [absolute, hdouble, hsingle]
    norm_num
  rw [le_le_iff, isNegative_toSingle hfinite, magnitude_toSingle hfinite]
  refine ⟨fun hnegative => ?_, ?_⟩
  · have hnum : x.numerator = 0 := by simp [numerator, significand, hsign hnegative]
    rw [hnum]
    rfl
  · refine roundMagnitude_le_of_le (by decide) x.denominator_pos ?_
    rw [numerator_div_denominator, ← habsolute]
    exact absolute_le_absolute hle

end Narrowing

end Binary

end RenderGraph
