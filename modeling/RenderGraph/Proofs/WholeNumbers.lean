import RenderGraph.Proofs.Rounding
/-!
# Whole numbers are exact

A whole number with no more bits than a significand has is a number of the
format (`absolute_ofNat`), so sums and products of such numbers are those of
whole numbers, rounded once (`ofNat_add_ofNat`, `ofNat_mul_ofNat`).
-/

namespace RenderGraph.Binary

variable {p : Precision}

/-! ## Equal quotients -/

theorem roundMagnitude_le_of_div_eq {num den num' den' : Nat} (hden : 0 < den) (hden' : 0 < den')
    (h : (num / den : ℚ) = num' / den') : roundMagnitude p num den ≤ roundMagnitude p num' den' := by
  rcases (roundMagnitude_le_infinityBits (p := p) num' den').lt_or_eq with hlt | heq
  · -- The second result is a number, and what is rounded to it or below is told by the quotient.
    let x : Binary p := ofMagnitude false (roundMagnitude p num' den')
    have hx : x.magnitude = roundMagnitude p num' den' :=
      magnitude_ofMagnitude false (Nat.lt_trans hlt (infinityBits_lt_signWeight p))
    have hfinite : x.isFinite = true := decide_eq_true (hx ▸ hlt)
    rw [← hx, roundMagnitude_le_iff hfinite hden, h, ← roundMagnitude_le_iff hfinite hden', hx]
  · rw [heq]
    exact roundMagnitude_le_infinityBits num den

/-- Rounding depends on the quotient alone. -/
theorem ofQuotient_congr {num den num' den' : Nat} (hden : 0 < den) (hden' : 0 < den') (h : (num / den : ℚ) = num' / den')
    (negative : Bool) : (ofQuotient negative num den : Binary p) = ofQuotient negative num' den' := by
  have hbits : roundMagnitude p num den = roundMagnitude p num' den' :=
    Nat.le_antisymm (roundMagnitude_le_of_div_eq hden hden' h) (roundMagnitude_le_of_div_eq hden' hden h.symm)
  rw [ofQuotient, ofQuotient, hbits]

theorem ofQuotient_mul {n d : Nat} (hd : 0 < d) : (ofQuotient false (n * d) d : Binary p) = ofNat n := by
  have hd' : (d : ℚ) ≠ 0 := Nat.cast_ne_zero.2 hd.ne'
  refine ofQuotient_congr hd Nat.one_pos ?_ false
  rw [Nat.cast_mul, mul_div_cancel_right₀ _ hd', Nat.cast_one, div_one]

/-! ## The number nearest to a whole number -/

/-- A number given by its digits and the exponent of the last one. -/
theorem absolute_ofMagnitude (negative : Bool) {e : Int} {k : Nat} (he : p.leastExponent ≤ e) (hk : k < 2 * p.hiddenBit)
    (hnormal : p.leastExponent < e → p.hiddenBit ≤ k)
    (hm : (e - p.leastExponent).toNat * p.hiddenBit + k < p.signWeight) :
    (ofMagnitude negative ((e - p.leastExponent).toNat * p.hiddenBit + k) : Binary p).absolute = k * 2 ^ e := by
  have hmagnitude := magnitude_ofMagnitude negative hm
  generalize (ofMagnitude negative _ : Binary p) = x at hmagnitude ⊢
  rw [magnitude_eq] at hmagnitude
  have hleast := x.leastExponent_le_exponent
  have hlt := x.significand_lt
  -- Another exponent would leave a digit too many or one too few.
  rcases lt_trichotomy x.exponent e with hbelow | heq | habove
  · have hoffset := offset_add_hiddenBit_le hleast hbelow
    have hdigits := hnormal (by omega)
    omega
  · rw [heq, Nat.add_left_cancel_iff] at hmagnitude
    rw [absolute, heq, hmagnitude]
  · have hoffset := offset_add_hiddenBit_le he habove
    have hdigits := hiddenBit_le_significand (x := x) (by omega)
    omega

variable {n : Nat}

/-- A whole number is kept down to a place that is not below the point. -/
theorem lastPlace_le_zero (hpos : 0 < n) (h : n < 2 * p.hiddenBit) : lastPlace p n 1 ≤ 0 := by
  by_contra habove
  have hleast : p.leastExponent < 0 := by cases p <;> decide
  have hplace : (p.hiddenBit : ℚ) * 2 ^ lastPlace p n 1 ≤ n := by
    simpa using lastPlace_le hpos Nat.one_pos (p := p) (by omega)
  have htwo : (2 : ℚ) ≤ 2 ^ lastPlace p n 1 := by
    simpa using zpow_le_zpow_right₀ (one_le_two (α := ℚ)) (show 1 ≤ lastPlace p n 1 by omega)
  have hn : (n : ℚ) < p.hiddenBit * 2 := by
    rw [mul_comm]
    exact_mod_cast h
  have hhidden : (p.hiddenBit : ℚ) * 2 ≤ p.hiddenBit * 2 ^ lastPlace p n 1 := by gcongr
  linarith

theorem kept_eq_shiftLeft (h : lastPlace p n 1 ≤ 0) : kept p n 1 = n <<< (-lastPlace p n 1).toNat := by
  have hone : (lastPlace p n 1).toNat = 0 := by omega
  rw [kept, hone]
  simp [roundQuotient, Nat.mod_one]

theorem cast_kept (h : lastPlace p n 1 ≤ 0) : (kept p n 1 : ℚ) * 2 ^ lastPlace p n 1 = n := by
  rw [kept_eq_shiftLeft h, Nat.shiftLeft_eq, Nat.cast_mul, Nat.cast_pow, Nat.cast_ofNat, ← zpow_natCast,
    Int.toNat_of_nonneg (Int.neg_nonneg_of_nonpos h), mul_assoc, ← zpow_add₀ two_ne_zero, neg_add_cancel, zpow_zero, mul_one]

/-- The bits of the number nearest to a whole number, which is one. -/
theorem roundMagnitude_eq (hpos : 0 < n) (h : n < 2 * p.hiddenBit) : kept p n 1 < 2 * p.hiddenBit ∧
    roundMagnitude p n 1 = (lastPlace p n 1 - p.leastExponent).toNat * p.hiddenBit + kept p n 1 ∧
    roundMagnitude p n 1 < p.infinityBits := by
  have hplace := lastPlace_le_zero (p := p) hpos h
  have hkept : kept p n 1 < 2 * p.hiddenBit := by
    have hlt := lt_lastPlace p hpos Nat.one_pos
    rw [Nat.cast_one, div_one, ← cast_kept hplace] at hlt
    exact_mod_cast lt_of_mul_lt_mul_right hlt (by positivity)
  have hbits : roundMagnitude p n 1 = _ := roundMagnitude_eq_min hpos
  have hoffset : (lastPlace p n 1 - p.leastExponent).toNat * p.hiddenBit ≤ (-p.leastExponent).toNat * p.hiddenBit :=
    Nat.mul_le_mul_right _ (by omega)
  have hroom : (-p.leastExponent).toNat * p.hiddenBit + 2 * p.hiddenBit < p.infinityBits := by cases p <;> decide
  exact ⟨hkept, by omega, by omega⟩

theorem isFinite_ofNat (h : n < 2 * p.hiddenBit) : (ofNat n : Binary p).isFinite = true := by
  rcases Nat.eq_zero_or_pos n with rfl | hpos
  · cases p <;> decide
  · obtain ⟨-, -, hfinite⟩ := roundMagnitude_eq hpos h
    have hlt := Nat.lt_trans hfinite (infinityBits_lt_signWeight p)
    rw [isFinite, ofNat, ofQuotient, magnitude_ofMagnitude false hlt]
    exact decide_eq_true hfinite

/-- A whole number that is not too long is a number of the format. -/
theorem absolute_ofNat (h : n < 2 * p.hiddenBit) : (ofNat n : Binary p).absolute = n := by
  rcases Nat.eq_zero_or_pos n with rfl | hpos
  · have hzero : (ofNat 0 : Binary p).significand = 0 := by cases p <;> decide
    rw [absolute, hzero]
    simp
  · obtain ⟨hkept, hbits, hfinite⟩ := roundMagnitude_eq hpos h
    have hlt := Nat.lt_trans hfinite (infinityBits_lt_signWeight p)
    rw [ofNat, ofQuotient, hbits, absolute_ofMagnitude false (leastExponent_le_lastPlace p n 1) hkept
      (hiddenBit_le_kept hpos Nat.one_pos) (hbits ▸ hlt), cast_kept (lastPlace_le_zero hpos h)]

theorem ofNat_inj {a b : Nat} (ha : a < 2 * p.hiddenBit) (hb : b < 2 * p.hiddenBit) :
    (ofNat a : Binary p) = ofNat b ↔ a = b := by
  refine ⟨fun h => ?_, congrArg ofNat⟩
  have habsolute := congrArg absolute h
  rw [absolute_ofNat ha, absolute_ofNat hb] at habsolute
  exact_mod_cast habsolute

/-! ## Sums and products -/

/-- How a whole number stands in arithmetic. -/
structure Whole (x : Binary p) (n : Nat) : Prop where
  isNaN : x.isNaN = false
  isInfinite : x.isInfinite = false
  isNegative : x.isNegative = false
  numerator : x.numerator = n * x.denominator

theorem whole_ofNat (h : n < 2 * p.hiddenBit) : Whole (ofNat n : Binary p) n := by
  have hfinite : (ofNat n : Binary p).magnitude < p.infinityBits := of_decide_eq_true (isFinite_ofNat h)
  refine ⟨decide_eq_false (by omega), decide_eq_false (by omega), ?_, ?_⟩
  · have hlt := Nat.lt_of_le_of_lt (roundMagnitude_le_infinityBits n 1) (infinityBits_lt_signWeight p)
    exact isNegative_ofMagnitude false hlt
  · have hquotient := numerator_div_denominator (ofNat n : Binary p)
    have hden : ((ofNat n : Binary p).denominator : ℚ) ≠ 0 := Nat.cast_ne_zero.2 (denominator_pos _).ne'
    rw [absolute_ofNat h, div_eq_iff hden] at hquotient
    exact_mod_cast hquotient

variable {x y : Binary p} {a b : Nat}

theorem Whole.add_eq (hx : Whole x a) (hy : Whole y b) : x + y = ofNat (a + b) := by
  have hden : 0 < x.denominator * y.denominator := Nat.mul_pos x.denominator_pos y.denominator_pos
  have hsum : x.signedNumerator * y.denominator + y.signedNumerator * x.denominator =
      ((a + b) * (x.denominator * y.denominator) : Nat) := by
    simp only [signedNumerator, hx.isNegative, hy.isNegative, hx.numerator, hy.numerator, Bool.false_eq_true, if_false]
    push_cast
    ring
  change add x y = _
  simp only [add, hx.isNaN, hy.isNaN, hx.isInfinite, hy.isInfinite, hx.isNegative, hsum, Bool.or_false,
    Bool.false_eq_true, if_false]
  split
  · rename_i hzero
    have hnone : a + b = 0 := by
      rcases Nat.mul_eq_zero.1 (Int.natCast_eq_zero.1 hzero) with h | h
      · exact h
      · exact absurd h hden.ne'
    rw [hnone]
    rfl
  · rw [decide_eq_false (Int.not_lt.2 (Int.natCast_nonneg _)), Int.natAbs_natCast, ofQuotient_mul hden]

theorem Whole.mul_eq (hx : Whole x a) (hy : Whole y b) : x * y = ofNat (a * b) := by
  have hden : 0 < x.denominator * y.denominator := Nat.mul_pos x.denominator_pos y.denominator_pos
  have hproduct : x.numerator * y.numerator = a * b * (x.denominator * y.denominator) := by
    rw [hx.numerator, hy.numerator]
    ring
  change mul x y = _
  simp only [mul, hx.isNaN, hy.isNaN, hx.isInfinite, hy.isInfinite, hx.isNegative, hy.isNegative, hproduct, Bool.or_false,
    Bool.false_eq_true, if_false, bne_self_eq_false]
  exact ofQuotient_mul hden

theorem ofNat_add_ofNat (ha : a < 2 * p.hiddenBit) (hb : b < 2 * p.hiddenBit) :
    (ofNat a + ofNat b : Binary p) = ofNat (a + b) := (whole_ofNat ha).add_eq (whole_ofNat hb)

theorem ofNat_mul_ofNat (ha : a < 2 * p.hiddenBit) (hb : b < 2 * p.hiddenBit) :
    (ofNat a * ofNat b : Binary p) = ofNat (a * b) := (whole_ofNat ha).mul_eq (whole_ofNat hb)

end RenderGraph.Binary
