import Mathlib.Data.List.TakeWhile
import RenderGraph.Json.Numeral
/-!
# Numerals that are read as they were written

A numeral is read back from its text if it is `Proper`, which all numerals of
integers and of binary numbers are.
-/

namespace RenderGraph

/-! ## Digits -/

namespace Digit

/-- Digits without a zero in front of others. -/
def Leading (ds : List Digit) : Prop := ds ≠ [] ∧ (ds.head? = some zero → ds.length = 1)

theorem leading_digits (n : Nat) : Leading (digits n) := by
  refine ⟨digits_ne_nil n, ?_⟩
  fun_induction digits n with
  | case1 n h => exact fun _ => rfl
  | case2 n h ih =>
    intro hhead
    obtain ⟨d, ds, hds⟩ := List.exists_cons_of_ne_nil (digits_ne_nil (n / 10))
    rw [hds, List.cons_append, List.head?_cons] at hhead
    have hlength := ih (by rw [hds, List.head?_cons, hhead])
    -- A single zero would be the digits of a number below ten.
    obtain rfl : ds = [] := by simpa [hds] using hlength
    have hvalue := ofDigits_digits (n / 10)
    rw [hds, Option.some.inj hhead] at hvalue
    have : n / 10 = 0 := hvalue.symm
    omega

end Digit

namespace Json.Numeral

open Digit (Leading ofChar? ofChar?_toChar)

/-- The digits in front of something else. -/
theorem takeDigits_text (ds : List Digit) {rest : List Char} (h : ∀ c ∈ rest.head?, ofChar? c = none) :
    takeDigits (Digit.text ds ++ rest) = (ds, rest) := by
  induction ds with
  | nil =>
    cases rest with
    | nil => rfl
    | cons c rest => simp [Digit.text, takeDigits, h c rfl]
  | cons d ds ih =>
    rw [Digit.text, List.map_cons, List.cons_append, takeDigits, ofChar?_toChar]
    simp only [show takeDigits (List.map Digit.toChar ds ++ rest) = (ds, rest) from ih]

/-- A numeral that is written in the one way in which it can be read. -/
structure Proper (n : Numeral) : Prop where
  whole : Leading n.whole
  exponent : ∀ e ∈ n.exponent, e.2 ≠ []

def exponentText : Option (Bool × List Digit) → List Char
  | none => []
  | some (negative, ds) => 'e' :: (if negative then '-' else '+') :: Digit.text ds

/-- What stands behind the whole digits. -/
def tail (n : Numeral) : List Char :=
  (if n.fraction.isEmpty then [] else '.' :: Digit.text n.fraction) ++ exponentText n.exponent

theorem text_eq (n : Numeral) : n.text = (if n.negative then ['-'] else []) ++ (Digit.text n.whole ++ n.tail) := by
  obtain ⟨negative, whole, fraction, exponent⟩ := n
  cases exponent <;> simp only [text, tail, exponentText, List.append_assoc]

theorem exponentOf?_text (negative : Bool) {ds : List Digit} (h : ds ≠ []) :
    exponentOf? ((if negative then '-' else '+') :: Digit.text ds) = some (negative, ds) := by
  have htake : takeDigits (Digit.text ds) = (ds, []) := by
    have := takeDigits_text ds (show ∀ c ∈ ([] : List Char).head?, ofChar? c = none from nofun)
    rwa [List.append_nil] at this
  cases negative <;> simp [exponentOf?, htake, h]

theorem head?_exponentText {e : Option (Bool × List Digit)} : ∀ c ∈ (exponentText e).head?, ofChar? c = none := by
  rcases e with _ | ⟨negative, ds⟩
  · nofun
  · rintro c ⟨⟩
    rfl

theorem head?_tail (n : Numeral) : ∀ c ∈ n.tail.head?, ofChar? c = none := by
  unfold tail
  split
  · exact head?_exponentText
  · rintro c ⟨⟩
    rfl

theorem tailOf?_tail {n : Numeral} (h : ∀ e ∈ n.exponent, e.2 ≠ []) : tailOf? n.tail = some (n.fraction, n.exponent) := by
  have hexponent : ∀ negative ds, n.exponent = some (negative, ds) →
      exponentOf? ((if negative then '-' else '+') :: Digit.text ds) = some (negative, ds) :=
    fun negative ds he => exponentOf?_text negative (h _ he)
  unfold tail
  cases hf : n.fraction with
  | nil =>
    rcases he : n.exponent with _ | ⟨negative, ds⟩
    · rfl
    · simp [exponentText, tailOf?, hexponent negative ds he]
  | cons d ds =>
    have htake := takeDigits_text (d :: ds) (head?_exponentText (e := n.exponent))
    rcases he : n.exponent with _ | ⟨negative, ds'⟩ <;> rw [he] at htake
    · simp [exponentText, tailOf?] at htake ⊢
      simp [htake]
    · simp only [exponentText] at htake
      simp [exponentText, tailOf?, htake, hexponent negative ds' he]

/-- The numeral of a sign, whole digits and what follows them. -/
def ofParts? (negative : Bool) (whole : List Digit) (tail : List Char) : Option Numeral :=
  match whole with
  | [] => none
  | ⟨0, _⟩ :: _ :: _ => none
  | _ => (tailOf? tail).map fun e => ⟨negative, whole, e.1, e.2⟩

/-- A numeral is read back from its text. -/
theorem ofText?_text {n : Numeral} (h : n.Proper) : ofText? n.text = some n := by
  have htake := takeDigits_text n.whole n.head?_tail
  have htail := tailOf?_tail h.exponent
  have hsign : ofText? n.text = ofParts? n.negative n.whole n.tail := by
    rw [text_eq]
    cases hn : n.negative with
    | true =>
      rw [if_pos rfl, List.singleton_append]
      unfold ofText?
      split
      rename_i negative unsigned hmatch
      cases hmatch
      rewrite [htake]
      rfl
    | false =>
      rw [if_neg Bool.false_ne_true, List.nil_append]
      -- No digit is a minus.
      have hminus : ∀ rest, Digit.text n.whole ++ n.tail ≠ '-' :: rest := by
        intro rest heq
        rw [heq] at htake
        exact h.whole.1 (congrArg Prod.fst htake).symm
      unfold ofText?
      split
      rename_i negative unsigned hmatch
      split at hmatch
      · rename_i rest heq
        exact absurd heq (hminus rest)
      · cases hmatch
        rewrite [htake]
        rfl
  rw [hsign]
  unfold ofParts?
  rw [htail]
  obtain ⟨hne, hzero⟩ := h.whole
  split
  · rename_i hw; exact absurd hw hne
  · rename_i hw
    have := hzero (by rw [hw]; rfl)
    simp [hw] at this
  · rfl

/-! ## Integers -/

theorem proper_ofInt (i : Int) : (ofInt i).Proper := ⟨Digit.leading_digits _, nofun⟩

theorem proper_ofNat (n : Nat) : (ofNat n).Proper := ⟨Digit.leading_digits _, nofun⟩

theorem value?_ofInt {i : Int} (hmin : Int64.minValue.toInt ≤ i) (hmax : i < UInt64.size) : (ofInt i).value? = some (.integer i) := by
  have hint : (ofInt i).toInt? = some i := by
    simp only [toInt?, ofInt, List.isEmpty_nil, Option.isNone_none, Bool.and_self, if_true, Digit.ofDigits_digits]
    congr 1
    simp only [decide_eq_true_eq]
    split <;> omega
  have hzero : (decide (i = 0) && (ofInt i).negative) = false := by
    by_cases hi : i = 0 <;> simp [hi, ofInt]
  rw [value?, hint]
  simp only [hzero, Bool.false_or]
  rw [if_neg]
  simp only [Bool.or_eq_true, decide_eq_true_eq, not_or]
  omega

theorem value?_ofNat {n : Nat} (h : n < UInt64.size) : (ofNat n).value? = some (.integer n) := by
  have hnumeral : ofNat n = ofInt n := by simp [ofNat, ofInt]
  rw [hnumeral]
  refine value?_ofInt ?_ (by exact_mod_cast h)
  exact Int.le_trans (by decide) (Int.natCast_nonneg n)

end Json.Numeral

/-! ## Shortest decimals -/

/-- A decimal whose first digit is not zero, or that is zero. -/
def Decimal.Normal (d : Decimal) : Prop :=
  d.digits ≠ [] ∧ (d.digits.head? = some Digit.zero → d.digits = [Digit.zero] ∧ d.scale = 0)

namespace Decimal

theorem normal_zero : Normal ⟨[Digit.zero], 0⟩ := ⟨by simp, fun _ => ⟨rfl, rfl⟩⟩

theorem normal_ofScaled {n : Nat} (hn : n ≠ 0) (k : Int) : (ofScaled n k).Normal := by
  have hhead : (Digit.digits n).head? ≠ some Digit.zero := by
    intro h
    obtain ⟨d, hd⟩ := List.length_eq_one_iff.1 ((Digit.leading_digits n).2 h)
    rw [hd, List.head?_cons] at h
    have hvalue := Digit.ofDigits_digits n
    rw [hd, Option.some.inj h] at hvalue
    exact hn hvalue.symm
  -- Dropping zeros at the end leaves the first digit.
  have hkept : ((Digit.digits n).reverse.dropWhile (· = Digit.zero)).reverse <+: Digit.digits n := by
    rw [← List.reverse_suffix, List.reverse_reverse]
    exact List.dropWhile_suffix _
  have hne : ((Digit.digits n).reverse.dropWhile (· = Digit.zero)).reverse ≠ [] := by
    rw [ne_eq, List.reverse_eq_nil_iff, List.dropWhile_eq_nil_iff]
    intro hall
    obtain ⟨d, ds, hds⟩ := List.exists_cons_of_ne_nil (Digit.digits_ne_nil n)
    have hd := hall d (by simp [hds])
    rw [hds, List.head?_cons] at hhead
    exact hhead (congrArg some (of_decide_eq_true hd))
  have hdigits : (ofScaled n k).digits = ((Digit.digits n).reverse.dropWhile (· = Digit.zero)).reverse := by
    simp only [ofScaled]
    rw [if_neg (by simpa using hne)]
  rw [Normal, hdigits]
  refine ⟨hne, fun h => absurd ?_ hhead⟩
  obtain ⟨rest, hrest⟩ := hkept
  rw [← hrest, List.head?_append, h]
  rfl

theorem leading_whole {d : Decimal} (h : d.Normal) : Digit.Leading d.whole := by
  obtain ⟨hne, hzero⟩ := h
  obtain ⟨a, ds, hds⟩ := List.exists_cons_of_ne_nil hne
  unfold whole
  split
  · exact ⟨by simp, fun _ => rfl⟩
  · rw [hds, List.take_succ_cons, List.cons_append]
    refine ⟨by simp, fun hhead => ?_⟩
    rw [List.head?_cons] at hhead
    obtain ⟨hone, hscale⟩ := hzero (by rw [hds, List.head?_cons, hhead])
    obtain rfl : ds = [] := (List.cons.inj (hds.symm.trans hone)).2
    simp [hscale]

end Decimal

namespace Binary

variable {p : Precision}

theorem significand_pos {x : Binary p} (h : x.isZero = false) : 0 < x.significand := by
  simp only [isZero, decide_eq_false_iff_not] at h
  unfold significand
  split
  · omega
  · have : 0 < p.hiddenBit := by cases p <;> decide
    omega

/-- No number but zero has zero as the nearest decimal. -/
theorem onGrid?_ne_zero {x : Binary p} (h : x.isZero = false) {k : Int} {n : Nat} (hn : x.onGrid? k = some n) : n ≠ 0 := by
  have hpos := significand_pos h
  rintro rfl
  unfold onGrid? at hn
  extract_lets m quarter below quarters step value closed low high lowFits highFits at hn
  have hquarters : ∀ i, 0 < i → 0 < quarters i := fun i hi => by
    refine Nat.mul_pos ?_ (Nat.pow_pos (by decide))
    rw [Nat.shiftLeft_eq]
    exact Nat.mul_pos hi (Nat.pow_pos (by decide))
  have hbelow : below ≤ 2 := by
    simp only [below]
    split <;> omega
  have hlow : low = 0 → ¬ lowFits := by
    intro hlow
    have := hquarters (4 * m - below) (by omega)
    simp only [lowFits, hlow, Nat.zero_mul]
    split <;> omega
  split at hn
  · rename_i hfits
    split at hn
    · split at hn
      · exact hlow (Option.some.inj hn) hfits
      · exact Nat.succ_ne_zero low (Option.some.inj hn)
    · exact hlow (Option.some.inj hn) hfits
  · split at hn
    · exact Nat.succ_ne_zero low (Option.some.inj hn)
    · cases hn

theorem normal_shortest (x : Binary p) : x.shortest.Normal := by
  unfold shortest
  cases hz : x.isZero with
  | true => exact Decimal.normal_zero
  | false =>
    rw [if_neg Bool.false_ne_true]
    generalize hfound : List.findSome? _ (List.range 24) = found
    cases found with
    | none => exact Decimal.normal_zero
    | some d =>
      obtain ⟨i, -, hi⟩ := List.exists_of_findSome?_eq_some hfound
      obtain ⟨n, hn, rfl⟩ := Option.map_eq_some_iff.1 hi
      exact Decimal.normal_ofScaled (onGrid?_ne_zero hz hn) _

theorem proper_ofBinary (x : Binary p) : (Json.Numeral.ofBinary x).Proper := by
  have hnormal := normal_shortest x
  simp only [Json.Numeral.ofBinary]
  split
  · exact ⟨Decimal.leading_whole hnormal, nofun⟩
  · refine ⟨⟨by simpa using hnormal.1, fun h => ?_⟩, ?_⟩
    · obtain ⟨a, ds, hds⟩ := List.exists_cons_of_ne_nil hnormal.1
      simp [hds]
    · rintro e ⟨⟩
      exact Digit.digits_ne_nil _

end Binary

end RenderGraph
