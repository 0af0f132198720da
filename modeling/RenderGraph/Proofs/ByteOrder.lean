import Mathlib.Data.List.Lex
import Mathlib.Data.String.Basic
/-!
# Texts are in the order of their bytes

Texts are compared character by character. Their bytes in UTF-8 are in the same order
(`bytes_le_iff`): a character takes one to four bytes, each of which holds one digit of its number
behind a mark, and the mark of the first byte grows with the number of bytes. So of two characters
the smaller one has the smaller bytes, whatever follows (`utf8EncodeChar_lt`).
-/

namespace RenderGraph.Text

/-- The bytes of a text in UTF-8. -/
def bytes (s : String) : List UInt8 := s.toByteArray.data.toList

theorem bytes_eq (s : String) : bytes s = s.toList.flatMap String.utf8EncodeChar := by
  rw [bytes, ← String.ofList_toList (s := s), String.toByteArray_ofList, List.utf8Encode]
  simp

/-! ## Digits in bytes -/

theorem ofNat_cons_lt_iff (a b : Nat) (x y : List UInt8) :
    UInt8.ofNat a :: x < UInt8.ofNat b :: y ↔ a % 256 < b % 256 ∨ a % 256 = b % 256 ∧ x < y := by
  rw [List.cons_lt_cons_iff, UInt8.lt_iff_toNat_lt, ← UInt8.toNat_inj]
  rfl

/-- Bytes with the same mark compare as the digits behind it. -/
theorem digit_cons_lt_iff {base mark : Nat} (hbase : 0 < base) (hmark : base + mark ≤ 256) (a b : Nat) (x y : List UInt8) :
    UInt8.ofNat (a % base + mark) :: x < UInt8.ofNat (b % base + mark) :: y ↔
      a % base < b % base ∨ a % base = b % base ∧ x < y := by
  have hbyte (n : Nat) : (n % base + mark) % 256 = n % base + mark := by
    have := Nat.mod_lt n hbase
    exact Nat.mod_eq_of_lt (by omega)
  rw [ofNat_cons_lt_iff, hbyte, hbyte, Nat.add_lt_add_iff_right, Nat.add_right_cancel_iff]

/-- A smaller number is smaller without its last digit, or has the smaller last digit. -/
theorem div_lt_or_mod_lt {a b : Nat} (h : a < b) : a / 64 < b / 64 ∨ a / 64 = b / 64 ∧ a % 64 < b % 64 := by
  omega

/-- Numbers of four digits compare as their digits, the first one first. -/
theorem four_digits_lt {a b : Nat} (ha : a < 8 * 64 ^ 3) (hb : b < 8 * 64 ^ 3) (h : a < b) :
    a / 262144 % 8 < b / 262144 % 8 ∨ a / 262144 % 8 = b / 262144 % 8 ∧
      (a / 4096 % 64 < b / 4096 % 64 ∨ a / 4096 % 64 = b / 4096 % 64 ∧
        (a / 64 % 64 < b / 64 % 64 ∨ a / 64 % 64 = b / 64 % 64 ∧ a % 64 < b % 64)) := by
  have hdiv (n : Nat) : n / 4096 = n / 64 / 64 ∧ n / 262144 = n / 64 / 64 / 64 := by omega
  have htop {n : Nat} (hn : n < 8 * 64 ^ 3) : n / 64 / 64 / 64 % 8 = n / 64 / 64 / 64 := by omega
  rw [(hdiv a).1, (hdiv a).2, (hdiv b).1, (hdiv b).2, htop ha, htop hb]
  rcases div_lt_or_mod_lt h with h | ⟨h, hlast⟩
  · rcases div_lt_or_mod_lt h with h | ⟨h, hthird⟩
    · rcases div_lt_or_mod_lt h with h | ⟨h, hsecond⟩
      · exact .inl h
      · exact .inr ⟨h, .inl hsecond⟩
    · exact .inr ⟨by rw [h], .inr ⟨by rw [h], .inl hthird⟩⟩
  · exact .inr ⟨by rw [h], .inr ⟨by rw [h], .inr ⟨by rw [h], hlast⟩⟩⟩

/-! ## Characters and texts -/

/-- The bytes of a smaller character are smaller, whatever bytes follow. -/
theorem utf8EncodeChar_lt {c d : Char} (h : c < d) (x y : List UInt8) :
    String.utf8EncodeChar c ++ x < String.utf8EncodeChar d ++ y := by
  have hlt : c.val.toNat < d.val.toNat := h
  have hd : d.val.toNat < 0x110000 := by
    have := d.valid
    simp only [UInt32.isValidChar, Nat.isValidChar] at this
    omega
  unfold String.utf8EncodeChar
  dsimp only
  by_cases hlong : 0xffff < c.val.toNat
  -- Both characters have four bytes, which compare as the digits in them.
  · repeat rw [if_neg (by omega)]
    simp (disch := decide) only [List.cons_append, List.nil_append, digit_cons_lt_iff]
    have hdigits := four_digits_lt (by omega) (by omega) hlt
    omega
  -- Otherwise the mark of the first byte decides, or there are at most three digits.
  · split_ifs <;> simp only [List.cons_append, List.nil_append, ofNat_cons_lt_iff] <;> omega

theorem flatMap_utf8EncodeChar_lt {l m : List Char} (h : l < m) :
    l.flatMap String.utf8EncodeChar < m.flatMap String.utf8EncodeChar := by
  induction h with
  | @nil d m =>
    rw [List.flatMap_cons]
    cases hd : String.utf8EncodeChar d with
    | nil => exact absurd hd String.utf8EncodeChar_ne_nil
    | cons b bs => exact List.nil_lt_cons b _
  | rel h => exact utf8EncodeChar_lt h _ _
  | cons _ ih => exact List.append_left_lt ih

theorem bytes_lt_bytes {s t : String} (h : s < t) : bytes s < bytes t := by
  rw [bytes_eq, bytes_eq]
  exact flatMap_utf8EncodeChar_lt h

/-- Texts and their bytes are in the same order. -/
theorem bytes_le_iff (s t : String) : bytes s ≤ bytes t ↔ s ≤ t := by
  constructor
  · intro h
    by_contra hlt
    exact List.not_le.2 (bytes_lt_bytes (String.not_le.1 hlt)) h
  · intro h
    rcases eq_or_lt_of_le h with rfl | h
    · exact List.le_refl _
    · exact List.le_of_lt (bytes_lt_bytes h)

end RenderGraph.Text
