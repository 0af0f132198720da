/-!
# Decimal digits

Natural numbers as lists of decimal digits, highest first. Main statement: reading the digits
of a number gives the number back (`ofDigits_digits`).
-/

namespace RenderGraph

abbrev Digit := Fin 10

namespace Digit

def zero : Digit := ⟨0, by decide⟩

/-- What a digit with `n` digits after it counts for. -/
def weight (n : Nat) : Nat := Nat.pow 10 n

def toChar (d : Digit) : Char := Char.ofNat ('0'.toNat + d.val)

def ofChar? (c : Char) : Option Digit :=
  if h : '0'.toNat ≤ c.toNat ∧ c.toNat < '0'.toNat + 10 then some ⟨c.toNat - '0'.toNat, by omega⟩ else none

theorem ofChar?_toChar (d : Digit) : ofChar? d.toChar = some d := by decide +revert

def isDigit (c : Char) : Bool := (ofChar? c).isSome

/-- The number that digits stand for, highest first. -/
def ofDigits (ds : List Digit) : Nat := ds.foldl (fun n d => 10 * n + d.val) 0

/-- The digits of a number, highest first; zero has one. -/
def digits (n : Nat) : List Digit :=
  if n < 10 then [Fin.ofNat 10 n] else digits (n / 10) ++ [Fin.ofNat 10 n]

theorem ofDigits_append_singleton (ds : List Digit) (d : Digit) :
    ofDigits (ds ++ [d]) = 10 * ofDigits ds + d.val := by
  simp [ofDigits]

theorem ofDigits_digits (n : Nat) : ofDigits (digits n) = n := by
  fun_induction digits n with
  | case1 n h => simp [ofDigits, Nat.mod_eq_of_lt h]
  | case2 n h ih => rw [ofDigits_append_singleton, ih]; simp; omega

theorem digits_ne_nil (n : Nat) : digits n ≠ [] := by
  rw [digits]; split <;> simp

def text (ds : List Digit) : List Char := ds.map toChar

end Digit

end RenderGraph
