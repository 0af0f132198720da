/-!
# Hexadecimal digits

Written in lower case, read in either case.
-/

namespace RenderGraph.Hex

/-- The digit of a number below 16. -/
def toChar (n : Nat) : Char :=
  if n < 10 then Char.ofNat ('0'.toNat + n) else Char.ofNat ('a'.toNat + (n - 10))

def ofChar? (c : Char) : Option Nat :=
  if '0' ≤ c ∧ c ≤ '9' then some (c.toNat - '0'.toNat)
  else if 'a' ≤ c ∧ c ≤ 'f' then some (c.toNat - 'a'.toNat + 10)
  else if 'A' ≤ c ∧ c ≤ 'F' then some (c.toNat - 'A'.toNat + 10)
  else none

theorem ofChar?_toChar : ∀ n < 16, ofChar? (toChar n) = some n := by decide

/-- The number of a text of digits. -/
def ofText? (cs : List Char) : Option Nat := cs.foldlM (fun n c => (ofChar? c).map (16 * n + ·)) 0

/-- The digits of a number, highest first; zero has one. -/
def digits (n : Nat) : List Char := if n < 16 then [toChar n] else digits (n / 16) ++ [toChar (n % 16)]

end RenderGraph.Hex
