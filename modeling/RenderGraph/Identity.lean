import RenderGraph.Text.Hex
/-!
# Identities

Nodes and connections are identified by 128-bit numbers. An identity is written as 32 hexadecimal
digits in groups of 8, 4, 4, 4 and 12; it is read in that form, also in braces or after
`urn:uuid:`, and as 32 digits without hyphens.
-/

namespace RenderGraph

/-- The identity of a node in a graph. -/
structure NodeId where
  value : Nat
deriving DecidableEq, Repr

/-- The identity of a connection in a graph. -/
structure ConnectionId where
  value : Nat
deriving DecidableEq, Repr

namespace Identity

/-- The sizes of the groups of digits. -/
def groups : List Nat := [8, 4, 4, 4, 12]

def digits (value : Nat) : List Char := (List.range 32).map fun i => Hex.toChar (value >>> (4 * (31 - i)) % 16)

def hyphenate : List Nat → List Char → List Char
  | [], _ => []
  | [n], cs => cs.take n
  | n :: rest, cs => cs.take n ++ '-' :: hyphenate rest (cs.drop n)

/-- Takes the hyphens out from between groups of the given sizes. -/
def unhyphenate? : List Nat → List Char → Option (List Char)
  | [], cs => if cs.isEmpty then some [] else none
  | [n], cs => if cs.length = n then some cs else none
  | n :: rest, cs =>
    match cs.drop n with
    | '-' :: tail => (unhyphenate? rest tail).map (cs.take n ++ ·)
    | _ => none

def text (value : Nat) : String := String.ofList (hyphenate groups (digits value))

def ofGroups? (cs : List Char) : Option Nat := (unhyphenate? groups cs).bind Hex.ofText?

def ofText? (s : String) : Option Nat :=
  let cs := s.toList
  let label := "urn:uuid:".toList
  if cs.length = 32 then Hex.ofText? cs
  else if cs.length = 38 then
    if cs.head? = some '\x7b' ∧ cs.getLast? = some '\x7d' then ofGroups? (cs.drop 1).dropLast else none
  else if label.isPrefixOf cs then ofGroups? (cs.drop label.length)
  else ofGroups? cs

end Identity

end RenderGraph
