import RenderGraph.Json.Basic
import RenderGraph.Text.Hex
/-!
# Writing JSON

Two layouts of a value: `pretty` puts each item and field on a line of its own, indented by two
blanks per level, and `compact` puts no blank anywhere. Empty arrays and objects are closed at
once in both.
-/

namespace RenderGraph.Json

/-- A character inside a string: the quote, the backslash and control characters are escaped. -/
def escape (c : Char) : List Char :=
  if c = '"' then ['\\', '"']
  else if c = '\\' then ['\\', '\\']
  else if c = '\x08' then ['\\', 'b']
  else if c = '\x0c' then ['\\', 'f']
  else if c = '\n' then ['\\', 'n']
  else if c = '\r' then ['\\', 'r']
  else if c = '\t' then ['\\', 't']
  else if c.toNat < 0x20 then ['\\', 'u', '0', '0', Hex.toChar (c.toNat / 16), Hex.toChar (c.toNat % 16)]
  else [c]

def quote (s : String) : List Char := '"' :: s.toList.flatMap escape ++ ['"']

/-- How the parts of an array or object are set apart. -/
structure Layout where
  /-- Whether each part has a line of its own. -/
  lines : Bool

/-- A new line at a depth, or nothing. -/
def Layout.newLine (l : Layout) (depth : Nat) : List Char :=
  if l.lines then '\n' :: List.replicate (2 * depth) ' ' else []

/-- What stands between a key and its value. -/
def Layout.colon (l : Layout) : List Char := if l.lines then [':', ' '] else [':']

mutual

/-- The text of a value at a depth. -/
def write (l : Layout) (depth : Nat) : Json → List Char
  | null => "null".toList
  | bool b => (if b then "true" else "false").toList
  | number n => n.text
  | string s => quote s
  | array [] => ['[', ']']
  | array (v :: rest) =>
    '[' :: l.newLine (depth + 1) ++ write l (depth + 1) v ++ writeItems l (depth + 1) rest ++
      l.newLine depth ++ [']']
  | object [] => ['\x7b', '\x7d']
  | object ((k, v) :: rest) =>
    '\x7b' :: l.newLine (depth + 1) ++ quote k ++ l.colon ++ write l (depth + 1) v ++
      writeFields l (depth + 1) rest ++ l.newLine depth ++ ['\x7d']

def writeItems (l : Layout) (depth : Nat) : List Json → List Char
  | [] => []
  | v :: rest => ',' :: l.newLine depth ++ write l depth v ++ writeItems l depth rest

def writeFields (l : Layout) (depth : Nat) : List (String × Json) → List Char
  | [] => []
  | (k, v) :: rest => ',' :: l.newLine depth ++ quote k ++ l.colon ++ write l depth v ++ writeFields l depth rest

end

/-- The text of a value over several lines. -/
def pretty (j : Json) : String := String.ofList (write ⟨true⟩ 0 j)

/-- The text of a value without blanks. -/
def compact (j : Json) : String := String.ofList (write ⟨false⟩ 0 j)

end RenderGraph.Json
