import RenderGraph.Text.Hex
import RenderGraph.Text.Invisible
/-!
# Quoted text

How a text is shown between double quotes: the quote and the backslash have a backslash before
them, line ends, tabs and NUL have letters, and characters without a form of their own are shown by
their number. Whether the single quote is escaped as well is up to the place.
-/

namespace RenderGraph.Text

/-- The code point of a character between braces. -/
def numbered (c : Char) : List Char := ['\\', 'u', '\x7b'] ++ Hex.digits c.toNat ++ ['\x7d']

def escapeChar (single : Bool) (c : Char) : List Char :=
  if c = '\x00' then ['\\', '0']
  else if c = '\t' then ['\\', 't']
  else if c = '\r' then ['\\', 'r']
  else if c = '\n' then ['\\', 'n']
  else if c = '\\' then ['\\', '\\']
  else if c = '"' then ['\\', '"']
  else if c = '\'' ∧ single then ['\\', '\'']
  else if isInvisible c then numbered c
  else [c]

def quoted (single : Bool) (s : String) : List Char := '"' :: s.toList.flatMap (escapeChar single) ++ ['"']

def quotedList (items : List String) : String :=
  "[" ++ ", ".intercalate (items.map fun s => String.ofList (quoted false s)) ++ "]"

end RenderGraph.Text
