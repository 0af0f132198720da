import RenderGraph.Json.Basic
import RenderGraph.Text.Hex
/-!
# JSON tokens

`Token.ofText?` cuts a text into tokens, one character at a time. Blanks separate and are
dropped; a numeral or a word ends at the first character that cannot be in it.

Strings hold no control characters, and every escaped surrogate belongs to a pair.
-/

namespace RenderGraph.Json

inductive Token where
  | openArray
  | closeArray
  | openObject
  | closeObject
  | comma
  | colon
  | null
  | bool (b : Bool)
  | number (n : Numeral)
  | string (s : String)
deriving DecidableEq

namespace Token

/-- What has been read of the token at hand; texts are kept backwards. -/
inductive Partial where
  | none
  | word (read : List Char)
  | numeral (read : List Char)
  | string (read : List Char)
  | escape (read : List Char)
  /-- A string inside an escaped code unit: the leading surrogate before it, if any, the digits
  still missing and the number so far. -/
  | unit (read : List Char) (leading : Option Nat) (missing : Nat) (code : Nat)
  | paired (read : List Char) (leading : Nat)
  /-- The same, after the backslash of the next escape. -/
  | pairedEscape (read : List Char) (leading : Nat)

/-- Tokens read so far, the last one first, and the token at hand. -/
structure Progress where
  tokens : List Token
  current : Partial

/-- Whether a character separates tokens and is otherwise ignored. -/
def isBlank (c : Char) : Bool := c = ' ' || c = '\t' || c = '\n' || c = '\r'

def isNumeralChar (c : Char) : Bool :=
  Digit.isDigit c || c = '+' || c = '-' || c = '.' || c = 'e' || c = 'E'

def mark? : Char → Option Token
  | '[' => some openArray
  | ']' => some closeArray
  | '\x7b' => some openObject
  | '\x7d' => some closeObject
  | ',' => some comma
  | ':' => some colon
  | _ => Option.none

/-- The token that a word stands for. -/
def word? (read : List Char) : Option Token :=
  if read = "null".toList then some null
  else if read = "true".toList then some (bool true)
  else if read = "false".toList then some (bool false)
  else Option.none

/-- A numeral that stands for a number. -/
def numeral? (read : List Char) : Option Token :=
  (Numeral.ofText? read).bind fun n => if n.value?.isSome then some (number n) else Option.none

def escaped? : Char → Option Char
  | '"' => some '"'
  | '\\' => some '\\'
  | '/' => some '/'
  | 'b' => some '\x08'
  | 'f' => some '\x0c'
  | 'n' => some '\n'
  | 'r' => some '\r'
  | 't' => some '\t'
  | _ => Option.none

/-- What an escaped code unit adds to a string, given the leading surrogate before it. -/
def closeUnit? (read : List Char) (leading : Option Nat) (code : Nat) : Option Partial :=
  match leading with
  | some high =>
    if 0xdc00 ≤ code ∧ code < 0xe000 then
      some (.string (Char.ofNat (0x10000 + (high - 0xd800) * 0x400 + (code - 0xdc00)) :: read))
    else Option.none
  | Option.none =>
    if 0xd800 ≤ code ∧ code < 0xdc00 then some (.paired read code)
    else if 0xdc00 ≤ code ∧ code < 0xe000 then Option.none
    else some (.string (Char.ofNat code :: read))

def begin? (tokens : List Token) (c : Char) : Option Progress :=
  if isBlank c then some ⟨tokens, .none⟩
  else if c = '"' then some ⟨tokens, .string []⟩
  else if isNumeralChar c then some ⟨tokens, .numeral [c]⟩
  else if c.isAlpha then some ⟨tokens, .word [c]⟩
  else (mark? c).map fun t => ⟨t :: tokens, .none⟩

def read? (p : Progress) (c : Char) : Option Progress :=
  match p.current with
  | .none => begin? p.tokens c
  | .word read =>
    if c.isAlpha then some ⟨p.tokens, .word (c :: read)⟩
    else (word? read.reverse).bind fun t => begin? (t :: p.tokens) c
  | .numeral read =>
    if isNumeralChar c then some ⟨p.tokens, .numeral (c :: read)⟩
    else (numeral? read.reverse).bind fun t => begin? (t :: p.tokens) c
  | .string read =>
    if c = '"' then some ⟨.string (String.ofList read.reverse) :: p.tokens, .none⟩
    else if c = '\\' then some ⟨p.tokens, .escape read⟩
    else if c.toNat < 0x20 then Option.none
    else some ⟨p.tokens, .string (c :: read)⟩
  | .escape read =>
    if c = 'u' then some ⟨p.tokens, .unit read Option.none 4 0⟩
    else (escaped? c).map fun e => ⟨p.tokens, .string (e :: read)⟩
  | .unit read leading missing code =>
    (Hex.ofChar? c).bind fun d =>
      if missing ≤ 1 then (closeUnit? read leading (16 * code + d)).map fun s => ⟨p.tokens, s⟩
      else some ⟨p.tokens, .unit read leading (missing - 1) (16 * code + d)⟩
  | .paired read leading => if c = '\\' then some ⟨p.tokens, .pairedEscape read leading⟩ else Option.none
  | .pairedEscape read leading =>
    if c = 'u' then some ⟨p.tokens, .unit read (some leading) 4 0⟩ else Option.none

/-- The tokens once the text has ended. -/
def finish? (p : Progress) : Option (List Token) :=
  match p.current with
  | .none => some p.tokens.reverse
  | .word read => (word? read.reverse).map fun t => (t :: p.tokens).reverse
  | .numeral read => (numeral? read.reverse).map fun t => (t :: p.tokens).reverse
  | _ => Option.none

def ofText? (cs : List Char) : Option (List Token) := (cs.foldlM read? ⟨[], .none⟩).bind finish?

end Token

end RenderGraph.Json
