import RenderGraph.Number.Digits
import RenderGraph.Ron.Basic
import RenderGraph.Text.Hex
/-!
# Tokens of the settings notation

`Token.ofText?` cuts a text into tokens, one character at a time. Blanks and comments separate and
are dropped; comments between `/*` and `*/` nest. Texts may be written with escapes or raw, between
as many number signs on both sides as it takes.
-/

namespace RenderGraph.Ron

inductive Token where
  | opens (bracket : Bracket)
  | closes (bracket : Bracket)
  | comma
  | colon
  | hash
  | bang
  | name (s : String)
  | text (s : String)
  | char (c : Char)
  | bytes (s : String)
  | number (written : List Char)
deriving DecidableEq

namespace Token

inductive Quotation where
  | text
  | bytes
  | char
deriving DecidableEq

/-- What has been read of the token at hand; texts are kept backwards. -/
inductive Partial where
  | none
  /-- A name, or what may turn out to come before a quotation. -/
  | word (read : List Char)
  | rawWord (read : List Char)
  | number (read : List Char)
  | quoted (form : Quotation) (read : List Char)
  /-- A quoted token that stopped after a backslash. -/
  | escape (form : Quotation) (read : List Char)
  /-- A quoted token inside a two-digit code, with the codes right before it that make up a
  character together with it. -/
  | code (form : Quotation) (read : List Char) (codes : List UInt8) (missing value : Nat)
  /-- A quoted token after codes that do not make up a character yet. -/
  | moreCodes (form : Quotation) (read : List Char) (codes : List UInt8)
  /-- The same, after the backslash of the next code. -/
  | moreCodesEscape (form : Quotation) (read : List Char) (codes : List UInt8)
  /-- A quoted token before the brace of a longer code. -/
  | codeBrace (form : Quotation) (read : List Char)
  | longCode (form : Quotation) (read : List Char) (count value : Nat)
  | rawMark (form : Quotation) (hashes : Nat)
  | raw (form : Quotation) (hashes : Nat) (read : List Char)
  /-- A raw text after a quote and some number signs. -/
  | rawEnd (form : Quotation) (hashes : Nat) (read : List Char) (seen : Nat)
  | slash
  /-- A comment to the end of the line. -/
  | line
  /-- Comments around the place of reading, and the character before it. -/
  | block (depth : Nat) (before : Char)

/-- Tokens read so far, the last one first, and the token at hand. -/
structure Progress where
  tokens : List Token
  current : Partial

/-- The blanks: spaces, tabs, line ends, and marks of writing direction. -/
def isBlank (c : Char) : Bool :=
  [0x09, 0x0a, 0x0b, 0x0c, 0x0d, 0x20, 0x85, 0x200e, 0x200f, 0x2028, 0x2029].contains c.toNat

/-- Whether a name can start with a character. Beyond ASCII every character counts as a letter. -/
def startsName (c : Char) : Bool := c.isAlpha || c = '_' || 0x80 ≤ c.toNat

/-- Whether a character can stand in a name. -/
def inName (c : Char) : Bool := startsName c || Digit.isDigit c

/-- Whether a character can also stand in a name with its raw mark. -/
def inRawName (c : Char) : Bool := inName c || c = '.' || c = '+' || c = '-'

/-- Whether a number can start with a character. -/
def startsNumber (c : Char) : Bool := Digit.isDigit c || c = '+' || c = '-' || c = '.'

/-- Whether a character can stand in a number. -/
def inNumber (c : Char) : Bool := startsNumber c || c.isAlpha || c = '_'

def mark? : Char → Option Token
  | '(' => some (opens .round)
  | ')' => some (closes .round)
  | '[' => some (opens .square)
  | ']' => some (closes .square)
  | '\x7b' => some (opens .curly)
  | '\x7d' => some (closes .curly)
  | ',' => some comma
  | ':' => some colon
  | '#' => some hash
  | '!' => some bang
  | _ => Option.none

def quotation? (form : Quotation) (read : List Char) : Option Token :=
  match form, read with
  | .text, _ => some (text (String.ofList read.reverse))
  | .bytes, _ => some (bytes (String.ofList read.reverse))
  | .char, [c] => some (char c)
  | .char, _ => Option.none

def Quotation.quote : Quotation → Char
  | .char => '\''
  | _ => '"'

def escaped? : Char → Option Char
  | '"' => some '"'
  | '\'' => some '\''
  | '\\' => some '\\'
  | 'n' => some '\n'
  | 'r' => some '\r'
  | 't' => some '\t'
  | '0' => some '\x00'
  | _ => Option.none

def ofCode? (n : Nat) : Option Char := if n.isValidChar then some (Char.ofNat n) else Option.none

/-- The one character that codes make up. -/
def ofCodes? (codes : List UInt8) : Option Char :=
  match (String.fromUTF8? ⟨codes.toArray⟩).map String.toList with
  | some [c] => some c
  | _ => Option.none

/-- What two-digit codes add to a quoted token. A byte string takes each code by itself; in a text up
to four make up a character. -/
def closeCode? (form : Quotation) (read : List Char) (codes : List UInt8) : Option Partial :=
  match form, ofCodes? codes with
  | .bytes, _ => some (.quoted form (codes.map (fun b => Char.ofNat b.toNat) ++ read))
  | _, some c => some (.quoted form (c :: read))
  | _, Option.none => if codes.length < 4 then some (.moreCodes form read codes) else Option.none

def begin? (tokens : List Token) (c : Char) : Option Progress :=
  if isBlank c then some ⟨tokens, .none⟩
  else if c = '"' then some ⟨tokens, .quoted .text []⟩
  else if c = '\'' then some ⟨tokens, .quoted .char []⟩
  else if c = '/' then some ⟨tokens, .slash⟩
  else if startsName c then some ⟨tokens, .word [c]⟩
  else if startsNumber c then some ⟨tokens, .number [c]⟩
  else (mark? c).map fun t => ⟨t :: tokens, .none⟩

/-- The form of a quotation after a word: `b` before bytes, and whether it is raw. -/
def quotationAfter? (read : List Char) : Option (Quotation × Bool) :=
  if read = ['b'] then some (.bytes, false)
  else if read = ['r'] then some (.text, true)
  else if read = ['r', 'b'] then some (.bytes, true)
  else Option.none

/-- Reads a character after a word, backwards, that it is not part of. -/
def endWord? (tokens : List Token) (read : List Char) (c : Char) : Option Progress :=
  match c, quotationAfter? read with
  | '"', some (form, false) => some ⟨tokens, .quoted form []⟩
  | '"', some (form, true) => some ⟨tokens, .raw form 0 []⟩
  | '#', some (form, true) => some ⟨tokens, .rawMark form 1⟩
  | _, _ => begin? (name (String.ofList read.reverse) :: tokens) c

def inBlock (depth : Nat) (before c : Char) : Partial :=
  if before = '*' ∧ c = '/' then
    if depth ≤ 1 then .none else .block (depth - 1) ' '
  else if before = '/' ∧ c = '*' then .block (depth + 1) ' '
  else .block depth c

def read? (p : Progress) (c : Char) : Option Progress :=
  match p.current with
  | .none => begin? p.tokens c
  | .word read => if inName c then some ⟨p.tokens, .word (c :: read)⟩ else endWord? p.tokens read c
  | .rawWord read =>
    if inRawName c then some ⟨p.tokens, .rawWord (c :: read)⟩
    else begin? (name (String.ofList read.reverse) :: p.tokens) c
  | .number read =>
    if inNumber c then some ⟨p.tokens, .number (c :: read)⟩ else begin? (number read.reverse :: p.tokens) c
  | .quoted form read =>
    if c = form.quote then (quotation? form read).map fun t => ⟨t :: p.tokens, .none⟩
    else if c = '\\' then some ⟨p.tokens, .escape form read⟩
    else some ⟨p.tokens, .quoted form (c :: read)⟩
  | .escape form read =>
    if c = 'x' then some ⟨p.tokens, .code form read [] 2 0⟩
    else if c = 'u' then some ⟨p.tokens, .codeBrace form read⟩
    else (escaped? c).map fun e => ⟨p.tokens, .quoted form (e :: read)⟩
  | .code form read codes missing value =>
    (Hex.ofChar? c).bind fun d =>
      if missing ≤ 1 then
        (closeCode? form read (codes ++ [UInt8.ofNat (16 * value + d)])).map fun s => ⟨p.tokens, s⟩
      else some ⟨p.tokens, .code form read codes (missing - 1) (16 * value + d)⟩
  | .moreCodes form read codes =>
    if c = '\\' then some ⟨p.tokens, .moreCodesEscape form read codes⟩ else Option.none
  | .moreCodesEscape form read codes =>
    if c = 'x' then some ⟨p.tokens, .code form read codes 2 0⟩ else Option.none
  | .codeBrace form read => if c = '\x7b' then some ⟨p.tokens, .longCode form read 0 0⟩ else Option.none
  | .longCode form read count value =>
    if c = '\x7d' then
      if count = 0 then Option.none else (ofCode? value).map fun e => ⟨p.tokens, .quoted form (e :: read)⟩
    else if 6 ≤ count then Option.none
    else (Hex.ofChar? c).map fun d => ⟨p.tokens, .longCode form read (count + 1) (16 * value + d)⟩
  | .rawMark form hashes =>
    if c = '#' then some ⟨p.tokens, .rawMark form (hashes + 1)⟩
    else if c = '"' then some ⟨p.tokens, .raw form hashes []⟩
    else if form = .text ∧ hashes = 1 ∧ inRawName c then some ⟨p.tokens, .rawWord [c]⟩
    else Option.none
  | .raw form hashes read =>
    if c = '"' then
      if hashes = 0 then (quotation? form read).map fun t => ⟨t :: p.tokens, .none⟩
      else some ⟨p.tokens, .rawEnd form hashes read 0⟩
    else some ⟨p.tokens, .raw form hashes (c :: read)⟩
  | .rawEnd form hashes read seen =>
    if c = '#' then
      if hashes ≤ seen + 1 then (quotation? form read).map fun t => ⟨t :: p.tokens, .none⟩
      else some ⟨p.tokens, .rawEnd form hashes read (seen + 1)⟩
    else if c = '"' then some ⟨p.tokens, .rawEnd form hashes (List.replicate seen '#' ++ '"' :: read) 0⟩
    else some ⟨p.tokens, .raw form hashes (c :: (List.replicate seen '#' ++ '"' :: read))⟩
  | .slash =>
    if c = '/' then some ⟨p.tokens, .line⟩
    else if c = '*' then some ⟨p.tokens, .block 1 ' '⟩
    else Option.none
  | .line => some ⟨p.tokens, if c = '\n' then .none else .line⟩
  | .block depth before => some ⟨p.tokens, inBlock depth before c⟩

/-- The tokens once the text has ended. -/
def finish? (p : Progress) : Option (List Token) :=
  match p.current with
  | .none | .line => some p.tokens.reverse
  | .word read | .rawWord read => some (name (String.ofList read.reverse) :: p.tokens).reverse
  | .number read => some (number read.reverse :: p.tokens).reverse
  | _ => Option.none

def ofText? (cs : List Char) : Option (List Token) := (cs.foldlM read? ⟨[], .none⟩).bind finish?

end Token

end RenderGraph.Ron
