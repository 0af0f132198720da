import RenderGraph.Ron.Number
import RenderGraph.Ron.Token
/-!
# Reading the settings notation

`Ron.read?` reads the one value that a text holds, after headers that enable extensions by name.
Tokens are taken from left to right with a stack of the groups that are still open, at most
`depthLimit` of them. An entry may be followed by one comma, also the last of a group.
-/

namespace RenderGraph.Ron

/-- The greatest number of groups inside one another. -/
def depthLimit : Nat := 128

/-- An open group around the place of reading; entries are kept backwards. -/
structure Frame where
  bracket : Bracket
  name : Option String
  entries : List (Option Ron × Ron)
  key : Option Ron

inductive Expecting where
  /-- A value; where the group may end instead, `closable` is set. -/
  | value (closable : Bool)
  | next (value : Ron)

structure Place where
  expecting : Expecting
  /-- The open groups, the innermost first. -/
  frames : List Frame

def openGroup? (bracket : Bracket) (name : Option String) (frames : List Frame) : Option Place :=
  if frames.length < depthLimit then some ⟨.value true, ⟨bracket, name, [], none⟩ :: frames⟩ else none

/-- Closes the innermost group after its entries, kept backwards. -/
def closeGroup? (bracket : Bracket) (entries : List (Option Ron × Ron)) (f : Frame) (frames : List Frame) :
    Option Place :=
  if f.bracket = bracket then some ⟨.next (group bracket f.name entries.reverse), frames⟩ else none

def beginValue? (frames : List Frame) : Token → Option Place
  | .opens bracket => openGroup? bracket none frames
  | .name s => some ⟨.next (name s), frames⟩
  | .text s => some ⟨.next (text s), frames⟩
  | .char c => some ⟨.next (char c), frames⟩
  | .bytes s => some ⟨.next (bytes s), frames⟩
  | .number written => if isNumber written then some ⟨.next (number written), frames⟩ else none
  | _ => none

def take? (p : Place) (t : Token) : Option Place :=
  match p.expecting, t, p.frames with
  | .value true, .closes bracket, f :: frames => closeGroup? bracket f.entries f frames
  | .value _, t, frames => beginValue? frames t
  | .next (.name s), .opens .round, frames => openGroup? .round (some s) frames
  | .next v, .colon, f :: frames =>
    if f.key.isNone then some ⟨.value false, { f with key := some v } :: frames⟩ else none
  | .next v, .comma, f :: frames =>
    some ⟨.value true, { f with entries := (f.key, v) :: f.entries, key := none } :: frames⟩
  | .next v, .closes bracket, f :: frames => closeGroup? bracket ((f.key, v) :: f.entries) f frames
  | _, _, _ => none

/-- The value that a list of tokens makes up. -/
def ofTokens? (ts : List Token) : Option Ron :=
  match ts.foldlM take? ⟨.value false, []⟩ with
  | some ⟨.next v, []⟩ => if v.wellFormed then some v else none
  | _ => none

/-! ## Headers -/

def extensions : List String :=
  ["unwrap_newtypes", "implicit_some", "unwrap_variant_newtypes", "explicit_struct_names"]

/-- The extensions that a list of names separated by commas enables. -/
def enabled? : List Token → Option (List String)
  | [.name s] | [.name s, .comma] => if extensions.contains s then some [s] else none
  | .name s :: .comma :: rest => if extensions.contains s then (enabled? rest).map (s :: ·) else none
  | _ => none

/-- Takes headers off the front, at most `count`, and says what they enable. -/
def takeHeaders? : (count : Nat) → List Token → Option (List String × List Token)
  | count + 1, .hash :: .bang :: .opens .square :: .name "enable" :: .opens .round :: rest =>
    match (rest.dropWhile (· ≠ .closes .round)) with
    | .closes .round :: .closes .square :: tail =>
      (enabled? (rest.takeWhile (· ≠ .closes .round))).bind fun names =>
        (takeHeaders? count tail).map fun (more, body) => (names ++ more, body)
    | _ => none
  | _, ts => some ([], ts)

/-- A text that was read: what its headers enable, and its value. -/
structure Document where
  extensions : List String
  value : Ron

def read? (s : String) : Option Document := do
  let ts ← Token.ofText? s.toList
  let (names, body) ← takeHeaders? ts.length ts
  return ⟨names, ← ofTokens? body⟩

end RenderGraph.Ron
