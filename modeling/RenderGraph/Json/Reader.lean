import RenderGraph.Json.Token
/-!
# Reading JSON

`Json.read?` reads the one value that a text holds. Tokens are taken from left to right with a
stack of the arrays and objects that are still open, at most `depthLimit` of them.
-/

namespace RenderGraph.Json

/-- The greatest number of arrays and objects inside one another. -/
def depthLimit : Nat := 127

/-- An open array or object around the place of reading; items are kept backwards. -/
inductive Frame where
  /-- An array with the items before the one at hand. -/
  | array (items : List Json)
  /-- An object with the fields before the one at hand, and the key of that. -/
  | object (fields : List (String × Json)) (key : String)

inductive Expecting where
  /-- A value; right after an opening bracket, where the array may end, `first` is set. -/
  | value (first : Bool)
  /-- A key after the given fields; right after an opening brace `first` is set. -/
  | key (fields : List (String × Json)) (first : Bool)
  | colon (fields : List (String × Json)) (key : String)
  | next (value : Json)

structure Place where
  expecting : Expecting
  /-- The open arrays and objects, the innermost first. -/
  frames : List Frame

def scalar? : Token → Option Json
  | .null => some null
  | .bool b => some (bool b)
  | .number n => some (number n)
  | .string s => some (string s)
  | _ => none

def beginValue? (frames : List Frame) (t : Token) : Option Place :=
  match t with
  | .openArray => if frames.length < depthLimit then some ⟨.value true, .array [] :: frames⟩ else none
  | .openObject => if frames.length < depthLimit then some ⟨.key [] true, frames⟩ else none
  | t => (scalar? t).map fun v => ⟨.next v, frames⟩

def take? (p : Place) (t : Token) : Option Place :=
  match p.expecting, t, p.frames with
  | .value true, .closeArray, .array items :: frames => some ⟨.next (array items.reverse), frames⟩
  | .value _, t, frames => beginValue? frames t
  | .key _ true, .closeObject, frames => some ⟨.next (object []), frames⟩
  | .key fields _, .string k, frames => some ⟨.colon fields k, frames⟩
  | .colon fields k, .colon, frames => some ⟨.value false, .object fields k :: frames⟩
  | .next v, .comma, .array items :: frames => some ⟨.value false, .array (v :: items) :: frames⟩
  | .next v, .closeArray, .array items :: frames => some ⟨.next (array (v :: items).reverse), frames⟩
  | .next v, .comma, .object fields k :: frames => some ⟨.key ((k, v) :: fields) false, frames⟩
  | .next v, .closeObject, .object fields k :: frames =>
    some ⟨.next (object ((k, v) :: fields).reverse), frames⟩
  | _, _, _ => none

/-- The value that a list of tokens makes up. -/
def ofTokens? (ts : List Token) : Option Json :=
  match ts.foldlM take? ⟨.value false, []⟩ with
  | some ⟨.next v, []⟩ => some v
  | _ => none

def read? (text : String) : Option Json := (Token.ofText? text.toList).bind ofTokens?

end RenderGraph.Json
