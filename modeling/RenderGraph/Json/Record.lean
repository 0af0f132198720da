import RenderGraph.Json.Basic
/-!
# Decoding records

A record is written as an object, whose fields stand in any order beside others that are
skipped, or as an array of its fields in their declared order. A field that is declared twice in an
object is refused, and so is an array with more items than there are fields.

A variant of a tagged union is a record together with its tag: in an object the tag is one more
field, in an array it is the first item.
-/

namespace RenderGraph.Json

/-- The fields of a record that are there. -/
structure Record where
  byPosition : Bool
  fields : List (String × Json)

namespace Record

variable {α : Type}

/-- The fields of an object that have a declared name, none of them twice. -/
def ofFields? (names : List String) (fields : List (String × Json)) : Option Record :=
  let known := fields.filter fun f => names.contains f.1
  if (known.map Prod.fst).Nodup then some ⟨false, known⟩ else none

/-- The items of an array as the declared fields. -/
def ofItems? (names : List String) (items : List Json) : Option Record :=
  if items.length ≤ names.length then some ⟨true, names.zip items⟩ else none

/-- The record with the declared names that a value is. -/
def of? (names : List String) : Json → Option Record
  | .object fields => ofFields? names fields
  | .array items => ofItems? names items
  | _ => none

/-- A field that has to be there. -/
def required? (r : Record) (name : String) (decode : Json → Option α) : Option α :=
  (r.fields.lookup name).bind decode

/-- A field with a value for when it is missing. -/
def orElse? (r : Record) (name : String) (missing : α) (decode : Json → Option α) : Option α :=
  match r.fields.lookup name with
  | none => some missing
  | some j => decode j

def nullable? (decode : Json → Option α) : Json → Option (Option α)
  | .null => some none
  | j => (decode j).map some

/-- A field that may be `null`, or missing in an object. -/
def optional? (r : Record) (name : String) (decode : Json → Option α) : Option (Option α) :=
  match r.fields.lookup name with
  | none => if r.byPosition then none else some none
  | some j => nullable? decode j

end Record

/-- A value with its tag taken off. -/
structure Tagged where
  tag : String
  /-- The rest: an object or an array. -/
  content : Json

/-- The value and tag of a tagged union, where `name` is the field of the tag. -/
def Tagged.of? (name : String) : Json → Option Tagged
  | .object fields =>
    match fields.filter fun f => f.1 = name with
    | [(_, .string tag)] => some ⟨tag, .object (fields.filter fun f => f.1 ≠ name)⟩
    | _ => none
  | .array (.string tag :: rest) => some ⟨tag, .array rest⟩
  | _ => none

/-- Whether the content of a variant without fields is acceptable: any object, or no items. -/
def Tagged.isBare (t : Tagged) : Bool :=
  match t.content with
  | .object _ => true
  | .array [] => true
  | _ => false

/-- The name of a choice without content: a string, or an object whose one field has it as key and
`null` as value. -/
def choice? : Json → Option String
  | .string s => some s
  | .object [(s, .null)] => some s
  | _ => none

/-- The same inside a tagged union, where an empty object does as well as `null`. -/
def choiceInTagged? : Json → Option String
  | .object [(s, .object [])] => some s
  | j => choice? j

def list? {α : Type} (decode : Json → Option α) (j : Json) : Option (List α) := j.asArray?.bind (·.mapM decode)

/-- Decodes an array of exactly two items. -/
def pair? {α β : Type} (first : Json → Option α) (second : Json → Option β) : Json → Option (α × β)
  | .array [a, b] => (first a).bind fun x => (second b).map fun y => (x, y)
  | _ => none

/-- Decodes the fields of an object that serves as a map. -/
def entries? {κ α : Type} (key : String → Option κ) (value : Json → Option α) (j : Json) :
    Option (List (κ × α)) :=
  j.asObject?.bind (·.mapM fun f => (key f.1).bind fun k => (value f.2).map fun v => (k, v))

end RenderGraph.Json
