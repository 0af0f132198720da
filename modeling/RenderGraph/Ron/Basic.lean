/-!
# Object notation for settings

A value of the notation that settings are kept in: names, texts, numbers and groups. A group in
parentheses may have a name before it; its entries, like those of any group, have keys or not. Which
entries may have keys is decided where a value is used (`Ron.wellFormed`).
-/

namespace RenderGraph

inductive Ron.Bracket where
  | round
  | square
  | curly
deriving DecidableEq, Repr

inductive Ron where
  | name (s : String)
  | text (s : String)
  | char (c : Char)
  /-- A byte string, as the characters it was written with. -/
  | bytes (s : String)
  | number (written : List Char)
  /-- A group: the name before it, and its entries with their keys. -/
  | group (bracket : Ron.Bracket) (name : Option String) (entries : List (Option Ron × Ron))

namespace Ron

instance : Inhabited Ron := ⟨name ""⟩

/-- The name of a value that is one. -/
def asName? : Ron → Option String
  | name s => some s
  | _ => none

/-- The text of a value that is one. -/
def asText? : Ron → Option String
  | text s => some s
  | _ => none

/-- The truth value that a name stands for. -/
def asBool? : Ron → Option Bool
  | name "true" => some true
  | name "false" => some false
  | _ => none

/-- Whether entries in these brackets may have such keys: in parentheses either all are fields with a
name as key or none has a key, square brackets hold no keys, and braces hold only keys. -/
def keysFit (bracket : Bracket) (keys : List (Option Ron)) : Bool :=
  match bracket with
  | .round => keys.all Option.isNone || keys.all fun k => (k.bind asName?).isSome
  | .square => keys.all Option.isNone
  | .curly => keys.all Option.isSome

mutual

/-- Whether all groups in a value have only keys that fit. -/
def wellFormed : Ron → Bool
  | group bracket _ entries => keysFit bracket (entries.map Prod.fst) && wellFormedEntries entries
  | _ => true

/-- The same of the entries of a group. -/
def wellFormedEntries : List (Option Ron × Ron) → Bool
  | [] => true
  | (none, v) :: rest => wellFormed v && wellFormedEntries rest
  | (some k, v) :: rest => wellFormed k && wellFormed v && wellFormedEntries rest

end

end Ron

end RenderGraph
