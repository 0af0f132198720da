import RenderGraph.Table
/-!
# Names of one buffer

An `Aliases` set says which resource names share a buffer: each aliased name points at another
name, and the name at the end of the pointers is the canonical one. The first assignment of a name
counts, and an assignment that would close a cycle is refused, so following pointers ends after at
most as many steps as there are aliased names.

`find` also shortens the pointers it has followed, which no canonical name can tell.
-/

namespace RenderGraph

/-- Which names share a buffer. -/
structure Aliases where
  /-- The name that each aliased name points at. -/
  parent : Table String String

namespace Aliases

def empty : Aliases := ⟨.empty⟩

instance : EmptyCollection Aliases := ⟨empty⟩

/-- The number of aliased names. -/
def size (a : Aliases) : Nat := a.parent.size

/-- Whether no name is aliased. -/
def isEmpty (a : Aliases) : Bool := a.parent.isEmpty

/-- Follows pointers, at most `steps` of them. -/
def follow (parent : Table String String) : Nat → String → String
  | 0, name => name
  | steps + 1, name =>
    match parent.get? name with
    | some next => follow parent steps next
    | none => name

/-- The canonical name of a resource. -/
def canonical (a : Aliases) (name : String) : String := follow a.parent a.size name

/-- Lets the names on the way from `name` to `root` point at `root` directly. -/
def shorten (root : String) : Nat → String → Table String String → Table String String
  | 0, _, parent => parent
  | steps + 1, name, parent =>
    match parent.get? name with
    | some next => if next = root then parent else shorten root steps next (parent.insert name root)
    | none => parent

/-- The canonical name of a resource, and the set with the pointers on the way shortened. -/
def find (a : Aliases) (name : String) : String × Aliases :=
  let root := a.canonical name
  (root, ⟨shorten root a.size name a.parent⟩)

/-- Records that `name` shares the buffer of `target`, and says whether it did: not if the name is
aliased already, nor if the target leads back to it. -/
def assign (a : Aliases) (name target : String) : Bool × Aliases :=
  if name = target ∨ a.parent.contains name then (false, a)
  else
    let (root, shortened) := a.find target
    if root = name then (false, shortened) else (true, ⟨shortened.parent.insert name root⟩)

/-- Records pairs of a name and its target, one after another. -/
def assignAll (a : Aliases) (pairs : List (String × String)) : Aliases :=
  pairs.foldl (fun a e => (a.assign e.1 e.2).2) a

/-- The aliased names with their canonical names. -/
def toTable (a : Aliases) : Table String String :=
  ⟨a.parent.entries.map fun e => (e.1, a.canonical e.1), by
    have : (a.parent.entries.map fun e => (e.1, a.canonical e.1)).map Prod.fst =
        a.parent.entries.map Prod.fst := by simp
    rw [this]; exact a.parent.keys_nodup⟩

/-- Entries in the order of their keys. -/
def sorted (entries : List (String × String)) : List (String × String) :=
  entries.mergeSort fun a b => decide (a.1 ≤ b.1)

/-- The set of a table of names and targets, recorded in the order of the names. -/
def ofTable (t : Table String String) : Aliases := empty.assignAll (sorted t.entries)

end Aliases

end RenderGraph
