import RenderGraph.Snapshot
/-!
# Resource names

Every socket gets the name of a resource; sockets with one name share a buffer. The names are
found in five steps:

1. each output gets a name of its own (`seed`),
2. names are carried along the links (`carry`),
3. an output with a linked `_target` input takes over the name of that input (`redirect`, `sweep`),
4. names are carried along the links again,
5. inputs without a name get a placeholder (`fill`).

An output name given up in step 3 is superseded; `Naming.redirects` keeps what replaced it, and a
replacement is never itself superseded.
-/

namespace RenderGraph

/-- One socket of a snapshot, by node position, side and name. -/
structure SocketKey where
  node : Nat
  direction : Direction
  socket : String
deriving DecidableEq, Repr

/-- The names given to sockets. -/
structure Naming where
  names : Table SocketKey String
  /-- The kind of socket that each name was first given to. -/
  kinds : Table String SocketKind
  /-- The superseded names with their replacements. -/
  redirects : Table String String
  placeholders : List String

namespace Naming

def empty : Naming := ⟨.empty, .empty, .empty, []⟩

/-- The name of an input. -/
def input? (r : Naming) (node : Nat) (socket : String) : Option String := r.names.get? ⟨node, .input, socket⟩

/-- The name of an output. -/
def output? (r : Naming) (node : Nat) (socket : String) : Option String := r.names.get? ⟨node, .output, socket⟩

/-- The kind of a name. -/
def kind? (r : Naming) (name : String) : Option SocketKind := r.kinds.get? name

/-- What replaced a superseded name. -/
def redirect? (r : Naming) (name : String) : Option String := r.redirects.get? name

/-- A name, or what replaced it. -/
def current (r : Naming) (name : String) : String := (r.redirect? name).getD name

/-- Whether a name stands for an input that is not linked. -/
def isPlaceholder (r : Naming) (name : String) : Bool := r.placeholders.contains name

/-- Gives a name to a socket; a new name takes the kind along. -/
def assign (r : Naming) (key : SocketKey) (name : String) (kind : SocketKind) : Naming :=
  { r with kinds := r.kinds.insertNew name kind, names := r.names.insert key name }

/-! ## The steps -/

/-- The name an output starts with. A node that declares a render target lends it its own name; any
other output has the name of its node and its own joined. -/
def seedName (n : Node) (index : Nat) (s : Socket) : String :=
  if n.declaresTarget then n.givenName?.getD ("fbo_" ++ toString index)
  else n.givenName?.getD (n.title ++ "_" ++ toString index) ++ "_" ++ s.name

/-- The name of an input that is not linked. -/
def placeholderName (n : Node) (index : Nat) (s : Socket) : String :=
  "empty_" ++ n.title ++ "_" ++ toString index ++ "_" ++ s.name

/-- All sockets of one side with their nodes and node positions, in order. -/
def socketsOf (side : Node → List Socket) (nodes : List Node) : List (Node × Nat × Socket) :=
  nodes.zipIdx.flatMap fun (n, i) => (side n).map fun s => (n, i, s)

/-- Gives every output its first name. -/
def seed (nodes : List Node) : Naming :=
  (socketsOf Node.outputs nodes).foldl
    (fun r (n, i, s) => r.assign ⟨i, .output, s.name⟩ (seedName n i s) s.kind) empty

/-- Whether a link ends at an existing input. -/
def endsAtInput (nodes : List Node) (l : Link) : Bool :=
  ((nodes[l.toNode]?).bind fun n => n.input? l.toSocket).isSome

/-- Carries the name of an output along one link. -/
def carryLink (nodes : List Node) (r : Naming) (l : Link) : Naming :=
  if endsAtInput nodes l then
    match r.output? l.fromNode l.fromSocket with
    | some name => { r with names := r.names.insert ⟨l.toNode, .input, l.toSocket⟩ name }
    | none => r
  else r

/-- Carries names along all links in order, so the last link into an input decides. -/
def carry (nodes : List Node) (links : List Link) (r : Naming) : Naming := links.foldl (carryLink nodes) r

/-- Records that `target` replaces the name `old`: names replaced by `old` move on as well. -/
def supersede (r : Naming) (old target : String) : Naming :=
  if old = target ∨ r.redirects.contains old then r
  else
    { r with
      redirects := (r.redirects.mapValues fun name => if name = old then target else name).insert old target }

/-- Applies one `_target` input: if it has a name and its output exists, the output takes over the
name, in its current form. -/
def redirect (r : Naming) (n : Node) (index : Nat) (s : Socket) : Naming :=
  match s.target? with
  | none => r
  | some output =>
    if (n.output? output).isNone then r
    else
      match r.input? index s.name with
      | none => r
      | some name =>
        let target := r.current name
        let recorded :=
          match r.output? index output with
          | some old => r.supersede old target
          | none => r
        { recorded with names := recorded.names.insert ⟨index, .output, output⟩ target }

/-- Brings every name up to date. -/
def sweep (r : Naming) : Naming := { r with names := r.names.mapValues r.current }

/-- Applies all `_target` inputs in order and brings every name up to date. -/
def redirectAll (nodes : List Node) (r : Naming) : Naming :=
  ((socketsOf Node.inputs nodes).foldl (fun r (n, i, s) => r.redirect n i s) r).sweep

/-- Gives an input without a name its placeholder. -/
def fillInput (r : Naming) (n : Node) (index : Nat) (s : Socket) : Naming :=
  if r.names.contains ⟨index, .input, s.name⟩ then r
  else
    let name := placeholderName n index s
    { r with placeholders := name :: r.placeholders }.assign ⟨index, .input, s.name⟩ name s.kind

/-- Gives placeholders to all inputs without a name. -/
def fill (nodes : List Node) (r : Naming) : Naming :=
  (socketsOf Node.inputs nodes).foldl (fun r (n, i, s) => r.fillInput n i s) r

/-- The names of all sockets. -/
def resolve (nodes : List Node) (links : List Link) : Naming :=
  fill nodes (carry nodes links (redirectAll nodes (carry nodes links (seed nodes))))

end Naming

end RenderGraph
