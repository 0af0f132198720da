import RenderGraph.Diagnostic
import RenderGraph.Graph
import RenderGraph.Naming
import RenderGraph.Pass.Standard
import RenderGraph.Pipeline
import RenderGraph.Target.Scope
/-!
# Compiling a snapshot

Sockets are named, each pass node gets a pass, the passes are ordered, and each render target in use
gets a spec. A node whose pass cannot be built, an order that does not exist and a spec that is
refused are reported, and the rest is compiled all the same.
-/

namespace RenderGraph

/-- A pipeline and what was reported on the way. -/
structure CompileOutput where
  pipeline : Pipeline
  /-- The reports in the order in which they were made. -/
  diagnostics : List Diagnostic
deriving DecidableEq

/-- A compile that counts as failed, by its reports. -/
structure CompileFailure where
  diagnostics : List Diagnostic
deriving DecidableEq

def errorsOf (ds : List Diagnostic) : List Diagnostic := ds.filter Diagnostic.isError

/-- The message of a failed compile: the number of errors and the first one. -/
def CompileFailure.message (f : CompileFailure) : String :=
  let errors := errorsOf f.diagnostics
  let first := match errors with
    | d :: _ => ": " ++ d.text
    | [] => ""
  "Compilation failed with " ++ toString errors.length ++ " error(s)" ++ first

namespace CompileOutput

def errors (o : CompileOutput) : List Diagnostic := errorsOf o.diagnostics

/-- The pipeline, if nothing was left out. -/
def result (o : CompileOutput) : Except CompileFailure Pipeline :=
  if o.errors.isEmpty then .ok o.pipeline else .error ⟨o.diagnostics⟩

end CompileOutput

/-- What a compile works with. -/
structure Compiler where
  catalog : PassCatalog
  scheduler : Scheduler
  settings : Settings

namespace Compiler

/-- The standard classes in topological order with the standard settings. -/
def standard : Compiler := ⟨.standard, Schedule.topological, .standard⟩

end Compiler

namespace Compile

/-! ## Passes -/

/-- The resources at the sockets of a node. -/
def bindingsOf (r : Naming) (n : Node) (index : Nat) : Bindings :=
  let inputs : SocketBindings := .ofList ((n.inputs.filter fun s => !s.isTarget).filterMap fun s =>
    (r.input? index s.name).map fun name => (s.name, name))
  let outputs : SocketBindings := .ofList (n.outputs.filterMap fun s =>
    (r.output? index s.name).map fun name => (s.name, name))
  ⟨inputs, outputs, (inputs.entries.filter fun e => r.isPlaceholder e.2).map Prod.fst⟩

/-- The pass of a node of a snapshot, or why there is none. -/
def passOf (catalog : PassCatalog) (s : Snapshot) (r : Naming) (n : Node) (index : Nat) : Except BuildError Pass :=
  Pass.build catalog n (bindingsOf r n index) (viewportOf s.frames n)

/-- The pass of a node, if there is one. -/
def pass? (catalog : PassCatalog) (s : Snapshot) (r : Naming) (e : Node × Nat) : Option Pass :=
  (passOf catalog s r e.1 e.2).toOption

/-- The report about a node without a pass. -/
def skipped? (catalog : PassCatalog) (s : Snapshot) (r : Naming) (e : Node × Nat) : Option Diagnostic :=
  match passOf catalog s r e.1 e.2 with
  | .ok _ => none
  | .error cause => some ⟨some e.2, .skipped e.1.displayName cause⟩

/-! ## Order -/

/-- The first position that is past the end or stands before already. -/
def badPosition? (count : Nat) : (seen order : List Nat) → Option Nat
  | _, [] => none
  | seen, i :: rest => if count ≤ i || seen.contains i then some i else badPosition? count (i :: seen) rest

/-- What keeps a list of positions from being an order of so many passes. -/
def orderFault? (count : Nat) (order : List Nat) : Option OrderFault :=
  if order.length ≠ count then some (.length count order.length)
  else (badPosition? count [] order).map .position

/-- The answer of a scheduler, if it is an order of the passes. -/
def scheduled (scheduler : Scheduler) (passes : List Pass) : Except ScheduleError Schedule :=
  match scheduler passes with
  | .error e => .error e
  | .ok schedule =>
    match orderFault? passes.length schedule.order with
    | some fault => .error (.invalidOrder fault)
    | none => .ok schedule

/-- Passes in order, the names that share a buffer, and reports. -/
structure Ordered where
  passes : List Pass
  /-- The names that share a buffer. -/
  aliases : Aliases
  /-- The report, if there was no order. -/
  diagnostics : List Diagnostic

/-- Orders passes; without an order they stay as they are. -/
def order (scheduler : Scheduler) (passes : List Pass) : Ordered :=
  match scheduled scheduler passes with
  | .ok schedule => ⟨Schedule.arrange passes schedule.order, .ofTable schedule.canonical, []⟩
  | .error cause => ⟨passes, Schedule.aliases passes, [⟨none, .unordered cause⟩]⟩

/-! ## Render targets -/

/-- The resource name that a node declares, if it declares a render target. -/
def declaredName? (r : Naming) (e : Node × Nat) : Option String :=
  if e.1.declaresTarget then e.1.outputs.head?.bind fun s => r.output? e.2 s.name else none

/-- Lets a node declare its resource, unless another one did before. -/
def declare (r : Naming) (declared : Table String Nat) (e : Node × Nat) : Table String Nat :=
  match declaredName? r e with
  | some name => declared.insertNew name e.2
  | none => declared

/-- The declared resources with the positions of the nodes that declare them. -/
def declarations (s : Snapshot) (r : Naming) : Table String Nat := s.indexed.foldl (declare r) .empty

/-- The names of one render target and the classes of the passes that use it. -/
structure Usage where
  /-- The names in the order of first use. -/
  members : List String
  /-- The classes in the order of first use. -/
  users : List String
deriving DecidableEq

/-- Adds an item at the end of a list that does not have it. -/
def addNew {α : Type} [DecidableEq α] (items : List α) (a : α) : List α :=
  if items.contains a then items else items ++ [a]

/-- The name of the render target that a resource belongs to; none for other resources. -/
def targetName? (r : Naming) (aliases : Aliases) (name : String) : Option String :=
  if r.isPlaceholder name || r.kind? name ≠ some .fbo then none
  else
    let target := r.current (aliases.canonical name)
    if r.isPlaceholder target then none else some target

/-- Counts one use of a resource by a class. -/
def use (r : Naming) (aliases : Aliases) (usages : Table String Usage) (e : String × String) : Table String Usage :=
  match targetName? r aliases e.1 with
  | none => usages
  | some target =>
    usages.alter target fun old =>
      let u := old.getD ⟨[], []⟩
      ⟨addNew u.members e.1, addNew u.users e.2⟩

/-- The resources that passes read and write, each with the class of the pass. -/
def usesOf (passes : List Pass) : List (String × String) :=
  passes.flatMap fun p => (p.reads ++ p.writes).map fun name => (name, p.className)

/-- The render targets in use, in the order of first use. -/
def usages (r : Naming) (o : Ordered) : Table String Usage := (usesOf o.passes).foldl (use r o.aliases) .empty

/-- What is known when specs are inferred. -/
structure Context where
  settings : Settings
  nodes : List Node
  /-- The declared resources with the positions of their nodes. -/
  declared : Table String Nat
  scopes : Scopes

/-- The spec of one render target: the first of its names that is declared decides by its node, and
the first that has a viewport by that. -/
def specOf (c : Context) (target : String) (u : Usage) : Except SpecError (Option TargetSpec) :=
  let names := target :: u.members
  let node := (names.findSome? c.declared.get?).bind fun i => c.nodes[i]?
  TargetSpec.infer c.settings target node u.users (names.findSome? c.scopes.get?)

/-- The spec of a render target, if it has one. -/
def spec? (c : Context) (e : String × Usage) : Option TargetSpec :=
  match specOf c e.1 e.2 with
  | .ok spec => spec
  | .error _ => none

/-- The report about a render target whose spec is refused. -/
def omitted? (c : Context) (e : String × Usage) : Option Diagnostic :=
  match specOf c e.1 e.2 with
  | .ok _ => none
  | .error cause => some ⟨c.declared.get? e.1, .omitted e.1 cause⟩

end Compile

open Compile in
/-- Compiles a snapshot. A graph without pass nodes compiles to the empty pipeline. -/
def Compiler.compile (c : Compiler) (s : Snapshot) : CompileOutput :=
  if s.passNodes.isEmpty then ⟨.empty, []⟩
  else
    let r := Naming.resolve s.nodes s.links
    let ordered := order c.scheduler (s.passNodes.filterMap (pass? c.catalog s r))
    let declared := declarations s r
    let context : Context := ⟨c.settings, s.nodes, declared, .of declared s.viewports r.redirects⟩
    let targets := (usages r ordered).entries
    { pipeline := ⟨s.name, ordered.passes, targets.filterMap (spec? context)⟩
      diagnostics :=
        s.passNodes.filterMap (skipped? c.catalog s r) ++ ordered.diagnostics ++
          targets.filterMap (omitted? context) }

def Compiler.compileGraph (c : Compiler) (g : Graph) : CompileOutput := c.compile g.snapshot

end RenderGraph
