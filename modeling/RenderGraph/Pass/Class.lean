import RenderGraph.Pass
/-!
# Pass classes

A `PassClass` says how nodes of a class look and how their parameters become a configuration. Its
arguments are given by name: the name of the pass, the resources bound to sockets, the viewport and
the parameters of the node. A class takes the names it declares; one with `catchAll` takes any.
-/

namespace RenderGraph

/-- What keeps a value from being used. -/
inductive RangeFault where
  /-- The number is not a power of two. -/
  | notPowerOfTwo (n : UInt32)
  | notBetween (low high : Nat)
  | unknownOperator (text : String)
deriving DecidableEq, Repr

def RangeFault.message : RangeFault → String
  | notPowerOfTwo n => toString n.toNat ++ " is not a power of two"
  | notBetween low high => "must be between " ++ toString low ++ " and " ++ toString high
  | unknownOperator text => TonemapOperator.unknownMessage text

inductive ConstructError where
  | unexpected (name : String)
  | mismatch (m : TypeMismatch)
  | outOfRange (name : String) (fault : RangeFault)
deriving DecidableEq

def ConstructError.message : ConstructError → String
  | unexpected name => "unexpected parameter '" ++ name ++ "'"
  | mismatch m => "parameter " ++ m.message
  | outOfRange name fault => "parameter '" ++ name ++ "': " ++ fault.message

/-- The name under which a class gets the name of the pass. -/
def passNameKey : String := "pass_name"

/-- The name under which a class gets the viewport. -/
def viewportKey : String := "viewport_name"

structure Arguments where
  values : Params
  /-- Those of a class with `catchAll` that it does not declare and that are no resources. -/
  extras : Params
deriving DecidableEq

namespace Arguments

/-- An argument of a type, or `missing` if it is not given. -/
def read {α : Type} (a : Arguments) (name expected : String) (missing : α) (read : Param → Option α) :
    Except ConstructError α :=
  match a.values.get? name with
  | none => .ok missing
  | some value =>
    match read value with
    | some x => .ok x
    | none => .error (.mismatch (.of name expected value))

def single (a : Arguments) (name : String) (missing : Single) : Except ConstructError Single :=
  a.read name "number" missing fun v => v.number?.map Binary.toSingle

/-- The 32-bit natural number that an integer is. -/
def natural? (v : Param) : Option UInt32 :=
  v.integer?.bind fun n =>
    if 0 ≤ n.toInt ∧ n.toInt < UInt32.size then some (UInt32.ofNat n.toInt.toNat) else none

def natural (a : Arguments) (name : String) (missing : UInt32) : Except ConstructError UInt32 :=
  a.read name "non-negative integer" missing natural?

def bool (a : Arguments) (name : String) (missing : Bool) : Except ConstructError Bool :=
  a.read name "bool" missing Param.bool?

def text (a : Arguments) (name : String) (missing : String) : Except ConstructError String :=
  a.read name "string" missing Param.text?

end Arguments

/-- How a class makes a configuration of its arguments. -/
abbrev Factory := Arguments → Except ConstructError PassConfig

structure PassClass where
  name : String
  kind : NodeKind
  category : String
  description : String
  inputs : List Socket
  outputs : List Socket
  parameters : Params
  acceptsViewport : Bool
  catchAll : Bool
  /-- The outputs that use the buffer of an input, by socket names. -/
  inplace : List (String × String)
  factory : Factory

instance : Named PassClass := ⟨PassClass.name⟩

abbrev PassCatalog := Catalog PassClass

namespace PassClass

def plain (name : String) (kind : NodeKind) (category description : String) (factory : Factory) : PassClass where
  name := name
  kind := kind
  category := category
  description := description
  inputs := []
  outputs := []
  parameters := .empty
  acceptsViewport := false
  catchAll := false
  inplace := []
  factory := factory

def withInput (c : PassClass) (s : Socket) : PassClass := { c with inputs := c.inputs ++ [s] }

def withOutput (c : PassClass) (s : Socket) : PassClass := { c with outputs := c.outputs ++ [s] }

/-- The class with one more output and the input that redirects it. -/
def withRedirectableOutput (c : PassClass) (s : Socket) : PassClass :=
  (c.withInput (.input (s.name ++ Socket.targetEnding) s.kind)).withOutput s

def withParam (c : PassClass) (name : String) (value : Param) : PassClass :=
  { c with parameters := c.parameters.insert name value }

/-- The class, taking the viewport. -/
def withViewport (c : PassClass) : PassClass := { c with acceptsViewport := true }

/-- The class, taking arguments of any name. -/
def withCatchAll (c : PassClass) : PassClass := { c with catchAll := true }

/-- The class with one more output that uses the buffer of an input. -/
def withInplace (c : PassClass) (output input : String) : PassClass :=
  { c with inplace := c.inplace ++ [(output, input)] }

/-- Whether an argument of that name is declared: the name of the pass, the viewport if it is taken,
a parameter, an output, or an input that redirects nothing. -/
def declares (c : PassClass) (key : String) : Bool :=
  key = passNameKey || (key = viewportKey && c.acceptsViewport) || c.parameters.contains key ||
    c.inputs.any (fun s => !s.isTarget && s.name = key) || c.outputs.any (fun s => s.name = key)

/-- The first argument that is not taken. -/
def firstUnexpected? (c : PassClass) (arguments : Params) : Option String :=
  if c.catchAll then none else arguments.keys.find? fun k => !c.declares k

/-- The arguments that are not declared and are neither resources nor the viewport. -/
def extrasOf (c : PassClass) (arguments : Params) (bindings : SocketBindings) : Params :=
  arguments.filter fun k _ => !c.declares k && !bindings.contains k && k ≠ viewportKey

/-- Makes a configuration, unless an argument is not taken or refused. -/
def construct (c : PassClass) (arguments : Params) (bindings : SocketBindings) :
    Except ConstructError PassConfig :=
  match c.firstUnexpected? arguments with
  | some key => .error (.unexpected key)
  | none => c.factory ⟨arguments, c.extrasOf arguments bindings⟩

/-- What new nodes of the class look like. -/
def template (c : PassClass) : Template where
  className := c.name
  kind := c.kind
  category := c.category
  description := c.description
  inputs := c.inputs
  outputs := c.outputs
  params := c.parameters

end PassClass

namespace PassCatalog

/-- The classes by group, both in the order of first registration. -/
def categories (c : PassCatalog) : Table String (List String) :=
  c.entries.foldl (fun groups k => groups.alter k.category fun old => old.getD [] ++ [k.name]) .empty

/-- Node templates with those of the pass classes added. -/
def extendTemplates (c : PassCatalog) (nodes : NodeCatalog) : NodeCatalog :=
  nodes.registerAll (c.entries.map PassClass.template)

end PassCatalog

end RenderGraph
