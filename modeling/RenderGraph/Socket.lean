import RenderGraph.Text.Search
/-!
# Sockets

A node has input and output sockets, each with a name and the kind of resource that flows
through it. An input named after an output with `_target` behind it redirects that output into
the resource it is fed with (`Socket.target?`).
-/

namespace RenderGraph

/-- The side of a node a socket is on. -/
inductive Direction where
  | input
  | output
deriving DecidableEq, Repr

/-- The kind of resource that flows through a socket. -/
inductive SocketKind where
  | fbo
  | texture
  | shadow
  | any
  /-- No resource: the connection only sets an order. -/
  | flow
deriving DecidableEq, Repr

inductive Multiplicity where
  /-- One: a new connection replaces the old one. -/
  | single
  | multiple
deriving DecidableEq, Repr

namespace SocketKind

def all : List SocketKind := [fbo, texture, shadow, any, flow]

def name : SocketKind → String
  | fbo => "fbo"
  | texture => "texture"
  | shadow => "shadow"
  | any => "any"
  | flow => "flow"

def ofName? (s : String) : Option SocketKind := all.find? fun k => k.name = s

/-- The kind of that name in any letter case. -/
def parse? (s : String) : Option SocketKind := ofName? (Text.lowercase s)

theorem ofName?_name (k : SocketKind) : ofName? k.name = some k := by cases k <;> rfl

/-- Whether an output of the first kind can feed an input of the second: equal kinds can, `any` goes
with everything, and what was rendered can be sampled. -/
def feeds (source target : SocketKind) : Bool :=
  source = any || target = any || source = target ||
    (target = texture && (source = fbo || source = shadow))

end SocketKind

structure UnknownSocketKind where
  text : String
deriving DecidableEq, Repr

/-- The message for an unknown socket kind. -/
def UnknownSocketKind.message (e : UnknownSocketKind) : String := "Unknown socket kind: " ++ e.text

structure Socket where
  /-- The name, by which a socket is found among those of its direction. -/
  name : String
  kind : SocketKind
  direction : Direction
  multiplicity : Multiplicity
deriving DecidableEq, Repr

namespace Socket

def input (name : String) (kind : SocketKind) : Socket := ⟨name, kind, .input, .single⟩

/-- An output for any number of connections. -/
def output (name : String) (kind : SocketKind) : Socket := ⟨name, kind, .output, .multiple⟩

/-- The ending of the names of redirecting inputs. -/
def targetEnding : String := "_target"

/-- The name of the output that an input redirects, which is not empty. -/
def target? (s : Socket) : Option String :=
  if s.direction = .input then (Text.beforeEnding? targetEnding s.name).filter (· ≠ "") else none

def isTarget (s : Socket) : Bool := s.target?.isSome

/-- Whether a connection may run from the first socket to the second. -/
def canConnect (source target : Socket) : Bool :=
  source.direction = .output && target.direction = .input && source.kind.feeds target.kind

end Socket

end RenderGraph
