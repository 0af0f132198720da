import RenderGraph.Pass.Build
import RenderGraph.Schedule
import RenderGraph.Target.Inference
/-!
# Diagnostics

What a compile reports next to its pipeline. A `Problem` is the cause; its severity, the stage at
which it was found and its message follow from it.
-/

namespace RenderGraph

/-- The stages of a compile in order. -/
inductive Stage where
  | collecting
  | naming
  | building
  | scheduling
  | inferring
  | done
deriving DecidableEq, Repr

namespace Stage

def all : List Stage := [collecting, naming, building, scheduling, inferring, done]

def name : Stage → String
  | collecting => "collecting"
  | naming => "name resolving"
  | building => "instantiating"
  | scheduling => "scheduling"
  | inferring => "spec inferring"
  | done => "done"

end Stage

inductive Severity where
  | warning
  | error
deriving DecidableEq, Repr

def Severity.name : Severity → String
  | warning => "warning"
  | error => "error"

inductive Problem where
  | skipped (displayName : String) (cause : BuildError)
  /-- There is no order, and the passes stand in that of their nodes. -/
  | unordered (cause : ScheduleError)
  | omitted (target : String) (cause : SpecError)
deriving DecidableEq

namespace Problem

def severity : Problem → Severity
  | skipped .. => .error
  | unordered .. => .warning
  | omitted .. => .error

def stage : Problem → Stage
  | skipped .. => .building
  | unordered .. => .scheduling
  | omitted .. => .inferring

def message : Problem → String
  | skipped displayName cause => "Skipping '" ++ displayName ++ "': " ++ cause.message
  | unordered cause => "Scheduler failed, keeping node order: " ++ cause.message
  | omitted target cause => "Omitting spec for '" ++ target ++ "': " ++ cause.message

end Problem

/-- A problem and the position of the node that has it, if one does. -/
structure Diagnostic where
  node : Option Nat
  problem : Problem
deriving DecidableEq

namespace Diagnostic

def severity (d : Diagnostic) : Severity := d.problem.severity

def stage (d : Diagnostic) : Stage := d.problem.stage

def message (d : Diagnostic) : String := d.problem.message

def isError (d : Diagnostic) : Bool := d.severity = .error

def text (d : Diagnostic) : String :=
  let place := match d.node with
    | some i => " node " ++ toString i
    | none => ""
  d.severity.name ++ " [" ++ d.stage.name ++ "]" ++ place ++ ": " ++ d.message

end Diagnostic

end RenderGraph
