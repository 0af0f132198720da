import RenderGraph.Aliases
import RenderGraph.Pass
import RenderGraph.Text.Escape
/-!
# The order of passes

A pass that reads a resource comes after every other pass that writes it. `Schedule.topological`
takes, again and again, the first pass of the list for which nothing is left to wait, so a list
that is already in order stays as it is.

`Progress` is the state of that: how many writers each pass still waits for, which passes wait for
none, and the order so far.
-/

namespace RenderGraph

/-- An order of passes and the canonical names of resources that share a buffer. -/
structure Schedule where
  /-- Positions in the list of passes. -/
  order : List Nat
  /-- Aliased names with their canonical names. -/
  canonical : Table String String
deriving DecidableEq

/-- Why positions are no order of the passes. -/
inductive OrderFault where
  /-- There are too few or too many. -/
  | length (expected found : Nat)
  /-- One is past the last pass, or stands twice. -/
  | position (index : Nat)
  | other (text : String)
deriving DecidableEq, Repr

/-- The text of a fault. -/
def OrderFault.message : OrderFault → String
  | length expected found => "expected " ++ toString expected ++ " passes, got " ++ toString found
  | position index => "index " ++ toString index ++ " is out of range or repeated"
  | other text => text

/-- Why there is no order. -/
inductive ScheduleError where
  /-- The passes of these names wait for one another or for such a pass. -/
  | cycle (names : List String)
  /-- What was answered is no order of the passes. -/
  | invalidOrder (fault : OrderFault)
deriving DecidableEq, Repr

/-- The message of a missing order. -/
def ScheduleError.message : ScheduleError → String
  | cycle names => "Pass dependencies contain a cycle: " ++ Text.quotedList names
  | invalidOrder fault => "Scheduler returned an invalid order: " ++ fault.message

abbrev Scheduler := List Pass → Except ScheduleError Schedule

namespace Schedule

/-- For each pass, the positions of the other passes that read what it writes, in order. -/
def readers (passes : List Pass) : List (List Nat) :=
  passes.zipIdx.map fun (writer, i) =>
    (passes.zipIdx.filter fun (reader, j) => i ≠ j && writer.feeds reader).map Prod.snd

structure Progress where
  /-- How many passes each pass still waits for. -/
  waiting : List Nat
  /-- The passes that wait for none and are not ordered yet, in order of position. -/
  ready : List Nat
  order : List Nat
deriving DecidableEq

/-- Puts a position in its place among positions in order. -/
def insertSorted (i : Nat) : List Nat → List Nat
  | [] => [i]
  | j :: rest => if i < j then i :: j :: rest else j :: insertSorted i rest

namespace Progress

/-- Nothing is ordered, and each pass waits for the passes it reads from. -/
def start (readers : List (List Nat)) : Progress :=
  let count := readers.length
  let waiting := (List.range count).map fun i => readers.countP fun js => js.contains i
  ⟨waiting, (List.range count).filter fun i => waiting[i]? = some 0, []⟩

/-- Lets a pass wait for one pass less. -/
def release (s : Progress) (i : Nat) : Progress :=
  let left := (s.waiting[i]?).getD 0 - 1
  { s with
    waiting := s.waiting.set i left
    ready := if left = 0 then insertSorted i s.ready else s.ready }

/-- Orders the first pass that is ready, and releases its readers. -/
def step (readers : List (List Nat)) (s : Progress) : Progress :=
  match s.ready with
  | [] => s
  | i :: rest => ((readers[i]?).getD []).foldl release { s with ready := rest, order := s.order ++ [i] }

def run (readers : List (List Nat)) : Nat → Progress → Progress
  | 0, s => s
  | n + 1, s => run readers n (step readers s)

end Progress

/-- The state when no pass is ready any more: each step orders a pass, so there are at most as many
steps as passes. -/
def progress (passes : List Pass) : Progress :=
  .run (readers passes) passes.length (.start (readers passes))

/-- The outputs that use the buffer of an input, in the order of the passes. -/
def aliasPairs (passes : List Pass) : List (String × String) :=
  passes.flatMap fun p => p.inplace.map fun a => (a.output, a.input)

/-- The names that share a buffer by what passes do in place. -/
def aliases (passes : List Pass) : Aliases := Aliases.empty.assignAll (aliasPairs passes)

/-- The passes that are still waiting. -/
def stuck (passes : List Pass) (s : Progress) : List Pass :=
  (passes.zip s.waiting).filterMap fun (p, left) => if 0 < left then some p else none

/-- The passes at given positions. -/
def arrange {α : Type} (items : List α) (order : List Nat) : List α := order.filterMap fun i => items[i]?

/-- Orders passes so that each resource is written before it is read. -/
def topological : Scheduler := fun passes =>
  let s := progress passes
  if s.order.length < passes.length then .error (.cycle ((stuck passes s).map Pass.name))
  else .ok ⟨s.order, (aliases (arrange passes s.order)).toTable⟩

end Schedule

end RenderGraph
