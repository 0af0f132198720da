import RenderGraph.Settings
/-!
# The command line

`Command.parse` reads the arguments of the program. A switch is written long (`--name`) or short
(`-n`); short ones may stand together after one hyphen. The value of a switch is the next argument,
or what follows `=` or a short switch directly. After `--` nothing is a switch. A switch that stands
twice and an empty value are refused.
-/

namespace RenderGraph

/-- What the program is asked to do. -/
inductive Command where
  /-- Compile the graph in a file, with settings from a file, writing the pipeline to a file. -/
  | compile (file : String) (settings output : Option String) (failFast : Bool)
  | classes
  /-- Write the standard settings to a file, even if there is one. -/
  | initConfig (path : String) (force : Bool)
deriving DecidableEq, Repr

namespace Command

/-- Why arguments do not ask for a command. -/
inductive Stop where
  | refused
  | help
  | version
deriving DecidableEq, Repr

structure Switch where
  long : String
  short : Option Char
  takesValue : Bool
deriving DecidableEq, Repr

/-- The switch for a report of all steps, which every command has. -/
def verbose : Switch := ⟨"verbose", some 'v', false⟩

/-- The switch for help, which every command has. -/
def help : Switch := ⟨"help", some 'h', false⟩

def mainSwitches : List Switch := [verbose, help, ⟨"version", some 'V', false⟩]

def compileSwitches : List Switch :=
  [verbose, help, ⟨"config", some 'c', true⟩, ⟨"output", some 'o', true⟩, ⟨"fail-fast", none, false⟩]

def classesSwitches : List Switch := [verbose, help]

def initConfigSwitches : List Switch := [verbose, help, ⟨"force", none, false⟩]

structure Scan where
  given : List (String × String)
  places : List String
  /-- The switch whose value is the next argument. -/
  pending : Option Switch
  plain : Bool
deriving DecidableEq, Repr

def Scan.start : Scan := ⟨[], [], none, false⟩

/-- Takes a switch with its value, empty for one without. -/
def give (s : Scan) (w : Switch) (value : String) : Except Stop Scan :=
  if w.long = "help" then .error .help
  else if w.long = "version" then .error .version
  else if (s.given.lookup w.long).isSome || (w.takesValue && value = "") then .error .refused
  else .ok { s with given := s.given ++ [(w.long, value)], pending := none }

/-- Takes a long switch, written with or without a value. -/
def giveLong (switches : List Switch) (s : Scan) (written : List Char) : Except Stop Scan :=
  let long := String.ofList (written.takeWhile (· ≠ '='))
  match switches.find? fun w => w.long = long, written.dropWhile (· ≠ '=') with
  | some w, [] => if w.takesValue then .ok { s with pending := some w } else give s w ""
  | some w, _ :: value => if w.takesValue then give s w (String.ofList value) else .error .refused
  | none, _ => .error .refused

def giveShort (switches : List Switch) (s : Scan) : List Char → Except Stop Scan
  | [] => .ok s
  | c :: rest =>
    match switches.find? fun w => w.short = some c with
    | none => .error .refused
    | some w =>
      if w.takesValue then
        match rest with
        | [] => .ok { s with pending := some w }
        | '=' :: value => give s w (String.ofList value)
        | value => give s w (String.ofList value)
      else
        match give s w "" with
        | .ok given => giveShort switches given rest
        | .error stop => .error stop

def take (switches : List Switch) (s : Scan) (argument : String) : Except Stop Scan :=
  let place : Except Stop Scan := .ok { s with places := s.places ++ [argument] }
  if s.plain then place
  else
    match argument.toList, s.pending with
    | '-' :: '-' :: [], none => .ok { s with plain := true }
    | '-' :: '-' :: long, none => giveLong switches s long
    | '-' :: c :: short, none => giveShort switches s (c :: short)
    | '-' :: _ :: _, some _ => .error .refused
    | _, some w => give s w argument
    | _, none => place

/-- Takes all arguments of a command; each switch has its value. -/
def scan (switches : List Switch) (arguments : List String) : Except Stop Scan :=
  match arguments.foldlM (take switches) Scan.start with
  | .error stop => .error stop
  | .ok s => if s.pending.isSome then .error .refused else .ok s

def Scan.has (s : Scan) (long : String) : Bool := (s.given.lookup long).isSome

/-- The names of the commands, and of the one that explains them. -/
def names : List String := ["compile", "classes", "init-config", "help"]

/-- The command of a name with its arguments. -/
def ofName (name : String) (arguments : List String) : Except Stop Command := do
  match name with
  | "compile" =>
    let s ← scan compileSwitches arguments
    match s.places with
    | [file] =>
      if file = "" then throw .refused
      return .compile file (s.given.lookup "config") (s.given.lookup "output") (s.has "fail-fast")
    | _ => throw .refused
  | "classes" =>
    let s ← scan classesSwitches arguments
    if s.places.isEmpty then return .classes else throw .refused
  | "init-config" =>
    let s ← scan initConfigSwitches arguments
    match s.places with
    | [] => return .initConfig Settings.fileName (s.has "force")
    | [path] => if path = "" then throw .refused else return .initConfig path (s.has "force")
    | _ => throw .refused
  | "help" => if arguments.all names.contains && arguments.length ≤ 1 then throw .help else throw .refused
  | _ => throw .refused

/-- The command that arguments ask for: switches, then the name of a command with its arguments. -/
def parseFrom (s : Scan) : List String → Except Stop Command
  | [] => .error .refused
  | argument :: rest =>
    match take mainSwitches s argument with
    | .error stop => .error stop
    | .ok taken =>
      if taken.plain then .error .refused
      else if taken.places.isEmpty then parseFrom taken rest
      else ofName argument rest

/-- The command that the arguments of the program ask for. -/
def parse (arguments : List String) : Except Stop Command := parseFrom Scan.start arguments

end Command

end RenderGraph
