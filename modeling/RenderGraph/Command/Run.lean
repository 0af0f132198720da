import RenderGraph.Command.Line
import RenderGraph.Compile
import RenderGraph.Pipeline.Json
import RenderGraph.Storage
/-!
# Running commands

What a command does to files and what it reports. Compiling takes its settings from the file that was
named, else from the conventional file beside the graph if there is one, else the standard ones; it
loads them before the graph, and writes nothing unless everything before has succeeded.
-/

namespace RenderGraph

namespace Command

/-- What the program prints, and the code it ends with. -/
structure Report where
  code : Nat
  out : String
  errors : List String
deriving DecidableEq, Repr

inductive Failure where
  | settings (path : String) (cause : SettingsFileError)
  | graph (path : String) (cause : GraphFileError)
  /-- Something was left out, and that was not to be. -/
  | incomplete (cause : CompileFailure)
  | output (path : String) (fault : FileFault)
  | settingsOutput (path : String) (fault : FileFault)
  | present (path : String)
deriving DecidableEq

/-- A cause that has no further ones. -/
def lastCause (text : String) : List String := ["", "Caused by:", "    " ++ text]

/-- A cause that has further ones, of which only its kind is shown. -/
def firstCause (kind : String) : List String := ["", "Caused by:", "    0: " ++ kind]

/-- The kind of all faults of files. -/
def fileKind : String := "IO error"

def Failure.lines : Failure → List String
  | settings path cause =>
    ("Error: Failed to load settings " ++ path) ::
      match cause with
      | .file _ => firstCause fileKind
      | .content .malformed => firstCause (Settings.LoadError.malformed).message
      | .content (.invalid fault) => lastCause fault.message
  | graph path cause =>
    ("Error: Failed to load graph " ++ path) ::
      match cause with
      | .file _ => firstCause fileKind
      | .content .malformed => firstCause OpenError.malformed.message
      | .content e => lastCause e.message
  | incomplete cause => ["Error: " ++ cause.message]
  | output path fault => ("Error: Failed to write " ++ path) :: lastCause fault.message
  | settingsOutput path _ => ("Error: Failed to write " ++ path) :: firstCause fileKind
  | present path => ["Error: " ++ path ++ " already exists (use --force to overwrite)"]

def Failure.report (f : Failure) : Report := ⟨1, "", f.lines⟩

/-- Parts of a path without those at the end that lead nowhere; the first one always counts. -/
def trimParts : List String → List String
  | [] => []
  | part :: rest => part :: (rest.reverse.dropWhile fun p => p = "" || p = ".").reverse

/-- The path of a file beside another one. -/
def beside (path name : String) : String :=
  match trimParts (trimParts (Text.split '/' path)).dropLast with
  | [] => name
  | [""] => "/" ++ name
  | parts => "/".intercalate parts ++ "/" ++ name

variable {m : Type → Type} [Monad m] [Files m]

/-- The settings in force for a graph, from the file that was named or the one beside it. -/
def settingsFor (file : String) (named : Option String) : m (Except Failure Settings) := do
  match named with
  | some path => return (← loadSettings path).mapError (.settings path)
  | none =>
    let path := beside file Settings.fileName
    if ← Files.isFile path then return (← loadSettings path).mapError (.settings path)
    else return .ok .standard

/-- The pipeline to write and the lines to report, unless something was left out that was not to be. -/
def accepted (failFast : Bool) (o : CompileOutput) : Except Failure (Pipeline × List String) :=
  if failFast then (o.result.mapError .incomplete).map fun p => (p, [])
  else .ok (o.pipeline, o.diagnostics.map Diagnostic.text)

/-- What compiling a graph leads to before anything is written. -/
def compileFile (file : String) (named : Option String) (failFast : Bool) :
    m (Except Failure (Pipeline × List String)) := do
  match ← settingsFor file named with
  | .error f => return .error f
  | .ok settings =>
    match ← loadGraph .standard file with
    | .error cause => return .error (.graph file cause)
    | .ok g =>
      let compiler : Compiler := { Compiler.standard with settings := settings }
      return accepted (failFast || settings.failFast) (compiler.compileGraph g)

def runCompile (file : String) (named output : Option String) (failFast : Bool) : m Report := do
  match ← compileFile file named failFast with
  | .error f => return f.report
  | .ok (pipeline, lines) =>
    match output with
    | none => return ⟨0, pipeline.toText ++ "\n", lines⟩
    | some path =>
      match ← Files.write path pipeline.toText with
      | .ok () => return ⟨0, "", lines⟩
      | .error fault => return ⟨1, "", lines ++ (Failure.output path fault).lines⟩

/-- A text with blanks after it up to a width. -/
def padded (width : Nat) (s : String) : String := s ++ String.ofList (List.replicate (width - s.length) ' ')

/-- The list of pass classes by group. -/
def classesText (catalog : PassCatalog) : String :=
  String.join (catalog.categories.entries.map fun (category, names) =>
    category ++ "\n" ++ String.join (names.map fun name =>
      let description := ((catalog.find? name).map PassClass.description).getD ""
      "  " ++ padded 22 name ++ " " ++ description ++ "\n"))

/-- Writes the standard settings to a file. -/
def runInitConfig (path : String) (force : Bool) : m Report := do
  if (← Files.isThere path) && !force then return (Failure.present path).report
  match ← saveSettings .standard path with
  | .ok () => return ⟨0, "Wrote default settings to " ++ path ++ "\n", []⟩
  | .error fault => return (Failure.settingsOutput path fault).report

def run : Command → m Report
  | compile file named output failFast => runCompile file named output failFast
  | classes => return ⟨0, classesText .standard, []⟩
  | initConfig path force => runInitConfig path force

def usage : String := "Usage: graphc [--verbose] <compile|classes|init-config>"

def runArguments (arguments : List String) : m Report :=
  match parse arguments with
  | .ok c => run c
  | .error .refused => return ⟨2, "", [usage]⟩
  | .error .help => return ⟨0, usage ++ "\n", []⟩
  | .error .version => return ⟨0, "graphc 0.1.0\n", []⟩

end Command

end RenderGraph
