import RenderGraph.Command.Run
/-!
# The program

Runs the command line on the files of the machine.
-/

namespace RenderGraph

/-- The fault that an error of the machine is. -/
def FileFault.ofError : IO.Error → FileFault
  | .noFileOrDirectory .. => .notFound
  | e => .other (toString e)

/-- The result of an action, or the fault that kept it from having one. -/
def attempt {α : Type} (action : IO α) : IO (Except FileFault α) := do
  match ← action.toBaseIO with
  | .ok a => return .ok a
  | .error e => return .error (.ofError e)

/-- The text in a file of the machine. -/
def readText (path : String) : IO (Except FileFault String) := do
  match ← attempt (IO.FS.readBinFile path) with
  | .error fault => return .error fault
  | .ok bytes => return (String.fromUTF8? bytes).elim (.error .notText) .ok

instance : Files IO where
  read := readText
  write path text := attempt (IO.FS.writeFile path text)
  isFile path := do return (← attempt (IO.FS.readBinFile path)).toBool
  isThere path := do return (← attempt (IO.FS.Handle.mk path .read)).toBool

end RenderGraph

def main (arguments : List String) : IO UInt32 := do
  let report : RenderGraph.Command.Report ← RenderGraph.Command.runArguments arguments
  IO.print report.out
  for line in report.errors do
    IO.eprintln line
  return UInt32.ofNat report.code
