import RenderGraph.SavedGraph.Json
import RenderGraph.Settings.Ron
/-!
# Files

Graphs and settings are kept in files. `Files` is what a place for files offers; whatever has it can
load and save, so the same definitions work on a real disk and on a `Disk` in memory.
-/

namespace RenderGraph

/-- Why a file cannot be read or written. -/
inductive FileFault where
  /-- There is no such file, or no directory for it. -/
  | notFound
  /-- A file stands where a directory is needed. -/
  | notDirectory
  /-- A directory stands where a file is needed. -/
  | isDirectory
  | notText
  | other (text : String)
deriving DecidableEq, Repr

def FileFault.message : FileFault → String
  | notFound => "No such file or directory (os error 2)"
  | notDirectory => "Not a directory (os error 20)"
  | isDirectory => "Is a directory (os error 21)"
  | notText => "stream did not contain valid UTF-8"
  | other text => text

class Files (m : Type → Type) where
  read : String → m (Except FileFault String)
  /-- Writes a text to a file, in place of what was there. -/
  write : String → String → m (Except FileFault Unit)
  isFile : String → m Bool
  isThere : String → m Bool

inductive GraphFileError where
  | file (fault : FileFault)
  | content (cause : OpenError)
deriving DecidableEq, Repr

inductive SettingsFileError where
  | file (fault : FileFault)
  | content (cause : Settings.LoadError)
deriving DecidableEq, Repr

variable {m : Type → Type} [Monad m] [Files m]

def loadGraph (catalog : NodeCatalog) (path : String) : m (Except GraphFileError Graph) := do
  match ← Files.read path with
  | .error fault => return .error (.file fault)
  | .ok text => return (SavedGraph.openText catalog text).mapError .content

def saveGraph (catalog : NodeCatalog) (g : Graph) (path : String) : m (Except FileFault Unit) :=
  Files.write path (SavedGraph.ofGraph catalog g).toText

def loadSettings (path : String) : m (Except SettingsFileError Settings) := do
  match ← Files.read path with
  | .error fault => return .error (.file fault)
  | .ok text => return (Settings.ofText text).mapError .content

def saveSettings (s : Settings) (path : String) : m (Except FileFault Unit) := Files.write path s.toText

end RenderGraph
