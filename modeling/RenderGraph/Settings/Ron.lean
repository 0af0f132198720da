import RenderGraph.Ron.Reader
import RenderGraph.Settings
import RenderGraph.Text.Escape
/-!
# The text of settings

Settings are written as one group of fields, each on a line of its own. In reading, any field may be
left out and takes its standard value; fields of other names are skipped, and a field that stands
twice is refused.
-/

namespace RenderGraph

namespace Settings

inductive LoadError where
  | malformed
  | invalid (fault : Fault)
deriving DecidableEq, Repr

/-- The message of settings that cannot be read; for malformed text only its kind. -/
def LoadError.message : LoadError → String
  | malformed => "Parse error"
  | invalid fault => fault.message

/-! ## Writing -/

def indent (depth : Nat) : List Char := List.replicate (4 * depth) ' '

/-- A list of texts, each on a line of its own. -/
def keywordsText (items : List String) : List Char :=
  if items.isEmpty then ['[', ']']
  else
    ['[', '\n'] ++ items.flatMap (fun s => indent 2 ++ Text.quoted true s ++ [',', '\n']) ++ indent 1 ++ [']']

/-- A field on a line of its own. -/
def fieldText (name : String) (value : List Char) : List Char :=
  indent 1 ++ name.toList ++ [':', ' '] ++ value ++ [',', '\n']

def toText (s : Settings) : String :=
  String.ofList (['(', '\n'] ++
    fieldText "hdr_class_keywords" (keywordsText s.hdrKeywords) ++
    fieldText "msaa_class_keywords" (keywordsText s.msaaKeywords) ++
    fieldText "hdr_format" s.hdrFormat.name.toList ++
    fieldText "default_format" s.defaultFormat.name.toList ++
    fieldText "msaa_samples" (toString s.msaaSamples.toNat).toList ++
    fieldText "fail_fast" (if s.failFast then "true" else "false").toList ++ [')'])

/-! ## Reading -/

def fieldNames : List String :=
  ["hdr_class_keywords", "msaa_class_keywords", "hdr_format", "default_format", "msaa_samples", "fail_fast"]

/-- The name that a group of settings may have. -/
def groupName : String := "CompilerConfig"

/-- A field, or its standard value. -/
def field? {α : Type} (fields : List (String × Ron)) (name : String) (standard : α) (decode : Ron → Option α) :
    Option α :=
  match fields.lookup name with
  | some v => decode v
  | none => some standard

def keywords? : Ron → Option (List String)
  | .group .square none entries => entries.mapM fun e => e.2.asText?
  | _ => none

def format? (v : Ron) : Option TextureFormat := v.asName?.bind TextureFormat.ofName?

/-- The entries of a group with names as keys. -/
def namedFields? (entries : List (Option Ron × Ron)) : Option (List (String × Ron)) :=
  entries.mapM fun e => (e.1.bind Ron.asName?).map fun name => (name, e.2)

def ofFields? (fields : List (String × Ron)) : Option Settings := do
  let known := fields.filter fun f => fieldNames.contains f.1
  if ¬(known.map Prod.fst).Nodup then none
  return {
    hdrKeywords := ← field? known "hdr_class_keywords" standard.hdrKeywords keywords?
    msaaKeywords := ← field? known "msaa_class_keywords" standard.msaaKeywords keywords?
    hdrFormat := ← field? known "hdr_format" standard.hdrFormat format?
    defaultFormat := ← field? known "default_format" standard.defaultFormat format?
    msaaSamples := ← field? known "msaa_samples" standard.msaaSamples Ron.asUInt32?
    failFast := ← field? known "fail_fast" standard.failFast Ron.asBool? }

/-- The settings of a value: a group in parentheses, whose name may be left out unless an extension
asks for it. -/
def ofDocument? (d : Ron.Document) : Option Settings :=
  match d.value with
  | .group .round name entries =>
    if name = some groupName ∨ (name = none ∧ ¬d.extensions.contains "explicit_struct_names") then
      (namedFields? entries).bind ofFields?
    else none
  | _ => none

/-- The settings of a text, which have to be usable. -/
def ofText (text : String) : Except LoadError Settings :=
  match (Ron.read? text).bind ofDocument? with
  | none => .error .malformed
  | some s =>
    match s.fault? with
    | some fault => .error (.invalid fault)
    | none => .ok s

end Settings

end RenderGraph
