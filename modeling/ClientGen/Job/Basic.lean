import ClientGen.Error
import ClientGen.Json.Printer
import ClientGen.Settings
import ClientGen.Source
import ClientGen.Toml.Document

/-!
# Jobs

A job says which documents make up the model, what package is generated from it, and what relative
paths are relative to. It is written as a TOML document.

* `Job.read`: the job of a document. Keys that are not known are skipped.
-/

namespace ClientGen

structure Job where
  sources : List Source := []
  settings : Settings
  /-- The directory that relative paths are relative to. -/
  base : Path := ⟨""⟩
deriving DecidableEq, Repr

namespace Job

/-- A field that must be there. -/
def required (name : String) (read : Toml → Option α) : Option Toml → Except SettingsError α
  | none => .error (.document s!"missing field {name}")
  | some t =>
    match read t with
    | some a => .ok a
    | none => .error (.document s!"invalid value for {name}")

/-- A field that stands for `default` if it is left out. -/
def optional (name : String) (read : Toml → Option α) (default : α) :
    Option Toml → Except SettingsError α
  | none => .ok default
  | some t => required name read (some t)

def shapeId? (t : Toml) : Option ShapeId := t.text?.bind ShapeId.parse?

def path? (t : Toml) : Option Path := t.text?.map Path.mk

/-- A word, or a table with the word as its only key and nothing at it. -/
def artifact? : Toml → Option Artifact
  | .string word => Artifact.ofWord? word
  | .table [(word, .table [])] => Artifact.ofWord? word
  | .table [(word, .array [])] => Artifact.ofWord? word
  | _ => none

/-- A source is written as a table only. -/
def source? : Toml → Option Source
  | .table entries => do
    let path ← (Toml.Entries.get? entries "path").bind path?
    let files ← match Toml.Entries.get? entries "files" with
      | none => some []
      | some t => t.texts?
    return { path, files }
  | _ => none

def sources? : Toml → Option (List Source)
  | .array items => items.mapM source?
  | _ => none

def settingNames : List String :=
  ["service", "module", "version", "description", "artifact", "output-dir", "protocol",
    "integrations", "formatter", "type-checker"]

def readSettings (t : Toml) : Except SettingsError Settings := do
  let some fields := t.fields settingNames
    | throw (.document "python must be a table")
  let field (i : Nat) := fields.getD i none
  let service ← required "service" shapeId? (field 0)
  let module ← required "module" Toml.text? (field 1)
  let version ← optional "version" Toml.text? "0.0.1" (field 2)
  let description ← optional "description" (·.text?.map some) none (field 3)
  let artifact ← optional "artifact" artifact? .client (field 4)
  let outputDir ← required "output-dir" path? (field 5)
  let protocol ← optional "protocol" (fun t => (shapeId? t).map some) none (field 6)
  let integrations ← optional "integrations" Toml.texts? [] (field 7)
  let formatter ← optional "formatter" Toml.texts? [] (field 8)
  let typeChecker ← optional "type-checker" Toml.texts? [] (field 9)
  return {
    service, module, version, description, artifact, outputDir, protocol, integrations, formatter
    typeChecker }

def ofEntries (entries : Toml.Entries) : Except SettingsError Job := do
  let sources ← optional "models" sources? [] (entries.get? "models")
  let some package := entries.get? "python"
    | throw (.document "missing field python")
  let settings ← readSettings package
  let base ← optional "base_dir" path? ⟨""⟩ (entries.get? "base_dir")
  return { sources, settings, base }

def read (document : String) : Except Error Job :=
  match Toml.read document with
  | none => .error (.settings (.document "the document is not valid TOML"))
  | some entries => (ofEntries entries).mapError .settings

def textsJson (texts : List String) : Json := .arr (texts.map .str)

def optionJson : Option String → Json
  | some s => .str s
  | none => .null

def sourceJson (s : Source) : Json :=
  .obj [("path", .str s.path.text), ("files", textsJson s.files)]

def settingsJson (s : Settings) : Json :=
  .obj (settingNames.zip [
    .str s.service.text, .str s.module, .str s.version, optionJson s.description,
    .str s.artifact.word, .str s.outputDir.text, optionJson (s.protocol.map ShapeId.text),
    textsJson s.integrations, textsJson s.formatter, textsJson s.typeChecker])

/-- The job as JSON, its fields in the order in which they are declared. -/
def toJson (job : Job) : Json :=
  .obj [("models", .arr (job.sources.map sourceJson)), ("python", settingsJson job.settings),
    ("base_dir", .str job.base.text)]

/-- Where the package goes: to the directory given, else to that of the settings. -/
def outputDir (job : Job) (given : Option Path) : Path :=
  given.getD (job.base.join job.settings.outputDir)

end Job

end ClientGen
