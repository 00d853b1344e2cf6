import ClientGen.Model.Assembly
import ClientGen.Version

/-!
# Generator requirements

A model may ask in its metadata for a least version of the generator, for each target language.
-/

namespace ClientGen.Model

def generatorVersion : Version := { major := 0, minor := 5, patch := 0 }

def requirementsKey : String := "codegen"

def targetLanguage : String := "python"

/-- A requirement: the language it is for and the least version, if any. -/
structure Requirement where
  language : String
  minVersion : Option String

def Requirement.ofJson? (value : Json) : Option Requirement := do
  let fields ← value.fields ["language", "min_version"]
  let language ← (← fields.getD 0 none).text?
  let minVersion ← Assembly.optionalText? (fields.getD 1 none)
  return { language, minVersion }

/-- A requirement for another language, or without a version, asks for nothing. -/
def Requirement.check (r : Requirement) : Except Error Unit :=
  if r.language.toList.map Char.toLower != targetLanguage.toList then .ok ()
  else match r.minVersion with
    | none => .ok ()
    | some s =>
      match Version.parse? s with
      | none => .error (.model (.version "not a semantic version"))
      | some v =>
        if v.compare generatorVersion == .gt then
          .error (.model (.newerGenerator v.text generatorVersion.text))
        else .ok ()

/-- Checks that this generator is recent enough for the model. -/
def checkGenerator (m : Model) : Except Error Unit :=
  match Json.Object.get? m.metadata requirementsKey with
  | none => .ok ()
  | some (.arr entries) =>
    entries.forM fun entry =>
      match Requirement.ofJson? entry with
      | some r => r.check
      | none => .error (.model (.json "not a generator requirement"))
  | some _ => .error (.model .requirementsNotAList)

end ClientGen.Model
