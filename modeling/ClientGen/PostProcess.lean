import ClientGen.Model.Sources
import ClientGen.Program
import ClientGen.Settings
import ClientGen.Text.Utf8

/-!
# Post-processing

A generated package is formatted, then type-checked, by the programs that settings name. Both are
Python tools, so nothing runs without a Python that is new enough; a tool that is not installed is
skipped, one that fails ends the run.
-/

namespace ClientGen

structure PythonVersion where
  major : Nat
  minor : Nat
deriving DecidableEq, Repr

namespace PythonVersion

/-- The oldest version that generated code is for. -/
def oldest : PythonVersion := ⟨3, 12⟩

def atLeast (v w : PythonVersion) : Bool :=
  w.major < v.major || (v.major == w.major && w.minor ≤ v.minor)

/-- A number of 32 bits; a plus sign may stand in front. -/
def number? (cs : List Char) : Option Nat :=
  let ds := match cs with
    | '+' :: rest => rest
    | cs => cs
  if ds.isEmpty || !ds.all Char.isDigit then none
  else
    let n := ds.foldl (fun n c => n * 10 + (c.toNat - '0'.toNat)) 0
    if n < Nat.pow 2 32 then some n else none

/-- The version in a text such as `Python 3.12.1`. What follows the digits of the second number is
left out. -/
def parse? (output : String) : Option PythonVersion :=
  let cs := Text.trimChars output.toList
  let front := "Python ".toList
  if !front.isPrefixOf cs then none
  else match Text.pieces '.' (cs.drop front.length) with
    | first :: second :: _ => do
      let major ← number? first
      let minor ← number? (Text.dropEndWhile (fun c => !c.isDigit) second)
      return ⟨major, minor⟩
    | _ => none

end PythonVersion

variable {m : Type → Type} [Monad m] [MonadProgram m]

/-- The version of the Python at hand, if there is one. It may print to either stream. -/
def pythonVersion? : m (Option PythonVersion) := do
  match ← MonadProgram.start "python3" ["--version"] with
  | .error _ => return none
  | .ok finish =>
    let printed := if finish.output.isEmpty then finish.errors else finish.output
    return PythonVersion.parse? (Text.decodeLossy printed)

/-- Runs a tool over a package. No command, or one that is not installed, does nothing. -/
def runTool (command : List String) (package : Path) : ExceptT Error m Unit :=
  match command with
  | [] => return ()
  | program :: arguments => do
    match ← (MonadProgram.start program (arguments ++ [package.text]) : m _) with
    | .error .notFound => return ()
    | .error fault => throw (.tool (.start program fault))
    | .ok finish => if finish.code != 0 then throw (.tool (.exit program finish.code))

/-- Formats a package, then checks its types. -/
def postProcess (settings : Settings) (package : Path) : ExceptT Error m Unit := do
  if settings.formatter.isEmpty && settings.typeChecker.isEmpty then return ()
  match ← (pythonVersion? : m _) with
  | none => return ()
  | some version =>
    if version.atLeast .oldest then
      runTool settings.formatter package
      runTool settings.typeChecker package

end ClientGen
