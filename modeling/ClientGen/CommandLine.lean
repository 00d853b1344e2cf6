import ClientGen.Job.Run

/-!
# The command line

* `Options.parse`: what the arguments ask for. Options are taken from left to right, and the first
  one that asks for help or the version ends the reading.
* `CommandLine.run`: does what is asked and reports it: the lines to print, and the exit code.
-/

namespace ClientGen

/-- How the generator is run. -/
structure Options where
  /-- The document of the job. -/
  config : Path := ⟨"./codegen.toml"⟩
  /-- Where the package goes, in place of the directory in the job's settings. -/
  outputDir : Option Path := none
  postProcess : Bool := true
  /-- How much is logged. -/
  verbosity : Nat := 0
deriving DecidableEq, Repr

/-- What is asked for. -/
inductive Request where
  | generate (options : Options)
  | version
  | help
deriving DecidableEq, Repr

/-- Arguments that cannot be understood. -/
inductive UsageError where
  | unexpected (argument : String)
  | unexpectedValue (option value : String)
  | missingValue (option : String)
  | emptyValue (option : String)
  | repeated (option : String)
deriving DecidableEq, Repr

def UsageError.message : UsageError → String
  | .unexpected argument => s!"unexpected argument '{argument}' found"
  | .unexpectedValue option value => s!"unexpected value '{value}' for '{option}' found"
  | .missingValue option => s!"a value is required for '{option}' but none was supplied"
  | .emptyValue option => s!"a value is required for '{option}' but none was supplied"
  | .repeated option => s!"the argument '{option}' cannot be used multiple times"

namespace Options

/-- Arguments read so far. -/
structure Reading where
  config : Option Path := none
  outputDir : Option Path := none
  skip : Bool := false
  verbosity : Nat := 0
  /-- Was the last argument an option whose value is still due? -/
  due : Bool := false
  /-- Are all further arguments values? -/
  valuesOnly : Bool := false

/-- The outcome of an argument: the reading goes on, or it has ended. -/
abbrev Progress := Except UsageError (Reading ⊕ Request)

namespace Reading

def outputOption : String := "--output-dir <OUTPUT_DIR>"

def skipOption : String := "--skip-post-process"

def configValue : String := "[CONFIG]"

def setOutput (r : Reading) (value : String) : Progress :=
  if r.outputDir.isSome then .error (.repeated outputOption)
  else if value.isEmpty then .error (.emptyValue outputOption)
  else .ok (.inl { r with outputDir := some ⟨value⟩, due := false })

/-- Takes an argument that is no option. -/
def value (r : Reading) (argument : String) : Progress :=
  if r.config.isSome then .error (.unexpected argument)
  else if argument.isEmpty then .error (.emptyValue configValue)
  else .ok (.inl { r with config := some ⟨argument⟩ })

def skipTools (r : Reading) : Progress :=
  if r.skip then .error (.repeated skipOption) else .ok (.inl { r with skip := true })

def moreVerbose (r : Reading) : Progress := .ok (.inl { r with verbosity := r.verbosity + 1 })

/-- Takes an option by its name, which may have a value after an equals sign. -/
def long (r : Reading) (argument : String) : Progress :=
  let (name, given) := match Text.cutString? '=' argument with
    | some (name, value) => (name, some value)
    | none => (argument, none)
  let flag (effect : Progress) : Progress :=
    match given with
    | some value => .error (.unexpectedValue name value)
    | none => effect
  match name with
  | "--output-dir" =>
    match given with
    | some value => r.setOutput value
    | none => .ok (.inl { r with due := true })
  | "--skip-post-process" => flag r.skipTools
  | "--verbose" => flag r.moreVerbose
  | "--version" => flag (.ok (.inr .version))
  | "--help" => flag (.ok (.inr .help))
  | _ => .error (.unexpected argument)

/-- Takes options by their letters, which may stand together. The rest of the letters after one that
has a value are its value; an equals sign may stand between. -/
def short (r : Reading) : List Char → Progress
  | [] => .ok (.inl r)
  | 'v' :: rest => short { r with verbosity := r.verbosity + 1 } rest
  | 'V' :: _ => .ok (.inr .version)
  | 'h' :: _ => .ok (.inr .help)
  | ['o'] => .ok (.inl { r with due := true })
  | 'o' :: '=' :: rest => r.setOutput (String.ofList rest)
  | 'o' :: rest => r.setOutput (String.ofList rest)
  | c :: _ => .error (.unexpected (String.ofList ['-', c]))

def step (r : Reading) (argument : String) : Progress :=
  if r.valuesOnly then
    if r.due then .error (.missingValue outputOption) else r.value argument
  else match argument.toList with
    | ['-'] => if r.due then r.setOutput argument else r.value argument
    | ['-', '-'] => .ok (.inl { r with valuesOnly := true })
    | '-' :: rest =>
      if r.due then .error (.missingValue outputOption)
      else match rest with
        | '-' :: _ => r.long argument
        | letters => r.short letters
    | _ => if r.due then r.setOutput argument else r.value argument

/-- What all arguments ask for, when nothing ended the reading. -/
def finish (r : Reading) : Except UsageError Request :=
  if r.due then .error (.missingValue outputOption)
  else .ok (.generate {
    config := r.config.getD ⟨"./codegen.toml"⟩
    outputDir := r.outputDir
    postProcess := !r.skip
    verbosity := r.verbosity })

end Reading

def parseFrom (r : Reading) : List String → Except UsageError Request
  | [] => r.finish
  | argument :: rest =>
    match r.step argument with
    | .error e => .error e
    | .ok (.inr request) => .ok request
    | .ok (.inl r) => parseFrom r rest

def parse (arguments : List String) : Except UsageError Request := parseFrom {} arguments

end Options

/-- Why the generator gave up: what it was doing, and the causes, each the cause of the one before. -/
structure Failure where
  doing : String
  causes : List String

namespace Failure

/-- A cause with blanks in front of each line; the first line may have a number. -/
def indent (number : Option Nat) (cause : String) : List String :=
  let (first, others) := match number with
    | some n =>
      let digits := toString n
      (String.ofList (List.replicate (5 - digits.length) ' ') ++ digits ++ ": ", "       ")
    | none => ("    ", "    ")
  match Text.piecesOf '\n' cause with
  | [] => []
  | line :: rest => (first ++ line) :: rest.map (others ++ ·)

/-- The lines that report a failure. Causes are numbered if there are several. -/
def lines (f : Failure) : List String :=
  let causes := match f.causes with
    | [] => []
    | [cause] => ["", "Caused by:"] ++ indent none cause
    | causes => ["", "Caused by:"] ++ causes.zipIdx.flatMap fun (cause, n) => indent (some n) cause
  Text.piecesOf '\n' ("Error: " ++ f.doing) ++ causes

end Failure

/-- What a run of the program shows. -/
structure Report where
  code : Nat := 0
  output : List String := []
  errors : List String := []

namespace CommandLine

def usage : List String := [
  "Generate a python client from a smithy model",
  "",
  "Usage: codegen [OPTIONS] [CONFIG]",
  "",
  "Arguments:",
  "  [CONFIG]  path to codegen.toml [default: ./codegen.toml]",
  "",
  "Options:",
  "  -o, --output-dir <OUTPUT_DIR>  write the package here instead of the output_dir in the config",
  "      --skip-post-process        don't run the formatter or type checker",
  "  -v, --verbose...               more logging; repeat for trace",
  "  -h, --help                     Print help",
  "  -V, --version                  Print version"]

variable {m : Type → Type} [Monad m] [MonadDisk m]

/-- Adds what was being done to the causes of a failure. -/
def context (doing : String) (run : ExceptT (List String) m α) : ExceptT (List String) m α :=
  ExceptT.mk do return (← run).mapError (doing :: ·)

/-- A failed operation on files is a cause of its own. -/
def orCause (run : m (Except DiskFault α)) : ExceptT (List String) m α :=
  ExceptT.mk do return (← run).mapError fun fault => [fault.message]

/-- Reads the job at a path; what it names is relative to the directory of its document. -/
def loadJob (path : Path) : ExceptT (List String) m Job := do
  let document ← context s!"reading config file at {path.text}" (orCause (Disk.readText path))
  let some folder := path.parent?
    | throw [s!"config path {path.text} has no parent"]
  match Job.read document with
  | .ok job => return { job with base := folder }
  | .error e => throw [e.message]

/-- Runs the job that options name and returns the paths of the files written. -/
def generate [MonadProgram m] (options : Options) : ExceptT (List String) m (List Path) := do
  let path ← context s!"config file {options.config.text} not found"
    (orCause (MonadDisk.resolve options.config))
  let job ← context s!"error loading config at {path.text}" (loadJob path)
  let result ← ((job.run [] options.outputDir options.postProcess).run : m _)
  match result with
  | .ok generated => return generated.written
  | .error e => throw [s!"generating {job.settings.service}", e.message]

def run [MonadProgram m] (arguments : List String) : m Report := do
  match Options.parse arguments with
  | .error e => return { code := 2, errors := ["error: " ++ e.message] }
  | .ok .version => return { output := ["codegen " ++ Model.generatorVersion.text] }
  | .ok .help => return { output := usage }
  | .ok (.generate options) =>
    match ← (generate options).run with
    | .ok written => return { output := written.map Path.text }
    | .error causes =>
      return { code := 1, errors := (Failure.mk (causes.headD "") causes.tail).lines }

end CommandLine

end ClientGen
