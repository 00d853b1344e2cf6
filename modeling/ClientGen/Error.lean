import ClientGen.ShapeId
import ClientGen.Text.Quoted

/-!
# Errors

What can go wrong in a run, by cause. `Error` groups the causes by what they are about; the wording
is in one function per group, and `Error.message` puts the group's heading in front.
-/

namespace ClientGen

/-- Why an operation on files failed. -/
inductive DiskFault where
  | notFound
  | permissionDenied
  | exists
  | notADirectory
  | isADirectory
  | nameTooLong
  /-- A path with a zero byte in it. -/
  | zeroByte
  /-- A program's name or argument with a zero byte in it. -/
  | zeroArgument
  | notUtf8
  | other (text : String)
deriving DecidableEq, Repr

def DiskFault.message : DiskFault → String
  | .notFound => "No such file or directory (os error 2)"
  | .permissionDenied => "Permission denied (os error 13)"
  | .exists => "File exists (os error 17)"
  | .notADirectory => "Not a directory (os error 20)"
  | .isADirectory => "Is a directory (os error 21)"
  | .nameTooLong => "File name too long (os error 36)"
  | .zeroByte => "file name contained an unexpected NUL byte"
  | .zeroArgument => "nul byte found in provided data"
  | .notUtf8 => "stream did not contain valid UTF-8"
  | .other text => text

/-- What was being done with files when it failed. -/
inductive DiskError where
  | reading (path : String) (fault : DiskFault)
  | listing (fault : DiskFault)
  | creatingDirectory (path : String) (fault : DiskFault)
  | writing (path : String) (fault : DiskFault)
deriving DecidableEq, Repr

def DiskError.message : DiskError → String
  | .reading path fault => s!"reading {path}: {fault.message}"
  | .listing fault => fault.message
  | .creatingDirectory path fault => s!"creating directory {path}: {fault.message}"
  | .writing path fault => s!"writing output file {path}: {fault.message}"

inductive MissingFile where
  | source (path : String)
  | program (name : String)
deriving DecidableEq, Repr

def MissingFile.message : MissingFile → String
  | .source path => s!"'{path}' is not a valid path to a file or directory"
  | .program name => name

/-- A document or trait value that cannot be read, or that asks for what is not there. -/
inductive ModelError where
  | json (reason : String)
  | version (reason : String)
  | traitValue (id : ShapeId) (reason : String)
  | requirementsNotAList
  | newerGenerator (required current : String)
  | notAService (id : ShapeId) (type : String)
deriving DecidableEq, Repr

def ModelError.message : ModelError → String
  | .json reason => s!"json: {reason}"
  | .version reason => s!"version: {reason}"
  | .traitValue id reason => s!"invalid value for trait {id}: {reason}"
  | .requirementsNotAList => "metadata 'codegen' must be an array"
  | .newerGenerator required current =>
    s!"model requires code generator version {required} or later; this is {current}"
  | .notAService id type => s!"{id} is a {type}, not a service"

/-- A model that contradicts itself or cannot be generated from. -/
inductive InvalidModel where
  | duplicateShape (id : ShapeId)
  | danglingReference (shape target : ShapeId)
  | conflictingMetadata (key : String)
  | missingField (shape : ShapeId) (field : String)
  | unsupportedType (shape : ShapeId) (type : String)
  | malformedMember (container : ShapeId) (name reason : String)
  | enumValueNotText (member : ShapeId)
  | unknownResource (service resource : ShapeId)
  | selfContaining (collection : ShapeId)
  | cyclicSymbol (id : ShapeId)
  | endlessSymbol (id : ShapeId)
  | unknownEnumDefault (value : String) (enumeration : ShapeId)
  | timestampDefault (json : String)
  | memberTarget (type : String) (target : ShapeId)
  | errorFault (shape : ShapeId) (found : Option String)
  | unmatchedLabel (operation : ShapeId) (label : String)
  | unappliedScheme (service scheme : ShapeId)
  | ambiguousOverride (operation other : ShapeId) (name : String)
  | missingTrait (service : ShapeId) (id : ShapeId)
deriving DecidableEq, Repr

/-- An optional text as messages show it. -/
def inspectOption : Option String → String
  | some s => "Some(" ++ Text.inspect s ++ ")"
  | none => "None"

def InvalidModel.message : InvalidModel → String
  | .duplicateShape id => s!"shape {id} is defined more than once"
  | .danglingReference shape target => s!"shape {shape} references {target}, which is not defined"
  | .conflictingMetadata key => s!"conflicting metadata for key '{key}'"
  | .missingField shape field => s!"shape {shape} is missing '{field}'"
  | .unsupportedType shape type => s!"shape {shape} has unsupported type '{type}'"
  | .malformedMember container name reason => s!"member {container}${name}: {reason}"
  | .enumValueNotText member => s!"enum member {member} must have a string value"
  | .unknownResource service resource => s!"service {service} binds unknown resource {resource}"
  | .selfContaining collection =>
    s!"collection {collection} contains itself without an intervening structure"
  | .cyclicSymbol id => s!"symbol for {id} depends on itself"
  | .endlessSymbol id => s!"symbol for {id} is never reached"
  | .unknownEnumDefault value enumeration =>
    s!"default '{value}' is not a value of enum {enumeration}"
  | .timestampDefault json => s!"invalid timestamp default {json}"
  | .memberTarget type target => s!"member targets {type} {target}"
  | .errorFault shape found =>
    s!"error trait on {shape} must be \"client\" or \"server\", found " ++ inspectOption found
  | .unmatchedLabel operation label =>
    s!"{operation} uri label \x7b" ++ label ++ "\x7d has no matching input member"
  | .unappliedScheme service scheme =>
    s!"service {service} lists auth scheme {scheme} that it does not apply"
  | .ambiguousOverride operation other name =>
    s!"auth override of {operation} is ambiguous: {other} has the same name {name}"
  | .missingTrait service id => s!"service {service} has no trait {id}"

/-- A placeholder's way of writing its argument. -/
inductive Format where
  | literal
  | string
  | type
  | code
deriving DecidableEq, Repr

/-- The format as messages name it. -/
def Format.word : Format → String
  | .literal => "Literal"
  | .string => "Str"
  | .type => "Type"
  | .code => "Code"

/-- A template that is malformed or does not fit its arguments. Each cause but the last carries
the template. -/
inductive TemplateError where
  | unknownFormat (c : Char) (template : String)
  | missingFormat (template : String)
  | dangling (template : String)
  | unterminated (template : String)
  | notNamed (inner template : String)
  | invalidNamed (inner template : String)
  | badPosition (template : String)
  | zeroPosition (template : String)
  | mixed (template : String)
  | wrongCount (template : String) (expected found : Nat)
  | unusedArgument (template : String) (count : Nat)
  | unknownName (name template : String)
  | mismatch (format : Format) (argument template : String)
  | spentBlock (template : String)
  | contextMismatch (name : String) (format : Format)
deriving DecidableEq, Repr

def TemplateError.message : TemplateError → String
  | .unknownFormat c t => "unknown format character '" ++ c.toString ++ "' in template " ++ Text.inspect t
  | .missingFormat t => "missing format character in template " ++ Text.inspect t
  | .dangling t => "dangling '$' in template " ++ Text.inspect t
  | .unterminated t => "unterminated '$\x7b' in template " ++ Text.inspect t
  | .notNamed inner t =>
    "expected '$\x7bname:K\x7d', found '" ++ inner ++ "' in template " ++ Text.inspect t
  | .invalidNamed inner t =>
    "invalid named placeholder '" ++ inner ++ "' in template " ++ Text.inspect t
  | .badPosition t => "bad position in template " ++ Text.inspect t
  | .zeroPosition t => "positions start at 1 in template " ++ Text.inspect t
  | .mixed t => "relative and positional arguments mixed in template " ++ Text.inspect t
  | .wrongCount t expected found =>
    "template " ++ Text.inspect t ++ s!" expects {expected} arguments, found {found}"
  | .unusedArgument t count =>
    "template " ++ Text.inspect t ++ s!" must use each of its {count} arguments"
  | .unknownName name t => s!"no context value '{name}' for template " ++ Text.inspect t
  | .mismatch format argument t =>
    s!"{format.word} placeholder given a {argument} argument in template " ++ Text.inspect t
  | .spentBlock t => "block used twice in template " ++ Text.inspect t
  | .contextMismatch name format => s!"context value '{name}' can't be formatted as {format.word}"

/-- A draft used in a way it does not allow. -/
inductive DraftError where
  | unmatchedPop
  | wrongModule (path actual expected : String)
  | undeclared (symbol : String)
  | pastEnd
  | tooDeep
deriving DecidableEq, Repr

def DraftError.message : DraftError → String
  | .unmatchedPop => "pop_state called without push_state"
  | .wrongModule path actual expected => s!"file {path} is module {actual}, not {expected}"
  | .undeclared symbol => s!"symbol {symbol} is not declared in a file"
  | .pastEnd => "a section begins past the end of the text"
  | .tooDeep => "sections are nested too deeply"

/-- Settings that cannot be read or do not fit the model. -/
inductive SettingsError where
  | document (reason : String)
  | moduleName (name : String)
  | unknownIntegration (name : String)
  | unsupportedProtocol (protocol service : ShapeId)
  | unregisteredProtocol (protocol : ShapeId)
deriving DecidableEq, Repr

def SettingsError.message : SettingsError → String
  | .document reason => s!"codegen: {reason}"
  | .moduleName name => s!"module '{name}' is not a valid python package name"
  | .unknownIntegration name => s!"unknown integration '{name}'"
  | .unsupportedProtocol protocol service =>
    s!"protocol {protocol} is not supported by service {service}"
  | .unregisteredProtocol protocol => s!"no generator is registered for protocol {protocol}"

/-- A tool that did not start or did not succeed. -/
inductive ToolError where
  | start (program : String) (fault : DiskFault)
  | exit (program : String) (code : Nat)
deriving DecidableEq, Repr

def ToolError.message : ToolError → String
  | .start program fault => s!"failed to start {program}: {fault.message}"
  | .exit program code => s!"{program} exited with exit status: {code}"

/-- Causes that belong to no group. -/
inductive OtherError where
  | missingProperty (symbol key : String)
  | unregisteredScheme (id : ShapeId)
  | custom (text : String)
deriving DecidableEq, Repr

def OtherError.message : OtherError → String
  | .missingProperty symbol key => s!"symbol {symbol} has no '{key}' property"
  | .unregisteredScheme id => s!"auth scheme {id} is not registered"
  | .custom text => text

inductive Error where
  | missingFile (cause : MissingFile)
  | disk (cause : DiskError)
  | model (cause : ModelError)
  | inFile (path : String) (cause : Error)
  | invalidShapeId (text : String)
  | invalidModel (cause : InvalidModel)
  | shapeNotFound (id : ShapeId)
  | operationNotFound (service operation : ShapeId)
  | namingCollision (first second : ShapeId) (ns name : String)
  | unclassifiedCycle (id : ShapeId)
  | template (cause : TemplateError)
  | draft (cause : DraftError)
  | rendering (reason : String)
  | settings (cause : SettingsError)
  | tool (cause : ToolError)
  | other (cause : OtherError)
deriving DecidableEq, Repr

def Error.message : Error → String
  | .missingFile cause => "missing input file: " ++ cause.message
  | .disk cause => "io error: " ++ cause.message
  | .model cause => "smithy error: " ++ cause.message
  | .inFile path cause => "smithy error: " ++ path ++ ": " ++ cause.message
  | .invalidShapeId text => s!"invalid shape id '{text}'"
  | .invalidModel cause => "invalid model: " ++ cause.message
  | .shapeNotFound id => s!"shape {id} was not found in the model"
  | .operationNotFound service operation =>
    s!"service {service} contains unknown operation: {operation}"
  | .namingCollision first second ns name =>
    s!"naming collision: {first} and {second} both resolve to {ns}.{name}"
  | .unclassifiedCycle id =>
    s!"shape {id} is part of a reference cycle but was not classified as recursive"
  | .template cause => "template error: " ++ cause.message
  | .draft cause => "writer error: " ++ cause.message
  | .rendering reason => "handlebars error: " ++ reason
  | .settings cause => "configuration error: " ++ cause.message
  | .tool cause => "formatter error: " ++ cause.message
  | .other cause => cause.message

def ShapeId.read (s : String) : Except Error ShapeId :=
  match ShapeId.parse? s with
  | some id => .ok id
  | none => .error (.invalidShapeId s)

/-- Reads a shape id whose namespace may be left out if it is the prelude's. -/
def ShapeId.readRelative (s : String) : Except Error ShapeId :=
  ShapeId.read (ShapeId.absolute s)

end ClientGen
