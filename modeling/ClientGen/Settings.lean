import ClientGen.ShapeId
import ClientGen.Path

/-!
# Settings

What is generated, for which service, and where it goes.
-/

namespace ClientGen

/-- How much is generated. -/
inductive Artifact where
  /-- Models, schemas, serializers, auth, config and client. -/
  | client
  /-- Models and schemas only. -/
  | types
deriving DecidableEq, Repr

def Artifact.word : Artifact → String
  | .client => "client"
  | .types => "types"

def Artifact.ofWord? (word : String) : Option Artifact :=
  [Artifact.client, Artifact.types].find? fun a => a.word == word

/-- Settings of the generated package. -/
structure Settings where
  service : ShapeId
  /-- The name of the package. -/
  module : String
  version : String := "0.0.1"
  description : Option String := none
  artifact : Artifact := .client
  outputDir : Path
  /-- The protocol to use, in place of the first one that the service declares. -/
  protocol : Option ShapeId := none
  /-- The integrations to apply besides those that always are. -/
  integrations : List String := []
  /-- The program that formats the package, with its arguments. -/
  formatter : List String := []
  /-- The program that checks types, with its arguments. -/
  typeChecker : List String := []
deriving DecidableEq, Repr

end ClientGen
