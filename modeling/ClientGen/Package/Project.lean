import ClientGen.Package.Page
import ClientGen.Symbol.Basic
import ClientGen.Text.Natural

/-!
# Project files

The files of a package that are not Python: `pyproject.toml` and `README.md`.

* `ProjectInfo.render`: a project file.
-/

namespace ClientGen

/-- The list without elements of the same package as the one before, which is `package` for the first. -/
def dropSamePackage (package : String) : List Dependency → List Dependency
  | [] => []
  | d :: rest =>
    if package == d.package then dropSamePackage package rest else d :: dropSamePackage d.package rest

/-- Dependencies in the natural order of their packages, the first of each package. -/
def sortedDependencies (ds : List Dependency) (c : Text.Collation := {}) : List Dependency :=
  match ds.mergeSort fun a b => (Text.compareNatural c a.package b.package).isLE with
  | [] => []
  | first :: rest => first :: dropSamePackage first.package rest

/-- What project files tell about a package. -/
structure ProjectInfo where
  name : String
  version : String
  description : String
  service : String
  /-- The client class, if there is one. -/
  client : Option String := none
  pythonRequires : String
  dependencies : List Dependency := []
  operations : List String := []

namespace ProjectInfo

/-- The data of pages. -/
def data (p : ProjectInfo) : Json :=
  .obj [
    ("name", .str p.name),
    ("version", .str p.version),
    ("description", .str p.description),
    ("service", .str p.service),
    ("client", match p.client with
      | some name => .str name
      | none => .null),
    ("python_requires", .str p.pythonRequires),
    ("dependencies", .arr (p.dependencies.map fun d =>
      .obj [("package", .str d.package), ("version", .str d.version)])),
    ("operations", .arr (p.operations.map .str))]

def pyproject : List String := [
  "# Code generated by shapegen. DO NOT EDIT.",
  "",
  "[project]",
  "name = \"\x7b\x7bname\x7d\x7d\"",
  "version = \"\x7b\x7bversion\x7d\x7d\"",
  "description = \"\x7b\x7bdescription\x7d\x7d\"",
  "readme = \"README.md\"",
  "requires-python = \"\x7b\x7bpython_requires\x7d\x7d\"",
  "dependencies = [",
  "\x7b\x7b#each dependencies\x7d\x7d",
  "    \"\x7b\x7bpackage\x7d\x7d\x7b\x7bversion\x7d\x7d\",",
  "\x7b\x7b/each\x7d\x7d",
  "]",
  "",
  "[build-system]",
  "requires = [\"hatchling\"]",
  "build-backend = \"hatchling.build\"",
  "",
  "[tool.hatch.build.targets.wheel]",
  "packages = [\"\x7b\x7bname\x7d\x7d\"]",
  "",
  "[tool.pyright]",
  "typeCheckingMode = \"strict\"",
  "reportPrivateUsage = false",
  "reportUnusedFunction = false",
  "reportUnusedVariable = false",
  "reportUnnecessaryComparison = false",
  "reportUnnecessaryIsInstance = false",
  "",
  "[tool.ruff]",
  "target-version = \"py312\"",
  "",
  "[tool.ruff.lint]",
  "ignore = [\"F841\"]",
  ""]

def readme : List String := [
  "# \x7b\x7bname\x7d\x7d",
  "",
  "\x7b\x7bdescription\x7d\x7d",
  "",
  "Generated from the Smithy service `\x7b\x7bshape_name service\x7d\x7d` in namespace",
  "`\x7b\x7bnamespace_name service\x7d\x7d`. Do not edit these files by hand; regenerate them",
  "from the model instead.",
  "\x7b\x7b#if client\x7d\x7d",
  "",
  "## Usage",
  "",
  "```python",
  "from \x7b\x7bname\x7d\x7d.client import \x7b\x7bclient\x7d\x7d",
  "from \x7b\x7bname\x7d\x7d.config import Config",
  "",
  "client = \x7b\x7bclient\x7d\x7d(Config(endpoint_uri=\"https://example.com\"))",
  "```",
  "",
  "## Operations",
  "",
  "\x7b\x7b#each operations\x7d\x7d",
  "- `\x7b\x7bto_snake_case this\x7d\x7d`",
  "\x7b\x7b/each\x7d\x7d",
  "\x7b\x7b/if\x7d\x7d",
  ""]

def page? (name : String) : Option (List String) :=
  match name with
  | "pyproject" => some pyproject
  | "readme" => some readme
  | _ => none

def render (p : ProjectInfo) (name : String) : Except Error String :=
  match page? name with
  | some lines => Page.renderLines true (lines.map String.toList) p.data
  | none => .error (.rendering ("no page " ++ name))

end ProjectInfo

end ClientGen
