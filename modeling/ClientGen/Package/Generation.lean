import ClientGen.Model.Requirement
import ClientGen.Package.AuthResolver
import ClientGen.Package.Client
import ClientGen.Package.Config
import ClientGen.Package.Integrations
import ClientGen.Package.Models.Collections
import ClientGen.Package.Models.Preamble
import ClientGen.Package.Models.Unions
import ClientGen.Package.Project
import ClientGen.Package.Schemas

/-!
# Generating a package

From a model and settings to the files of a package.
-/

namespace ClientGen.Package

open Plan

/-- What is declared for a shape. Definitions of traits declare nothing; operations and the service
are the client's. -/
def shapeDeclarations (cx : Context) (shape : Shape) : Plan Edit Unit := do
  if shape.isTraitDefinition then return
  match shape.kind with
  | .struct members =>
    schema cx shape
    structureClass cx shape members
  | .union members =>
    schema cx shape
    unionClasses cx shape members
  | .list _ | .set _ | .map _ _ =>
    schema cx shape
    collection cx shape
  | .enumeration values =>
    schema cx shape
    enumClass cx shape values
  | .scalar _ => schema cx shape
  | .operation _ | .service _ => return

/-- The declarations of models and schemas. -/
def typeEdits (cx : Context) : Plan Edit Unit := do
  preamble cx
  schemaShells cx
  cx.order.all.forM fun id => do
    let shape ← cx.shape id
    shapeDeclarations cx shape

/-- The modules of the client; gives the client class. -/
def clientEdits (cx : Context) (protocol : Option Protocol) (plugins : List Plugin) :
    Plan Edit Symbol := do
  protocolModules cx protocol
  let schemes := registeredSchemes plugins
  let operations ← cx.operations
  let resolution ← AuthResolution.of cx.model cx.service (operations.map (·.1))
    (schemes.map AuthScheme.id)
  authSchemes cx resolution schemes
  let classes := resolution.all.filterMap fun id => do
    let scheme ← schemes.find? fun s => s.id == id
    let symbol ← scheme.symbol
    return (id, symbol)
  configClass cx plugins classes
  clientClass cx protocol

/-- All edits of a run; gives the client class if there is one. -/
def packageEdits (cx : Context) (protocol : Option Protocol) (plugins : List Plugin) :
    Plan Edit (Option Symbol) := do
  typeEdits cx
  match cx.settings.artifact with
  | .types => return none
  | .client =>
    let client ← clientEdits cx protocol plugins
    return some client

/-- Carries out a plan of edits. The first fault in the order of the edits counts. -/
def carryOut (folder : Folder) (plan : Plan Edit α) : Except Error (Folder × α) := do
  let planned := plan {}
  let folder ← folder.applyAll planned.out
  let a ← planned.result
  return (folder, a)

/-- A late change to the package. -/
def customize (state : Folder × Manifest) (c : Customization) : Except Error (Folder × Manifest) :=
  let (folder, files) := state
  let apply (e : Edit) : Except Error (Folder × Manifest) :=
    match folder.apply e with
    | (.ok _, folder) => .ok (folder, files)
    | (.error err, _) => .error err
  match c with
  | .file path contents => .ok (folder, files.write path contents)
  | .edit path ns script => apply { path, ns, script }
  | .editDeclaring s script => do apply (← s.edit script)
  | .fail e => .error e

/-- The versions of Python that generated code runs on. -/
def pythonRequires : String := ">=3.12"

/-- The description of the package: from the settings, else the first line of the service's
documentation, else a sentence with the service's name. -/
def description (settings : Settings) (service : Shape) : String :=
  match settings.description with
  | some text => text
  | none =>
    match service.traits.documentation.bind Text.firstLine? with
    | some line => Text.trim line
    | none => "Generated types for the " ++ service.id.name ++ " service"

/-- A text between double quotes: quotes and backslashes have a backslash in front. -/
def escapeQuotes (s : String) : String :=
  Text.respell (fun c => if c = '"' || c = '\\' then ['\\', c] else [c]) s

/-- What the project files tell about the package. -/
def projectInfo (cx : Context) (client : Option Symbol) (dependencies : List Dependency) :
    Except Error ProjectInfo := do
  let operations ← match client with
    | some _ => do
      let found ← cx.operations
      .ok (found.map fun op => op.1.id.name)
    | none => .ok []
  return {
    name := cx.settings.module
    version := cx.settings.version
    description := escapeQuotes (description cx.settings cx.service)
    service := cx.service.id.text
    client := client.map Symbol.name
    pythonRequires := pythonRequires
    dependencies := sortedDependencies dependencies
    operations := operations }

/-- Adds a project file, unless it is there. -/
def addProjectFile (info : ProjectInfo) (files : Manifest) (path : Path) (page : String) :
    Except Error Manifest := do
  if files.has path then return files
  let text ← info.render page
  return files.write path text

def clientProtocol (integrations : List Integration) (m : Model) (settings : Settings)
    (service : Shape) : Except Error (Option Protocol) :=
  match settings.artifact with
  | .client => Protocol.select m service settings.protocol
      (integrations.flatMap Integration.protocols)
  | .types => .ok none

/-- The context of a run on a model that integrations have changed. -/
def prepare (integrations : List Integration) (m : Model) (settings : Settings) :
    Except Error Context := do
  let _ ← m.service settings.service
  let model ← m.prune settings.service
  let order ← EmissionOrder.of model settings.service
  let provider := integrations.foldl (fun p i => i.decorate p) { package := settings.module }
  let (service, _) ← model.service settings.service
  return { model, settings, provider, order, service }

/-- What a run works with. -/
structure Run where
  /-- In the order they are applied. -/
  integrations : List Integration
  cx : Context
  plugins : List Plugin
  protocol : Option Protocol

/-- The run for a model, with integrations besides those that settings name. -/
def Run.of (extra : List Integration) (m : Model) (settings : Settings) : Except Error Run := do
  if !Text.isIdentifier settings.module.toList then throw (.settings (.moduleName settings.module))
  m.checkGenerator
  let standard ← integrationsFor settings
  let integrations := Integration.sort (standard ++ extra)
  let m ← integrations.foldlM (fun m i => i.preprocess m) m
  let cx ← prepare integrations m settings
  let plugins := Integration.servicePlugins integrations cx.service
  let protocol ← clientProtocol integrations cx.model settings cx.service
  return { integrations, cx, plugins, protocol }

def Run.plan (run : Run) : Plan Edit (Option Symbol) :=
  packageEdits run.cx run.protocol run.plugins

/-- The files of the package, with integrations besides those that settings name. -/
def generate (extra : List Integration) (m : Model) (settings : Settings) :
    Except Error Manifest := do
  let run ← Run.of extra m settings
  let registry := run.integrations.flatMap Integration.interceptors
  let (folder, client) ← carryOut { package := settings.module, registry } run.plan
  let (folder, files) ← (run.integrations.flatMap Integration.customizations).foldlM customize
    (folder, {})
  let files := (folder.flush files).addInitFiles
  let info ← projectInfo run.cx client folder.dependencies
  let files ← addProjectFile info files ⟨"pyproject.toml"⟩ "pyproject"
  addProjectFile info files ⟨"README.md"⟩ "readme"

end ClientGen.Package
