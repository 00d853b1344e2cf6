import ClientGen.Disk.Tree
import ClientGen.Program

/-!
# A workspace in memory

A disk, the directory at hand and the programs at hand, as a state. Runs in such a workspace are
pure, so that what they leave can be compared and reasoned about.
-/

namespace ClientGen

/-- A program as others see it. It prints only when it is asked for its version, and always ends
with the same code. -/
structure Program where
  version : Finish := {}
  startable : Bool := true

/-- Where a run takes place. -/
structure Workspace where
  disk : Disk.Tree := {}
  /-- The directory that relative paths start from. -/
  here : Disk.Place := []
  programs : List (String × Program) := []
  /-- Every program that was started, with its arguments, the last one first. -/
  started : List (List String) := []

namespace Workspace

/-- A run that may change the workspace. -/
abbrev Run := StateM Workspace

def ask (f : Disk.Tree → Disk.Place → α) : Run α := do
  let w ← get
  return f w.disk w.here

/-- Changes the disk, unless that fails. -/
def change (f : Disk.Tree → Disk.Place → Except DiskFault Disk.Tree) : Run (Except DiskFault Unit) :=
  fun w =>
    match f w.disk w.here with
    | .ok disk => (.ok (), { w with disk })
    | .error fault => (.error fault, w)

instance : MonadDisk Run where
  kind? path := ask fun t here => t.kind? here path
  list path := ask fun t here => t.list here path
  read path := ask fun t here => t.read here path
  write path text := change fun t here => t.write here path text.toUTF8
  makeDirectory path := change fun t here => t.makeDirectory here path
  resolve path := ask fun t here => t.resolve here path

/-- What a program leaves when it is started with arguments. -/
def finish (p : Program) (arguments : List String) : Finish :=
  if arguments == ["--version"] then p.version else { code := p.version.code }

/-- Why no program of a name is found: no file can have the name, or none has it. -/
def missing (name : String) : DiskFault :=
  if !name.toList.contains '/' && Disk.maxName < name.utf8ByteSize then .nameTooLong else .notFound

instance : MonadProgram Run where
  start name arguments := fun w =>
    if (name :: arguments).any fun s => s.toList.contains '\x00' then (.error .zeroArgument, w)
    else match w.programs.find? fun p => p.1 == name with
    | none => (.error (missing name), w)
    | some (_, p) =>
      if p.startable then
        (.ok (finish p arguments), { w with started := (name :: arguments) :: w.started })
      else (.error .permissionDenied, w)

end Workspace

end ClientGen
