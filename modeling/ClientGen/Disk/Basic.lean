import ClientGen.Error
import ClientGen.Path

/-!
# Files

`MonadDisk` is what a run needs of files: whether a path leads to a file or a directory, what a
directory holds, reading, writing, and the one spelling of a path that has no detours. Everything
else is built from these.

* `readText`: a file as text.
-/

namespace ClientGen

namespace Disk

/-- The most bytes of a name. -/
def maxName : Nat := 255

/-- The most bytes of a path. -/
def maxPath : Nat := 4095

/-- What a path leads to. -/
inductive Kind where
  | file
  | directory
deriving DecidableEq, Repr

end Disk

class MonadDisk (m : Type → Type) where
  /-- What the path leads to, if anything. -/
  kind? : Path → m (Option Disk.Kind)
  /-- The names in a directory, in any order. -/
  list : Path → m (Except DiskFault (List String))
  read : Path → m (Except DiskFault ByteArray)
  /-- Writes a file, in place of the one there. -/
  write : Path → String → m (Except DiskFault Unit)
  /-- Makes a directory in one that is there. -/
  makeDirectory : Path → m (Except DiskFault Unit)
  /-- The path from the root, free of `.` and `..`. -/
  resolve : Path → m (Except DiskFault Path)

namespace Disk

variable {m : Type → Type} [Monad m] [MonadDisk m]

/-- Bytes that are text. -/
def decode (bytes : ByteArray) : Except DiskFault String :=
  match String.fromUTF8? bytes with
  | some s => .ok s
  | none => .error .notUtf8

def readText (path : Path) : m (Except DiskFault String) := do
  return (← MonadDisk.read path).bind decode

def isDirectory (path : Path) : m Bool := do
  return (← MonadDisk.kind? path) == some .directory

/-- A directory that could not be made is no fault if it is there. -/
def settle (path : Path) : Except DiskFault Unit → m (Except DiskFault Unit)
  | .ok _ => return .ok ()
  | .error fault => do
    if ← isDirectory path then return .ok () else return .error fault

/-- Makes a directory and, where one that holds it is missing, that one first; `fuel` bounds the
depth. -/
def makeWithin : Nat → Path → m (Except DiskFault Unit)
  | 0, _ => return .error .notFound
  | fuel + 1, path =>
    if path.text.isEmpty then return .ok ()
    else do
      match ← MonadDisk.makeDirectory path, path.parent? with
      | .error .notFound, some holder =>
        match ← makeWithin fuel holder with
        | .error fault => return .error fault
        | .ok _ => settle path (← MonadDisk.makeDirectory path)
      | result, _ => settle path result

/-- Makes a directory and those that hold it. Each is spelled shorter than the one in it. -/
def makeDirectories (path : Path) : m (Except DiskFault Unit) :=
  makeWithin (path.text.length + 1) path

end Disk

end ClientGen
