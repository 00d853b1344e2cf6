import ClientGen.Error

/-!
# Programs

What a run needs of other programs: to start one with arguments and wait until it ends.
-/

namespace ClientGen

/-- What a program left behind. -/
structure Finish where
  output : ByteArray := .empty
  errors : ByteArray := .empty
  code : Nat := 0

class MonadProgram (m : Type → Type) where
  /-- Starts the program found under a name and waits for its end. A program that is not there is
  the fault `notFound`. -/
  start : String → List String → m (Except DiskFault Finish)

end ClientGen
