/-!
# TOML values

`Toml` is a value as a document holds it. Numbers and moments are kept as far as the documents here
use them: an integer by its value, a fraction and a moment by their text.
-/

namespace ClientGen

inductive Toml where
  | string (s : String)
  | integer (n : Int)
  | float (text : String)
  | boolean (b : Bool)
  | moment (text : String)
  | array (items : List Toml)
  | table (entries : List (String × Toml))
deriving Inhabited

namespace Toml

/-- The entries of a table, each key once. -/
abbrev Entries := List (String × Toml)

def Entries.get? (es : Entries) (key : String) : Option Toml :=
  (es.find? fun e => e.1 == key).map (·.2)

def text? : Toml → Option String
  | .string s => some s
  | _ => none

/-- The texts of an array that holds nothing else. -/
def texts? : Toml → Option (List String)
  | .array items => items.mapM text?
  | _ => none

/-- The fields of a record, in the order of their names, `none` for one left out. A record is a
table, or an array of its fields from the first one on; whatever else there is is skipped. -/
def fields (names : List String) : Toml → Option (List (Option Toml))
  | .table entries => some (names.map fun n => Entries.get? entries n)
  | .array items => some ((List.range names.length).map fun i => items[i]?)
  | _ => none

end Toml

end ClientGen
