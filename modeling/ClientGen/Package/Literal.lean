import ClientGen.Json.Printer
import ClientGen.Text.Quoted

/-!
# Python literals

JSON values as Python expressions.
-/

namespace ClientGen.Json

mutual

/-- The value as a Python literal. -/
def literal : Json → String
  | .null => "None"
  | .bool true => "True"
  | .bool false => "False"
  | .int n => toString n
  | .float x => floatText x
  | .str s => Text.quote s
  | .arr items => "[" ++ ", ".intercalate (itemLiterals items) ++ "]"
  | .obj members => "\x7b" ++ ", ".intercalate (memberLiterals members) ++ "\x7d"

def itemLiterals : List Json → List String
  | [] => []
  | v :: rest => literal v :: itemLiterals rest

def memberLiterals : List (String × Json) → List String
  | [] => []
  | (k, v) :: rest => (Text.quote k ++ ": " ++ literal v) :: memberLiterals rest

end

end ClientGen.Json
