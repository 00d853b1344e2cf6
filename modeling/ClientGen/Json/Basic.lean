/-!
# JSON values

`Json` is a value as documents hold it: objects keep the order of their members, integers and
fractions are different numbers.
-/

namespace ClientGen

inductive Json where
  | null
  | bool (b : Bool)
  | int (n : Int)
  | float (x : Float)
  | str (s : String)
  | arr (items : List Json)
  | obj (members : List (String × Json))
deriving Inhabited

namespace Json

/-- The members of an object, in order, each key once. -/
abbrev Object := List (String × Json)

namespace Object

def get? (o : Object) (key : String) : Option Json :=
  (o.find? fun m => m.1 == key).map (·.2)

/-- Sets the value of a key; a key that is present keeps its place. -/
def insert (key : String) (value : Json) : Object → Object
  | [] => [(key, value)]
  | (k, v) :: rest => if k == key then (k, value) :: rest else (k, v) :: insert key value rest

end Object

def isNull : Json → Bool
  | .null => true
  | _ => false

def text? : Json → Option String
  | .str s => some s
  | _ => none

/-- The fields of a record, in the order of their names, `none` for one left out. A record is an
object, or an array of its fields from the first one on; other members of an object are skipped. -/
def fields (names : List String) : Json → Option (List (Option Json))
  | .obj ms => some (names.map fun n => Object.get? ms n)
  | .arr vs =>
    if names.length < vs.length then none
    else some ((List.range names.length).map fun i => vs[i]?)
  | _ => none

def isZero : Json → Bool
  | .int n => n == 0
  | .float x => x == 0.0
  | _ => false

mutual

/-- Equality of values; the members of objects may stand in any order. -/
def same : Json → Json → Bool
  | .null, .null => true
  | .bool a, .bool b => a == b
  | .int a, .int b => a == b
  | .float a, .float b => a == b
  | .str a, .str b => a == b
  | .arr a, .arr b => sameItems a b
  | .obj a, .obj b => a.length == b.length && sameMembers a b
  | _, _ => false

def sameItems : List Json → List Json → Bool
  | [], [] => true
  | a :: as, b :: bs => same a b && sameItems as bs
  | _, _ => false

/-- Every member on the left has an equal one on the right. -/
def sameMembers : List (String × Json) → List (String × Json) → Bool
  | [], _ => true
  | (k, v) :: rest, other =>
    (match Object.get? other k with
      | some w => same v w
      | none => false) && sameMembers rest other

end

end Json

end ClientGen
