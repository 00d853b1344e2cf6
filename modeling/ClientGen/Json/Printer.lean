import ClientGen.Decimal.Shortest
import ClientGen.Json.Basic

/-!
# JSON text

`Json.text` writes a value without blanks, members in their order.
-/

namespace ClientGen.Json

/-- Fractions have their point in place from 0.00001 up to but not including 10 ^ 16. -/
def fractionLayout : Decimal.Layout := ⟨-5, 16⟩

/-- A fraction in the fewest digits that read back. -/
def floatText (x : Float) : String :=
  let bits := x.toBits.toNat
  let sign := if bits / Nat.pow 2 63 == 1 then "-" else ""
  let exponent : Nat := bits / Nat.pow 2 52 % Nat.pow 2 11
  let fraction := bits % Nat.pow 2 52
  if exponent == 0 && fraction == 0 then sign ++ "0.0"
  else
    let digits :=
      if exponent == 0 then Decimal.shortest fraction (-1074) false
      else Decimal.shortest (Nat.pow 2 52 + fraction) ((exponent : Int) - 1075)
        (fraction == 0 && exponent != 1)
    sign ++ fractionLayout.write digits

def hexFour (n : Nat) : List Char :=
  let ds := Nat.toDigits 16 n
  List.replicate (4 - ds.length) '0' ++ ds

/-- How a character stands in a JSON string. -/
def stringChar (c : Char) : List Char :=
  match c with
  | '"' => ['\\', '"']
  | '\\' => ['\\', '\\']
  | '\x08' => ['\\', 'b']
  | '\x0c' => ['\\', 'f']
  | '\n' => ['\\', 'n']
  | '\r' => ['\\', 'r']
  | '\t' => ['\\', 't']
  | c => if c.toNat < 0x20 then '\\' :: 'u' :: hexFour c.toNat else [c]

def stringText (s : String) : String :=
  String.ofList ('"' :: s.toList.flatMap stringChar ++ ['"'])

mutual

/-- The value as compact text. -/
def text : Json → String
  | .null => "null"
  | .bool true => "true"
  | .bool false => "false"
  | .int n => toString n
  | .float x => floatText x
  | .str s => stringText s
  | .arr items => "[" ++ ",".intercalate (itemTexts items) ++ "]"
  | .obj members => "\x7b" ++ ",".intercalate (memberTexts members) ++ "\x7d"

def itemTexts : List Json → List String
  | [] => []
  | v :: rest => text v :: itemTexts rest

def memberTexts : List (String × Json) → List String
  | [] => []
  | (k, v) :: rest => (stringText k ++ ":" ++ text v) :: memberTexts rest

end

end ClientGen.Json
