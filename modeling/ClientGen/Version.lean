import ClientGen.Text.Natural
import ClientGen.Text.Split

/-!
# Versions

Semantic versions: three numbers, a pre-release and build metadata. `Version.compare` is their
precedence, with build metadata deciding between versions that are otherwise equal.
-/

namespace ClientGen

structure Version where
  major : Nat
  minor : Nat
  patch : Nat
  pre : List String := []
  build : List String := []
deriving DecidableEq, Repr

namespace Version

/-- A number of the core of a version: no zero in front, at most 64 bits. -/
def number? (cs : List Char) : Option Nat :=
  if cs.isEmpty || !cs.all Char.isDigit then none
  else if cs.length > 1 && cs.head? == some '0' then none
  else
    let n := cs.foldl (fun n c => n * 10 + (c.toNat - '0'.toNat)) 0
    if n < Nat.pow 2 64 then some n else none

def isIdentifierChar (c : Char) : Bool := Text.isAsciiAlphanumeric c || c == '-'

/-- Identifiers with dots between, none of them empty. -/
def identifiers? (cs : List Char) : Option (List (List Char)) :=
  let parts := Text.pieces '.' cs
  if parts.all fun p => !p.isEmpty && p.all isIdentifierChar then some parts else none

def isNumber (cs : List Char) : Bool := cs.all Char.isDigit

/-- Identifiers of a pre-release; a number among them has no zero in front. -/
def preIdentifiers? (cs : List Char) : Option (List (List Char)) := do
  let parts ← identifiers? cs
  if parts.any fun p => isNumber p && p.length > 1 && p.head? == some '0' then none
  return parts

def parse? (s : String) : Option Version := do
  let (rest, build) ← match Text.cut? '+' s.toList with
    | some (before, after) => (identifiers? after).map fun b => (before, b)
    | none => some (s.toList, [])
  let (core, pre) ← match Text.cut? '-' rest with
    | some (before, after) => (preIdentifiers? after).map fun p => (before, p)
    | none => some (rest, [])
  match Text.pieces '.' core with
  | [a, b, c] =>
    return {
      major := ← number? a, minor := ← number? b, patch := ← number? c,
      pre := pre.map String.ofList, build := build.map String.ofList }
  | _ => none

def text (v : Version) : String :=
  s!"{v.major}.{v.minor}.{v.patch}" ++
    (if v.pre.isEmpty then "" else "-" ++ ".".intercalate v.pre) ++
    (if v.build.isEmpty then "" else "+" ++ ".".intercalate v.build)

/-- Numbers come before words, and compare by value; longer writings of one number are greater. -/
def compareIdentifier (a b : String) : Ordering :=
  let as := a.toList
  let bs := b.toList
  match isNumber as, isNumber bs with
  | true, false => .lt
  | false, true => .gt
  | false, false => Text.compareChars as bs
  | true, true =>
    let value (cs : List Char) := cs.foldl (fun n c => n * 10 + (c.toNat - '0'.toNat)) 0
    (compare (value as) (value bs)).then (compare as.length bs.length)

def compareIdentifiers : List String → List String → Ordering
  | [], [] => .eq
  | [], _ :: _ => .lt
  | _ :: _, [] => .gt
  | a :: as, b :: bs => (compareIdentifier a b).then (compareIdentifiers as bs)

/-- A version without a pre-release comes after all its pre-releases. -/
def comparePre : List String → List String → Ordering
  | [], [] => .eq
  | [], _ :: _ => .gt
  | _ :: _, [] => .lt
  | as, bs => compareIdentifiers as bs

def compare (a b : Version) : Ordering :=
  (Ord.compare a.major b.major).then <| (Ord.compare a.minor b.minor).then <|
    (Ord.compare a.patch b.patch).then <| (comparePre a.pre b.pre).then <|
      compareIdentifiers a.build b.build

end Version

end ClientGen
