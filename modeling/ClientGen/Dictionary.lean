/-!
# Dictionaries

Entries in ascending order of their keys, each key once.
-/

namespace ClientGen

/-- Keys with their values, in ascending order of the keys. -/
abbrev Dictionary (κ : Type) (α : Type u) := List (κ × α)

namespace Dictionary

variable {κ : Type} {α : Type u} [Ord κ]

/-- Sets the value of a key; a key that compares equal to one that is present leaves that one. -/
def insert (key : κ) (value : α) : Dictionary κ α → Dictionary κ α
  | [] => [(key, value)]
  | (k, v) :: rest =>
    match compare key k with
    | .lt => (key, value) :: (k, v) :: rest
    | .eq => (k, value) :: rest
    | .gt => (k, v) :: insert key value rest

/-- Sets the value of a key that is not there yet. -/
def insertNew (key : κ) (value : α) : Dictionary κ α → Dictionary κ α
  | [] => [(key, value)]
  | (k, v) :: rest =>
    match compare key k with
    | .lt => (key, value) :: (k, v) :: rest
    | .eq => (k, v) :: rest
    | .gt => (k, v) :: insertNew key value rest

def get? (key : κ) (d : Dictionary κ α) : Option α :=
  (d.find? fun e => compare key e.1 == .eq).map (·.2)

def has (key : κ) (d : Dictionary κ α) : Bool := (get? key d).isSome

end Dictionary

/-- Adds an element to a list in ascending order, unless it is there. -/
def insertSorted [Ord α] (a : α) : List α → List α
  | [] => [a]
  | b :: rest =>
    match compare a b with
    | .lt => a :: b :: rest
    | .eq => b :: rest
    | .gt => b :: insertSorted a rest

end ClientGen
