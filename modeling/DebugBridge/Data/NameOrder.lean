import DebugBridge.Number.Integer

/-!
# The order of child names

Children are listed by name. Names of the form `[i]` stand for indices and are compared as numbers
with each other; every other pair is compared as texts.

## Main definitions

* `NameKey`: what is compared of a name;
* `compareNames`: the order;
* `sortBy`: a stable sort by a strict order.
-/

namespace DebugBridge

/-- The index that a name of the form `[i]` stands for. -/
def nameIndex? (name : String) : Option Nat :=
  match name.toList with
  | '[' :: rest =>
    match rest.reverse with
    | ']' :: digits => Number.index? digits.reverse
    | _ => none
  | _ => none

/-- A name as it is compared: with the index that it stands for, if it does. -/
structure NameKey where
  index : Option Nat
  name : String

/-- The key of a name. -/
def NameKey.of (name : String) : NameKey :=
  ⟨nameIndex? name, name⟩

/-- Compares two keys of names. -/
def NameKey.compare (x y : NameKey) : Ordering :=
  match x.index, y.index with
  | some i, some j => Ord.compare i j
  | _, _ => Ord.compare x.name y.name

/-- Compares two names of children. -/
def compareNames (x y : String) : Ordering :=
  (NameKey.of x).compare (.of y)

/-- Inserts an element into a list in descending order, in front of all that are not greater. -/
def insertDescending {α : Type} (less : α → α → Bool) (x : α) : List α → List α
  | [] => [x]
  | y :: ys => if less x y then y :: insertDescending less x ys else x :: y :: ys

/-- Sorts by a strict order. Each element in turn goes behind those before it that are not
greater, so elements that compare equal keep their order. -/
def sortBy {α : Type} (less : α → α → Bool) (xs : List α) : List α :=
  (xs.foldl (fun sorted x => insertDescending less x sorted) []).reverse

/-- Sorts by the names of children. -/
def sortByName {α : Type} (name : α → String) (xs : List α) : List α :=
  let keyed := xs.map fun x => (NameKey.of (name x), x)
  (sortBy (fun x y => x.1.compare y.1 == .lt) keyed).map (·.2)

end DebugBridge
