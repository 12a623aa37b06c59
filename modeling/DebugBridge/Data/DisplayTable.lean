import DebugBridge.Data.Datum

/-!
# Display ids

A session numbers the strings and objects that it shows, in the order in which they are first asked
for. A number belongs to one string or object for as long as the session lasts, so whatever has a
number is kept.

## Main definitions

* `DisplayTable`: the numbers given so far and what is kept for them;
* `DisplayTable.idOf`: the number of a string or object, a new one at first sight.
-/

namespace DebugBridge

/-- The display ids of a session. -/
structure DisplayTable where
  /-- The number of each known string or object. -/
  ids : List (Identity × Nat)
  /-- What has a number, in the order of the numbers. -/
  kept : List Datum
deriving DecidableEq

namespace DisplayTable

instance : EmptyCollection DisplayTable := ⟨⟨[], []⟩⟩

instance : Inhabited DisplayTable := ⟨∅⟩

/-- The number of a string or object. At first sight it takes the next number, of which 32 bits are
kept; nothing else has one. -/
def idOf (table : DisplayTable) (datum : Datum) : Option Nat × DisplayTable :=
  match datum.identity? with
  | none => (none, table)
  | some identity =>
    match table.ids.lookup identity with
    | some id => (some id, table)
    | none =>
      let id := table.ids.length.toUInt32.toNat
      (some id, ⟨table.ids ++ [(identity, id)], table.kept ++ [datum]⟩)

/-- Forgets all numbers and keeps nothing. -/
def clear (_ : DisplayTable) : DisplayTable := ∅

end DisplayTable

end DebugBridge
