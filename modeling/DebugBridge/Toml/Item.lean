import DebugBridge.Toml.Literal

/-!
# Keys and values of a TOML document

A key is a path of names. A value is a truth value, a number, a moment, a string, an array or a
table between braces. Tables can be made by a header, by a dotted key or by braces, and only some of
them may still grow.

## Main definitions

* `Item`: a value or a table;
* `Entries`: the entries of a table, in the order of their keys;
* `keyPath`, `item`: the readers.
-/

namespace DebugBridge.Toml

/-- A value or a table. -/
inductive Item where
  | boolean (value : Bool)
  | integer (value : Int)
  | real (value : Number.Binary)
  | moment
  | text (value : String)
  | array (items : List Item)
  /-- A table between braces. One that came about by a dotted key may still grow. -/
  | braces (growing : Bool) (entries : List (String × Item))
  /-- A table of the document. It is implicit until a header names it, and `dotted` when a dotted
  key made it. -/
  | table (implicit dotted : Bool) (entries : List (String × Item))
  /-- Tables that each had a header of their own. -/
  | tables (elements : List (List (String × Item)))

/-- Entries in the order of their keys. -/
abbrev Entries := List (String × Item)

/-- The entry of a key. -/
def Entries.find? (entries : Entries) (key : String) : Option Item :=
  entries.lookup key

/-- Replaces the entry of a key, or adds one. -/
def Entries.put (entries : Entries) (key : String) (item : Item) : Entries :=
  match entries with
  | [] => [(key, item)]
  | e :: rest => if e.1 = key then (key, item) :: rest else e :: put rest key item

/-- Adds an entry for a key that has none. -/
def Entries.add? (entries : Entries) (key : String) (item : Item) : Option Entries :=
  if (entries.find? key).isSome then none else some (entries ++ [(key, item)])

/-! ### Keys -/

/-- The greatest depth of arrays and braces inside each other, and of names in a key. -/
def nestingLimit : Nat := 80

/-- Whether a character may stand in a name without quotes. -/
def isBare (c : Char) : Bool :=
  c.isAlphanum || c = '-' || c = '_'

/-- Reads one name. -/
def simpleKey (cs : List Char) : Option (String × List Char) :=
  match cs with
  | [] => none
  | c :: _ =>
    if isQuote c then shortString cs
    else
      let name := cs.takeWhile isBare
      if name.isEmpty then none else some (String.ofList name, cs.dropWhile isBare)

/-- Reads names with points between them and blanks around each. -/
def keyNames : Nat → Reader (List String)
  | 0, _ => none
  | rounds + 1, cs => do
    let (name, rest) ← simpleKey (blanks cs)
    let rest := blanks rest
    match expect '.' rest with
    | none => return ([name], rest)
    | some next =>
      let (names, rest) ← keyNames rounds next
      return (name :: names, rest)

/-- Reads a key: the tables that it leads through, and the name of the entry. -/
def keyPath (cs : List Char) : Option ((List String × String) × List Char) := do
  let (names, rest) ← keyNames (nestingLimit - 1) cs
  let last ← names.getLast?
  return ((names.dropLast, last), rest)

/-! ### Values -/

/-- Adds an entry to a table between braces, under a key that may lead through further tables. -/
def addInBraces (path : List String) (key : String) (item : Item) (entries : Entries) :
    Option Entries :=
  match path with
  | [] => entries.add? key item
  | name :: path =>
    match entries.find? name with
    | none => do
      let inner ← addInBraces path key item []
      return entries.put name (.braces true inner)
    | some (.braces true inner) => do
      let inner ← addInBraces path key item inner
      return entries.put name (.braces true inner)
    | some _ => none

/-- The entries of a table between braces. -/
def entriesOfPairs (pairs : List ((List String × String) × Item)) : Option Entries :=
  pairs.foldlM (fun entries pair => addInBraces pair.1.1 pair.1.2 pair.2 entries) []

/-- Reads a key, the sign of equality and a value. -/
def pairOf (value : Reader Item) (cs : List Char) :
    Option (((List String × String) × Item) × List Char) := do
  let (key, rest) ← keyPath cs
  let rest ← expect '=' rest
  let (x, rest) ← value (blanks rest)
  return ((key, x), blanks rest)

/-- Reads the elements of an array, after its bracket. A comma may follow the last one. -/
def arrayBody (value : Reader Item) (cs : List Char) : Option (Item × List Char) := do
  let element : Reader Item := fun cs => do
    let (x, rest) ← value (gap cs)
    return (x, gap rest)
  let (items, rest) := listOf element cs
  let rest := if items.isEmpty then rest else (expect ',' rest).getD rest
  let rest ← expect ']' (gap rest)
  return (.array items, rest)

/-- Reads the entries of a table between braces, after its brace. -/
def bracesBody (value : Reader Item) (cs : List Char) : Option (Item × List Char) := do
  let (pairs, rest) := listOf (pairOf value) cs
  let rest ← expect '\x7d' (blanks rest)
  return (.braces false (← entriesOfPairs pairs), rest)

/-- Reads a string of several lines or of one. -/
def textItem (cs : List Char) : Option (Item × List Char) :=
  match cs with
  | a :: b :: c :: _ =>
    if a = b ∧ b = c then (longString cs).map fun (s, rest) => (.text s, rest)
    else (shortString cs).map fun (s, rest) => (.text s, rest)
  | _ => (shortString cs).map fun (s, rest) => (.text s, rest)

/-- Reads a moment, a floating-point number or an integer, the first that fits. -/
def numberItem (cs : List Char) : Option (Item × List Char) :=
  match momentLiteral cs with
  | some rest => some (.moment, rest)
  | none =>
    match realLiteral cs with
    | some (x, rest) => some (.real x, rest)
    | none => (integerLiteral cs).map fun (z, rest) => (.integer z, rest)

/-- Reads a value in which arrays and braces stand inside each other at most so deep. -/
def item : Nat → Reader Item
  | _, [] => none
  | depth, c :: rest =>
    if isQuote c then textItem (c :: rest)
    else if c = '[' then
      match depth with
      | 0 => none
      | depth + 1 => arrayBody (item depth) rest
    else if c = '\x7b' then
      match depth with
      | 0 => none
      | depth + 1 => bracesBody (item depth) rest
    else if c = 't' then
      (expectWord ['t', 'r', 'u', 'e'] (c :: rest)).map fun rest => (.boolean true, rest)
    else if c = 'f' then
      (expectWord ['f', 'a', 'l', 's', 'e'] (c :: rest)).map fun rest => (.boolean false, rest)
    else numberItem (c :: rest)

/-- Reads a value. -/
def value (cs : List Char) : Option (Item × List Char) :=
  item (nestingLimit - 1) cs

end DebugBridge.Toml
