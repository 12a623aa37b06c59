import DebugBridge.Toml.Item

/-!
# TOML documents

A document is a sequence of entries and of headers, each on lines of its own. A header names the
table that takes the entries after it. A table is defined once: a header may define a table that
exists only because a longer header passed through it, and dotted keys extend only tables that
dotted keys made.

## Main definitions

* `Table`: a table with how it came about;
* `within`: changes a table below another one;
* `parse?`: the entries of the root table.
-/

namespace DebugBridge.Toml

/-- A table while the document is read. -/
structure Table where
  implicit : Bool
  dotted : Bool
  entries : Entries

/-- A table that a header defines. -/
def Table.defined : Table := ⟨false, false, []⟩

/-- The item of a table. -/
def Table.item (t : Table) : Item :=
  .table t.implicit t.dotted t.entries

/-- Changes the last of some tables. -/
def changeLast (change : Entries → Option Entries) (elements : List Entries) :
    Option (List Entries) :=
  match elements with
  | [] => none
  | [last] => (change last).map fun e => [e]
  | e :: rest => (changeLast change rest).map fun rest => e :: rest

/-- Changes the table at the end of a path. Tables missing on the way are made; of tables with a
header each, the last one is meant. A dotted key does not pass through a table that a header
defined. -/
def within (dotted : Bool) (change : Table → Option Table) (path : List String) (t : Table) :
    Option Table :=
  match path with
  | [] => change t
  | name :: path =>
    match t.entries.find? name with
    | none => do
      let child ← within dotted change path ⟨true, dotted, []⟩
      return { t with entries := t.entries.put name child.item }
    | some (.table childImplicit childDotted entries) =>
      if dotted && !childImplicit then none
      else do
        let child ← within dotted change path ⟨childImplicit, childDotted, entries⟩
        return { t with entries := t.entries.put name child.item }
    | some (.tables elements) => do
      let inside := fun entries =>
        (within dotted change path ⟨false, false, entries⟩).map fun child => child.entries
      let elements ← changeLast inside elements
      return { t with entries := t.entries.put name (.tables elements) }
    | some _ => none

/-- Adds an entry below a table. A key of one name adds to a table that no dotted key made, and a
longer one to a table that dotted keys made. -/
def addEntry (path : List String) (key : String) (item : Item) (t : Table) : Option Table :=
  let add := fun (t : Table) =>
    if t.dotted = path.isEmpty then none
    else (t.entries.add? key item).map fun entries => { t with entries }
  within true add path t

/-- Defines the table of a header, unless it is defined already. -/
def defineTable (key : String) (t : Table) : Option Table :=
  match t.entries.find? key with
  | none => some { t with entries := t.entries.put key Table.defined.item }
  | some (.table true false entries) =>
    some { t with entries := t.entries.put key (.table false false entries) }
  | some _ => none

/-- Adds one more table under the name of a double header. -/
def appendTable (key : String) (t : Table) : Option Table :=
  match t.entries.find? key with
  | none => some { t with entries := t.entries.put key (.tables [[]]) }
  | some (.tables elements) =>
    some { t with entries := t.entries.put key (.tables (elements ++ [[]])) }
  | some _ => none

/-- A document that was read in part: the root table, and the path of the table that takes the next
entries. -/
structure Progress where
  root : Table
  here : List String

/-- Reads a header of single or double brackets, after which nothing else stands on the line. -/
def header (cs : List Char) (p : Progress) : Option (Progress × List Char) := do
  let (double, rest) ← match cs with
    | '[' :: '[' :: rest => some (true, rest)
    | '[' :: rest => some (false, rest)
    | _ => none
  let ((path, key), rest) ← keyPath rest
  let rest ← expect ']' rest
  let rest ← if double then expect ']' rest else some rest
  let rest ← lineRest rest
  let change := if double then appendTable key else defineTable key
  let root ← within false change path p.root
  return (⟨root, path ++ [key]⟩, rest)

/-- Reads an entry, after which nothing else stands on the line. -/
def entry (cs : List Char) (p : Progress) : Option (Progress × List Char) := do
  let (((path, key), x), rest) ← pairOf value cs
  let rest ← lineRest rest
  let root ← within false (addEntry path key x) p.here p.root
  return (⟨root, p.here⟩, rest)

/-- Reads the lines of a document. Each round takes at least one character. -/
def lines : Nat → List Char → Progress → Option Progress
  | 0, _, _ => none
  | rounds + 1, cs, p =>
    match blanks cs with
    | [] => some p
    | c :: rest =>
      if c = '#' then (lineEnd (comment (c :: rest))).bind fun next => lines rounds next p
      else if c = '\n' ∨ c = '\r' then (newline (c :: rest)).bind fun next => lines rounds next p
      else if c = '[' then (header (c :: rest) p).bind fun (p, next) => lines rounds next p
      else (entry (c :: rest) p).bind fun (p, next) => lines rounds next p

/-- Drops the mark that some editors write at the start of a file. -/
def dropMark : List Char → List Char
  | '\ufeff' :: rest => rest
  | cs => cs

/-- The entries of the root table of a document. -/
def parse? (text : String) : Option Entries :=
  let cs := dropMark text.toList
  (lines (cs.length + 1) cs ⟨Table.defined, []⟩).map fun p => p.root.entries

end DebugBridge.Toml
