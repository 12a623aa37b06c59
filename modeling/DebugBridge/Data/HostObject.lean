import DebugBridge.Data.SlotType

/-!
# Host objects

Objects of the interpreter that can be looked into. A layout says how the children of an object are
enumerated; single slots are read and written by index or by name.

## Main definitions

* `Slot`, `FieldInfo`, `Layout`: the shape of objects;
* `Record`: named fields in the order of their declaration;
* `HostObject`, with `HostObject.read` and `HostObject.write`.
-/

namespace DebugBridge

/-- A place inside an object. -/
inductive Slot where
  | element (index : Nat)
  | field (name : String)
deriving DecidableEq, Repr

/-- The text of a place: an index between brackets, or a name. -/
def Slot.text : Slot → String
  | .element index => "[" ++ toString index ++ "]"
  | .field name => name

/-- Who may use a field. -/
inductive Visibility where
  | isPublic | isProtected | isPrivate | isPackage
deriving DecidableEq, Repr

/-- The name of a visibility. -/
def Visibility.name : Visibility → String
  | .isPublic => "public"
  | .isProtected => "protected"
  | .isPrivate => "private"
  | .isPackage => "package"

/-- All of them, the most open first. -/
def Visibility.all : List Visibility :=
  [.isPublic, .isProtected, .isPrivate, .isPackage]

/-- The declaration of a field. -/
structure FieldInfo where
  name : String
  type : SlotType
  visibility : Visibility
  isStatic : Bool
  isFinal : Bool
deriving DecidableEq, Repr

/-- Who may use a field and whether it is static or final, in words. -/
def FieldInfo.access (info : FieldInfo) : String :=
  info.visibility.name ++ (if info.isStatic then " static" else "")
    ++ if info.isFinal then " final" else ""

/-- How the children of an object are enumerated. -/
inductive Layout where
  /-- Indexed elements of one declared type. -/
  | array (element : SlotType) (length : Nat)
  /-- Ordered items without a declared type. -/
  | collection (items : List Datum)
  /-- Named fields. -/
  | record (fields : List FieldInfo)
  /-- Nothing to look at. -/
  | closed
deriving DecidableEq

/-! ### Records -/

/-- A declared field and what it holds. -/
structure Field where
  info : FieldInfo
  content : Datum
deriving DecidableEq

/-- Fields in the order in which their names were first declared. -/
abbrev Record := List Field

namespace Record

/-- The field of a name. -/
def find? (fields : Record) (name : String) : Option Field :=
  List.find? (fun f => f.info.name == name) fields

/-- Declares a field. A name that was declared before keeps its place and takes the new
declaration and content. -/
def declare (fields : Record) (field : Field) : Record :=
  match fields with
  | [] => [field]
  | f :: rest =>
    if f.info.name = field.info.name then field :: rest else f :: declare rest field

/-- Adds the fields of a base record whose names are not taken. -/
def inherit (fields base : Record) : Record :=
  base.foldl (fun fs f => if (find? fs f.info.name).isSome then fs else fs ++ [f]) fields

/-- Replaces the content of a field, unless it is final or not declared. -/
def assign? (fields : Record) (name : String) (content : Datum) : Option Record :=
  match fields with
  | [] => none
  | f :: rest =>
    if f.info.name = name then
      if f.info.isFinal then none else some ({ f with content } :: rest)
    else (assign? rest name content).map (f :: ·)

end Record

/-! ### Objects -/

/-- An object that can be looked into. -/
inductive HostObject where
  /-- A fixed number of elements of one declared type. -/
  | array (element : SlotType) (items : Array Datum)
  /-- A list that may grow, like those of the interpreter's own library. -/
  | list (typeName : String) (items : Array Datum)
  | record (typeName : String) (fields : Record)
  /-- An object that reports a layout and lets no slot be read or written. -/
  | hollow (typeName : String) (layout : Layout)
deriving DecidableEq

instance : Inhabited HostObject := ⟨.hollow "" .closed⟩

namespace HostObject

/-- The name of the type of an object. -/
def typeName : HostObject → String
  | .array element _ => element.name ++ "[]"
  | .list name _ => name
  | .record name _ => name
  | .hollow name _ => name

/-- How the children of an object are enumerated. -/
def layout : HostObject → Layout
  | .array element items => .array element items.size
  | .list _ items => .collection items.toList
  | .record _ fields => .record (fields.map (·.info))
  | .hollow _ layout => layout

/-- The content of a slot, if the object has the slot. -/
def read : HostObject → Slot → Option Datum
  | .array _ items, .element index => items[index]?
  | .list _ items, .element index => items[index]?
  | .record _ fields, .field name => (Record.find? fields name).map (·.content)
  | _, _ => none

/-- Replaces the content of a slot. Lists and hollow objects are not written through slots. -/
def write (object : HostObject) (slot : Slot) (content : Datum) : Except Failure HostObject :=
  let refused : Except Failure HostObject := .error (.unsupportedTarget slot.text)
  match object, slot with
  | .array element items, .element index =>
    if index < items.size then .ok (.array element (items.setIfInBounds index content)) else refused
  | .record name fields, .field key =>
    match Record.assign? fields key content with
    | some fields => .ok (.record name fields)
    | none => refused
  | _, _ => refused

/-- Appends an item to a list. -/
def append : HostObject → Datum → HostObject
  | .list name items, item => .list name (items.push item)
  | object, _ => object

/-- The kind and size of an object in brackets for arrays, and the name of its type otherwise. -/
def heading (object : HostObject) : String :=
  match object.layout with
  | .array element length => element.name ++ "[" ++ toString length ++ "]"
  | _ => object.typeName

end HostObject

end DebugBridge
