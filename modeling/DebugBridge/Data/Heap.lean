import DebugBridge.Arena
import DebugBridge.Data.DisplayTable
import DebugBridge.Data.HostObject
import DebugBridge.Data.Parent

/-!
# Variables and values

A variable is a named place with a current value. A value wraps the content of a slot; its children
are variables of their own, enumerated when first asked for and then kept. The heap holds the state
of all variables, values and objects, and the display ids of each session.

## Main definitions

* `Value`, `Variable`, `Origin`;
* `Heap`, and `HeapM`, the operations on it;
* `newValue`, `newVariable`: fresh ones;
* `valueText`: what a front end shows for a value.
-/

namespace DebugBridge

/-- The number of a value. -/
abbrev ValueId := Nat

/-- The number of a variable. -/
abbrev VariableId := Nat

/-- The state of a value. -/
structure Value where
  parent : Parent
  raw : Datum
  /-- The children, once they were enumerated or given. -/
  children : Option (List VariableId)
  /-- The text the interpreter gave for display. -/
  rendered : Option String
deriving DecidableEq

instance : Inhabited Value := ⟨⟨.detached, .null, none, none⟩⟩

/-- Where the content of a variable is stored. -/
inductive Origin where
  /-- A binding of the interpreter, with the type it was declared with. -/
  | binding (declared : Option String)
  /-- A field of an object. -/
  | field (owner : Nat) (info : FieldInfo)
  /-- An element of an array. -/
  | element (owner : Nat) (index : Nat) (type : SlotType)
deriving DecidableEq

/-- The name of the kind of an origin. -/
def Origin.kindName : Origin → String
  | .binding _ => "native-binding"
  | .field _ _ => "reflected-field"
  | .element _ _ _ => "reflected-array-element"

/-- The state of a variable. -/
structure Variable where
  name : String
  origin : Origin
  parent : Parent
  value : ValueId
  /-- Whether the last replacement of the value changed what is shown. -/
  changed : Bool
deriving DecidableEq

instance : Inhabited Variable := ⟨⟨"", .binding none, .detached, 0, false⟩⟩

/-- The state of all variables, values and objects. -/
structure Heap where
  /-- How many strings were made. -/
  texts : Nat
  objects : Arena HostObject
  values : Arena Value
  bindings : Arena Variable
  /-- The display ids of each session. -/
  displays : Arena DisplayTable

instance : EmptyCollection Heap := ⟨⟨0, ∅, ∅, ∅, ∅⟩⟩

instance : Inhabited Heap := ⟨∅⟩

/-- Operations on the heap. -/
abbrev HeapM := StateM Heap

/-! ### Making things -/

/-- A new string. -/
def newText (content : String) : HeapM Datum :=
  modifyGet fun heap => (.text heap.texts content, { heap with texts := heap.texts + 1 })

/-- A new object. -/
def newObject (object : HostObject) : HeapM Datum :=
  modifyGet fun heap =>
    (.object heap.objects.size, { heap with objects := heap.objects.push object })

/-- The content that a draft stands for. -/
def realize : Draft → HeapM Datum
  | .settled datum => return datum
  | .text content => newText content

/-- A new value. -/
def newValue (parent : Parent) (raw : Datum) : HeapM ValueId :=
  modifyGet fun heap =>
    (heap.values.size, { heap with values := heap.values.push ⟨parent, raw, none, none⟩ })

/-- A new variable with a new value, both with one parent. -/
def newVariable (name : String) (origin : Origin) (raw : Datum) (parent : Parent) :
    HeapM VariableId := do
  let value ← newValue parent raw
  let binding : Variable := ⟨name, origin, parent, value, false⟩
  modifyGet fun heap =>
    (heap.bindings.size, { heap with bindings := heap.bindings.push binding })

/-! ### Changing things -/

/-- Changes the state of a value. -/
def modifyValue (v : ValueId) (f : Value → Value) : HeapM Unit :=
  modify fun heap => { heap with values := heap.values.modify v f }

/-- Changes the state of a variable. -/
def modifyVariable (x : VariableId) (f : Variable → Variable) : HeapM Unit :=
  modify fun heap => { heap with bindings := heap.bindings.modify x f }

/-- Gives a value a text for display. -/
def setRendered (v : ValueId) (text : String) : HeapM Unit :=
  modifyValue v fun value => { value with rendered := some text }

/-- Replaces the content of a value. What was enumerated or rendered for the old one is dropped. -/
def replaceContent (v : ValueId) (raw : Datum) : HeapM Unit :=
  modifyValue v fun value => { value with raw, children := none, rendered := none }

/-! ### Showing values -/

/-- The name of the type of a slot's content. -/
def Heap.datumType (heap : Heap) : Datum → String
  | .null => ""
  | .scalar value => value.type.name
  | .text _ _ => SlotType.text.name
  | .object id => (heap.objects.get id).typeName

/-- The name of the type of a value. -/
def Heap.valueType (heap : Heap) (v : ValueId) : String :=
  heap.datumType (heap.values.get v).raw

/-- The name of the type of a variable: the declared type of its slot, or else that of its value. -/
def Heap.variableType (heap : Heap) (x : VariableId) : String :=
  let binding := heap.bindings.get x
  match binding.origin with
  | .field _ info => info.type.name
  | .element _ _ type => type.name
  | .binding (some declared) => declared
  | .binding none => heap.valueType binding.value

/-- The display id of a string or object in a session, as text. -/
def displayId (session : Option Nat) (datum : Datum) : HeapM String := do
  match session with
  | none => return "<none>"
  | some s =>
    let heap ← get
    let (id, table) := (heap.displays.get s).idOf datum
    set { heap with displays := heap.displays.set s table }
    return (id.map toString).getD ""

/-- The text of a slot's content, with display ids of a session. -/
def datumText (session : Option Nat) (datum : Datum) : HeapM String := do
  match datum with
  | .null => return "null"
  | .scalar value => return value.text
  | .text _ content => return "\"" ++ content ++ "\" (id=" ++ (← displayId session datum) ++ ")"
  | .object id =>
    let heading := ((← get).objects.get id).heading
    return heading ++ " (id=" ++ (← displayId session datum) ++ ")"

/-- The text of a value: the rendered one, or that of its content. The session is the one that the
parent reaches. -/
def valueText (reach : Parent → Option Nat) (v : ValueId) : HeapM String := do
  let value := (← get).values.get v
  match value.rendered with
  | some text => return text
  | none => datumText (reach value.parent) value.raw

/-- The text of a variable: its name and its value. -/
def variableText (reach : Parent → Option Nat) (x : VariableId) : HeapM String := do
  let binding := (← get).bindings.get x
  return binding.name ++ ":" ++ (← valueText reach binding.value)

end DebugBridge
