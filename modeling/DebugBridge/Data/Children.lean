import DebugBridge.Data.Heap
import DebugBridge.Data.NameOrder

/-!
# Children of values

The children of an object are enumerated by its layout, once, and listed in the order of their
names. Children of a declared type belong to the slots of the object, items of a collection are
bindings. Scalars, strings and null have no children.

## Main definitions

* `childrenOf`: the children of a value;
* `hasChildren`: whether it may have any;
* `giveChildren`: children provided by the interpreter;
* `moveValue`: gives a value and all children enumerated so far another parent.
-/

namespace DebugBridge

/-- Lists variables in the order of child names. -/
def inNameOrder (xs : List VariableId) : HeapM (List VariableId) := do
  let heap ← get
  return sortByName (fun x => (heap.bindings.get x).name) xs

/-- The variable of one slot of an object. What the object does not report counts as null. -/
def slotVariable (owner : Nat) (slot : Slot) (origin : Origin) (parent : Parent) :
    HeapM VariableId := do
  let content := ((← get).objects.get owner).read slot
  newVariable slot.text origin (content.getD .null) parent

/-- The children of an object, in the order of its layout. -/
def enumerateObject (owner : Nat) (parent : Parent) : HeapM (List VariableId) := do
  match ((← get).objects.get owner).layout with
  | .array element length =>
    (List.range length).mapM fun i =>
      slotVariable owner (.element i) (.element owner i element) parent
  | .collection items =>
    items.zipIdx.mapM fun (item, i) =>
      newVariable (Slot.element i).text (.binding none) item parent
  | .record fields =>
    (fields.filter fun info => !info.isStatic).mapM fun info =>
      slotVariable owner (.field info.name) (.field owner info) parent
  | .closed => return []

/-- The children of a slot's content, in the order of their names. -/
def enumerateChildren (raw : Datum) (parent : Parent) : HeapM (List VariableId) := do
  match raw with
  | .object owner => inNameOrder (← enumerateObject owner parent)
  | _ => return []

/-- The children of a value, enumerated if that has not happened yet. -/
def childrenOf (v : ValueId) : HeapM (List VariableId) := do
  let value := (← get).values.get v
  match value.children with
  | some children => return children
  | none =>
    let children ← enumerateChildren value.raw value.parent
    modifyValue v fun value => { value with children := some children }
    return children

/-- Whether a value may have children. An object that was not enumerated yet is taken to have
some. -/
def hasChildren (v : ValueId) : HeapM Bool := do
  let value := (← get).values.get v
  match value.raw, value.children with
  | .object _, none => return true
  | .object _, some _ => return !(← childrenOf v).isEmpty
  | _, _ => return false

/-- Gives a value the children that the interpreter provides. -/
def giveChildren (v : ValueId) (xs : List VariableId) : HeapM Unit := do
  let children ← inNameOrder xs
  modifyValue v fun value => { value with children := some children }

/-- Gives a variable another parent, and with it its value and the children of that which were
enumerated or given, down to a depth. -/
def moveVariableTo (parent : Parent) : Nat → VariableId → HeapM Unit
  | 0, x => do
    modifyVariable x fun binding => { binding with parent }
    let v := ((← get).bindings.get x).value
    modifyValue v fun value => { value with parent }
  | depth + 1, x => do
    modifyVariable x fun binding => { binding with parent }
    let v := ((← get).bindings.get x).value
    modifyValue v fun value => { value with parent }
    let children := ((← get).values.get v).children.getD []
    children.forM (moveVariableTo parent depth)

/-- Gives a variable another parent. No chain of children is longer than the number of values. -/
def moveVariable (x : VariableId) (parent : Parent) : HeapM Unit := do
  moveVariableTo parent (← get).values.size x

/-- Gives a value another parent, and with it the children that were enumerated or given. -/
def moveValue (v : ValueId) (parent : Parent) : HeapM Unit := do
  modifyValue v fun value => { value with parent }
  let children := ((← get).values.get v).children.getD []
  children.forM fun x => moveVariable x parent

end DebugBridge
