import DebugBridge.Data.Children

/-!
# Replacing what a variable holds

A variable takes a new value when the interpreter reports one; it counts as changed if the new value
shows another text than the old one. A slot of an object is also written directly, from an
expression that is converted to the declared type of the slot. A conversion or a slot that refuses
leaves everything as it was.

## Main definitions

* `replaceValue`: a new value for a variable;
* `isAssignable`, `accepts`: what may be written;
* `assignSlot`: writes a slot and shows the new content.
-/

namespace DebugBridge

/-- Gives a variable a new value, which moves to the parent of the variable. The text of the old
value is taken before that of the new one. -/
def replaceValue (reach : Parent → Option Nat) (x : VariableId) (v : ValueId) : HeapM Unit := do
  let before := (← get).bindings.get x
  moveValue v before.parent
  let old ← valueText reach before.value
  let new ← valueText reach v
  modifyVariable x fun binding => { binding with value := v, changed := old != new }

/-- Whether the origin of a variable can be written. -/
def Origin.isAssignable : Origin → Bool
  | .binding _ => true
  | .field _ info => info.type.isSimple && !info.isFinal
  | .element _ _ type => type.isSimple

/-- The object, the place in it and the declared type of a variable that is a slot. -/
def Origin.slot? : Origin → Option (Nat × Slot × SlotType)
  | .binding _ => none
  | .field owner info => some (owner, .field info.name, info.type)
  | .element owner index type => some (owner, .element index, type)

/-- Whether an expression can be assigned to a variable. A binding takes any: its interpreter
decides. -/
def Origin.accepts (origin : Origin) (expression : String) : Bool :=
  match origin.slot? with
  | none => true
  | some (_, _, type) => origin.isAssignable && (type.convert expression).isOk

/-- Writes a slot of an object, if the object lets it be written. -/
def writeSlot (owner : Nat) (slot : Slot) (content : Datum) : HeapM (Except Failure Unit) := do
  let heap ← get
  match (heap.objects.get owner).write slot content with
  | .error failure => return .error failure
  | .ok object =>
    set { heap with objects := heap.objects.set owner object }
    return .ok ()

/-- Assigns an expression to a variable that is a slot of an object. -/
def assignSlot (x : VariableId) (owner : Nat) (slot : Slot) (type : SlotType)
    (expression : String) : HeapM (Except Failure Unit) := do
  let before ← get
  let binding := before.bindings.get x
  if !binding.origin.isAssignable then return .error (.unsupportedTarget binding.name)
  match type.convert expression with
  | .error failure => return .error failure
  | .ok draft =>
    let content ← realize draft
    match ← writeSlot owner slot content with
    | .error failure =>
      set before
      return .error failure
    | .ok () =>
      replaceContent binding.value content
      return .ok ()

end DebugBridge
