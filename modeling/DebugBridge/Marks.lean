import DebugBridge.Arena
import DebugBridge.Script

/-!
# Lines and enabled flags

Two facts change while the things they belong to stay what they are: the line at which an activation
stands, and whether a breakpoint is enabled. They are marked here by the numbers of activations and
breakpoints; everybody who shows one of them sees the present mark.

## Main definitions

* `Breakpoint`: a line of a resource at which the user wants to stop;
* `Marks`: the present lines and flags;
* `Marks.activationText`, `Marks.breakpointText`.
-/

namespace DebugBridge

/-- A breakpoint of the user. -/
structure Breakpoint where
  id : Nat
  resource : Resource
  line : Nat
deriving DecidableEq, Repr

/-- The present lines of activations and the breakpoints that are switched off. -/
structure Marks where
  lines : Arena Nat
  disabled : Arena Bool

instance : EmptyCollection Marks := ⟨⟨∅, ∅⟩⟩

namespace Marks

/-- The line at which an activation stands. -/
def lineOf (m : Marks) (a : Activation) : Nat :=
  m.lines.get a.id

/-- Moves an activation to a line. -/
def moveTo (m : Marks) (a : Activation) (line : Nat) : Marks :=
  { m with lines := m.lines.set a.id line }

/-- Whether a breakpoint is enabled. -/
def isEnabled (m : Marks) (b : Breakpoint) : Bool :=
  !m.disabled.get b.id

/-- Switches a breakpoint on or off. -/
def enable (m : Marks) (b : Breakpoint) (enabled : Bool) : Marks :=
  { m with disabled := m.disabled.set b.id !enabled }

/-- An activation that is moved stands at its new line, and all others stay. -/
theorem lineOf_moveTo (m : Marks) (a b : Activation) (line : Nat) :
    (m.moveTo a line).lineOf b = if a.id = b.id then line else m.lineOf b :=
  Arena.get_set m.lines a.id b.id line

/-- A switch changes its own breakpoint and no other. -/
theorem isEnabled_enable (m : Marks) (b c : Breakpoint) (enabled : Bool) :
    (m.enable b enabled).isEnabled c = if b.id = c.id then enabled else m.isEnabled c := by
  simp only [isEnabled, enable, Arena.get_set]
  split <;> simp

/-- The text of an activation: the title of its script, its line and its name. -/
def activationText (m : Marks) (a : Activation) : String :=
  a.script.title ++ ":" ++ toString (m.lineOf a) ++ " (" ++ a.name ++ ")"

/-- The texts of a stack, between brackets. -/
def stackText (m : Marks) (stack : List Activation) : String :=
  "[" ++ ", ".intercalate (stack.map m.activationText) ++ "]"

/-- The text of a breakpoint: its resource and line, and whether it is disabled. -/
def breakpointText (m : Marks) (b : Breakpoint) : String :=
  b.resource.path ++ ":" ++ toString b.line ++ if m.isEnabled b then "" else " (disabled)"

end Marks

end DebugBridge
