import DebugBridge.Resource

/-!
# Scripts, thread handles and activations

What the interpreter tells apart by identity. Two scripts with one title are different scripts, a
handle stands for exactly one interpreter thread, and an activation is one call of a function or one
run of a script's top level code. The line at which an activation stands moves while it executes, so
it is kept beside the activation, in `Marks`.

## Main definitions

* `Script`, `Handle`, `Activation`: the identities, each with a number of its own;
* `Registry`: the scripts that were reported ready, by resource.
-/

namespace DebugBridge

/-- A unit of code that the interpreter executes. -/
structure Script where
  id : Nat
  title : String
  /-- The workspace file with the source, if there is one. -/
  resource : Option Resource
  /-- Whether the code was generated and is no user code. -/
  dynamic : Bool
deriving DecidableEq, Repr

/-- A script of the workspace file at a path, titled by the name of the file. -/
def Script.ofFile (id : Nat) (path : String) : Script :=
  ⟨id, (Resource.mk path).fileName, some ⟨path⟩, false⟩

/-- Generated code: wrappers and injected text. -/
def Script.generated (id : Nat) (title : String) : Script :=
  ⟨id, title, none, true⟩

/-- User code without a file. -/
def Script.snippet (id : Nat) (title : String) : Script :=
  ⟨id, title, none, false⟩

/-- A description of all fields. -/
def Script.describe (s : Script) : String :=
  let resource := match s.resource with
    | some r => "Some(" ++ Text.quoted r.path ++ ")"
    | none => "None"
  let dynamic := if s.dynamic then "true" else "false"
  "Script \x7b title: " ++ Text.quoted s.title ++ ", resource: " ++ resource ++ ", dynamic: "
    ++ dynamic ++ " \x7d"

/-- The handle of an interpreter thread. -/
structure Handle where
  id : Nat
  name : String
deriving DecidableEq, Repr

/-- What an activation executes. -/
inductive ActivationKind where
  /-- The top level code of a script. -/
  | file
  /-- A function. -/
  | function
deriving DecidableEq, Repr

/-- The name of a kind. -/
def ActivationKind.name : ActivationKind → String
  | .file => "file"
  | .function => "function"

/-- One call that is on the stack of an interpreter thread. -/
structure Activation where
  id : Nat
  script : Script
  kind : ActivationKind
  /-- The name of the function. -/
  label : Option String
deriving DecidableEq, Repr

/-- The name of an activation, the title of its script if it has no name of its own. -/
def Activation.name (a : Activation) : String :=
  a.label.getD a.script.title

/-! ### Ready scripts -/

/-- The scripts that were reported ready, one for each resource. -/
structure Registry where
  entries : List (Resource × Script)
deriving DecidableEq, Repr

/-- No script at all. -/
def Registry.empty : Registry := ⟨[]⟩

/-- The script of a resource. -/
def Registry.find? (r : Registry) (resource : Resource) : Option Script :=
  (r.entries.find? fun e => e.1.same resource).map (·.2)

/-- Records a script that is ready. It replaces the one its resource had before; a script without a
resource is no target of breakpoints and is left out. -/
def Registry.insert (r : Registry) (script : Script) : Registry :=
  match script.resource with
  | none => r
  | some resource => ⟨(resource, script) :: r.entries.filter fun e => !e.1.same resource⟩

end DebugBridge
