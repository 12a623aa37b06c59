import DebugBridge.Text.Quoted

/-!
# Resources

A resource is a file of the workspace, named by a path with `/` between its components. Two paths
name the same resource when they have the same components: repeated separators, a separator at the
end and a component `.` after the start do not count.

## Main definitions

* `Resource`: a path;
* `Resource.components`, `Resource.same`;
* `Resource.fileName`: the title of a script that the resource holds.
-/

namespace DebugBridge

/-- A path. -/
structure Resource where
  path : String
deriving DecidableEq, Repr

/-- A component of a path. -/
inductive Component where
  /-- The separator a path from the top starts with. -/
  | top
  /-- A leading `.`. -/
  | here
  /-- A `..`. -/
  | up
  | named (name : String)
deriving DecidableEq, Repr

/-- The component that a piece between separators stands for, if it counts. -/
def Component.ofPiece? (piece : String) : Option Component :=
  if piece = "" ∨ piece = "." then none
  else if piece = ".." then some .up
  else some (.named piece)

/-- Splits at each separator. -/
def splitPieces (cs : List Char) : List (List Char) :=
  match cs with
  | [] => [[]]
  | c :: rest =>
    if c = '/' then [] :: splitPieces rest
    else
      match splitPieces rest with
      | piece :: pieces => (c :: piece) :: pieces
      | [] => [[c]]

/-- The components of a path. -/
def Resource.components (r : Resource) : List Component :=
  let pieces := (splitPieces r.path.toList).map String.ofList
  let start := match pieces with
    | "" :: _ :: _ => [Component.top]
    | "." :: _ => [Component.here]
    | _ => []
  start ++ pieces.filterMap Component.ofPiece?

/-- Whether two paths name the same resource. -/
def Resource.same (r s : Resource) : Bool :=
  r.components == s.components

/-- The last component if it is a name, and the whole path otherwise. -/
def Resource.fileName (r : Resource) : String :=
  match r.components.getLast? with
  | some (.named name) => name
  | _ => r.path

end DebugBridge
