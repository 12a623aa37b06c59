import DebugBridge.Tree.Notify

/-!
# Variables of frames

The variables of a frame are asked for when somebody looks at them and the frame is dirty; until the
answer comes the old ones are shown. Reported variables are merged by name: a known variable stays
and takes the reported value, so that it can tell whether it changed.

## Main definitions

* `frameVariables`: the variables, asked for if need be;
* `setDirty`: forgets that they are up to date;
* `setVariables`: takes the reported ones in.
-/

namespace DebugBridge

namespace World

/-- What the session of a frame knows of it. -/
def frame (w : World) (f : FrameRef) : FrameState :=
  (w.session f.session).frames.get f.index

/-- Changes what the session of a frame knows of it. -/
def modifyFrame (w : World) (f : FrameRef) (change : FrameState → FrameState) : World :=
  w.modifySession f.session fun session =>
    { session with frames := session.frames.modify f.index change }

end World

/-- Tells the front end that something about a frame changed. -/
def frameChanged (f : FrameRef) (detail : ChangeDetail) : Act Unit :=
  notify f.session (.changed (.frame f) detail)

/-- Has the variables of a frame asked for again when somebody looks at them. -/
def setDirty (f : FrameRef) : Act Unit := do
  change fun w => w.modifyFrame f fun state => { state with dirty := true }
  frameChanged f .content

/-- The variables of a frame. If they may be out of date, new ones are requested, which come with a
change of the content of the frame. -/
def frameVariables (f : FrameRef) : Act (List VariableId) := do
  let state := (← get).frame f
  if state.dirty then post f.session (.getVariables f)
  return state.known

/-- Takes one reported variable in: a known one of that name takes its value, and otherwise it comes
to belong to the frame itself. -/
def mergeVariable (reach : Parent → Option Nat) (f : FrameRef) (known : List VariableId)
    (reported : VariableId) : HeapM VariableId := do
  let heap ← get
  let binding := heap.bindings.get reported
  match known.find? fun x => (heap.bindings.get x).name == binding.name with
  | some x =>
    replaceValue reach x binding.value
    return x
  | none =>
    moveVariable reported (.frame f)
    return reported

/-- Takes reported variables in, in the order of their names. -/
def mergeVariables (reach : Parent → Option Nat) (f : FrameRef)
    (known reported : List VariableId) : HeapM (List VariableId) := do
  let merged ← reported.mapM (mergeVariable reach f known)
  let heap ← get
  let name := fun x => (heap.bindings.get x).name
  return sortBy (fun x y => compare (name x) (name y) == .lt) merged

/-- Takes in the variables that the interpreter reported for a frame. -/
def setVariables (f : FrameRef) (reported : List VariableId) : Act Unit := do
  let w ← get
  let merged ← onHeap (mergeVariables w.reach f (w.frame f).known reported)
  change fun w => w.modifyFrame f fun _ => ⟨merged, false⟩
  frameChanged f .content

end DebugBridge
