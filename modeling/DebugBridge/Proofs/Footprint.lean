import DebugBridge.Proofs.Operation
import DebugBridge.Proofs.Views
import DebugBridge.Tree.Frame

/-!
# What a step leaves behind

Most steps leave no more behind than lines in the log, notifications of small changes, and frames
whose variables have to be asked for again. What bindings show stays. Few steps do more: a session
ends, a listener gets the result of a watch expression, or a frame gets the variables that were
reported for it.

## Main definitions

* `FrameState.Ages`: what is known of a frame goes out of date, if anything;
* `Note.IsPlain`: a notification that ends no session and is no result;
* `World.Lasts`: a step in which what bindings show and what is known of frames lasts;
* `World.Mild`: a step that leaves no more behind than plain notifications.
-/

namespace DebugBridge

/-- What is known of a frame stays, goes out of date or is forgotten. -/
def FrameState.Ages (x x' : FrameState) : Prop :=
  x'.known = x.known ∧ (x.dirty = true → x'.dirty = true) ∨ x' = default

namespace FrameState

variable {x y z : FrameState}

/-- What is known of a frame stays as it is where nothing happens. -/
theorem Ages.refl (x : FrameState) : x.Ages x :=
  .inl ⟨rfl, id⟩

/-- What is known of a frame ages by one step after another. -/
theorem Ages.trans (h : x.Ages y) (h' : y.Ages z) : x.Ages z := by
  obtain ⟨hknown', hdirty'⟩ | rfl := h'
  · obtain ⟨hknown, hdirty⟩ | rfl := h
    · exact .inl ⟨hknown'.trans hknown, fun hx => hdirty' (hdirty hx)⟩
    · obtain ⟨known, dirty⟩ := z
      obtain rfl : known = [] := hknown'
      obtain rfl : dirty = true := hdirty' rfl
      exact .inr rfl
  · exact .inr rfl

/-- What is not out of date is as it was. -/
theorem Ages.eq_of_clean (h : x.Ages y) (hy : y.dirty = false) : y = x := by
  obtain ⟨hknown, hdirty⟩ | rfl := h
  · obtain ⟨known, dirty⟩ := x
    obtain ⟨known', dirty'⟩ := y
    obtain rfl : known' = known := hknown
    obtain rfl : dirty' = false := hy
    cases dirty with
    | false => rfl
    | true => cases hdirty rfl
  · cases hy

end FrameState

/-- A notification that ends no session and is no result of a watch expression. -/
def Note.IsPlain : Note → Prop
  | .model _ notice _ => notice ≠ .terminated .target
  | .breakpoint _ _ _ => True
  | .watch _ _ _ => False

namespace World

/-- A step in which no session is lost, what bindings show stays, and what is known of frames goes
out of date, if anything. -/
structure Lasts (w w' : World) : Prop where
  size : w.sessions.size ≤ w'.sessions.size
  heap : w.heap.Keeps w'.heap
  frames : ∀ s k, ((w.session s).frames.get k).Ages ((w'.session s).frames.get k)
  room : ∀ s, (w.session s).frames.size ≤ (w'.session s).frames.size

/-- A lasting step follows from lasting steps, one after the other. -/
theorem steady_lasts : Steady Lasts where
  refl _ := ⟨Nat.le_refl _, .refl _, fun _ _ => .refl _, fun _ => Nat.le_refl _⟩
  trans h h' :=
    ⟨Nat.le_trans h.size h'.size, h.heap.trans h'.heap,
      fun s k => (h.frames s k).trans (h'.frames s k), fun s => Nat.le_trans (h.room s) (h'.room s)⟩

/-- What changes no session and no value lasts. -/
theorem Lasts.beside {w w' : World} (hs : w'.sessions = w.sessions) (hh : w'.heap = w.heap) :
    Lasts w w' := by
  have hsession : ∀ s, w'.session s = w.session s := fun s => by rw [session, session, hs]
  refine ⟨Nat.le_of_eq (by rw [hs]), .of_eq (by rw [hh]) (by rw [hh]), fun s k => ?_, fun s => ?_⟩
  · rw [hsession]
    exact .refl _
  · exact Nat.le_of_eq (by rw [hsession])

/-- A session may change in all but what it knows of frames. -/
theorem lasts_modifySession (w : World) (s : Nat) (f : Session → Session)
    (hf : (f (w.session s)).frames = (w.session s).frames) : Lasts w (w.modifySession s f) := by
  have hframes : ∀ t, ((w.modifySession s f).session t).frames = (w.session t).frames := by
    intro t
    rw [session_modifySession]
    split
    · next h => rw [hf, h]
    · rfl
  refine ⟨Arena.size_le_modify _ _ _, .refl _, fun t k => ?_, fun t => ?_⟩
  · rw [hframes]
    exact .refl _
  · exact Nat.le_of_eq (by rw [hframes])

/-- A step that leaves no more behind than plain notifications and frames that are out of date. -/
structure Mild (w w' : World) : Prop extends Lasts w w' where
  notes : ∃ ns : List Note, w'.journal.notes.toList = w.journal.notes.toList ++ ns
    ∧ ∀ n ∈ ns, n.IsPlain

/-- What lasts and notifies nobody is mild. -/
theorem Lasts.mild {w w' : World} (h : Lasts w w') (hn : w'.journal.notes = w.journal.notes) :
    Mild w w' :=
  { h with notes := ⟨[], by rw [hn, List.append_nil], List.forall_mem_nil _⟩ }

/-- A mild step follows from mild steps, one after the other. -/
theorem steady_mild : Steady Mild where
  refl w := (steady_lasts.refl w).mild rfl
  trans h h' := by
    obtain ⟨ns, hns, hplain⟩ := h.notes
    obtain ⟨ns', hns', hplain'⟩ := h'.notes
    refine ⟨steady_lasts.trans h.toLasts h'.toLasts, ns ++ ns', ?_, ?_⟩
    · rw [hns', hns, List.append_assoc]
    · intro n hn
      rcases List.mem_append.mp hn with hn | hn
      · exact hplain n hn
      · exact hplain' n hn

/-- What changes no session, no value and notifies nobody leaves nothing behind. -/
theorem Mild.beside {w w' : World} (hs : w'.sessions = w.sessions) (hh : w'.heap = w.heap)
    (hn : w'.journal.notes = w.journal.notes) : Mild w w' :=
  (Lasts.beside hs hh).mild hn

/-- To note something plain is a mild step. -/
theorem mild_note (w : World) {n : Note} (hn : n.IsPlain) : Mild w (w.note n) := by
  have h : Lasts w (w.note n) := .beside rfl rfl
  exact { h with notes := ⟨[n], by simp [note, Journal.note], by simpa using hn⟩ }

/-- What keeps the bindings of the heap is a lasting step of the world. -/
theorem lasts_onHeap {α : Type} (w : World) {op : HeapM α} (h : w.heap.Keeps (op.run w.heap).2) :
    Lasts w (w.onHeap op).2 :=
  ⟨Nat.le_refl _, h, fun _ _ => .refl _, fun _ => Nat.le_refl _⟩

/-- What keeps the bindings of the heap is a mild step of the world. -/
theorem mild_onHeap {α : Type} (w : World) {op : HeapM α} (h : w.heap.Keeps (op.run w.heap).2) :
    Mild w (w.onHeap op).2 :=
  (lasts_onHeap w h).mild rfl

/-- A session may change in all but what it knows of frames. -/
theorem mild_modifySession (w : World) (s : Nat) (f : Session → Session)
    (hf : (f (w.session s)).frames = (w.session s).frames) : Mild w (w.modifySession s f) :=
  (lasts_modifySession w s f hf).mild rfl

/-- What is known of a frame may go out of date. -/
theorem mild_modifyFrame (w : World) (f : FrameRef) (g : FrameState → FrameState)
    (hg : ∀ x : FrameState, x.Ages (g x)) : Mild w (w.modifyFrame f g) := by
  refine Lasts.mild ⟨Arena.size_le_modify _ _ _, .refl _, fun t k => ?_, fun t => ?_⟩ rfl
  · rw [modifyFrame, session_modifySession]
    split
    · next h =>
        subst h
        rw [Arena.get_modify]
        split
        · next hk =>
            subst hk
            exact hg _
        · exact .refl _
    · exact .refl _
  · rw [modifyFrame, session_modifySession]
    split
    · next h =>
        subst h
        exact Arena.size_le_modify _ _ _
    · exact Nat.le_refl _

/-- To change a debugger is a mild step. -/
theorem mild_modifyDebugger (w : World) (s : Nat) (f : Debugger → Debugger) :
    Mild w (w.modifyDebugger s f) :=
  mild_modifySession w s _ rfl

/-- To trace something is a mild step. -/
theorem mild_trace (w : World) (topic text : String) : Mild w (w.trace topic text) :=
  .beside rfl rfl rfl

/-- To send a message is a mild step. -/
theorem mild_send (w : World) (s : Nat) (m : Message) : Mild w (w.send s m) :=
  steady_mild.trans (mild_trace w "dispatcher" ("queue " ++ m.text w.marks))
    (mild_modifySession _ s _ rfl)

/-- To post a request is a mild step. -/
theorem mild_post (w : World) (s : Nat) (r : Request) : Mild w (w.post s r) := by
  unfold post
  split
  · exact steady_mild.refl w
  · split
    · exact mild_send w s _
    · exact mild_trace w _ _

end World

end DebugBridge
