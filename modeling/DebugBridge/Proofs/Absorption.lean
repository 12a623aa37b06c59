import DebugBridge.Proofs.Closing
import DebugBridge.Proofs.Portrait
import DebugBridge.Proofs.Revival

/-!
# Sessions that are over for good

A session ends when it hears that the interpreter has terminated, or when its users disconnect. Both
may come, in any order and several times, and the session may be detached and attached in between. It
ends once, completely, and its front end is told once, even if it fails at that. As long as nobody
attaches the session again, nothing that is tried on it shows: events are not heard, orders and queries
send no request, and changes of breakpoints are not passed on.

## Main definitions

* `Encounter`, `Bridge.meet`: deeds, and what happens to the model of one session beside them;
* `World.Unnoticed`: a step that neither a session nor its front end takes notice of;
* `Encounter.Tries`: what may be tried on a session.

## Main results

* `unnoticed_meet`: what is tried on a session that is over;
* `remains_meet`: what anybody does to a session that is over;
* `finished_meet`: how a session ends;
* `finished_for_good`: it ends once, completely and for good.
-/

namespace DebugBridge

/-- What may happen on a bridge: what somebody does, and what happens to the model of a session beside
that. -/
inductive Encounter (σ : Type) where
  | does (d : Deed σ)
  | befalls (s : Nat) (h : Happening)

namespace Encounter

variable {σ : Type}

/-- A session is attached to a dispatcher. -/
def Attaches (s : Nat) : Encounter σ → Prop
  | .befalls t (.attached _) => t = s
  | _ => False

/-- What may be tried on a session: it is handed an event, or it is ordered something, or its frames
and their variables are looked at, or a breakpoint changes, or it is detached. -/
def Tries (s : Nat) : Encounter σ → Prop
  | .does (.order t _ _) | .does (.orderTarget t _) | .does (.disconnect t)
  | .does (.readFrames t _) => t = s
  | .does (.readVariables f) => f.session = s
  | .does (.addBreakpoint _ _) | .does (.removeBreakpoint _ _)
  | .does (.enableBreakpoint _ _ _) => True
  | .befalls t (.heard _) | .befalls t .disconnected | .befalls t .detached => t = s
  | _ => False

end Encounter

/-! ### What nobody takes notice of -/

namespace World

variable {s : Nat} {u v w w' : World}

/-- A step that neither a session nor its front end takes notice of. -/
structure Unnoticed (s : Nat) (w w' : World) : Prop where
  here : w'.session s = w.session s
  notices : w'.noticesOf s = w.noticesOf s

/-- A step that a session that is over takes no notice of. -/
def Shrugs (s : Nat) (w w' : World) : Prop :=
  IsClosed w s → Unnoticed s w w'

/-- Of nothing nobody takes notice. -/
theorem Unnoticed.refl (s : Nat) (w : World) : Unnoticed s w w :=
  ⟨rfl, rfl⟩

/-- Of two steps nobody takes notice if nobody does of either. -/
theorem Unnoticed.trans (h : Unnoticed s u v) (h' : Unnoticed s v w) : Unnoticed s u w :=
  ⟨h'.here.trans h.here, h'.notices.trans h.notices⟩

/-- A session is closed after a step of which nobody takes notice. -/
theorem Unnoticed.closed (h : Unnoticed s w w') (hc : IsClosed w s) : IsClosed w' s :=
  hc.congr (by rw [h.here]) (by rw [h.here])

/-- Steps of which what is over takes no notice hold of a sequence. -/
theorem steady_shrugs (s : Nat) : Steady (Shrugs s) where
  refl w _ := .refl s w
  trans h h' hc := (h hc).trans (h' ((h hc).closed hc))

/-- Nothing is sent by a session that is not attached. -/
theorem shrugs_post (w : World) (r : Request) : Shrugs s w (w.post s r) := by
  intro hc
  refine ⟨?_, noticesOf_congr (notes_post w s r)⟩
  unfold post
  rw [hc.attached]
  split
  · rfl
  · rw [if_neg Bool.false_ne_true]
    rfl

/-- A change of a breakpoint that is passed on is not noted. -/
theorem notes_routeBreakpoint (w : World) (t : Nat) (p : Breakpoint) (c : BreakpointChange) :
    (w.routeBreakpoint t p c).journal.notes = w.journal.notes := by
  unfold routeBreakpoint
  split
  · rfl
  · split
    · cases c <;> simp only [modesOf, List.foldl_cons, List.foldl_nil, notes_post]
    · rfl

/-- A session that is over passes no change of a breakpoint on, and other subscribers are none of its
business. -/
theorem shrugs_tell (w : World) (p : Breakpoint) (c : BreakpointChange) (who : Subscriber) :
    Shrugs s w (w.tell p c who) := by
  intro hc
  cases who with
  | session t =>
      refine ⟨?_, noticesOf_congr (notes_routeBreakpoint w t p c)⟩
      by_cases hst : t = s
      · subst hst
        rw [tell, routeBreakpoint, if_pos hc.terminated]
      · exact session_tell_of_ne w p c fun h => hst (Subscriber.session.inj h)
  | client l => exact ⟨rfl, (noticesOf_note w _).trans (List.append_nil _)⟩

/-- A session that is over takes no notice of a change of a breakpoint. -/
theorem shrugs_announce (w : World) (m : Nat) (p : Breakpoint) (c : BreakpointChange) :
    Shrugs s w (w.announce m p c) := by
  have hall : ∀ (es : List (Nat × Subscriber)) (w : World), Shrugs s w (w.tellAll p c es) := by
    intro es
    induction es with
    | nil => exact (steady_shrugs s).refl
    | cons e es ih => exact fun w => (steady_shrugs s).trans (shrugs_tell w p c e.2) (ih _)
  have hprune : Shrugs s w (w.prune m) := fun _ => ⟨rfl, rfl⟩
  exact (steady_shrugs s).trans hprune (hall (w.live m) (w.prune m))

/-- A session that is over takes no notice of a new breakpoint. -/
theorem shrugs_addBreakpoint (w : World) (m : Nat) (p : Breakpoint) :
    Shrugs s w (w.addBreakpoint m p) := by
  unfold addBreakpoint
  split
  · exact (steady_shrugs s).refl w
  · have henter : ∀ f, Shrugs s w (w.modifyManager m f) := fun _ _ => ⟨rfl, rfl⟩
    exact (steady_shrugs s).trans (henter _) (shrugs_announce _ m p .added)

/-- A session that is over takes no notice of a breakpoint that is removed. -/
theorem shrugs_removeBreakpoint (w : World) (m : Nat) (p : Breakpoint) :
    Shrugs s w (w.removeBreakpoint m p).2 := by
  unfold removeBreakpoint
  split
  · have hleave : ∀ f, Shrugs s w (w.modifyManager m f) := fun _ _ => ⟨rfl, rfl⟩
    exact (steady_shrugs s).trans (hleave _) (shrugs_announce _ m p .removed)
  · exact (steady_shrugs s).refl w

/-- A session that is over takes no notice of a breakpoint that is enabled or disabled. -/
theorem shrugs_enableBreakpoint (w : World) (m : Nat) (p : Breakpoint) (enabled : Bool) :
    Shrugs s w (w.enableBreakpoint m p enabled) := by
  have hmarks : Shrugs s w { w with marks := w.marks.enable p enabled } := fun _ => ⟨rfl, rfl⟩
  unfold enableBreakpoint
  dsimp only
  split
  · exact (steady_shrugs s).trans hmarks (shrugs_announce _ m p .changed)
  · exact hmarks

end World

open World

section Orders

variable {s : Nat}

/-- A session that is over takes no notice of an order to a thread. -/
theorem shrugs_commandThread (i : Nat) (c : Command) : Keeps (Shrugs s) (commandThread s i c) := by
  have h := steady_shrugs s
  have hpost : ∀ r, Keeps (Shrugs s) (post s r) := fun r => Keeps.change fun w => shrugs_post w r
  cases c with
  | terminate =>
      refine Keeps.bind h (Keeps.get h) fun w => ?_
      split
      · exact Keeps.bind h (hpost _) fun _ => Keeps.pure h _
      · exact Keeps.pure h _
  | _ =>
      exact Keeps.bind h (Keeps.get h) fun w => Keeps.bind h (hpost _) fun _ => Keeps.pure h _

/-- A session that is over takes no notice of an order to all of it. -/
theorem shrugs_commandTarget (c : Command) : Keeps (Shrugs s) (commandTarget s c) := by
  have h := steady_shrugs s
  have hpost : ∀ r, Keeps (Shrugs s) (post s r) := fun r => Keeps.change fun w => shrugs_post w r
  cases c with
  | terminate => exact hpost _
  | _ =>
      refine Keeps.bind h (Keeps.get h) fun w => ?_
      split
      · exact Keeps.bind h (Keeps.get h) fun w => hpost _
      · exact Keeps.pure h _

/-- A session that is over takes no notice of who looks at a stack. -/
theorem shrugs_stackFrames (i : Nat) : Keeps (Shrugs s) (stackFrames s i) := by
  have h := steady_shrugs s
  refine Keeps.bind h (Keeps.get h) fun w => ?_
  dsimp only
  split
  · exact Keeps.bind h (Keeps.change fun w => shrugs_post w _) fun _ => Keeps.pure h _
  · exact Keeps.pure h _

/-- A session that is over takes no notice of who looks at variables. -/
theorem shrugs_frameVariables {f : FrameRef} (hf : f.session = s) :
    Keeps (Shrugs s) (frameVariables f) := by
  have h := steady_shrugs s
  subst hf
  refine Keeps.bind h (Keeps.get h) fun w => ?_
  dsimp only
  split
  · exact Keeps.bind h (Keeps.change fun w => shrugs_post w _) fun _ => Keeps.pure h _
  · exact Keeps.pure h _

/-- A session that is over takes no notice of who disconnects. -/
theorem shrugs_disconnect : Keeps (Shrugs s) (disconnect s) := by
  intro w hc
  obtain ⟨-, hrun⟩ | ⟨hnot, -⟩ := disconnect_cases s w
  · rw [hrun]
    exact .refl s w
  · rw [hc.terminated] at hnot
    cases hnot

/-- What happens to the model of a session that is over does not show, unless it is attached. -/
theorem shrugs_happening {h : Happening} (hh : ∀ box, h ≠ .attached box) (w : World) :
    Shrugs s w (h.after s w) := by
  intro hc
  cases h with
  | heard e =>
      rw [Happening.after, worldAfter, handleEvent_unattached hc.attached]
      exact .refl s w
  | disconnected => exact shrugs_disconnect w hc
  | detached =>
      refine ⟨?_, rfl⟩
      rw [Happening.after, session_modifySession, if_pos rfl, ← hc.attached]
  | attached box => exact absurd rfl (hh box)

end Orders

/-! ### What is left of a session -/

/-- What is left of a session when it is over, whoever holds it: its model. -/
def Session.remains (x : Session) : Session :=
  { x.model with alive := false }

section Remains

variable {x x' : Session}

/-- What is left of a session can be told from its model. -/
theorem Session.remains_of_model (h : x'.model = x.model) : x'.remains = x.remains :=
  congrArg (fun y : Session => { y with alive := false }) h

/-- The threads of a session are left of it when it is over. -/
theorem Session.threads_of_remains (h : x'.remains = x.remains) : x'.threads = x.threads := by
  have hself : ∀ y : Session, y.remains.threads = y.threads := fun y => y.threads_model
  rw [← hself, h, hself]

/-- Whether a session is finished can be told from what is left of it. -/
theorem Session.Finished.of_remains (hx : x.Finished) (h : x'.remains = x.remains) : x'.Finished where
  attached := (congrArg Session.attached h :).trans hx.attached
  terminated := (congrArg Session.terminated h :).trans hx.terminated
  threads := Session.threads_of_remains h ▸ hx.threads
  process p' hp' := by
    have hprocess : x'.process.map (fun p => { p with attributes := [] })
        = x.process.map fun p => { p with attributes := [] } := congrArg Session.process h
    rw [hp'] at hprocess
    obtain ⟨p, hp, hsame⟩ := Option.map_eq_some_iff.mp hprocess.symm
    exact (congrArg Process.terminated hsame :).symm.trans (hx.process p hp)
  scripts := (congrArg Session.scripts h :).trans hx.scripts
  subscription := (congrArg Session.subscription h :).trans hx.subscription

/-- A session that is finished is closed. -/
theorem Session.Finished.closed {w : World} {s : Nat} (h : (w.session s).Finished) : IsClosed w s :=
  ⟨h.attached, h.terminated⟩

end Remains

namespace Bridge

variable {σ : Type} [Inhabited σ] [Engine σ] {s t : Nat} {b : Bridge σ}

/-! ### Encounters -/

/-- What comes of an encounter. -/
def meet (b : Bridge σ) : Encounter σ → Bridge σ
  | .does d => b.after d
  | .befalls s h => b.onWorld fun w => h.after s w

/-- What comes of several encounters, one after the other. -/
def meetAll (b : Bridge σ) (is : List (Encounter σ)) : Bridge σ :=
  is.foldl meet b

/-- Several encounters come one after the other. -/
theorem meetAll_append (b : Bridge σ) (is js : List (Encounter σ)) :
    b.meetAll (is ++ js) = (b.meetAll is).meetAll js :=
  List.foldl_append

/-- What holds at the beginning and is kept by every encounter holds at the end. -/
theorem meet_induction {P : Bridge σ → Prop} (hb : P b) (hstep : ∀ b i, P b → P (b.meet i))
    (is : List (Encounter σ)) : P (b.meetAll is) := by
  induction is generalizing b with
  | nil => exact hb
  | cons i is ih => exact ih (hstep b i hb)

omit [Inhabited σ] [Engine σ] in
/-- What all parts of deeds keep is kept by what happens to the model of a session, if it may be
attached and detached. -/
theorem Spans.happens {P : Breakpoint → Prop} {H : HeapM Unit → Prop} {R : World → World → Prop}
    (h : Spans P (fun _ => True) H R)
    (hset : ∀ w s (f : Session → Session),
      (∀ x, f x = { x with attached := (f x).attached, mailbox := (f x).mailbox }) →
      R w (w.modifySession s f)) (w : World) (s : Nat) (x : Happening) : R w (x.after s w) := by
  cases x with
  | heard e => exact h.handleEvent s trivial (fun _ => h.finish s) w
  | disconnected => exact h.disconnect w s
  | detached => exact hset w s _ fun _ => rfl
  | attached box => exact hset w s _ fun _ => rfl

/-- An encounter loses no session. -/
theorem size_meet_le (b : Bridge σ) (i : Encounter σ) :
    b.world.sessions.size ≤ (b.meet i).world.sessions.size := by
  cases i with
  | does d => exact size_after_le b d
  | befalls t h => exact spans_size.happens (fun _ _ _ _ => Arena.size_le_modify _ _ _) b.world t h

/-- Sessions stay enrolled in an encounter. -/
theorem enrolled_meet (b : Bridge σ) (i : Encounter σ) (he : Enrolled b.world) :
    Enrolled (b.meet i).world := by
  cases i with
  | does d => exact enrolled_after b d he
  | befalls t h =>
      refine covers_enrolled.spans.happens (fun w s f hf => ?_) b.world t h he
      refine (aside_modifySession w s f (fun x => ?_) (fun x => ?_) fun x => ?_).enrolled
      · rw [hf]
        exact id
      · rw [hf]
      · rw [hf]

/-- A front end is bidden farewell once, in whatever encounter. -/
theorem bidden_meet (b : Bridge σ) (i : Encounter σ) (hb : Bidden b.world s) :
    Bidden (b.meet i).world s := by
  cases i with
  | does d => exact bidden_after b d hb
  | befalls t h =>
      refine (spans_bidden s).happens (fun w t f hf hb => ?_) b.world t h hb
      have hsame : ∀ {α : Type} (g : Session → α), (∀ x, g (f x) = g x) →
          g ((w.modifySession t f).session s) = g (w.session s) := by
        intro α g hg
        rw [session_modifySession]
        split
        · next ht => rw [hg, ht]
        · rfl
      exact hb.congr rfl (hsame Session.observed fun x => by rw [hf])
        (hsame Session.terminated fun x => by rw [hf])
        (hsame Session.alive (fun x => by rw [hf]) ▸ id)

/-! ### How a session ends -/

/-- What is handed over to a session shows in its model only if it is an event. -/
theorem handOver_cases (s : Nat) (b : Bridge σ) :
    ((b.handOver s).world.session s).model = (b.world.session s).model
      ∨ ∃ e u j, (u.session s).model = (b.world.session s).model
        ∧ (b.handOver s).world = { worldAfter (handleEvent s e) u with journal := j } := by
  have htaken : ((b.take s).2.world.session s).model = (b.world.session s).model := by
    rw [(takes_take b).here]
    rfl
  unfold handOver
  split
  · next b' h =>
      rw [h] at htaken
      exact .inl htaken
  · next m b' h =>
      rw [h] at htaken
      let u := b'.trace "dispatcher" ("route " ++ m.text b'.world.marks)
      cases m with
      | event e =>
          obtain ⟨j, hj⟩ := world_deliverEvent u s e
          exact .inr ⟨e, u.world, j, htaken, hj⟩
      | request r =>
          let v := u.onWorld (·.noteReceived s r)
          have hrun : b'.accept s (.request r)
              = if (v.world.session s).debugger.isSome then v.receive s r else v := rfl
          refine .inl ?_
          rw [hrun]
          split
          · exact (model_of_tells (tells_receive v r)).trans htaken
          · exact htaken

/-- What happens to one session does not show in another. -/
theorem spares_happening (hst : s ≠ t) (w : World) (h : Happening) : Spares s w (h.after t w) := by
  cases h with
  | heard e => exact spares_handleEvent hst e w
  | disconnected => exact spares_disconnect hst w
  | detached => exact spares_modifySession w hst _
  | attached box => exact spares_modifySession w hst _

/-- A session that has not terminated was opened. -/
theorem lt_of_terminated {w : World} (h : (w.session s).terminated = false) : s < w.sessions.size := by
  by_contra hsize
  rw [session_of_le (Nat.not_lt.mp hsize)] at h
  cases h

/-- However a session ends, it is finished then. -/
theorem finished_meet (ht : (b.world.session s).terminated = false) (i : Encounter σ)
    (hend : ((b.meet i).world.session s).terminated = true) :
    ((b.meet i).world.session s).Finished := by
  have hsame : ((b.meet i).world.session s).terminated ≠ (b.world.session s).terminated := by
    rw [ht, hend]
    nofun
  have hmodel : ((b.meet i).world.session s).model ≠ (b.world.session s).model := fun h =>
    hsame (congrArg Session.terminated h :)
  cases i with
  | does d =>
      by_cases hdrop : d = .dropSession s
      · subst hdrop
        refine absurd ?_ hsame
        change ((b.world.dropSession s).session s).terminated = _
        rw [dropSession, session_modifySession, if_pos rfl]
      by_cases hdeliver : d = .deliver s
      · subst hdeliver
        obtain h | ⟨e, u, j, hu, hafter⟩ := handOver_cases s b
        · exact absurd h hmodel
        · change ((b.handOver s).world.session s).terminated = true at hend
          change ((b.handOver s).world.session s).Finished
          rw [hafter] at hend ⊢
          exact finished_handleEvent ((congrArg Session.terminated hu :).trans ht) e hend
      by_cases hleave : d = .disconnect s
      · subst hleave
        change ((b.act (DebugBridge.disconnect s)).2.world.session s).Finished
        rw [world_act]
        exact finished_disconnect ht
      exact absurd (model_after b (lt_of_terminated ht) hdrop hdeliver hleave) hmodel
  | befalls t h =>
      by_cases hst : s = t
      · subst hst
        exact finished_end ht h hend
      · exact absurd (congrArg Session.terminated (spares_happening hst b.world h).here :) hsame

/-- Whatever anybody does, a session that is over stays as it is, unless it is attached. -/
theorem remains_meet (hs : s < b.world.sessions.size) (hc : IsClosed b.world s) {i : Encounter σ}
    (hi : ¬i.Attaches s) :
    ((b.meet i).world.session s).remains = (b.world.session s).remains := by
  cases i with
  | does d =>
      by_cases hdrop : d = .dropSession s
      · subst hdrop
        change ((b.world.dropSession s).session s).remains = _
        rw [dropSession, session_modifySession, if_pos rfl]
        rfl
      refine Session.remains_of_model ?_
      by_cases hdeliver : d = .deliver s
      · subst hdeliver
        change ((b.handOver s).world.session s).model = _
        obtain h | ⟨e, u, j, hu, hafter⟩ := handOver_cases s b
        · exact h
        · have ha : (u.session s).attached = false := (congrArg Session.attached hu :).trans hc.attached
          rw [hafter, worldAfter, handleEvent_unattached ha]
          exact hu
      by_cases hleave : d = .disconnect s
      · subst hleave
        change ((b.act (DebugBridge.disconnect s)).2.world.session s).model = _
        rw [world_act, (shrugs_disconnect b.world hc).here]
      exact model_after b hs hdrop hdeliver hleave
  | befalls t h =>
      refine Session.remains_of_model ?_
      by_cases hst : s = t
      · subst hst
        refine congrArg Session.model (shrugs_happening (fun box hbox => ?_) b.world hc).here
        subst hbox
        exact hi rfl
      · exact (congrArg Session.model (spares_happening hst b.world h).here :)

/-- What is over stays over in a run in which it is not attached again. -/
theorem finished_meetAll (hs : s < b.world.sessions.size) (hf : (b.world.session s).Finished)
    {is : List (Encounter σ)} (his : ∀ i ∈ is, ¬i.Attaches s) :
    ((b.meetAll is).world.session s).Finished
      ∧ ((b.meetAll is).world.session s).threads = (b.world.session s).threads := by
  induction is generalizing b with
  | nil => exact ⟨hf, rfl⟩
  | cons i is ih =>
      obtain ⟨hi, his⟩ := List.forall_mem_cons.mp his
      have hremains := remains_meet hs hf.closed hi
      obtain ⟨hfinished, hthreads⟩ :=
        ih (Nat.lt_of_lt_of_le hs (size_meet_le b i)) (hf.of_remains hremains) his
      exact ⟨hfinished, hthreads.trans (Session.threads_of_remains hremains)⟩

/-- What is tried on a session that is over does not show, neither in the session nor to its front
end. -/
theorem unnoticed_meet (hc : IsClosed b.world s) {i : Encounter σ} (hi : i.Tries s) :
    Unnoticed s b.world (b.meet i).world := by
  have hact : ∀ {α : Type} {op : Act α}, Keeps (Shrugs s) op →
      Unnoticed s b.world (b.act op).2.world := by
    intro α op hop
    rw [world_act]
    exact hop b.world hc
  cases i with
  | does d =>
      cases d with
      | order t k c =>
          obtain rfl : t = s := hi
          exact hact (shrugs_commandThread k c)
      | orderTarget t c =>
          obtain rfl : t = s := hi
          exact hact (shrugs_commandTarget c)
      | disconnect t =>
          obtain rfl : t = s := hi
          exact hact shrugs_disconnect
      | readFrames t k =>
          obtain rfl : t = s := hi
          exact hact (shrugs_stackFrames k)
      | readVariables f => exact hact (shrugs_frameVariables hi)
      | addBreakpoint m p => exact shrugs_addBreakpoint b.world m p hc
      | removeBreakpoint m p => exact shrugs_removeBreakpoint b.world m p hc
      | enableBreakpoint m p enabled => exact shrugs_enableBreakpoint b.world m p enabled hc
      | _ => exact absurd hi id
  | befalls t h =>
      have hbox : ∀ box, h ≠ .attached box := by
        rintro box rfl
        exact hi
      obtain rfl : t = s := by
        cases h with
        | attached box => exact absurd rfl (hbox box)
        | _ => exact hi
      exact shrugs_happening hbox b.world hc

/-- A session ends once, completely and for good. In every run the front end is told of the end at most
once. A session that hears of the end of the interpreter while it is attached has terminated, and so
has one from which its users disconnected. Whatever it is that ends it, and even if the front end fails
then, the session is finished: its threads have terminated and have no frames, its process has
terminated, no script is registered and no manager has it as a subscriber. All that lasts until it is
attached again, and until then nothing that is tried on it shows in the session, with its mailbox, or
to its front end. -/
theorem finished_for_good (hb : b.Fresh) (is : List (Encounter σ)) (s : Nat) :
    (b.meetAll is).world.farewells s ≤ 1
      ∧ (((b.meetAll is).world.session s).attached = true →
        ((b.meetAll (is ++ [.befalls s (.heard .engineTerminated)])).world.session s).terminated = true)
      ∧ ((b.meetAll (is ++ [.befalls s .disconnected])).world.session s).terminated = true
      ∧ ∀ i, ((b.meetAll is).world.session s).terminated = false →
        ((b.meetAll (is ++ [i])).world.session s).terminated = true →
        ∀ later, (∀ j ∈ later, ¬j.Attaches s) →
          let c := b.meetAll (is ++ [i] ++ later)
          (c.world.session s).Finished
            ∧ (c.world.session s).threads = ((b.meetAll (is ++ [i])).world.session s).threads
            ∧ (∀ m n, (n, .session s) ∉ (c.world.manager m).subscribers)
            ∧ ∀ j : Encounter σ, j.Tries s → Unnoticed s c.world (c.meet j).world := by
  have hbidden := meet_induction (P := fun b => Bidden b.world s) (bidden_of_fresh hb) bidden_meet is
  refine ⟨hbidden.once, fun ha => ?_, ?_, fun i ht hend later hlater => ?_⟩
  · rw [meetAll_append]
    change ((worldAfter (handleEvent s .engineTerminated) _).session s).terminated = true
    rw [worldAfter, handleEvent_eq ha]
    exact (shuts_endSession _).terminated
  · rw [meetAll_append]
    change ((worldAfter (DebugBridge.disconnect s) _).session s).terminated = true
    obtain ⟨ht, hrun⟩ | ⟨-, u, -, hrun⟩ := disconnect_cases s (b.meetAll is).world
    · rw [hrun, ht]
    · rw [hrun]
      exact (shuts_endSession _).terminated
  · let v := (b.meetAll is).meet i
    have hv : b.meetAll (is ++ [i]) = v := meetAll_append b is [i]
    rw [hv] at hend
    have hs := Nat.lt_of_lt_of_le (lt_of_terminated ht) (size_meet_le (b.meetAll is) i)
    obtain ⟨hfinished, hthreads⟩ := finished_meetAll hs (finished_meet ht i hend) hlater
    intro c
    have hc : c = v.meetAll later := (meetAll_append b (is ++ [i]) later).trans (by rw [hv])
    have henrolled : Enrolled c.world := by
      obtain ⟨reaction, hstart⟩ := hb
      refine meet_induction (P := fun b => Enrolled b.world) ?_ enrolled_meet _
      rw [hstart]
      exact enrolled_of_start rfl rfl
    rw [← hc] at hfinished hthreads
    refine ⟨hfinished, by rw [hv]; exact hthreads, fun m n hmem => ?_,
      fun j hj => unnoticed_meet hfinished.closed hj⟩
    have hknown := (henrolled.known m n s hmem).2
    rw [hfinished.subscription] at hknown
    cases hknown

/-- A bridge whose front end fails when it is told that a session has ended. -/
def sentimental : Bridge VariableTable :=
  (∅ : Bridge VariableTable).onWorld fun w => { w with
    reaction := fun _ n => if n.isFarewell 0 then some "no" else none }

/-- A session is opened, and a thread of it stops at a breakpoint. -/
def suspendedAt (thread : Handle) (a : Activation) : List (Encounter VariableTable) :=
  [.does (.launch ⟨.off, 0, true, true, true⟩),
    .befalls 0 (.heard (.suspended thread .breakpoint [a]))]

/-- The interpreter ends while a thread stands at a breakpoint, and the front end fails. Then an order
comes for the thread. -/
theorem finished_for_good_sentimental :
    let thread : Handle := ⟨0, "main"⟩
    let is := suspendedAt thread ⟨0, ⟨1, "a", none, false⟩, .function, none⟩
    let i : Encounter VariableTable := .befalls 0 (.heard .engineTerminated)
    let c := sentimental.meetAll (is ++ [i] ++ [.befalls 0 .detached])
    ((sentimental.meetAll is).world.thread 0 0).frames.length = 1
      ∧ ((sentimental.meetAll is).act (handleEvent 0 .engineTerminated)).1.isOk = false
      ∧ c.world.farewells 0 = 1
      ∧ (c.world.session 0).Finished
      ∧ (c.world.session 0).threads = [⟨thread, .terminated, some .breakpoint, []⟩]
      ∧ Unnoticed 0 c.world (c.meet (.does (.order 0 0 .resume))).world := by
  intro thread is i c
  have hfresh : sentimental.Fresh := ⟨_, rfl⟩
  obtain ⟨-, -, -, hends⟩ := finished_for_good hfresh is 0
  obtain ⟨hfinished, hthreads, -, htries⟩ := hends i (by decide +kernel) (by decide +kernel)
    [.befalls 0 .detached] (fun j hj => by rw [List.mem_singleton.mp hj]; exact id)
  refine ⟨by decide +kernel, by decide +kernel, by decide +kernel, hfinished, hthreads.trans ?_,
    htries _ rfl⟩
  decide +kernel

end Bridge

end DebugBridge
