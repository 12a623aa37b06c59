import Mathlib.Data.List.Induction
import DebugBridge.Proofs.Course

/-!
# How long a session lives

A session is joined by the deed that opens it, or never. From then on it is live until its
interpreter ends, and after that until its model hears of the end. So whatever every step of a live
session keeps holds in every run as long as the session is live.

## Main definitions

* `World.Opened`: a session that was just opened;
* `Bridge.Goes`: what a deed is for a session that is live before and after it.

## Main results

* `joined_induction`: what every deed keeps that leaves a session joined holds as long as it is;
* `live_or_ending_run`: a session that is joined is live, or it is about to end;
* `live_before`: a session that is live was live before, or it was just opened;
* `live_induction`: what every step of a live session keeps holds as long as it is live.
-/

namespace DebugBridge

/-- A session without what its model shows of threads and scripts. -/
def Session.outer (x : Session) : Session :=
  { x with scripts := .empty, process := none, frames := ∅ }

namespace World

variable {s : Nat} {d : Debugger}

/-! ### What keeps a session joined -/

/-- A session that is joined after a step was joined before it. -/
def WasJoined (s : Nat) (w w' : World) : Prop :=
  Joined w' s → Joined w s

/-- What was joined after a sequence of steps was joined before it. -/
theorem steady_wasJoined (s : Nat) : Steady (WasJoined s) where
  refl _ := id
  trans h h' hj := h (h' hj)

/-- A step that attaches nobody and makes no debugger joins no session. -/
theorem WasJoined.of_session {w w' : World} (ha : (w'.session s).alive = (w.session s).alive)
    (hatt : (w'.session s).attached = (w.session s).attached)
    (hd : (w'.session s).debugger.isSome = true → (w.session s).debugger.isSome = true) :
    WasJoined s w w' :=
  fun hj => ⟨ha ▸ hj.alive, hatt ▸ hj.attached, hd hj.debugger⟩

/-- A step that changes only what a model shows joins no session. -/
theorem wasJoined_of_outer {w w' : World} (h : (w'.session s).outer = (w.session s).outer) :
    WasJoined s w w' :=
  have hd : (w'.session s).debugger = (w.session s).debugger := (congrArg Session.debugger h :)
  .of_session (congrArg Session.alive h :) (congrArg Session.attached h :) (hd ▸ id)

/-- A step that changes no session joins none. -/
theorem wasJoined_of_sessions {w w' : World} (h : w'.sessions = w.sessions) :
    WasJoined s w w' := by
  have hs : w'.session s = w.session s := by rw [session, session, h]
  refine wasJoined_of_outer ?_
  rw [hs]

/-- What users ask for joins no session. -/
theorem wasJoined_of_asks {w w' : World} (h : Asks w w') : WasJoined s w w' :=
  have hs := h.everywhere s
  .of_session (congrArg Session.alive hs.model :) (congrArg Session.attached hs.model :)
    (hs.debugger ▸ id)

/-- Requests that are posted join no session. -/
theorem wasJoined_of_posts {t : Nat} {rs : List Request} {w w' : World} (h : Posts t rs w w') :
    WasJoined s w w' := by
  by_cases hst : s = t
  · subst hst
    exact .of_session h.here.alive h.here.attached (h.here.debugger ▸ id)
  · have hs := h.elsewhere s hst
    exact .of_session (by rw [hs]) (by rw [hs]) (by rw [hs]; exact id)

/-- A step of an interpreter side joins no session. -/
theorem wasJoined_of_tells {t : Nat} {w w' : World} (h : Tells t w w') : WasJoined s w w' := by
  by_cases hst : s = t
  · subst hst
    have hs := h.here
    refine .of_session (congrArg Session.alive hs.model :) (congrArg Session.attached hs.model :) ?_
    intro hd
    obtain ⟨d', hd'⟩ := Option.isSome_iff_exists.mp hd
    obtain ⟨d, hd, -⟩ := hs.debugger d' hd'
    rw [hd]
    rfl
  · have hs := h.elsewhere s hst
    exact .of_session (by rw [hs]) (by rw [hs]) (by rw [hs]; exact id)

/-- What a session knows of its frames does not matter to whether it is joined. -/
theorem outer_of_unframed {x x' : Session} (h : x'.unframed = x.unframed) : x'.outer = x.outer :=
  (congrArg Session.outer h :)

/-- What a session shows of its threads does not matter to whether it is joined. -/
theorem outer_of_shell {x x' : Session} (h : x'.shell = x.shell) : x'.outer = x.outer :=
  (congrArg Session.outer h :)

/-- A step that changes what is shown joins no session. -/
theorem wasJoined_of_shows {t : Nat} {ts : List Script} {w w' : World} (h : Shows t ts w w') :
    WasJoined s w w' := by
  by_cases hst : s = t
  · subst hst
    exact wasJoined_of_outer (outer_of_shell h.here)
  · exact wasJoined_of_outer (outer_of_unframed (h.elsewhere s hst))

/-- A script that is registered shows in what a model shows of scripts only. -/
theorem outer_register (w : World) (t : Nat) (script : Script) :
    ((w.register t script).session s).outer = (w.session s).outer := by
  rw [register, session_modifySession]
  split
  · next h => rw [← h]; rfl
  · rfl

/-- The end of a session joins nothing. -/
theorem wasJoined_close (w : World) (t : Nat) : WasJoined s w (w.close t) := by
  intro hj
  by_cases hst : s = t
  · subst hst
    have hatt := hj.attached
    rw [attached_close] at hatt
    cases hatt
  · have hs := session_close_of_ne w hst
    exact ⟨hs ▸ hj.alive, hs ▸ hj.attached, hs ▸ hj.debugger⟩

/-- A mailbox does not matter to whether a session is joined. -/
theorem wasJoined_mailbox (w : World) (t : Nat) (box : Mailbox Message) :
    WasJoined s w (w.modifySession t fun session => { session with mailbox := box }) := by
  intro hj
  obtain ⟨halive, hatt, hd⟩ := hj
  rw [session_modifySession] at halive hatt hd
  split at halive
  · next hst =>
      rw [if_pos hst] at hatt hd
      subst hst
      exact ⟨halive, hatt, hd⟩
  · next hst =>
      rw [if_neg hst] at hatt hd
      exact ⟨halive, hatt, hd⟩

/-- A session that is given up was not joined by that. -/
theorem wasJoined_dropSession (w : World) (t : Nat) : WasJoined s w (w.dropSession t) := by
  intro hj
  by_cases hst : s = t
  · subst hst
    have halive := hj.alive
    rw [dropSession, session_modifySession, if_pos rfl] at halive
    cases halive
  · have hs : (w.dropSession t).session s = w.session s := by
      rw [dropSession, session_modifySession, if_neg (Ne.symm hst)]
    exact ⟨hs ▸ hj.alive, hs ▸ hj.attached, hs ▸ hj.debugger⟩

end World

/-! ### Sessions that are opened -/

/-- A session whose sides are joined as far as its setup asks for it. -/
def Session.joined (x : Session) (setup : Setup) : Session :=
  let x := if setup.withDebugger then
    { x with debugger := some (.start x.options.showDynamicCode false) } else x
  if setup.joined then
    { x with
      attached := true
      mailbox := ∅
      debugger := x.debugger.map fun d => { d with attached := true } }
  else x

namespace World

/-- A session whose sides are joined is joined as its setup asks for it. -/
theorem session_joined (w : World) (s : Nat) (setup : Setup) :
    (w.joined s setup).session s = (w.session s).joined setup := by
  unfold joined Session.joined
  cases setup.withDebugger <;> cases setup.joined <;>
    simp [addDebugger, joinSides, modifyDebugger, session_modifySession]

/-- Only a setup that asks for both makes a new session one that is joined. -/
theorem asked_of_joined {w : World} {s : Nat} {setup : Setup}
    (hatt : (w.session s).attached = false) (hd : (w.session s).debugger = none)
    (hj : Joined (w.joined s setup) s) : setup.withDebugger = true ∧ setup.joined = true := by
  have hattached := hj.attached
  have hdebugger := hj.debugger
  rw [session_joined, Session.joined] at hattached hdebugger
  cases hw : setup.withDebugger <;> cases hs : setup.joined <;> simp_all

end World

/-- A session that was just opened, with both its sides joined. -/
structure World.Opened (w : World) (s : Nat) (d : Debugger) : Prop extends World.Live w s d where
  mail : w.mail s = []
  executions : d.executions = []
  table : d.table = []
  scripts : (w.session s).scripts = .empty
  process : (w.session s).process = none
  shows : d.showDynamicCode = (w.session s).options.showDynamicCode

namespace Bridge

open World

variable {σ : Type} [Inhabited σ] [Engine σ] {s : Nat} {d : Debugger}

omit [Inhabited σ] [Engine σ] in
/-- A session that is joined when it is opened has not heard of anything yet. -/
theorem exists_opened_launch (b : Bridge σ) (setup : Setup)
    (hj : Joined (b.launch setup).2.world b.world.sessions.size) :
    ∃ d, Opened (b.launch setup).2.world b.world.sessions.size d := by
  let s := b.world.sessions.size
  obtain ⟨j, hrun | hrun⟩ := world_launch b setup
  · let w : World := { b.world.opened setup with journal := j }
    have hnew : w.session s = b.world.newSession setup := by
      change (b.world.opened setup).session s = _
      rw [session_opened, if_pos rfl]
    have hboth : setup.withDebugger = true ∧ setup.joined = true :=
      asked_of_joined (w := w) (by rw [hnew]; rfl) (by rw [hnew]; rfl) (hrun ▸ hj)
    let d : Debugger := .start setup.options.showDynamicCode true
    have hsession : ((b.launch setup).2.world).session s
        = { b.world.newSession setup with
            attached := true
            mailbox := ∅
            debugger := some d } := by
      rw [hrun]
      change (w.joined s setup).session s = _
      rw [session_joined, hnew, Session.joined, if_pos hboth.1, if_pos hboth.2]
      rfl
    have hmail : (b.launch setup).2.world.mail s = [] := by
      unfold mail
      rw [hsession]
      rfl
    refine ⟨d, ⟨⟨⟨hj, ?_, ?_, ?_, ?_⟩, ?_, rfl, rfl, ?_, ?_⟩, hmail, rfl, rfl, ?_, ?_, ?_⟩⟩
    · rw [hsession]; rfl
    · rw [hsession]; rfl
    · rw [hsession]; rfl
    · rw [hsession]; rfl
    · rw [hsession]
    · exact ⟨List.forall_mem_nil _, List.forall_mem_nil _, List.forall_mem_nil _⟩
    · intro r hr
      rw [hmail] at hr
      cases hr
    · rw [hsession]; rfl
    · rw [hsession]; rfl
    · rw [hsession]; rfl
  · have halive := hj.alive
    rw [hrun, dropSession, session_modifySession, if_pos rfl] at halive
    cases halive

/-- Whatever is done but for the opening of sessions, no session is joined. -/
theorem covers_wasJoined (s : Nat) : Covers (fun _ => True) (WasJoined s) where
  toSteady := steady_wasJoined s
  shared hs _ _ _ := wasJoined_of_sessions hs
  asks := wasJoined_of_asks
  tells := wasJoined_of_tells
  shows := wasJoined_of_shows
  posts := wasJoined_of_posts
  take w t := wasJoined_mailbox w t _
  register w t script := wasJoined_of_outer (outer_register w t script)
  close := wasJoined_close
  drop := wasJoined_dropSession
  enter _ _ _ _ _ := wasJoined_of_sessions rfl
  leave _ _ _ := wasJoined_of_sessions rfl
  prune _ _ := wasJoined_of_sessions rfl
  listen _ _ _ := wasJoined_of_sessions rfl

/-- A session that is joined was joined before, or it was just opened. -/
theorem joined_before (b : Bridge σ) (x : Deed σ) (hj : Joined (b.after x).world s) :
    Joined b.world s ∨ ∃ setup, x = .launch setup ∧ s = b.world.sessions.size := by
  by_cases hnew : ∃ setup, x = .launch setup ∧ s = b.world.sessions.size
  · exact .inr hnew
  · refine .inl ((covers_wasJoined s).after b x (fun _ _ _ => trivial) (fun setup hx => ?_) hj)
    subst hx
    have hs : s ≠ b.world.sessions.size := fun hs => hnew ⟨setup, rfl, hs⟩
    exact wasJoined_of_outer (outer_of_unframed (spares_launch b setup hs).here)

end Bridge

/-! ### Steps of a live session -/

namespace World

variable {s : Nat} {d d' : Debugger}

/-- Whether a session is sound can be told without what its model shows. -/
theorem Sound.of_outer {w w' : World} (h : Sound w s)
    (hs : (w'.session s).outer = (w.session s).outer) : Sound w' s where
  alive := (congrArg Session.alive hs :).trans h.alive
  attached := (congrArg Session.attached hs :).trans h.attached
  debugger := (congrArg (·.debugger.isSome) hs :).trans h.debugger
  terminated := (congrArg Session.terminated hs :).trans h.terminated
  subscribed := (congrArg (·.subscription.isSome) hs :).trans h.subscribed
  isOpen := (congrArg (·.mailbox.isOpen) hs :).trans h.isOpen
  unmarked := (congrArg (fun x => isMarked x.mailbox.queue) hs :).trans h.unmarked

/-- The messages of a session can be told without what its model shows. -/
theorem mail_of_outer {w w' : World} (hs : (w'.session s).outer = (w.session s).outer) :
    w'.mail s = w.mail s :=
  (congrArg (fun x => deliverable x.mailbox.queue) hs :)

/-- What a live session shows of threads and scripts may change. -/
theorem Live.of_outer {w w' : World} (h : Live w s d)
    (hs : (w'.session s).outer = (w.session s).outer) (hn : w.nextNumber ≤ w'.nextNumber) :
    Live w' s d where
  toSound := h.toSound.of_outer hs
  here := (congrArg Session.debugger hs :).trans h.here
  listens := h.listens
  running := h.running
  orderly := h.orderly.mono hn
  proper := mail_of_outer hs ▸ h.proper

/-- What stands in a mailbox to which messages were added. -/
theorem Sound.gains {w w' : World} (h : Sound w s)
    (hm : (w'.session s).model = (w.session s).model)
    (hd : (w'.session s).debugger.isSome = true) {ms : List Message}
    (hg : (w.session s).mailbox.Gains ms (w'.session s).mailbox) :
    Sound w' s ∧ w'.mail s = w.mail s ++ ms := by
  have hj : Joined w' s :=
    ⟨(congrArg Session.alive hm :).trans h.alive, (congrArg Session.attached hm :).trans h.attached,
      hd⟩
  exact ⟨h.of_gains hj hm hg, mail_of_gains h hg⟩

/-- Requests came to the mailbox of a live session. -/
theorem Live.posted {w w' : World} (h : Live w s d) {rs : List Request}
    (hp : (w.session s).Posted rs (w'.session s)) (hr : ∀ r ∈ rs, r.IsProper)
    (hn : w.nextNumber ≤ w'.nextNumber) :
    Live w' s d ∧ w'.mail s = w.mail s ++ rs.map .request := by
  have hsome : (w'.session s).debugger.isSome = true := by rw [hp.debugger]; exact h.debugger
  obtain ⟨hsound, hmail⟩ := h.toSound.gains hp.model hsome hp.mailbox
  refine ⟨⟨hsound, hp.debugger.trans h.here, h.listens, h.running, h.orderly.mono hn, ?_⟩, hmail⟩
  intro r hmem
  rw [hmail] at hmem
  rcases List.mem_append.mp hmem with hmem | hmem
  · exact h.proper r hmem
  · obtain ⟨r', hr', he⟩ := List.mem_map.mp hmem
    cases he
    exact hr r hr'

/-- The debugger of a live session became another and told events. -/
theorem Live.becomes {w w' : World} (h : Live w s d) {es : List Event}
    (hb : Becomes s d' es w w') (hl : d'.attached = true) (hr : d'.terminated = false)
    (ho : d'.Orderly w'.nextNumber) :
    Live w' s d' ∧ w'.mail s = w.mail s ++ es.map .event := by
  have hsome : (w'.session s).debugger.isSome = true := by rw [hb.debugger]; rfl
  obtain ⟨hsound, hmail⟩ := h.toSound.gains hb.tells.here.model hsome hb.mailbox
  refine ⟨⟨hsound, hb.debugger, hl, hr, ho, ?_⟩, hmail⟩
  intro r hmem
  rw [hmail] at hmem
  rcases List.mem_append.mp hmem with hmem | hmem
  · exact h.proper r hmem
  · obtain ⟨e, -, he⟩ := List.mem_map.mp hmem
    cases he

/-- What works for one thread keeps a session live. -/
theorem Live.works {w w' : World} {o : Nat} {ts : List Script} (h : Live w s d)
    (hw : Works s o ts w d w' d') :
    Live w' s d' := by
  obtain ⟨es, hb⟩ := hw.becomes
  exact (h.becomes hb (hw.alike.attached.trans h.listens) (hw.alike.terminated.trans h.running)
    (hw.orderly h.orderly)).1

/-- A session is live after its debugger took a step for a thread. -/
theorem Live.reports {w w' : World} {o : Nat} {ts : List Script} (h : Live w s d)
    (hw : Reports s o ts w d w' d') :
    Live w' s d' :=
  h.works (.single h.here hw)

/-- What every step for one thread keeps is kept by all that is done for it. -/
theorem Live.works_induction {P : World → Debugger → Prop} {w w' : World} {o : Nat}
    {ts : List Script}
    (h : Live w s d) (hw : Works s o ts w d w' d') (hp : P w d)
    (hstep : ∀ {u v e e'}, Live u s e → P u e → Reports s o ts u e v e' → P v e') : P w' d' := by
  induction hw with
  | refl _ => exact hp
  | step hbefore hr ih => exact hstep (h.works hbefore) ih hr

/-- What is told in a step for one thread comes to the mailbox. -/
theorem Live.mail_becomes {w w' : World} (h : Live w s d) {es : List Event}
    (hb : Becomes s d' es w w') : w'.mail s = w.mail s ++ es.map .event :=
  mail_of_gains h.toSound hb.mailbox

/-- An interpreter that ends leaves the news behind. -/
theorem Live.leaves {w w' : World} (h : Live w s d) (hl : Bridge.Leaves s [.engineTerminated] w w')
    (hsome : (w'.session s).debugger.isSome = true) : Ending w' s := by
  obtain ⟨hsound, hmail⟩ := h.toSound.gains hl.tells.here.model hsome hl.said
  refine ⟨hsound, ?_, hl.left⟩
  rw [hmail]
  simp

end World

/-! ### What a deed is for a live session -/

namespace Bridge

open World

variable {σ : Type} [Inhabited σ] [Engine σ] {s : Nat} {d d' : Debugger}

omit [Inhabited σ] [Engine σ] in
/-- A session is handed a message when it delivers. -/
theorem eq_deliver_of_handed {b : Bridge σ} {x : Deed σ} {m : Message}
    (h : b.handed s x = some m) : x = .deliver s := by
  cases x with
  | deliver t =>
      by_cases ht : t = s
      · rw [ht]
      · rw [handed, if_neg ht] at h
        cases h
  | _ => cases h

omit [Inhabited σ] [Engine σ] in
/-- What is handed over is what has waited longest. -/
theorem handed_deliver (b : Bridge σ) (s : Nat) :
    b.handed s (.deliver s) = (b.world.mail s).head? := by
  have hrun : b.handed s (.deliver s) = (b.world.session s).mailbox.take.1 := if_pos rfl
  rw [hrun, Mailbox.take_fst, mail]
  cases (b.world.session s).mailbox.queue with
  | nil => rfl
  | cons envelope rest => cases envelope <;> rfl

omit [Inhabited σ] [Engine σ] in
/-- A session that delivers is handed its oldest message. -/
theorem handed_of_mail {b : Bridge σ} {x : Deed σ} {m : Message} {behind : List Message}
    (hx : x = .deliver s) (hmail : b.world.mail s = m :: behind) : b.handed s x = some m := by
  rw [hx, handed_deliver, hmail]
  rfl

/-- What a deed is for a session that is live before and after it. -/
inductive Goes (s : Nat) (b : Bridge σ) (d : Debugger) (x : Deed σ) (b' : Bridge σ)
    (d' : Debugger) : Prop where
  /-- Its users ask for something, or nothing happens to it. -/
  | asked (rs : List Request) (hnone : b.handed s x = none) (hr : ∀ r ∈ rs, r.IsOrder)
      (hd : d' = d)
      (hmodel : (b'.world.session s).model = (b.world.session s).model)
      (hmail : b'.world.mail s = b.world.mail s ++ rs.map .request)
      (hb : b'.world.breakpoints s = b.world.breakpoints s)
      (hn : b.world.nextNumber ≤ b'.world.nextNumber)
  /-- It is told that a breakpoint changed. -/
  | changed (p : Breakpoint) (c : BreakpointChange) (hp : x.point? = some p) (hd : d' = d)
      (hmodel : (b'.world.session s).model = (b.world.session s).model)
      (hmail : b'.world.mail s = b.world.mail s ++ (b.world.routed s p c).map .request)
      (hb : c.Rewrites p (b.world.breakpoints s) (b'.world.breakpoints s))
      (hn : b.world.nextNumber ≤ b'.world.nextNumber)
  /-- One of its threads makes a call. -/
  | called (i : Interpreter) (c : Call) (hx : x = .call i c) (hi : i.session = s)
      (hw : b.isWaiting i = false) (hrun : b' = (b.perform i c).2)
      (h : Works s i.id c.scripts b.world d b'.world d')
      (hb : b'.world.breakpoints s = b.world.breakpoints s)
  /-- An event changes its threads at most. -/
  | shown (e : Event) (u : World) (j : Journal) (hx : x = .deliver s) (hd : d' = d)
      (hu : Takes s b.world u) (hlive : Live u s d)
      (hmail : b.world.mail s = .event e :: u.mail s)
      (hready : b.readied? s x = none)
      (hrun : b'.world = { worldAfter (handleEvent s e) u with journal := j })
      (h : Shows s e.scripts u b'.world) (hend : e ≠ .engineTerminated)
      (hbroken : ∀ script thread root, e = .scriptReady script thread root →
        ∃ failure w', handleEvent s e u = .error failure w')
      (hb : b'.world.breakpoints s = b.world.breakpoints s)
  /-- A script is registered and answered. -/
  | answered (script : Script) (thread : Handle) (root : Bool) (u v : World) (handle : Handle)
      (kind : ResumeKind) (j : Journal) (hx : x = .deliver s) (hd : d' = d)
      (hu : Takes s b.world u) (hlive : Live u s d)
      (hmail : b.world.mail s = .event (.scriptReady script thread root) :: u.mail s)
      (hready : b.readied? s x = some script)
      (hrun : b'.world
        = { worldAfter (handleEvent s (.scriptReady script thread root)) u with journal := j })
      (hv : Shows s [] u v) (hid : handle.id = thread.id)
      (h : Posts s (v.answers s script handle kind) (v.register s script) b'.world)
      (hmail' : b'.world.mail s
        = u.mail s ++ (v.answers s script handle kind).map .request)
      (hb : b'.world.breakpoints s = b.world.breakpoints s)
  /-- Its debugger takes a request. -/
  | obeyed (r : Request) (u : Bridge σ) (hx : x = .deliver s) (hu : Takes s b.world u.world)
      (hlive : Live u.world s d) (hmail : b.world.mail s = .request r :: u.world.mail s) (hr : r.IsProper)
      (hend : r ≠ .terminate) (h : Obeyed s d r u.world b'.world)
      (hb : b'.world.breakpoints s = b.world.breakpoints s)

omit [Inhabited σ] [Engine σ] in
/-- A session that heard of the end of its interpreter is not joined. -/
theorem not_joined_of_closed {v w w' : World} {j : Journal} (hw : w' = { w with journal := j })
    (hclosed : Still (v.close s) w) : ¬Joined w' s := by
  intro hj
  have hatt := hj.attached
  have hsame : w'.session s = w.session s := by rw [hw]; rfl
  have heq : (w.session s).attached = ((v.close s).session s).attached :=
    (congrArg Session.attached (hclosed.everywhere s) :)
  rw [hsame, heq, attached_close] at hatt
  cases hatt

/-- The breakpoints of a session are those of its manager. -/
theorem breakpoints_eq {w w' : World} (hm : w'.managers = w.managers)
    (hs : (w'.session s).manager = (w.session s).manager) :
    w'.breakpoints s = w.breakpoints s := by
  rw [World.breakpoints, World.breakpoints, hs, breakpoints_of_managers hm]

/-- A session that takes a message has the breakpoints that it had. -/
theorem breakpoints_of_takes {w u : World} (h : Takes s w u) :
    u.breakpoints s = w.breakpoints s :=
  breakpoints_eq h.managers (by rw [h.here])

/-- A session whose interpreter side takes a step has the breakpoints that it had. -/
theorem breakpoints_of_tells {w w' : World} (h : Tells s w w') :
    w'.breakpoints s = w.breakpoints s :=
  breakpoints_eq h.managers (congrArg Session.manager h.here.model :)

/-- A session that changes in what its model shows has the breakpoints that it had. -/
theorem breakpoints_of_outer {w w' : World} (hm : w'.managers = w.managers)
    (h : (w'.session s).outer = (w.session s).outer) : w'.breakpoints s = w.breakpoints s :=
  breakpoints_eq hm (congrArg Session.manager h :)

/-- What is routed are changes of breakpoints. -/
theorem isProper_of_mem_routed {w : World} {p : Breakpoint} {c : BreakpointChange} {r : Request}
    (h : r ∈ w.routed s p c) : r.IsProper := by
  unfold routed at h
  split at h
  · cases h
  · split at h
    · obtain ⟨mode, -, rfl⟩ := List.mem_map.mp h
      trivial
    · cases h

/-- A script is answered by requests that a session sends while it is attached. -/
theorem isProper_of_mem_answers {w : World} {script : Script} {thread : Handle} {kind : ResumeKind}
    {r : Request} (h : r ∈ w.answers s script thread kind) : r.IsProper := by
  rcases List.mem_append.mp h with h | h
  · obtain ⟨p, -, rfl⟩ := List.mem_map.mp h
    trivial
  · obtain rfl := List.mem_singleton.mp h
    trivial

/-- A call leaves a live session live, or its interpreter ends. -/
theorem goes_or_ending_called {b b' : Bridge σ} {x : Deed σ} {i : Interpreter} {c : Call}
    (h : Live b.world i.session d) (hj : Joined b'.world i.session) (hx : x = .call i c)
    (hw : b.isWaiting i = false) (hrun : b' = (b.perform i c).2) :
    (∃ d', Live b'.world i.session d' ∧ Goes i.session b d x b' d')
      ∨ Ending b'.world i.session := by
  by_cases hc : c = .engineFinished
  · subst hc
    refine .inr (h.leaves ?_ hj.debugger)
    rw [hrun]
    exact leaves_finishEngine h.here h.listens
  · have hwait : d.isWaiting i.id = false := by
      rw [isWaiting, debugger_eq h.here] at hw
      exact hw
    obtain ⟨d', hworks⟩ := works_perform h.here h.listens hwait hc
    rw [← hrun] at hworks
    obtain ⟨es, hb⟩ := hworks.becomes
    exact .inl ⟨d', h.works hworks, .called i c hx rfl hw hrun hworks
      (breakpoints_of_tells hb.tells)⟩

omit [Inhabited σ] [Engine σ] in
/-- A session that delivers is handed the message that it takes. -/
theorem handed_of_takes {b : Bridge σ} {x : Deed σ} {m : Message} (hx : x = .deliver s)
    (hm : (b.world.session s).mailbox.take.1 = some m) : b.handed s x = some m := by
  rw [hx]
  exact (if_pos rfl).trans hm

/-- An event of which a session hears comes to an end at which the session stays joined: it is
shown, or it is answered. -/
theorem goes_of_heard {b b' : Bridge σ} {x : Deed σ} {e : Event} {u : World} {j : Journal}
    (h : Live b.world s d) (hj : Joined b'.world s) (hx : x = .deliver s)
    (hm : (b.world.session s).mailbox.take.1 = some (.event e))
    (hoffer : u = (b.offered s (.event e)).world) (hu : Takes s b.world u)
    (he : Heard s e u (worldAfter (handleEvent s e) u))
    (hw : b'.world = { worldAfter (handleEvent s e) u with journal := j }) :
    Live b'.world s d ∧ Goes s b d x b' d := by
  have hhanded := handed_of_takes hx hm
  have hlive := h.takes hu hm
  have hmail := (h.toSound.takes hu hm).2
  have hb := breakpoints_of_takes hu
  cases he with
  | shown hshows hend hbroken =>
      have hshows' : Shows s e.scripts u b'.world := by
        rw [hw]
        exact ⟨hshows.here, hshows.elsewhere, hshows.frames, hshows.managers, hshows.reaction,
          hshows.numbers⟩
      have houter := outer_of_shell hshows'.here
      refine ⟨hlive.of_outer houter hshows'.numbers, .shown e u j hx rfl hu hlive hmail
        ?_ hw hshows' hend ?_ ((breakpoints_of_outer hshows'.managers houter).trans hb)⟩
      · by_cases hready : ∃ script thread root, e = .scriptReady script thread root
        · obtain ⟨script, thread, root, rfl⟩ := hready
          obtain ⟨failure, herror⟩ := hbroken script thread root rfl
          rw [hoffer] at herror
          exact readied?_of_error hhanded herror
        · refine readied?_of_ne fun script thread root he => hready ⟨script, thread, root, ?_⟩
          rw [hhanded] at he
          cases he
          rfl
      · intro script thread root he
        obtain ⟨failure, herror⟩ := hbroken script thread root he
        exact ⟨failure, _, herror⟩
  | answered script thread root v handle kind he hok hv hid hposts =>
      subst he
      have hposts' : Posts s (v.answers s script handle kind) (v.register s script) b'.world := by
        rw [hw]
        exact ⟨hposts.here, hposts.elsewhere, hposts.managers, hposts.reaction, hposts.numbers⟩
      have houter : ((v.register s script).session s).outer = (u.session s).outer :=
        (outer_register v s script).trans (outer_of_shell hv.here)
      have hreg := hlive.of_outer houter hv.numbers
      obtain ⟨hlive', hmail'⟩ := hreg.posted hposts'.here (fun r => isProper_of_mem_answers)
        hposts'.numbers
      rw [mail_of_outer houter] at hmail'
      have hmanager : (b'.world.session s).manager = (u.session s).manager :=
        (congrArg Session.manager hposts'.here.model :).trans (congrArg Session.manager houter :)
      have hready : b.readied? s x = some script := readied?_of_ok hhanded (hoffer ▸ hok)
      exact ⟨hlive', .answered script thread root u v handle kind j hx rfl hu hlive hmail
        hready hw hv hid hposts' hmail'
        ((breakpoints_eq (hposts'.managers.trans hv.managers) hmanager).trans hb)⟩
  | closed v he hv hclosed => exact absurd hj (not_joined_of_closed hw hclosed)

/-- A request leaves a live session live, or its interpreter ends. -/
theorem goes_or_ending_obeyed {b b' u : Bridge σ} {x : Deed σ} {r : Request}
    (h : Live b.world s d) (hj : Joined b'.world s) (hx : x = .deliver s)
    (hm : (b.world.session s).mailbox.take.1 = some (.request r)) (hu : Takes s b.world u.world)
    (hrun : b' = u.receive s r) :
    (∃ d', Live b'.world s d' ∧ Goes s b d x b' d') ∨ Ending b'.world s := by
  let v := u.trace "runtime" ("process " ++ r.text u.world.marks)
  have hv : Takes s b.world v.world := hu.of_sessions rfl rfl rfl rfl rfl rfl
  have hlive := h.takes hv hm
  have hmail := (h.toSound.takes hv hm).2
  have hproper : r.IsProper := h.proper r (by rw [hmail]; exact List.mem_cons_self)
  have hrun' : b' = v.obey s r := by
    rw [hrun, receive, debugger_eq (h.takes hu hm).here, if_neg (by simp [h.running])]
  have hobey := obeyed_obey hlive.here hlive.listens hlive.orderly hproper
  rw [← hrun'] at hobey
  have hb : b'.world.breakpoints s = b.world.breakpoints s := by
    rw [hrun', breakpoints_of_tells (tells_obey v r), breakpoints_of_takes hv]
  by_cases hend : r = .terminate
  · subst hend
    refine .inr (hlive.leaves ?_ hj.debugger)
    rw [hrun']
    exact leaves_terminate hlive.here hlive.listens
  · have hgoes : ∀ d', Goes s b d x b' d' := fun d' =>
      .obeyed r v hx hv hlive hmail hproper hend hobey hb
    cases hobey with
    | resumed handle kind y hr hy hreports =>
        exact .inl ⟨_, hlive.reports hreports, hgoes _⟩
    | served o d' hr hy hworks hwaiting => exact .inl ⟨d', hlive.works hworks, hgoes _⟩
    | nudged thread hr f hf hbecomes =>
        exact .inl ⟨_, (hlive.becomes hbecomes h.listens h.running
          ((hlive.orderly.asks hf).mono hbecomes.tells.numbers)).1, hgoes _⟩
    | noted script point mode hr hbecomes =>
        have hord := hlive.orderly.mono hbecomes.tells.numbers
        exact .inl ⟨_, (hlive.becomes hbecomes h.listens h.running
          ⟨hord.keyed, hord.below, hord.distinct⟩).1, hgoes _⟩
    | left hr => exact absurd hr hend

/-- A deed leaves a live session live, or its interpreter ends. -/
theorem goes_or_ending {b b' : Bridge σ} {x : Deed σ} (h : Live b.world s d)
    (hm : Moves s b x b') (hj : Joined b'.world s) :
    (∃ d', Live b'.world s d' ∧ Goes s b d x b' d') ∨ Ending b'.world s := by
  cases hm with
  | asked hnone ha hb hn =>
      obtain ⟨rs, hrs, hg, hidle⟩ := ha.mailbox
      obtain ⟨hlive, hmail⟩ := h.posted ⟨ha.model, ha.debugger, hg, hidle⟩
        (fun r hr => (hrs r hr).isProper) hn
      exact .inl ⟨d, hlive, .asked rs hnone hrs rfl ha.model hmail hb hn⟩
  | changed p c hp hb hposted hn =>
      obtain ⟨hlive, hmail⟩ := h.posted hposted (fun r => isProper_of_mem_routed) hn
      exact .inl ⟨d, hlive, .changed p c hp rfl hposted.model hmail hb hn⟩
  | called i c hx hi hw hrun =>
      subst hi
      exact goes_or_ending_called h hj hx hw hrun
  | heard e u j hx hm hoffer hu he hw => exact .inl ⟨d, goes_of_heard h hj hx hm hoffer hu he hw⟩
  | obeyed r u hx hm hu hrun => exact goes_or_ending_obeyed h hj hx hm hu hrun

/-! ### Runs -/

/-! What waits for a session that is about to end is what waited before, less what it is handed,
and more requests. -/

section Ending

variable {b b' : Bridge σ} {x : Deed σ} {u : World}

omit [Inhabited σ] [Engine σ] in
/-- Requests come behind the news that the interpreter ended. -/
theorem ending_of_gains (rs : List Request) (hu : Sound u s)
    (htold : .event .engineTerminated ∈ u.mail s)
    (hmail : b.world.mail s = (b.handed s x).toList ++ u.mail s)
    (hmodel : (b'.world.session s).model = (u.session s).model)
    (hg : (u.session s).mailbox.Gains (rs.map .request) (b'.world.session s).mailbox)
    (hleft : ∀ d, (b'.world.session s).debugger = some d → d.Gone) (hj : Joined b'.world s) :
    Ending b'.world s ∧ ∃ rs : List Request,
      b.world.mail s ++ rs.map .request = (b.handed s x).toList ++ b'.world.mail s := by
  obtain ⟨hsound, hmail'⟩ := hu.gains hmodel hj.debugger hg
  refine ⟨⟨hsound, by rw [hmail']; exact List.mem_append_left _ htold, hleft⟩, rs, ?_⟩
  rw [hmail', hmail, List.append_assoc]

omit [Inhabited σ] [Engine σ] in
/-- A debugger that has left tells nothing any more. -/
theorem ending_of_tells (h : Ending b.world s) (hu : Sound u s)
    (htold : .event .engineTerminated ∈ u.mail s)
    (hmail : b.world.mail s = (b.handed s x).toList ++ u.mail s)
    (hsame : (u.session s).debugger = (b.world.session s).debugger) (ht : Tells s u b'.world)
    (hj : Joined b'.world s) :
    Ending b'.world s ∧ ∃ rs : List Request,
      b.world.mail s ++ rs.map .request = (b.handed s x).toList ++ b'.world.mail s := by
  obtain ⟨es, hg, hnil⟩ := ht.here.mailbox
  obtain rfl := hnil fun d hd => (h.left d (hsame ▸ hd)).attached
  refine ending_of_gains [] hu htold hmail ht.here.model hg (fun d' hd' => ?_) hj
  obtain ⟨d, hd, hyields⟩ := ht.here.debugger d' hd'
  exact hyields.gone (h.left d (hsame ▸ hd))

omit [Inhabited σ] [Engine σ] in
/-- An event other than the end of the interpreter leaves the news of the end where it is. -/
theorem ending_of_heard {e : Event} {j : Journal} (h : Ending b.world s) (hx : x = .deliver s)
    (hm : (b.world.session s).mailbox.take.1 = some (.event e)) (hu : Takes s b.world u)
    (he : Heard s e u (worldAfter (handleEvent s e) u))
    (hw : b'.world = { worldAfter (handleEvent s e) u with journal := j })
    (hj : Joined b'.world s) :
    Ending b'.world s ∧ ∃ rs : List Request,
      b.world.mail s ++ rs.map .request = (b.handed s x).toList ++ b'.world.mail s := by
  obtain ⟨hsound, hmail⟩ := h.toSound.takes hu hm
  have hsplit : b.world.mail s = (b.handed s x).toList ++ u.mail s := by
    rw [hmail, handed_of_takes hx hm]
    rfl
  have hsame : (u.session s).debugger = (b.world.session s).debugger := by rw [hu.here]
  have htold := h.told
  rw [hmail] at htold
  have hrun : b'.world.session s = (worldAfter (handleEvent s e) u).session s := by rw [hw]; rfl
  cases he with
  | shown hshows hend hbroken =>
      have houter : (b'.world.session s).outer = (u.session s).outer := by
        rw [hrun]
        exact outer_of_shell hshows.here
      have hd : (b'.world.session s).debugger = (b.world.session s).debugger :=
        (congrArg Session.debugger houter :).trans hsame
      refine ⟨⟨hsound.of_outer houter, ?_, fun d' hd' => h.left d' (hd ▸ hd')⟩, [], ?_⟩
      · rw [mail_of_outer houter]
        obtain he | htold := List.mem_cons.mp htold
        · cases he
          exact absurd rfl hend
        · exact htold
      · rw [mail_of_outer houter, hsplit]
        exact List.append_nil _
  | answered script thread root v handle kind he hok hv hid hposts =>
      subst he
      have houter : ((v.register s script).session s).outer = (u.session s).outer :=
        (outer_register v s script).trans (outer_of_shell hv.here)
      have hposted : ((v.register s script).session s).Posted (v.answers s script handle kind)
          (b'.world.session s) := by
        rw [hrun]
        exact hposts.here
      have hd : (b'.world.session s).debugger = (b.world.session s).debugger :=
        (hposted.debugger.trans (congrArg Session.debugger houter :)).trans hsame
      refine ending_of_gains _ (hsound.of_outer houter) ?_ ?_ hposted.model hposted.mailbox
        (fun d' hd' => h.left d' (hd ▸ hd')) hj
      · rw [mail_of_outer houter]
        exact (List.mem_cons.mp htold).resolve_left nofun
      · rw [mail_of_outer houter, hsplit]
  | closed v he hv hclosed => exact absurd hj (not_joined_of_closed hw hclosed)

/-- The news that the interpreter ended is not lost before the model hears of it, and nothing comes
behind it but requests. -/
theorem ending_of_moves (h : Ending b.world s) (hm : Moves s b x b') (hj : Joined b'.world s) :
    Ending b'.world s ∧ ∃ rs : List Request,
      b.world.mail s ++ rs.map .request = (b.handed s x).toList ++ b'.world.mail s := by
  cases hm with
  | asked hnone ha hb hn =>
      obtain ⟨rs, hrs, hg, hidle⟩ := ha.mailbox
      exact ending_of_gains _ h.toSound h.told (by rw [hnone]; rfl) ha.model hg
        (fun d' hd' => h.left d' (ha.debugger ▸ hd')) hj
  | changed p c hp hb hposted hn =>
      exact ending_of_gains _ h.toSound h.told (by rw [handed_of_point? hp]; rfl) hposted.model
        hposted.mailbox (fun d' hd' => h.left d' (hposted.debugger ▸ hd')) hj
  | called i c hx hi hw hrun =>
      subst hi
      exact ending_of_tells h h.toSound h.told (by rw [hx]; rfl) rfl (hrun ▸ tells_perform b i c) hj
  | heard e u j hx hm _ hu he hw => exact ending_of_heard h hx hm hu he hw hj
  | obeyed r u hx hm hu hrun =>
      obtain ⟨hsound, hmail⟩ := h.toSound.takes hu hm
      have htold := h.told
      rw [hmail] at htold
      refine ending_of_tells h hsound ((List.mem_cons.mp htold).resolve_left nofun) ?_
        (by rw [hu.here]) (hrun ▸ tells_receive u r) hj
      rw [hmail, handed_of_takes hx hm]
      rfl

end Ending

/-- What holds of a session when it is opened and what every deed keeps that leaves it joined holds
as long as it is joined. -/
theorem joined_induction {b : Bridge σ} (hb : b.Fresh) {J : List (Deed σ) → Prop}
    (hopened : ∀ ds setup d, s = (run ds b).world.sessions.size →
      Opened (run (ds ++ [.launch setup]) b).world s d → J (ds ++ [.launch setup]))
    (hstep : ∀ ds x, Joined (run ds b).world s → J ds → Joined ((run ds b).after x).world s →
      J (ds ++ [x]))
    (ds : List (Deed σ)) (hj : Joined (run ds b).world s) : J ds := by
  induction ds using List.reverseRecOn with
  | nil =>
      obtain ⟨reaction, hb⟩ := hb
      have halive := hj.alive
      rw [run_nil, hb] at halive
      cases halive
  | append_singleton ds x ih =>
      rw [run_append] at hj
      obtain hbefore | ⟨setup, rfl, rfl⟩ := joined_before (run ds b) x hj
      · exact hstep ds x hbefore (ih hbefore) hj
      · obtain ⟨d, hnew⟩ := exists_opened_launch (run ds b) setup hj
        exact hopened ds setup d rfl (run_append ds [.launch setup] b ▸ hnew)

/-- A session that is joined is live, or it is about to end. -/
theorem live_or_ending_run {b : Bridge σ} (hb : b.Fresh) (ds : List (Deed σ))
    (hj : Joined (run ds b).world s) :
    (∃ d, Live (run ds b).world s d) ∨ Ending (run ds b).world s := by
  refine joined_induction hb
    (J := fun ds => (∃ d, Live (run ds b).world s d) ∨ Ending (run ds b).world s)
    (fun ds setup d _ hopened => .inl ⟨d, hopened.toLive⟩) (fun ds x _ ih hj => ?_) ds hj
  have hmoves : ∀ hs : Sound (run ds b).world s, Moves s (run ds b) x ((run ds b).after x) :=
    fun hs => moves_of_joined _ (enrolled_run hb ds) hs x hj
  rw [run_append]
  obtain ⟨d, hlive⟩ | hending := ih
  · obtain ⟨d', hlive', -⟩ | hending := goes_or_ending hlive (hmoves hlive.toSound) hj
    · exact .inl ⟨d', hlive'⟩
    · exact .inr hending
  · exact .inr (ending_of_moves hending (hmoves hending.toSound) hj).1

/-- A session that is live was live before, or it was just opened. -/
theorem live_before {b : Bridge σ} (hb : b.Fresh) (ds : List (Deed σ)) (x : Deed σ)
    (h : Live (run (ds ++ [x]) b).world s d') :
    (∃ d, Live (run ds b).world s d ∧ Goes s (run ds b) d x (run (ds ++ [x]) b) d')
      ∨ (∃ setup, x = .launch setup ∧ s = (run ds b).world.sessions.size)
        ∧ Opened (run (ds ++ [x]) b).world s d' := by
  have hrun : run (ds ++ [x]) b = (run ds b).after x := run_append ds [x] b
  rw [hrun] at h ⊢
  have hj := h.toJoined
  obtain hbefore | ⟨setup, rfl, rfl⟩ := joined_before (run ds b) x hj
  · have hnot : ¬Ending ((run ds b).after x).world s := fun hending => by
      have hgone := (hending.left d' h.here).attached
      rw [h.listens] at hgone
      cases hgone
    have hmoves : ∀ hs : Sound (run ds b).world s, Moves s (run ds b) x ((run ds b).after x) :=
      fun hs => moves_of_joined _ (enrolled_run hb ds) hs x hj
    obtain ⟨d, hlive⟩ | hending := live_or_ending_run hb ds hbefore
    · obtain ⟨d₁, hlive', hgoes⟩ | hending := goes_or_ending hlive (hmoves hlive.toSound) hj
      · obtain rfl := Live.unique hlive' h
        exact .inl ⟨d, hlive, hgoes⟩
      · exact absurd hending hnot
    · exact absurd (ending_of_moves hending (hmoves hending.toSound) hj).1 hnot
  · obtain ⟨d, hopened⟩ := exists_opened_launch (run ds b) setup hj
    obtain rfl := Live.unique hopened.toLive h
    exact .inr ⟨⟨setup, rfl, rfl⟩, hopened⟩

/-- A session whose interpreter has not ended is live as long as it is attached. -/
theorem live_of_listens {b : Bridge σ} (hb : b.Fresh) (ds : List (Deed σ))
    (hl : ((run ds b).world.session s).alive = true)
    (ha : ((run ds b).world.session s).attached = true)
    (hd : ((run ds b).world.session s).debugger = some d) (hlisten : d.attached = true) :
    Live (run ds b).world s d := by
  have hj : Joined (run ds b).world s := ⟨hl, ha, by rw [hd]; rfl⟩
  obtain ⟨d', hlive⟩ | hending := live_or_ending_run hb ds hj
  · obtain rfl := Option.some.inj (hd.symm.trans hlive.here)
    exact hlive
  · rw [(hending.left d hd).attached] at hlisten
    cases hlisten

/-- A session with nothing on its way is live as long as it is attached. -/
theorem live_of_queue_eq_nil {b : Bridge σ} (hb : b.Fresh) (ds : List (Deed σ))
    (hl : ((run ds b).world.session s).alive = true)
    (ha : ((run ds b).world.session s).attached = true)
    (hd : ((run ds b).world.session s).debugger = some d)
    (hq : ((run ds b).world.session s).mailbox.queue = []) : Live (run ds b).world s d := by
  have hj : Joined (run ds b).world s := ⟨hl, ha, by rw [hd]; rfl⟩
  obtain ⟨d', hlive⟩ | hending := live_or_ending_run hb ds hj
  · obtain rfl := Option.some.inj (hd.symm.trans hlive.here)
    exact hlive
  · have htold := hending.told
    rw [mail, hq] at htold
    cases htold

/-- What holds of a session that was just opened, and is kept by every step of a live session,
holds as long as the session is live. -/
theorem live_induction {b : Bridge σ} (hb : b.Fresh) {J : List (Deed σ) → Debugger → Prop}
    (hopened : ∀ ds x d, Opened (run (ds ++ [x]) b).world s d → J (ds ++ [x]) d)
    (hstep : ∀ ds x d d', Live (run ds b).world s d → J ds d →
      Goes s (run ds b) d x (run (ds ++ [x]) b) d' → Live (run (ds ++ [x]) b).world s d' →
      J (ds ++ [x]) d')
    (ds : List (Deed σ)) (hlive : Live (run ds b).world s d) : J ds d := by
  induction ds using List.reverseRecOn generalizing d with
  | nil =>
      obtain ⟨reaction, hb⟩ := hb
      have halive := hlive.alive
      rw [run_nil, hb] at halive
      cases halive
  | append_singleton ds x ih =>
      obtain ⟨d₀, hbefore, hgoes⟩ | ⟨-, hnew⟩ := live_before hb ds x hlive
      · exact hstep ds x d₀ d hbefore (ih hbefore) hgoes hlive
      · exact hopened ds x d hnew

end Bridge

end DebugBridge
