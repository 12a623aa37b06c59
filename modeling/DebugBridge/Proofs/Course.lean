import DebugBridge.Proofs.History

/-!
# The course of one session

Seen from one session, a deed is one of few things. The session is opened, or its users ask for
something, or a breakpoint changes, or one of its threads makes a call, or it is handed a message.
Everything else happens elsewhere and leaves it alone.

From the moment its two sides are joined, a session that is held and attached is live: its debugger
listens, and nothing is on its way but what belongs to a session that goes on. Only when the
interpreter has ended this is over, and then the news of it is on its way too.

## Main definitions

* `World.Live`, `World.Ending`: a session that goes on, and one that is about to end;
* `Bridge.Moves`: what a deed is for one session.

## Main results

* `moves_after`: every deed is one of these things;
* `moves_of_joined`: so is every deed that leaves the two sides joined.
-/

namespace DebugBridge

namespace World

/-! ### Live sessions -/

/-- The two sides of a session are joined. -/
structure Joined (w : World) (s : Nat) : Prop where
  alive : (w.session s).alive = true
  attached : (w.session s).attached = true
  debugger : (w.session s).debugger.isSome = true

/-- A session that is joined and not over, with a mailbox in order. -/
structure Sound (w : World) (s : Nat) : Prop extends Joined w s where
  terminated : (w.session s).terminated = false
  subscribed : (w.session s).subscription.isSome = true
  isOpen : (w.session s).mailbox.isOpen = true
  unmarked : isMarked (w.session s).mailbox.queue = false

/-- A session that goes on. -/
structure Live (w : World) (s : Nat) (d : Debugger) : Prop extends Sound w s where
  here : (w.session s).debugger = some d
  listens : d.attached = true
  running : d.terminated = false
  orderly : d.Orderly w.nextNumber
  proper : ∀ r, .request r ∈ w.mail s → r.IsProper

/-- A live session has one debugger. -/
theorem Live.eq_of_debugger {w : World} {s : Nat} {d d' : Debugger} (h : Live w s d)
    (hd : (w.session s).debugger = some d') : d = d' :=
  Option.some.inj (h.here.symm.trans hd)

/-- A session that goes on has one debugger. -/
theorem Live.unique {w : World} {s : Nat} {d d' : Debugger} (h : Live w s d)
    (h' : Live w s d') : d = d' :=
  h.eq_of_debugger h'.here

/-- A session whose interpreter has ended, which the model has still to be told. -/
structure Ending (w : World) (s : Nat) : Prop extends Sound w s where
  told : .event .engineTerminated ∈ w.mail s
  left : ∀ d, (w.session s).debugger = some d → d.Gone

/-- What is gained is behind all that waits. -/
theorem mail_of_gains {w w' : World} {s : Nat} (h : Sound w s) {ms : List Message}
    (hg : (w.session s).mailbox.Gains ms (w'.session s).mailbox) :
    w'.mail s = w.mail s ++ ms := by
  unfold mail
  rw [hg.queue h.isOpen, deliverable_append_of_not_isMarked _ _ h.unmarked, deliverable_message]

/-- A session stays sound if its mailbox gains messages. -/
theorem Sound.of_gains {w w' : World} {s : Nat} (h : Sound w s) (hj : Joined w' s)
    (hm : (w'.session s).model = (w.session s).model) {ms : List Message}
    (hg : (w.session s).mailbox.Gains ms (w'.session s).mailbox) : Sound w' s where
  toJoined := hj
  terminated := (congrArg Session.terminated hm :).trans h.terminated
  subscribed := (congrArg (·.subscription.isSome) hm :).trans h.subscribed
  isOpen := hg.isOpen.trans h.isOpen
  unmarked := by rw [hg.queue h.isOpen, isMarked_append_message, h.unmarked]

/-! ### Messages that are taken -/

/-- The oldest message of a session was taken. -/
structure Takes (s : Nat) (w w' : World) : Prop where
  here : w'.session s = { w.session s with mailbox := (w.session s).mailbox.take.2 }
  elsewhere : ∀ t, t ≠ s → w'.session t = w.session t
  managers : w'.managers = w.managers
  reaction : w'.reaction = w.reaction
  numbers : w'.nextNumber = w.nextNumber
  marks : w'.marks = w.marks
  heap : w'.heap = w.heap

/-- It does not matter to a message that is taken what else happens beside sessions. -/
theorem Takes.of_sessions {s : Nat} {w u w' : World} (h : Takes s w u)
    (hs : w'.sessions = u.sessions) (hm : w'.managers = u.managers)
    (hr : w'.reaction = u.reaction) (hn : w'.nextNumber = u.nextNumber)
    (hmarks : w'.marks = u.marks) (hheap : w'.heap = u.heap) : Takes s w w' := by
  have hs' : ∀ t, w'.session t = u.session t := fun t => by rw [session, session, hs]
  exact ⟨(hs' s).trans h.here, fun t ht => (hs' t).trans (h.elsewhere t ht),
    hm.trans h.managers, hr.trans h.reaction, hn.trans h.numbers, hmarks.trans h.marks,
    hheap.trans h.heap⟩

/-- What a mailbox without a mark yields is the first message that waits. -/
theorem queue_of_take {w : World} {s : Nat} {m : Message}
    (hm : (w.session s).mailbox.take.1 = some m) :
    ∃ rest, (w.session s).mailbox.queue = .message m :: rest := by
  rw [Mailbox.take_fst] at hm
  cases hq : (w.session s).mailbox.queue with
  | nil => rw [hq] at hm; cases hm
  | cons envelope rest =>
      rw [hq] at hm
      cases envelope with
      | message m' =>
          cases hm
          exact ⟨rest, rfl⟩
      | shutdown => cases hm

end World

namespace Mailbox

variable {μ : Type}

/-- Taking a message leaves a mailbox open. -/
theorem isOpen_take (box : Mailbox μ) (h : isMarked box.queue = false) :
    box.take.2.isOpen = box.isOpen := by
  rw [← queue_turn] at h
  unfold take
  dsimp only
  split
  · exact isOpen_turn box
  · exact isOpen_turn box
  · next hf =>
      unfold queue at h
      rw [hf] at h
      cases h

/-- Where there is nothing to take, nothing changes. -/
theorem gains_take_none (box : Mailbox μ) (h : isMarked box.queue = false)
    (hm : box.take.1 = none) : box.Gains [] box.take.2 := by
  have hnil : box.queue = [] := by
    rw [take_fst] at hm
    cases hq : box.queue with
    | nil => rfl
    | cons envelope rest =>
        rw [hq] at hm h
        cases envelope with
        | message m => cases hm
        | shutdown => cases h
  refine ⟨isOpen_take box h, ?_⟩
  rw [queue_take, hnil]
  simp

end Mailbox

namespace World

/-- The message that is taken stood in front of what is left. -/
theorem Takes.queue {w u : World} {s : Nat} (hu : Takes s w u) {m : Message}
    (hm : (w.session s).mailbox.take.1 = some m) :
    (w.session s).mailbox.queue = .message m :: (u.session s).mailbox.queue := by
  obtain ⟨rest, hq⟩ := queue_of_take hm
  rw [hu.here, Mailbox.queue_take, hq]

/-- The message that is taken was the oldest of those that waited. -/
theorem Takes.mail_eq {w u : World} {s : Nat} (hu : Takes s w u) {m : Message}
    (hm : (w.session s).mailbox.take.1 = some m) : w.mail s = m :: u.mail s := by
  unfold mail
  rw [hu.queue hm]
  rfl

/-- A mailbox without a mark has none when a message was taken. -/
theorem Takes.unmarked {w u : World} {s : Nat} (hu : Takes s w u) {m : Message}
    (hm : (w.session s).mailbox.take.1 = some m)
    (h : isMarked (w.session s).mailbox.queue = false) :
    isMarked (u.session s).mailbox.queue = false := by
  rw [hu.queue hm] at h
  exact h

/-- A mailbox without a mark is open or not when a message was taken, as it was before. -/
theorem Takes.isOpen {w u : World} {s : Nat} (hu : Takes s w u)
    (h : isMarked (w.session s).mailbox.queue = false) :
    (u.session s).mailbox.isOpen = (w.session s).mailbox.isOpen := by
  rw [hu.here]
  exact Mailbox.isOpen_take _ h

/-- A session that is handed a message is as sound as before, and has one message less. -/
theorem Sound.takes {w u : World} {s : Nat} (h : Sound w s) (hu : Takes s w u) {m : Message}
    (hm : (w.session s).mailbox.take.1 = some m) :
    Sound u s ∧ w.mail s = m :: u.mail s := by
  refine ⟨⟨⟨?_, ?_, ?_⟩, ?_, ?_, (hu.isOpen h.unmarked).trans h.isOpen,
    hu.unmarked hm h.unmarked⟩, hu.mail_eq hm⟩
  · rw [hu.here]; exact h.alive
  · rw [hu.here]; exact h.attached
  · rw [hu.here]; exact h.debugger
  · rw [hu.here]; exact h.terminated
  · rw [hu.here]; exact h.subscribed

/-- A session goes on when a message was taken. -/
theorem Live.takes {w u : World} {s : Nat} {d : Debugger} (h : Live w s d) (hu : Takes s w u)
    {m : Message} (hm : (w.session s).mailbox.take.1 = some m) : Live u s d where
  toSound := (h.toSound.takes hu hm).1
  here := by rw [hu.here]; exact h.here
  listens := h.listens
  running := h.running
  orderly := hu.numbers ▸ h.orderly
  proper r hr := h.proper r ((h.toSound.takes hu hm).2 ▸ List.mem_cons_of_mem _ hr)

end World

/-! ### What a deed is for one session -/

/-- How a change of a breakpoint shows among the breakpoints of a manager. -/
def BreakpointChange.Rewrites (c : BreakpointChange) (p : Breakpoint)
    (old new : List Breakpoint) : Prop :=
  match c with
  | .added => (∀ q ∈ old, q.id ≠ p.id) ∧ new = old ++ [p]
  | .removed => (∃ q ∈ old, q.id = p.id) ∧ new = old.filter fun q => q.id ≠ p.id
  | .changed => (∃ q ∈ old, q.id = p.id) ∧ new = old

/-- The breakpoint that a deed is about. -/
def Deed.point? {σ : Type} : Deed σ → Option Breakpoint
  | .addBreakpoint _ p | .removeBreakpoint _ p | .enableBreakpoint _ p _ => some p
  | _ => none

/-- The breakpoints that a session is told of. -/
def World.breakpoints (w : World) (s : Nat) : List Breakpoint :=
  (w.manager (w.session s).manager).breakpoints

namespace Bridge

open World

variable {σ : Type} [Inhabited σ] [Engine σ]

/-- What a deed is for one session. -/
inductive Moves (s : Nat) (b : Bridge σ) (d : Deed σ) (b' : Bridge σ) : Prop where
  /-- Its users ask for something, or nothing happens to it. -/
  | asked (hm : b.handed s d = none) (h : (b.world.session s).Asked (b'.world.session s))
      (hb : b'.world.breakpoints s = b.world.breakpoints s)
      (hn : b.world.nextNumber ≤ b'.world.nextNumber)
  /-- It is told that a breakpoint changed. -/
  | changed (p : Breakpoint) (c : BreakpointChange) (hp : d.point? = some p)
      (hb : c.Rewrites p (b.world.breakpoints s) (b'.world.breakpoints s))
      (h : (b.world.session s).Posted (b.world.routed s p c) (b'.world.session s))
      (hn : b.world.nextNumber ≤ b'.world.nextNumber)
  /-- One of its threads makes a call. -/
  | called (i : Interpreter) (c : Call) (hd : d = .call i c) (hi : i.session = s)
      (hw : b.isWaiting i = false) (h : b' = (b.perform i c).2)
  /-- Its model hears of an event. -/
  | heard (e : Event) (u : World) (j : Journal) (hd : d = .deliver s)
      (hm : (b.world.session s).mailbox.take.1 = some (.event e))
      (ho : u = (b.offered s (.event e)).world) (hu : Takes s b.world u)
      (h : Heard s e u (worldAfter (handleEvent s e) u))
      (hw : b'.world = { worldAfter (handleEvent s e) u with journal := j })
  /-- Its debugger takes a request. -/
  | obeyed (r : Request) (u : Bridge σ) (hd : d = .deliver s)
      (hm : (b.world.session s).mailbox.take.1 = some (.request r)) (hu : Takes s b.world u.world)
      (h : b' = u.receive s r)

/-! ### Deeds elsewhere -/

/-- What happens elsewhere leaves a session as it is, but for what it knows of frames. -/
structure Spares (s : Nat) (w w' : World) : Prop where
  here : (w'.session s).unframed = (w.session s).unframed
  breakpoints : ∀ m, (w'.manager m).breakpoints = (w.manager m).breakpoints
  numbers : w.nextNumber ≤ w'.nextNumber

variable {s t : Nat}

/-- What each step spares a sequence of them spares. -/
theorem steady_spares (s : Nat) : Steady (Spares s) where
  refl _ := ⟨rfl, fun _ => rfl, Nat.le_refl _⟩
  trans h h' :=
    ⟨h'.here.trans h.here, fun m => (h'.breakpoints m).trans (h.breakpoints m),
      Nat.le_trans h.numbers h'.numbers⟩

/-- Managers that are left as they are have their breakpoints. -/
theorem breakpoints_of_managers {w w' : World} (h : w'.managers = w.managers) (m : Nat) :
    (w'.manager m).breakpoints = (w.manager m).breakpoints := by
  rw [manager, manager, h]

/-- A step that is still spares every session. -/
theorem spares_of_still {w w' : World} (h : Still w w') : Spares s w w' :=
  ⟨h.everywhere s, breakpoints_of_managers h.managers, h.numbers⟩

/-- A step of one interpreter side spares all other sessions. -/
theorem spares_of_tells {w w' : World} (hst : s ≠ t) (h : Tells t w w') : Spares s w w' :=
  ⟨by rw [h.elsewhere s hst], breakpoints_of_managers h.managers, h.numbers⟩

/-- A step that changes what one session shows spares all others. -/
theorem spares_of_shows {ts : List Script} {w w' : World} (hst : s ≠ t)
    (h : Shows t ts w w') : Spares s w w' :=
  ⟨h.elsewhere s hst, breakpoints_of_managers h.managers, h.numbers⟩

/-- Requests that come to one session spare all others. -/
theorem spares_of_posts {w w' : World} {rs : List Request} (hst : s ≠ t) (h : Posts t rs w w') :
    Spares s w w' :=
  ⟨by rw [h.elsewhere s hst], breakpoints_of_managers h.managers, h.numbers⟩

/-- A change of one session spares all others. -/
theorem spares_modifySession (w : World) (hst : s ≠ t) (f : Session → Session) :
    Spares s w (w.modifySession t f) := by
  refine ⟨?_, fun _ => rfl, Nat.le_refl _⟩
  rw [session_modifySession, if_neg (Ne.symm hst)]

/-- A session that is closed spares all others. -/
theorem spares_close (w : World) (hst : s ≠ t) : Spares s w (w.close t) := by
  refine ⟨by rw [session_close_of_ne w hst], breakpoints_close w t, ?_⟩
  unfold close
  dsimp only
  split
  · exact Nat.le_refl _
  · split <;> exact Nat.le_refl _

/-- What spares a session is nothing that happens to it. -/
theorem Spares.moves {b b' : Bridge σ} {d : Deed σ} (h : Spares s b.world b'.world)
    (hm : b.handed s d = none) : Moves s b d b' := by
  refine .asked hm (.of_unframed h.here) ?_ h.numbers
  have hm : (b'.world.session s).manager = (b.world.session s).manager :=
    (congrArg Session.manager h.here :)
  rw [World.breakpoints, World.breakpoints, hm, h.breakpoints]

/-- A request that one session sends spares all others. -/
theorem spares_post (w : World) (hst : s ≠ t) (r : Request) : Spares s w (w.post t r) := by
  obtain ⟨rs, hposts⟩ := exists_posts_post w t r
  exact spares_of_posts hst hposts

/-- What one session hears does not show in another. -/
theorem spares_handleEvent (hst : s ≠ t) (e : Event) : Keeps (Spares s) (handleEvent t e) :=
  keeps_handleEvent (steady_spares s) (fun hshows => spares_of_shows hst hshows)
    (fun w _ => spares_modifySession w hst _) (fun w r => spares_post w hst r)
    (fun w => spares_close w hst) e

/-- What one session is handed does not show in another. -/
theorem spares_handOver (hst : s ≠ t) (b : Bridge σ) :
    Spares s b.world (b.handOver t).world := by
  refine related_handOver (steady_spares s) b (fun hs hm hr hn _ => ?_)
    (fun w => spares_modifySession w hst _) (fun htells => spares_of_tells hst htells)
    fun e _ => spares_handleEvent hst e
  exact spares_of_still (.of_sessions hs hm hr (Nat.le_of_eq hn.symm))

/-- Users that disconnect from one session spare all others. -/
theorem spares_disconnect (hst : s ≠ t) (w : World) :
    Spares s w (worldAfter (DebugBridge.disconnect t) w) := by
  have h := steady_spares s
  obtain ⟨-, hrun⟩ | ⟨-, u, ⟨-, rs, -, hu⟩, hend⟩ := disconnect_cases t w
  · rw [hrun]
    exact h.refl w
  · rw [hend]
    exact h.trans (spares_of_posts hst hu) (h.trans (spares_post u hst _)
      (h.trans (spares_close _ hst) (spares_of_still (still_endSession t _))))

omit [Inhabited σ] [Engine σ] in
/-- Nothing is known of a session that was not opened yet. -/
theorem session_of_le {w : World} (h : w.sessions.size ≤ s) : w.session s = .absent := by
  rw [session, Arena.get, Array.getElem?_eq_none h]
  rfl

omit [Inhabited σ] [Engine σ] in
/-- A session that is there was opened. -/
theorem lt_of_alive {w : World} (h : (w.session s).alive = true) : s < w.sessions.size := by
  by_contra hsize
  rw [session_of_le (Nat.not_lt.mp hsize)] at h
  cases h

omit [Inhabited σ] [Engine σ] in
/-- A session that is there is not the one that is opened. -/
theorem spares_launch (b : Bridge σ) (setup : Setup) (hs : s ≠ b.world.sessions.size) :
    Spares s b.world (b.launch setup).2.world := by
  have h := steady_spares s
  have hopen : Spares s b.world (b.world.opened setup) := by
    refine ⟨?_, fun m => ?_, Nat.le_refl _⟩
    · rw [session_opened, if_neg hs]
    · have hm := manager_modifyManager
        { b.world with sessions := b.world.sessions.push (b.world.newSession setup) }
        setup.manager m (·.subscribe (.session b.world.sessions.size))
      have hbp : ((b.world.opened setup).manager m).breakpoints
          = (if setup.manager = m
              then (b.world.manager setup.manager).subscribe (.session b.world.sessions.size)
              else b.world.manager m).breakpoints := congrArg _ hm
      rw [hbp]
      split
      · next hm' => rw [← hm']; rfl
      · rfl
  have htold : ∀ j, Spares s b.world { b.world.opened setup with journal := j } := fun j =>
    h.trans hopen ⟨rfl, fun _ => rfl, Nat.le_refl _⟩
  have hadd : ∀ w : World, Spares s w (w.addDebugger b.world.sessions.size) := fun w =>
    spares_modifySession w hs _
  have hjoin : ∀ w : World, Spares s w (w.joinSides b.world.sessions.size) := fun w =>
    h.trans (spares_modifySession w hs fun session =>
      { session with attached := true, mailbox := ∅ }) (spares_modifySession _ hs _)
  obtain ⟨j, hrun | hrun⟩ := world_launch b setup
  · rw [hrun]
    refine h.trans (htold j) ?_
    unfold joined
    cases setup.withDebugger with
    | true =>
        cases setup.joined with
        | true => exact h.trans (hadd _) (hjoin _)
        | false => exact hadd _
    | false =>
        cases setup.joined with
        | true => exact hjoin _
        | false => exact h.refl _
  · rw [hrun]
    exact h.trans (htold j) (spares_modifySession _ hs _)

/-! ### Changes of breakpoints -/

omit [Inhabited σ] [Engine σ] in
/-- Who changes a breakpoint hands nothing over. -/
theorem handed_of_point? {b : Bridge σ} {d : Deed σ} {p : Breakpoint} (hp : d.point? = some p) :
    b.handed s d = none := by
  cases d with
  | deliver => cases hp
  | _ => rfl

/-- A breakpoint of some manager is changed, and then that is announced. -/
theorem moves_announce {b b' : Bridge σ} {d : Deed σ} (hs : Sound b.world s) (u : World) (m : Nat)
    (p : Breakpoint) (c : BreakpointChange) (hp : d.point? = some p) (hu : Enrolled u)
    (hsession : u.session s = b.world.session s)
    (hother : ∀ m', m' ≠ m → (u.manager m').breakpoints = (b.world.manager m').breakpoints)
    (hb : c.Rewrites p (b.world.manager m).breakpoints (u.manager m).breakpoints)
    (hn : b.world.nextNumber ≤ u.nextNumber) (hb' : b'.world = u.announce m p c) :
    Moves s b d b' := by
  obtain ⟨n, hsub⟩ := Option.isSome_iff_exists.mp hs.subscribed
  have hposted := posted_announce u hu (s := s) (n := n) m p c (by rw [hsession, hs.alive])
    (by rw [hsession, hs.attached]) (by rw [hsession, hsub])
  rw [hsession, routed_congr hsession, ← hb'] at hposted
  have hmanager : (b'.world.session s).manager = (b.world.session s).manager :=
    (congrArg Session.manager hposted.model :)
  have hnew : b'.world.breakpoints s = (u.manager (b.world.session s).manager).breakpoints := by
    rw [World.breakpoints, hmanager, hb', breakpoints_announce]
  have hnumbers : b.world.nextNumber ≤ b'.world.nextNumber := by
    rw [hb', announce_eq]
    exact Nat.le_trans hn (numbers_tellAll p c _ (u.prune m))
  split at hposted
  · next hm =>
      refine .changed p c hp ?_ hposted hnumbers
      rw [hnew, World.breakpoints, hm]
      exact hb
  · next hm =>
      refine .asked (handed_of_point? hp) ⟨hposted.model, hposted.debugger, [],
        List.forall_mem_nil _, hposted.mailbox, fun _ => rfl⟩ ?_ hnumbers
      rw [hnew, World.breakpoints, hother _ hm]

/-- A change of one manager leaves the breakpoints of all others. -/
theorem breakpoints_modifyManager (w : World) (m : Nat) (f : List Breakpoint → List Breakpoint)
    (m' : Nat) : ((w.modifyManager m fun manager =>
      { manager with breakpoints := f manager.breakpoints }).manager m').breakpoints
        = if m = m' then f (w.manager m).breakpoints else (w.manager m').breakpoints := by
  have h := manager_modifyManager w m m' fun manager =>
    { manager with breakpoints := f manager.breakpoints }
  rw [h]
  split <;> rfl

/-- A breakpoint that is added is passed on to a session that listens. -/
theorem moves_addBreakpoint (b : Bridge σ) (he : Enrolled b.world) (hs : Sound b.world s)
    (m : Nat) (p : Breakpoint) :
    Moves s b (.addBreakpoint m p) (b.after (.addBreakpoint m p)) := by
  cases hp : (b.world.manager m).has p with
  | true =>
      refine Spares.moves ?_ rfl
      have hrun : b.world.addBreakpoint m p = b.world := by
        rw [addBreakpoint, if_pos hp]
      change Spares s b.world (b.world.addBreakpoint m p)
      rw [hrun]
      exact (steady_spares s).refl _
  | false =>
      let u := b.world.modifyManager m fun manager =>
        { manager with breakpoints := manager.breakpoints ++ [p] }
      have hbp := breakpoints_modifyManager b.world m (· ++ [p])
      have hrun : (b.after (.addBreakpoint m p)).world = u.announce m p .added := by
        change b.world.addBreakpoint m p = _
        rw [addBreakpoint, if_neg (by simp [hp])]
      refine moves_announce hs u m p .added rfl
        (enrolled_modifyBreakpoints b.world he m (· ++ [p])) rfl (fun m' hm' => ?_) ⟨?_, ?_⟩
        (Nat.le_refl _) hrun
      · rw [hbp, if_neg (Ne.symm hm')]
      · intro q hq hid
        have h := (BreakpointManager.has_iff (b.world.manager m) p).mpr ⟨q, hq, hid⟩
        rw [hp] at h
        cases h
      · rw [hbp, if_pos rfl]

/-- A breakpoint that is removed is passed on to a session that listens. -/
theorem moves_removeBreakpoint (b : Bridge σ) (he : Enrolled b.world) (hs : Sound b.world s)
    (m : Nat) (p : Breakpoint) :
    Moves s b (.removeBreakpoint m p) (b.after (.removeBreakpoint m p)) := by
  cases hp : (b.world.manager m).has p with
  | false =>
      refine Spares.moves ?_ rfl
      have hrun : b.world.removeBreakpoint m p = (false, b.world) := by
        rw [removeBreakpoint, if_neg (by simp [hp])]
      change Spares s b.world (b.world.removeBreakpoint m p).2
      rw [hrun]
      exact (steady_spares s).refl _
  | true =>
      let keep := List.filter fun q : Breakpoint => q.id ≠ p.id
      let u := b.world.modifyManager m fun manager =>
        { manager with breakpoints := keep manager.breakpoints }
      have hbp := breakpoints_modifyManager b.world m keep
      have hrun : (b.after (.removeBreakpoint m p)).world = u.announce m p .removed := by
        change (b.world.removeBreakpoint m p).2 = _
        rw [removeBreakpoint, if_pos hp]
      refine moves_announce hs u m p .removed rfl
        (enrolled_modifyBreakpoints b.world he m keep) rfl (fun m' hm' => ?_)
        ⟨(BreakpointManager.has_iff _ p).mp hp, ?_⟩ (Nat.le_refl _) hrun
      · rw [hbp, if_neg (Ne.symm hm')]
      · rw [hbp, if_pos rfl]

/-- A breakpoint that is enabled or disabled is passed on to a session that listens. -/
theorem moves_enableBreakpoint (b : Bridge σ) (he : Enrolled b.world) (hs : Sound b.world s)
    (m : Nat) (p : Breakpoint) (enabled : Bool) :
    Moves s b (.enableBreakpoint m p enabled) (b.after (.enableBreakpoint m p enabled)) := by
  let u : World := { b.world with marks := b.world.marks.enable p enabled }
  by_cases hp : b.world.marks.isEnabled p ≠ enabled ∧ (u.manager m).has p
  · have hrun : (b.after (.enableBreakpoint m p enabled)).world = u.announce m p .changed := by
      change b.world.enableBreakpoint m p enabled = _
      rw [enableBreakpoint]
      exact if_pos hp
    exact moves_announce hs u m p .changed rfl (he.congr rfl rfl) rfl (fun _ _ => rfl)
      ⟨(BreakpointManager.has_iff _ p).mp hp.2, rfl⟩ (Nat.le_refl _) hrun
  · refine Spares.moves ?_ rfl
    have hrun : b.world.enableBreakpoint m p enabled = u := by
      rw [enableBreakpoint]
      exact if_neg hp
    change Spares s b.world (b.world.enableBreakpoint m p enabled)
    rw [hrun]
    exact ⟨rfl, fun _ => rfl, Nat.le_refl _⟩

/-! ### Every deed -/

omit [Inhabited σ] [Engine σ] in
/-- A bridge that takes a message takes the oldest one of the session. -/
theorem takes_take (b : Bridge σ) : Takes s b.world (b.take s).2.world := by
  refine ⟨?_, fun t ht => ?_, rfl, rfl, rfl, rfl, rfl⟩
  · exact (session_modifySession ..).trans (if_pos rfl)
  · exact (session_modifySession ..).trans (if_neg (Ne.symm ht))

/-- A session is handed its oldest message, if there is one. -/
theorem moves_handOver (b : Bridge σ) (hs : Sound b.world s) :
    Moves s b (.deliver s) (b.after (.deliver s)) := by
  let box := (b.world.session s).mailbox
  let w := b.world.modifySession s fun session => { session with mailbox := box.take.2 }
  have htake : b.take s = (box.take.1, { b with world := w }) := rfl
  have hw : Takes s b.world w := takes_take b
  cases hm : box.take.1 with
  | none =>
      have hrun : b.after (.deliver s) = { b with world := w } := by
        change b.handOver s = _
        rw [handOver, htake, hm]
      rw [hrun]
      refine .asked ((if_pos rfl).trans hm) ⟨?_, ?_, [], List.forall_mem_nil _, ?_, fun _ => rfl⟩ ?_
        (Nat.le_refl _)
      · change (w.session s).model = _
        rw [hw.here]
        rfl
      · change (w.session s).debugger = _
        rw [hw.here]
      · change box.Gains [] (w.session s).mailbox
        rw [hw.here]
        exact Mailbox.gains_take_none box hs.unmarked hm
      · change w.breakpoints s = b.world.breakpoints s
        rw [World.breakpoints, hw.here]
        rfl
  | some m =>
      let u : Bridge σ := ({ b with world := w } : Bridge σ).trace "dispatcher"
        ("route " ++ m.text w.marks)
      have hu : Takes s b.world u.world := hw.of_sessions rfl rfl rfl rfl rfl rfl
      have hjoined := (hs.takes hu hm).1.toJoined
      cases m with
      | event e =>
          obtain ⟨j, hj⟩ := world_deliverEvent u s e
          have hrun : b.after (.deliver s) = u.deliverEvent s e := by
            change b.handOver s = _
            rw [handOver, htake, hm]
            rfl
          exact .heard e u.world j rfl hm rfl hu
            (heard_handleEvent s e u.world hjoined.alive hjoined.attached) (hrun ▸ hj)
      | request r =>
          let v := u.onWorld (·.noteReceived s r)
          have hv : Takes s b.world v.world := hu.of_sessions rfl rfl rfl rfl rfl rfl
          have hrun : b.after (.deliver s) = v.receive s r := by
            change b.handOver s = _
            rw [handOver, htake, hm]
            exact if_pos hjoined.debugger
          exact .obeyed r v rfl hm hv hrun

/-- Whatever is done, a session moves in one of few ways, unless it is disconnected or given up. -/
theorem moves_after (b : Bridge σ) (he : Enrolled b.world) (hs : Sound b.world s) (d : Deed σ)
    (hstay : d ≠ .disconnect s) (hkeep : d ≠ .dropSession s) : Moves s b d (b.after d) := by
  have hasked : b.handed s d = none → Asks b.world (b.after d).world → Moves s b d (b.after d) := by
    intro hm h
    refine .asked hm (h.everywhere s) ?_ h.numbers
    have hm : ((b.after d).world.session s).manager = (b.world.session s).manager :=
      (congrArg Session.manager (h.everywhere s).model :)
    rw [World.breakpoints, World.breakpoints, hm, manager, h.managers]
    rfl
  have hasks : ∀ {α : Type} {op : Act α}, b.handed s d = none → Keeps Asks op →
      (b.after d).world = (b.act op).2.world → Moves s b d (b.after d) := by
    intro α op hm hkeeps hrun
    have h := hkeeps b.world
    rw [← world_act, ← hrun] at h
    exact hasked hm h
  have hstill : b.handed s d = none → Still b.world (b.after d).world →
      Moves s b d (b.after d) := fun hm h => (spares_of_still h).moves hm
  cases d with
  | launch setup =>
      exact (spares_launch b setup (Nat.ne_of_lt (lt_of_alive hs.alive))).moves rfl
  | call i c =>
      have hrun : b.after (.call i c) = if b.isWaiting i then b else (b.perform i c).2 := rfl
      cases hw : b.isWaiting i with
      | true =>
          rw [hrun, hw]
          exact ((steady_spares s).refl b.world).moves rfl
      | false =>
          rw [hw] at hrun
          by_cases hi : i.session = s
          · exact .called i c rfl hi hw hrun
          · rw [hrun]
            exact (spares_of_tells (Ne.symm hi) (tells_perform b i c)).moves rfl
  | deliver t =>
      by_cases ht : s = t
      · subst ht
        exact moves_handOver b hs
      · exact (spares_handOver ht b).moves (if_neg (Ne.symm ht))
  | order t i c => exact hasks rfl (keeps_commandThread t i c) rfl
  | orderTarget t c => exact hasks rfl (keeps_commandTarget t c) rfl
  | disconnect t =>
      have hrun : (b.after (.disconnect t)).world
          = worldAfter (DebugBridge.disconnect t) b.world := world_act b _
      refine Spares.moves ?_ rfl
      rw [hrun]
      exact spares_disconnect (fun ht => hstay (congrArg Deed.disconnect ht.symm)) b.world
  | dropSession t =>
      have hst : s ≠ t := fun ht => hkeep (congrArg Deed.dropSession ht.symm)
      exact Spares.moves (spares_modifySession b.world hst _) rfl
  | readFrames t i => exact hasks rfl (keeps_stackFrames t i) rfl
  | readVariables f => exact hasks rfl (keeps_frameVariables f) rfl
  | watch expression context listener =>
      exact hasks rfl (keeps_evaluateIn expression context listener) rfl
  | assign x expression => exact hasks rfl (keeps_assignVariable x expression) rfl
  | setDirty f => exact hasks rfl (plain_setDirty f).asks rfl
  | setAttribute t key value =>
      have hrun : (b.after (.setAttribute t key value)).world
          = worldAfter (DebugBridge.setAttribute t key value) b.world := world_act b _
      have h := asks_setAttribute t key value b.world
      rw [← hrun] at h
      exact hasked rfl h
  | addBreakpoint m p => exact moves_addBreakpoint b he hs m p
  | removeBreakpoint m p => exact moves_removeBreakpoint b he hs m p
  | enableBreakpoint m p enabled => exact moves_enableBreakpoint b he hs m p enabled
  | listen m name =>
      exact Spares.moves ⟨rfl, breakpoints_addListener b.world m name, Nat.le_refl _⟩ rfl
  | takeNumber => exact hstill rfl (.of_sessions rfl rfl rfl (Nat.le_succ _))
  | _ => exact hstill rfl (.of_sessions rfl rfl rfl (Nat.le_refl _))

omit [Inhabited σ] [Engine σ] in
/-- A session that is disconnected is not attached any more. -/
theorem attached_disconnect (w : World) (ht : (w.session s).terminated = false) :
    ((worldAfter (DebugBridge.disconnect s) w).session s).attached = false := by
  obtain ⟨hend, -⟩ | ⟨-, u, -, hend⟩ := disconnect_cases s w
  · rw [ht] at hend
    cases hend
  · rw [hend]
    exact (Session.eq_of_unframed Session.attached (fun _ => rfl)
      ((still_endSession s (u.post s .disconnect)).everywhere s)).trans (attached_close _ s)

/-- A session that is given up is not joined. -/
theorem ne_dropSession_of_joined {b : Bridge σ} {d : Deed σ} (hj : Joined (b.after d).world s) :
    d ≠ .dropSession s := by
  rintro rfl
  have halive := hj.alive
  change ((b.world.dropSession s).session s).alive = true at halive
  rw [dropSession, session_modifySession, if_pos rfl] at halive
  cases halive

/-- A session that is still joined moves in one of few ways. -/
theorem moves_of_joined (b : Bridge σ) (he : Enrolled b.world) (hs : Sound b.world s) (d : Deed σ)
    (hj : Joined (b.after d).world s) : Moves s b d (b.after d) := by
  refine moves_after b he hs d ?_ (ne_dropSession_of_joined hj)
  rintro rfl
  have hatt := hj.attached
  have hrun : (b.after (.disconnect s)).world
      = worldAfter (DebugBridge.disconnect s) b.world := world_act b _
  rw [hrun, attached_disconnect b.world hs.terminated] at hatt
  cases hatt

end Bridge

end DebugBridge
