import DebugBridge.Proofs.Costs

/-!
# Pumping comes to an end

To pump a session is to deliver its messages until none is left. What can still follow from the
messages that wait, from the executions and from the calls that threads have still to make is bounded
by a number, and every delivery lowers it. So the number of deliveries for which a bridge allows is
always enough, and no message is left behind.

## Main definitions

* `Bridge.bound`: a bound on what follows from a state;
* `Bridge.Within`: a bridge that delivers messages, no more than a number.

## Main results

* `Within.settle`, `Within.deliver`: threads that go on, and a message that is delivered, stay within
  what was foreseen;
* `queue_pump`: no message is left after a session was pumped.
-/

namespace DebugBridge

-- Sums start from the zero of core, whatever algebra is in scope.
attribute [local instance (high)] Zero.ofOfNat0

namespace Bridge

open World

variable {σ : Type} [Inhabited σ] [Engine σ] {n s : Nat} {b : Bridge σ}

/-! ### What interpreter threads have still to do -/

/-- Variables that are reported give no thread other work. -/
theorem interpreters_reportVariables (b : Bridge σ) (frame : FrameRef) :
    (b.reportVariables s frame).interpreters = b.interpreters := by
  unfold reportVariables askEngine
  dsimp only
  split
  · next b' h =>
      obtain ⟨-, rfl⟩ := Prod.mk.inj h
      rfl
  · next reports b' h =>
      obtain ⟨-, rfl⟩ := Prod.mk.inj h
      rfl

/-- A request that is served gives no thread other work. -/
theorem interpreters_serve (b : Bridge σ) (x : Execution) (r : Request) :
    (b.serve s x r).interpreters = b.interpreters := by
  unfold serve
  split
  · rfl
  · exact interpreters_reportVariables b _
  · split
    · rfl
    · exact (interpreters_reportVariables _ _).trans (inward_tryAssign b _ _ _).interpreters
  · exact (inward_evaluate b _ _).interpreters
  · rfl

/-- Requests that are served give no thread other work. -/
theorem interpreters_serveAll (x : Execution) (rs : List Request) (b : Bridge σ) :
    (serveAll s x rs b).interpreters = b.interpreters := by
  induction rs generalizing b with
  | nil => rfl
  | cons r rs ih => exact (ih _).trans (interpreters_serve _ x r)

/-- A request for a thread gives no thread other work. -/
theorem interpreters_enqueue (b : Bridge σ) (handle : Handle) (r : Request) :
    (b.enqueue s handle r).interpreters = b.interpreters := by
  unfold enqueue
  split
  · rfl
  · next x _ =>
      split
      · exact interpreters_serve (b.onWorld (·.setActor x.handle.name)) x r
      · rfl

omit [Engine σ] in
/-- An engine that is asked gives no thread other work. -/
theorem interpreters_askEngine {α : Type} (b : Bridge σ) (ask : σ → α × σ) :
    (b.askEngine s ask).2.interpreters = b.interpreters :=
  rfl

/-- An engine that is asked to terminate gives no thread other work. -/
theorem interpreters_terminate (b : Bridge σ) :
    (b.terminate s).interpreters = b.interpreters := by
  unfold terminate
  have hasked := interpreters_askEngine (s := s) (b.onWorld (·.clearTable s)) Engine.terminate
  cases hask : (b.onWorld (·.clearTable s)).askEngine s Engine.terminate with
  | mk result u =>
      rw [hask] at hasked
      cases result <;> exact hasked

/-- A request that is taken gives no thread other work. -/
theorem interpreters_receive (b : Bridge σ) (r : Request) :
    (b.receive s r).interpreters = b.interpreters := by
  unfold receive
  split
  · rfl
  · cases r with
    | terminate => exact interpreters_terminate _
    | setVariable context binding name expression =>
        simp only [obey]
        split
        · exact interpreters_enqueue _ _ _
        · rfl
    | getStackFrames thread => exact interpreters_enqueue _ _ _
    | getVariables frame => exact interpreters_enqueue _ _ _
    | evaluate expression frame thread listener => exact interpreters_enqueue _ _ _
    | _ => rfl

/-- A thread that is held up is given no other work. -/
theorem interpreters_suspend (b : Bridge σ) (i : Interpreter) (gate : Gate)
    (event : Execution → Event) : (b.suspend i gate event).interpreters = b.interpreters := by
  unfold suspend
  split
  · exact interpreters_serveAll _ _ _
  · rfl

/-- A call gives no thread other work. -/
theorem interpreters_perform (b : Bridge σ) (i : Interpreter) (c : Call) :
    (b.perform i c).2.interpreters = b.interpreters := by
  cases c with
  | scriptStarted script =>
      change (b.startScript i script).interpreters = _
      unfold startScript
      split
      · exact interpreters_suspend _ _ _ _
      · rfl
  | line script number =>
      change (b.startLine i script number).interpreters = _
      unfold startLine
      split
      · split
        · rfl
        · exact interpreters_suspend _ _ _ _
      · rfl
  | _ => rfl

/-! ### The numbers of interpreter threads -/

omit [Inhabited σ] [Engine σ] in
/-- A thread that is put back keeps its number, and so do the others. -/
theorem ids_putInterpreter (b : Bridge σ) (i : Interpreter) :
    (b.putInterpreter i).interpreters.map Interpreter.id = b.interpreters.map Interpreter.id := by
  refine (List.map_map ..).trans (List.map_congr_left fun x _ => ?_)
  change (if x.id = i.id then i else x).id = x.id
  split
  · next hx => exact hx.symm
  · rfl

/-- A step of a thread leaves the numbers of all threads. -/
theorem ids_stepOf (b : Bridge σ) (i : Interpreter) :
    (b.stepOf i).interpreters.map Interpreter.id = b.interpreters.map Interpreter.id := by
  unfold stepOf
  split
  · exact ids_putInterpreter b _
  · next c _ _ =>
      refine (ids_putInterpreter _ _).trans ?_
      exact congrArg (List.map Interpreter.id) (interpreters_perform (b.onWorld _) i c)

omit [Inhabited σ] [Engine σ] in
/-- An event that a model hears gives no thread other work. -/
theorem interpreters_deliverEvent (b : Bridge σ) (s : Nat) (e : Event) :
    (b.deliverEvent s e).interpreters = b.interpreters := by
  unfold deliverEvent act
  cases handleEvent s e b.world <;> rfl

end Bridge

open Bridge in
/-- A bound on what follows from the calls that a thread of a session has still to make. -/
def Interpreter.load (n s : Nat) (i : Interpreter) : Nat :=
  if i.session = s then (i.calls.map (callLoad n)).sum else 0

/-- A thread that made a call has less to do, by what was foreseen for the call. -/
theorem Interpreter.load_advance_le (n s : Nat) (i : Interpreter) (r : CallResult) {c : Call}
    {cs : List Call} (hc : i.calls = c :: cs) :
    (i.advance r).load n s + (if i.session = s then Bridge.callLoad n c else 0) ≤ i.load n s := by
  by_cases hs : i.session = s
  · have hs' : (i.advance r).session = s := hs
    rw [load, load, if_pos hs, if_pos hs', if_pos hs, hc, List.map_cons, List.sum_cons, advance]
    dsimp only
    split
    · exact Nat.le_trans (Nat.le_of_eq (Nat.zero_add _)) (Nat.le_add_right _ _)
    · rw [hc]
      exact Nat.le_of_eq (Nat.add_comm _ _)
  · have hs' : (i.advance r).session ≠ s := hs
    rw [load, if_neg hs', if_neg hs]
    exact Nat.zero_le _

namespace Bridge

open World

variable {σ : Type} [Inhabited σ] [Engine σ] {n s k : Nat} {b b' : Bridge σ}

/-- A bound on the messages of a session that follow from a state, where a script has at most a
number of breakpoints. -/
def bound (b : Bridge σ) (n s : Nat) : Nat :=
  b.world.load n s + (b.interpreters.map (Interpreter.load n s)).sum

/-- A bridge that delivers the messages of a session, which are no more than a number. -/
structure Within (n s k : Nat) (b : Bridge σ) : Prop where
  inOrder : b.world.InOrder s
  ids : (b.interpreters.map Interpreter.id).Nodup
  breakpoints : (b.world.breakpoints s).length = n
  bound : b.bound n s ≤ k

omit [Inhabited σ] [Engine σ] in
/-- What is foreseen for the calls of a session is what is foreseen for its threads. -/
theorem sum_calls (n s : Nat) (is : List Interpreter) :
    ((((is.filter fun i => i.session = s)).flatMap Interpreter.calls).map (callLoad n)).sum
      = (is.map (Interpreter.load n s)).sum := by
  induction is with
  | nil => rfl
  | cons i is ih =>
      rw [List.map_cons, List.sum_cons, ← ih, List.filter_cons, Interpreter.load]
      by_cases hi : i.session = s
      · simp [hi]
      · simp [hi]

omit [Inhabited σ] [Engine σ] in
/-- The work of a session is the bound with as many breakpoints as it has. -/
theorem workload_eq (b : Bridge σ) (s : Nat) :
    b.workload s = b.bound (b.world.breakpoints s).length s := by
  rw [bound, ← sum_calls]
  rfl

omit [Inhabited σ] [Engine σ] in
/-- A bridge within a number is within any greater one. -/
theorem Within.mono (h : b.Within n s k) {l : Nat} (hkl : k ≤ l) : b.Within n s l :=
  ⟨h.inOrder, h.ids, h.breakpoints, Nat.le_trans h.bound hkl⟩

omit [Inhabited σ] [Engine σ] in
/-- What costs a number raises the bound by as much. -/
theorem Within.costs (h : b.Within n s k) {l : Nat} (hc : Costs n s l b.world b'.world)
    (hi : b'.interpreters = b.interpreters) : b'.Within n s (k + l) where
  inOrder := h.inOrder.tells hc.tells
  ids := hi ▸ h.ids
  breakpoints := (congrArg List.length (breakpoints_of_tells hc.tells)).trans h.breakpoints
  bound := by
    have := h.bound
    have := hc.load
    unfold Bridge.bound at *
    rw [hi]
    omega

omit [Inhabited σ] [Engine σ] in
/-- What changes neither the mailbox of a session nor its debugger costs nothing. -/
theorem Within.same (h : b.Within n s k)
    (hl : (b'.world.session s).alive = (b.world.session s).alive)
    (hbox : (b'.world.session s).mailbox = (b.world.session s).mailbox)
    (hd : (b'.world.session s).debugger = (b.world.session s).debugger)
    (hb : b'.world.breakpoints s = b.world.breakpoints s)
    (hi : b'.interpreters = b.interpreters) : b'.Within n s k where
  inOrder := h.inOrder.same hl hbox hd
  ids := hi ▸ h.ids
  breakpoints := (congrArg List.length hb).trans h.breakpoints
  bound := by
    have := h.bound
    have hmail : b'.world.mail s = b.world.mail s := by rw [mail, mail, hbox]
    unfold Bridge.bound at *
    rw [hi, load_congr hmail hd]
    exact this

omit [Inhabited σ] [Engine σ] in
/-- What happens to another session costs nothing. -/
theorem Within.elsewhere (h : b.Within n s k) (hs : b'.world.session s = b.world.session s)
    (hm : b'.world.managers = b.world.managers) (hi : b'.interpreters = b.interpreters) :
    b'.Within n s k :=
  h.same (by rw [hs]) (by rw [hs]) (by rw [hs]) (breakpoints_eq hm (by rw [hs])) hi

omit [Inhabited σ] [Engine σ] in
/-- Requests that are posted cost what follows from them. -/
theorem Within.posted (h : b.Within n s k) {rs : List Request}
    (hp : (b.world.session s).Posted rs (b'.world.session s))
    (hm : b'.world.managers = b.world.managers) (hi : b'.interpreters = b.interpreters) :
    b'.Within n s (k + ((rs.map .request).map (messageLoad n)).sum) where
  inOrder := h.inOrder.posted hp
  ids := hi ▸ h.ids
  breakpoints := by
    have hmanager : (b'.world.session s).manager = (b.world.session s).manager :=
      (congrArg Session.manager hp.model :)
    exact (congrArg List.length (breakpoints_eq hm hmanager)).trans h.breakpoints
  bound := by
    have := h.bound
    have hload : b'.world.load n s
        = b.world.load n s + ((rs.map .request).map (messageLoad n)).sum := by
      rw [load, load, h.inOrder.mail_gains hp.mailbox, debugger, debugger, hp.debugger,
        List.map_append, List.sum_append]
      omega
    unfold Bridge.bound at *
    rw [hi, hload]
    omega

omit [Inhabited σ] [Engine σ] in
/-- The work of a thread that is replaced is replaced by the new work. -/
theorem Within.put {l : Nat} (h : b.Within n s (k + l)) {i j : Interpreter}
    (hi : i ∈ b.interpreters) (hid : i.id = j.id) (hl : j.load n s + l ≤ i.load n s) :
    (b.putInterpreter j).Within n s k where
  inOrder := h.inOrder
  ids := by
    rw [ids_putInterpreter]
    exact h.ids
  breakpoints := h.breakpoints
  bound := by
    have := h.bound
    have hsum := sum_map_replace Interpreter.id (Interpreter.load n s) h.ids hi hid
    unfold Bridge.bound at *
    change b.world.load n s + _ ≤ k
    unfold putInterpreter
    dsimp only
    omega

/-- What a thread does costs what was foreseen for its call. -/
theorem Within.perform (h : b.Within n s k) (i : Interpreter) (c : Call) :
    (b.perform i c).2.Within n s (k + if i.session = s then callLoad n c else 0) := by
  have hi := interpreters_perform b i c
  by_cases hs : i.session = s
  · subst hs
    rw [if_pos rfl]
    exact h.costs (costs_perform h.inOrder c) hi
  · have htells := tells_perform b i c
    rw [if_neg hs]
    exact h.elsewhere (htells.elsewhere s (Ne.symm hs)) htells.managers hi

/-- A thread that makes a step stays within what was foreseen. -/
theorem Within.stepOf (h : b.Within n s k) {i : Interpreter} (hi : i ∈ b.interpreters) :
    (b.stepOf i).Within n s k := by
  unfold Bridge.stepOf
  split
  · have hrest : i.rest.load n s + 0 ≤ i.load n s := by
      unfold Interpreter.load Interpreter.rest
      simp
    have hput := h.put (l := 0) (j := i.rest) hi rfl hrest
    exact hput.elsewhere rfl rfl rfl
  · next c cs hc =>
      let u := b.onWorld (·.setActor i.name)
      have hu : u.Within n s k := h.elsewhere rfl rfl rfl
      have hcall := hu.perform i c
      let v := (u.perform i c).2.onWorld (·.setActor b.world.journal.interpreter)
      have hv : v.Within n s (k + if i.session = s then callLoad n c else 0) :=
        hcall.elsewhere rfl rfl rfl
      have hmem : i ∈ v.interpreters := (interpreters_perform u i c).symm ▸ hi
      exact hv.put hmem rfl (i.load_advance_le n s (u.perform i c).1 hc)

/-- A step of the schedule stays within what was foreseen. -/
theorem Within.step (h : b.Within n s k) : b.step.Within n s k := by
  unfold Bridge.step
  split
  · next i hi => exact h.stepOf (List.mem_of_find?_eq_some hi)
  · exact h

/-- Threads that go on lead to no more than was foreseen. -/
theorem Within.settle (h : b.Within n s k) : b.settle.Within n s k := by
  have hsteps : ∀ m (b : Bridge σ), b.Within n s k → (steps m b).Within n s k := by
    intro m
    induction m with
    | zero => exact fun _ => id
    | succ m ih => exact fun b hb => ih b.step hb.step
  exact hsteps b.stepsLeft b h

/-! ### Messages that are delivered -/

/-- At least one message is foreseen for each message. -/
theorem messageLoad_pos (n : Nat) (m : Message) : 1 ≤ messageLoad n m := by
  unfold messageLoad
  split <;> omega

omit [Inhabited σ] [Engine σ] in
/-- The answer to a script that is ready was foreseen. -/
theorem sum_answers_le (w : World) (script : Script) (thread : Handle) (kind : ResumeKind) :
    (((w.answers s script thread kind).map .request).map
        (messageLoad (w.breakpoints s).length)).sum ≤ (w.breakpoints s).length + 1 := by
  have hone : ∀ ps : List Breakpoint, ((((ps.map (Request.breakpoint script · .add)).map
      Message.request).map (messageLoad (w.breakpoints s).length)).sum = ps.length) := by
    intro ps
    induction ps with
    | nil => rfl
    | cons p ps ih =>
        simp only [List.map_cons, List.sum_cons, List.length_cons, ih]
        exact Nat.add_comm 1 _
  have hfew : (w.breakpointsIn s script).length ≤ (w.breakpoints s).length := by
    unfold breakpointsIn
    split
    · exact Nat.zero_le _
    · exact List.length_filter_le _ _
  rw [answers, List.map_append, List.map_append, List.sum_append, hone]
  exact Nat.add_le_add_right hfew 1

/-- What remains of a session that was closed. -/
structure Kept (x x' : Session) : Prop where
  alive : x'.alive = x.alive
  manager : x'.manager = x.manager
  mailbox : x'.mailbox = x.mailbox
  debugger : x'.debugger = x.debugger

/-- What is kept over two steps is kept. -/
theorem Kept.trans {x x' x'' : Session} (h : Kept x x') (h' : Kept x' x'') : Kept x x'' :=
  ⟨h'.alive.trans h.alive, h'.manager.trans h.manager, h'.mailbox.trans h.mailbox,
    h'.debugger.trans h.debugger⟩

/-- A session that is closed keeps what it had. -/
theorem closed_of_still {w v w' : World} (hv : Still w v) (h : Still (v.close s) w') :
    Kept (w.session s) (w'.session s) := by
  have hbefore := hv.everywhere s
  have hafter := h.everywhere s
  have hclose : Kept (v.session s) ((v.close s).session s) := by
    rw [session_close_self]
    split <;> exact ⟨rfl, rfl, rfl, rfl⟩
  have hkept : ∀ {x x' : Session}, x'.unframed = x.unframed → Kept x x' := fun hx =>
    ⟨Session.eq_of_unframed Session.alive (fun _ => rfl) hx,
      Session.eq_of_unframed Session.manager (fun _ => rfl) hx,
      Session.eq_of_unframed Session.mailbox (fun _ => rfl) hx,
      Session.eq_of_unframed Session.debugger (fun _ => rfl) hx⟩
  exact (hkept hbefore).trans (hclose.trans (hkept hafter))

omit [Inhabited σ] [Engine σ] in
/-- What a model does with an event leads to no more than was foreseen. -/
theorem Within.hear (h : b.Within n s k) {e : Event}
    (hi : b'.interpreters = b.interpreters) {j : Journal}
    (hw : b'.world = { worldAfter (handleEvent s e) b.world with journal := j }) :
    b'.Within n s (k + (messageLoad n (.event e) - 1)) := by
  let w := worldAfter (handleEvent s e) b.world
  have hsame : b'.world.session s = w.session s := by rw [hw]; rfl
  have hmanagers : b'.world.managers = w.managers := by rw [hw]
  have houter : (w.session s).outer = (b.world.session s).outer → w.managers = b.world.managers →
      b'.Within n s k := fun hs hm =>
    have hs' : (b'.world.session s).outer = (b.world.session s).outer := hsame ▸ hs
    h.same (congrArg Session.alive hs' :) (congrArg Session.mailbox hs' :)
      (congrArg Session.debugger hs' :) (breakpoints_of_outer (hmanagers.trans hm) hs') hi
  cases ha : (b.world.session s).attached with
  | false =>
      have hrun : w = b.world := by
        change worldAfter (handleEvent s e) b.world = b.world
        rw [worldAfter, handleEvent_unattached ha]
      exact (houter (by rw [hrun]) (by rw [hrun])).mono (Nat.le_add_right _ _)
  | true =>
      cases heard_handleEvent s e b.world h.inOrder.alive ha with
      | shown hshows _ _ =>
          exact (houter (outer_of_shell hshows.here) hshows.managers).mono (Nat.le_add_right _ _)
      | closed v he hv hclosed =>
          have hkept := closed_of_still hv hclosed
          rw [← hsame] at hkept
          refine (h.same hkept.alive hkept.mailbox hkept.debugger ?_ hi).mono
            (Nat.le_add_right _ _)
          rw [World.breakpoints, World.breakpoints, hkept.manager, breakpoints_of_managers hmanagers,
            breakpoints_of_managers hclosed.managers, breakpoints_close,
            breakpoints_of_managers hv.managers]
      | answered script thread root v handle kind he hok hv hid hposts =>
          subst he
          let c : Bridge σ := { b with world := v.register s script }
          have hs : (c.world.session s).outer = (b.world.session s).outer :=
            (outer_register v s script).trans (outer_of_shell hv.here)
          have hbreakpoints : v.breakpoints s = b.world.breakpoints s :=
            breakpoints_of_outer hv.managers (outer_of_shell hv.here)
          have hc : c.Within n s k := h.same (congrArg Session.alive hs :)
            (congrArg Session.mailbox hs :) (congrArg Session.debugger hs :)
            (breakpoints_of_outer hv.managers hs) rfl
          have hpost : (c.world.session s).Posted (v.answers s script handle kind)
              (b'.world.session s) := hsame ▸ hposts.here
          have hposted := hc.posted hpost (hmanagers.trans hposts.managers) hi
          have hfew := sum_answers_le (s := s) v script handle kind
          rw [hbreakpoints, h.breakpoints] at hfew
          exact hposted.mono (Nat.add_le_add_left hfew k)

/-- What is handed over leads to less than it stood for. -/
theorem Within.accept (h : b.Within n s k) (m : Message) :
    (b.accept s m).Within n s (k + (messageLoad n m - 1)) := by
  let u := b.trace "dispatcher" ("route " ++ m.text b.world.marks)
  have hu : u.Within n s k := h.elsewhere rfl rfl rfl
  cases m with
  | event e =>
      obtain ⟨j, hj⟩ := world_deliverEvent u s e
      exact hu.hear (interpreters_deliverEvent u s e) hj
  | request r =>
      let v := u.onWorld (·.noteReceived s r)
      have hv : v.Within n s k := hu.elsewhere rfl rfl rfl
      have hrun : b.accept s (.request r) = v.receive s r := if_pos hv.inOrder.present
      rw [hrun]
      exact hv.costs (costs_receive hv.inOrder r) (interpreters_receive v r)

omit [Inhabited σ] [Engine σ] in
/-- A new turn stays within what was foreseen. -/
theorem Within.newTurn (h : b.Within n s k) : b.newTurn.Within n s k :=
  h.elsewhere rfl rfl rfl

/-- The same of what is delivered. -/
theorem Within.deliver (h : b.Within n s k) (m : Message) :
    (b.deliver s m).Within n s (k + (messageLoad n m - 1)) := by
  have haccepted := h.accept m
  cases m with
  | event e => exact haccepted
  | request r =>
      let v := (b.trace "dispatcher" ("route " ++ (Message.request r).text b.world.marks)).onWorld
        (·.noteReceived s r)
      have hpresent : (v.world.session s).debugger.isSome = true := h.inOrder.present
      have hrun : b.deliver s (.request r) = v.instruct s r := if_pos hpresent
      have haccept : b.accept s (.request r) = v.receive s r := if_pos hpresent
      rw [haccept] at haccepted
      rw [hrun]
      exact haccepted.settle.newTurn

omit [Inhabited σ] [Engine σ] in
/-- A message that is taken does not stand for anything any more. -/
theorem Within.taken (h : b.Within n s (b.bound n s)) {m : Message}
    (htake : b.take s = (some m, b')) :
    b'.Within n s (b'.bound n s) ∧ b.bound n s = messageLoad n m + b'.bound n s := by
  have hm : (b.world.session s).mailbox.take.1 = some m := congrArg Prod.fst htake
  obtain rfl : (b.take s).2 = b' := congrArg Prod.snd htake
  have hu : Takes s b.world (b.take s).2.world := takes_take b
  obtain ⟨hin, hmail⟩ := h.inOrder.takes hu hm
  refine ⟨⟨hin, h.ids, ?_, Nat.le_refl _⟩, ?_⟩
  · exact (congrArg List.length (breakpoints_of_takes hu)).trans h.breakpoints
  · have hd : (b.take s).2.world.debugger s = b.world.debugger s := by
      rw [debugger, hu.here]
      rfl
    unfold Bridge.bound load
    rw [hmail, List.map_cons, List.sum_cons, hd]
    change _ + _ = messageLoad n m + (_ + _ + (b.interpreters.map _).sum)
    omega

omit [Inhabited σ] [Engine σ] in
/-- Where nothing can be taken, nothing is left. -/
theorem queue_of_take_none (htake : b.take s = (none, b')) :
    (b'.world.session s).mailbox.queue = [] := by
  have hm : (b.world.session s).mailbox.take.1 = none := congrArg Prod.fst htake
  obtain rfl : (b.take s).2 = b' := congrArg Prod.snd htake
  rw [Mailbox.take_fst] at hm
  rw [(takes_take b).here]
  change (b.world.session s).mailbox.take.2.queue = []
  rw [Mailbox.queue_take]
  split
  · next content rest hq =>
      rw [hq] at hm
      cases hm
  · rfl

omit [Inhabited σ] [Engine σ] in
/-- There is as much to do as there is. -/
theorem Within.self (h : b.Within n s k) : b.Within n s (b.bound n s) :=
  ⟨h.inOrder, h.ids, h.breakpoints, Nat.le_refl _⟩

/-- With every message that is taken and delivered there is less to do. -/
theorem Within.delivered (h : b.Within n s (b.bound n s)) {m : Message}
    (htake : b.take s = (some m, b')) :
    (b'.deliver s m).Within n s ((b'.deliver s m).bound n s)
      ∧ (b'.deliver s m).bound n s < b.bound n s := by
  obtain ⟨ht, hload⟩ := h.taken htake
  have hdone := ht.deliver m
  have hpos := messageLoad_pos n m
  have hless := hdone.bound
  exact ⟨hdone.self, by omega⟩

omit [Inhabited σ] [Engine σ] in
/-- A session in order is within its work. -/
theorem within_workload (h : b.world.InOrder s)
    (hids : (b.interpreters.map Interpreter.id).Nodup) :
    b.Within (b.world.breakpoints s).length s (b.bound (b.world.breakpoints s).length s) :=
  ⟨h, hids, rfl, Nat.le_refl _⟩

/-- No message is left after a session was pumped. -/
theorem queue_pump (b : Bridge σ) (h : b.world.InOrder s)
    (hids : (b.interpreters.map Interpreter.id).Nodup) :
    ((b.pump s).2.world.session s).mailbox.queue = [] := by
  let n := (b.world.breakpoints s).length
  obtain ⟨t, ht, htake⟩ := exists_take_of_drain
    (I := fun b => b.Within n s (b.bound n s)) (L := fun b => b.bound n s)
    (fun _ _ _ hb htake => hb.delivered htake) (b.workload s + 1) b (within_workload h hids)
    (Nat.lt_succ_of_le (Nat.le_of_eq (workload_eq b s).symm))
  exact queue_of_take_none htake

end Bridge

end DebugBridge
