import DebugBridge.Bridge.Delivery
import DebugBridge.Bridge.Launch
import DebugBridge.Proofs.Subscription
import DebugBridge.Proofs.Reports
import DebugBridge.Tree.Command

/-!
# Runs

A run is a sequence of steps, each taken by somebody: an interpreter thread makes a call, a message
is handed over, a user gives an order. The order is free. In particular the next call of a thread
does not have to wait until no message is left, and no thread has to go before another; only a
thread that waits makes no call. The turns that a bridge takes by itself are such runs.

## Main definitions

* `Deed`: what somebody does;
* `Bridge.after`, `Bridge.run`: what comes of one deed, and of several;
* `Bridge.Fresh`: where a run begins;
* `Bridge.Serves`, `Bridge.Handles`: relations that users keep, and models too;
* `Bridge.Spans`, `Bridge.Covers`: relations that all parts of deeds keep.

## Main results

* `exists_run_pump`, `exists_run_startWork`: to pump a session, and to give a thread work, is a run;
* `Spans.after`, `Covers.after`: what all parts of deeds keep is kept by every deed;
* `enrolled_run`: subscriptions are in order throughout a run.
-/

namespace DebugBridge

/-- What somebody does. -/
inductive Deed (σ : Type) where
  /-- A session is opened. -/
  | launch (setup : Setup)
  /-- An interpreter thread makes a call, unless it waits. -/
  | call (i : Interpreter) (c : Call)
  /-- The oldest message of a session is handed over. -/
  | deliver (s : Nat)
  /-- A user gives an order for a thread. -/
  | order (s i : Nat) (c : Command)
  /-- A user gives an order for a target. -/
  | orderTarget (s : Nat) (c : Command)
  | disconnect (s : Nat)
  /-- A client gives a session up. -/
  | dropSession (s : Nat)
  | readFrames (s i : Nat)
  | readVariables (f : FrameRef)
  | watch (expression : String) (context : Element) (listener : String)
  | assign (x : VariableId) (expression : String)
  | setDirty (f : FrameRef)
  | setAttribute (s : Nat) (key value : String)
  | addBreakpoint (m : Nat) (b : Breakpoint)
  | removeBreakpoint (m : Nat) (b : Breakpoint)
  | enableBreakpoint (m : Nat) (b : Breakpoint) (enabled : Bool)
  /-- A client listens to the changes of breakpoints. -/
  | listen (m : Nat) (name : String)
  | dropListener (number : Nat)
  /-- Values are read and written. -/
  | onHeap (op : HeapM Unit)
  /-- Something new takes a number. -/
  | takeNumber
  /-- An activation moves to a line by itself. -/
  | moveTo (a : Activation) (line : Nat)
  /-- Clients keep frames and threads, and collect what was received. -/
  | keep (frames : List FrameRef) (threads : List (Nat × Nat)) (received : Array Delivery)
  /-- An engine changes by itself. -/
  | setEngine (s : Nat) (f : σ → σ)
  /-- Who has which work, who has done with it, and who acts in which turn. -/
  | schedule (interpreters : List Interpreter) (finished : Array (String × List CallResult))
      (actor : Option String) (turn : Nat)

/-- What a bridge does by itself when it takes a turn. -/
def Deed.IsTurn {σ : Type} : Deed σ → Prop
  | .call _ _ | .deliver _ | .schedule _ _ _ _ => True
  | _ => False

/-- What users and clients do while a session goes on. -/
def Deed.IsManual {σ : Type} : Deed σ → Prop
  | .launch _ | .call _ _ | .deliver _ | .disconnect _ | .dropSession _ => False
  | _ => True

namespace Bridge

variable {σ : Type} [Inhabited σ] [Engine σ]

/-! ### Deeds -/

/-- Hands a message over. No thread goes on yet. -/
def accept (s : Nat) (m : Message) (b : Bridge σ) : Bridge σ :=
  let b := b.trace "dispatcher" ("route " ++ m.text b.world.marks)
  match m with
  | .event e => b.deliverEvent s e
  | .request r =>
    let b := b.onWorld (·.noteReceived s r)
    if (b.world.session s).debugger.isSome then b.receive s r else b

/-- Hands the oldest message of a session over, if there is one. -/
def handOver (s : Nat) (b : Bridge σ) : Bridge σ :=
  match b.take s with
  | (none, b) => b
  | (some m, b) => b.accept s m

/-- The message that a deed hands over to a session, if it does. -/
def handed (s : Nat) (b : Bridge σ) : Deed σ → Option Message
  | .deliver t => if t = s then (b.take s).1 else none
  | _ => none

/-- A bridge on which a message was taken and is about to be handed over. -/
def offered (s : Nat) (m : Message) (b : Bridge σ) : Bridge σ :=
  let b := (b.take s).2
  b.trace "dispatcher" ("route " ++ m.text b.world.marks)

/-- The script that a deed makes the one of its resource: the model hears that it is ready, and no
front end breaks that off. -/
def readied? (s : Nat) (b : Bridge σ) (x : Deed σ) : Option Script :=
  match b.handed s x with
  | some (.event (.scriptReady script thread root)) =>
    let e : Event := .scriptReady script thread root
    match ((b.offered s (.event e)).act (handleEvent s e)).1 with
    | .ok () => some script
    | .error _ => none
  | _ => none

/-- What comes of a deed. -/
def after (b : Bridge σ) : Deed σ → Bridge σ
  | .launch setup => (b.launch setup).2
  | .call i c => if b.isWaiting i then b else (b.perform i c).2
  | .deliver s => b.handOver s
  | .order s i c => (b.act (commandThread s i c)).2
  | .orderTarget s c => (b.act (commandTarget s c)).2
  | .disconnect s => (b.act (disconnect s)).2
  | .dropSession s => b.onWorld (·.dropSession s)
  | .readFrames s i => (b.act (stackFrames s i)).2
  | .readVariables f => (b.act (frameVariables f)).2
  | .watch expression context listener => (b.act (evaluateIn expression context listener)).2
  | .assign x expression => (b.act (assignVariable x expression)).2
  | .setDirty f => (b.act (setDirty f)).2
  | .setAttribute s key value => (b.act (setAttribute s key value)).2
  | .addBreakpoint m p => b.onWorld (·.addBreakpoint m p)
  | .removeBreakpoint m p => b.onWorld fun w => (w.removeBreakpoint m p).2
  | .enableBreakpoint m p enabled => b.onWorld (·.enableBreakpoint m p enabled)
  | .listen m name => b.onWorld fun w => (w.addListener m name).2
  | .dropListener number => b.onWorld (·.dropListener number)
  | .onHeap op => b.onWorld fun w => (w.onHeap op).2
  | .takeNumber => b.onWorld fun w => w.number.2
  | .moveTo a line => b.onWorld fun w => { w with marks := w.marks.moveTo a line }
  | .keep frames threads received => b.onWorld fun w =>
      { w with keptFrames := frames, keptThreads := threads, received := received }
  | .setEngine s f => b.modifyEngine s f
  | .schedule interpreters finished actor turn =>
      { b with interpreters, finished }.onWorld fun w =>
        { w with journal := { w.journal with interpreter := actor, turn := turn } }

/-- What comes of several deeds, one after the other. -/
def run (ds : List (Deed σ)) (b : Bridge σ) : Bridge σ :=
  ds.foldl after b

/-- Where nothing is done, nothing comes of it. -/
@[simp] theorem run_nil (b : Bridge σ) : run [] b = b :=
  rfl

/-- The first deed is done first. -/
@[simp] theorem run_cons (d : Deed σ) (ds : List (Deed σ)) (b : Bridge σ) :
    run (d :: ds) b = run ds (b.after d) :=
  rfl

/-- One run goes on where another ends. -/
theorem run_append (ds es : List (Deed σ)) (b : Bridge σ) :
    run (ds ++ es) b = run es (run ds b) :=
  List.foldl_append

/-- A run begins where there is no session yet, with front ends that react in any way. How one
reacts may depend on all notifications before. -/
def Fresh (b : Bridge σ) : Prop :=
  ∃ reaction, b.world = { World.start with reaction }

omit [Inhabited σ] [Engine σ] in
/-- What an operation leaves behind is the world in which it ends. -/
theorem world_act {α : Type} (b : Bridge σ) (op : Act α) :
    (b.act op).2.world = worldAfter op b.world := by
  unfold act worldAfter
  cases op b.world <;> rfl

/-- What holds at the beginning of a run and is kept by every deed holds at its end. -/
theorem run_induction {P : Bridge σ → Prop} {b : Bridge σ} (hb : P b)
    (hstep : ∀ b d, P b → P (b.after d)) (ds : List (Deed σ)) : P (run ds b) := by
  induction ds generalizing b with
  | nil => exact hb
  | cons d ds ih => exact ih (hstep b d hb)

/-! ### Turns of a bridge -/

/-- One bridge comes of another by a run of turns. -/
def Leads (b b' : Bridge σ) : Prop :=
  ∃ ds : List (Deed σ), (∀ d ∈ ds, d.IsTurn) ∧ b' = run ds b

/-- A bridge comes of itself. -/
theorem Leads.refl (b : Bridge σ) : b.Leads b :=
  ⟨[], List.forall_mem_nil _, rfl⟩

/-- A run of turns goes on where another ends. -/
theorem Leads.trans {a b c : Bridge σ} (h : a.Leads b) (h' : b.Leads c) : a.Leads c := by
  obtain ⟨ds, hds, rfl⟩ := h
  obtain ⟨es, hes, rfl⟩ := h'
  refine ⟨ds ++ es, fun d hd => ?_, (run_append ds es a).symm⟩
  rcases List.mem_append.mp hd with hd | hd
  · exact hds d hd
  · exact hes d hd

/-- A turn is a run of turns. -/
theorem leads_after (b : Bridge σ) {d : Deed σ} (hd : d.IsTurn) : b.Leads (b.after d) :=
  ⟨[d], by simpa using hd, rfl⟩

/-- Work that is given out is a turn. -/
theorem leads_schedule (b : Bridge σ) (interpreters : List Interpreter)
    (finished : Array (String × List CallResult)) (actor : Option String) (turn : Nat) :
    b.Leads (b.after (.schedule interpreters finished actor turn)) :=
  leads_after b trivial

/-- A new turn begins by a run of turns. -/
theorem leads_newTurn (b : Bridge σ) : b.Leads b.newTurn :=
  leads_schedule b b.interpreters b.finished b.world.journal.interpreter
    (b.world.journal.turn + 1)

/-- A turn of a thread that does not wait. -/
theorem leads_stepOf (b : Bridge σ) (i : Interpreter) (hw : b.isWaiting i = false) :
    b.Leads (b.stepOf i) := by
  unfold stepOf
  cases i.calls with
  | nil =>
      exact leads_schedule b (b.putInterpreter i.rest).interpreters
        (b.finished.push (i.name, i.results)) b.world.journal.interpreter b.world.journal.turn
  | cons c calls =>
      let b₁ := b.onWorld (·.setActor i.name)
      let b₂ := (b₁.perform i c).2
      have hactor : b.Leads b₁ :=
        leads_schedule b b.interpreters b.finished i.name b.world.journal.turn
      have hcall : b₁.Leads b₂ := by
        have hw' : b₁.isWaiting i = false := hw
        have hrun : b₁.after (.call i c) = b₂ := by
          rw [after, hw']
          rfl
        have hturn : (Deed.call i c : Deed σ).IsTurn := trivial
        exact hrun ▸ leads_after b₁ hturn
      let next := i.advance (b₁.perform i c).1
      have hback : b₂.Leads ((b₂.onWorld (·.setActor b.world.journal.interpreter)).putInterpreter
          next) :=
        leads_schedule b₂ (b₂.putInterpreter next).interpreters b₂.finished
          b.world.journal.interpreter b₂.world.journal.turn
      exact hactor.trans (hcall.trans hback)

/-- A step of the schedule is a run of turns. -/
theorem leads_step (b : Bridge σ) : b.Leads b.step := by
  unfold step
  split
  · next i h =>
      have hfind : b.interpreters.find? (fun i => i.running && !b.isWaiting i) = some i := h
      have hi := List.find?_some hfind
      refine leads_stepOf b i ?_
      cases hw : b.isWaiting i with
      | false => rfl
      | true => simp [hw] at hi
  · exact .refl b

/-- That threads go on until each waits or its work is done is a run. -/
theorem leads_settle (b : Bridge σ) : b.Leads b.settle := by
  have h : ∀ n (b : Bridge σ), b.Leads (steps n b) := by
    intro n
    induction n with
    | zero => exact Leads.refl
    | succ n ih => exact fun b => (leads_step b).trans (ih b.step)
  exact h b.stepsLeft b

/-- A message that is delivered is handed over, and then threads go on. -/
theorem leads_deliver (s : Nat) {m : Message} {b b' : Bridge σ} (h : b.take s = (some m, b')) :
    b.Leads (b'.deliver s m) := by
  have hhand : b.Leads (b'.accept s m) := by
    have hrun : b.after (.deliver s) = b'.accept s m := by
      rw [after, handOver, h]
    have hturn : (Deed.deliver s : Deed σ).IsTurn := trivial
    exact hrun ▸ leads_after b hturn
  cases m with
  | event e => exact hhand
  | request r =>
      have hsame : b'.deliver s (.request r) = b'.accept s (.request r)
          ∨ b'.deliver s (.request r) = (b'.accept s (.request r)).settle.newTurn := by
        unfold deliver accept deliverRequest instruct
        dsimp only
        split
        · exact .inr rfl
        · exact .inl rfl
      obtain h | h := hsame
      · rw [h]
        exact hhand
      · rw [h]
        exact hhand.trans ((leads_settle _).trans (leads_newTurn _))

/-- To pump a session is a run of turns. -/
theorem leads_pump (b : Bridge σ) (s : Nat) : b.Leads (b.pump s).2 := by
  have h : ∀ most (b : Bridge σ), b.Leads (drain (take s) (deliver s) most b).2 := by
    intro most
    induction most with
    | zero => exact Leads.refl
    | succ most ih =>
        intro b
        rw [drain_succ]
        split
        · next b' h =>
            have hrun : b.after (.deliver s) = b' := by
              rw [after, handOver, h]
            have hturn : (Deed.deliver s : Deed σ).IsTurn := trivial
            exact hrun ▸ leads_after b hturn
        · next m b' h => exact (leads_deliver s h).trans (ih _)
  exact h (b.workload s + 1) b

/-- To pump a session is a run. -/
theorem exists_run_pump (b : Bridge σ) (s : Nat) :
    ∃ ds : List (Deed σ), (b.pump s).2 = run ds b := by
  obtain ⟨ds, -, hrun⟩ := b.leads_pump s
  exact ⟨ds, hrun⟩

/-- To give a thread work is a run of turns. -/
theorem leads_startWork (b : Bridge σ) (id : Nat) (calls : List Call) :
    b.Leads (b.startWork id calls).2 := by
  unfold startWork
  split
  · exact .refl b
  · next i _ =>
      split
      · exact .refl b
      · have hput : b.Leads (b.putInterpreter (i.start calls)) :=
          leads_schedule b (b.putInterpreter (i.start calls)).interpreters b.finished
            b.world.journal.interpreter b.world.journal.turn
        exact hput.trans ((leads_settle _).trans (leads_newTurn _))

/-- To give a thread work, which it does as far as it can, is a run. -/
theorem exists_run_startWork (b : Bridge σ) (id : Nat) (calls : List Call) :
    ∃ ds : List (Deed σ), (b.startWork id calls).2 = run ds b := by
  obtain ⟨ds, -, hrun⟩ := b.leads_startWork id calls
  exact ⟨ds, hrun⟩

end Bridge

/-! ### New sessions -/

namespace World

/-- A session that was just opened. Its sides are not joined yet. -/
def newSession (w : World) (setup : Setup) : Session :=
  { alive := true
    options := setup.options
    observed := setup.observed
    attached := false
    terminated := false
    manager := setup.manager
    subscription := some (w.manager setup.manager).nextSubscription
    scripts := .empty
    process := none
    frames := ∅
    mailbox := .closed
    debugger := none }

/-- A world with a new session, which subscribes with its manager. -/
def opened (w : World) (setup : Setup) : World :=
  modifyManager { w with sessions := w.sessions.push (w.newSession setup) } setup.manager
    (·.subscribe (.session w.sessions.size))

/-- A session that is opened comes behind the others, which stay as they are. -/
theorem session_opened (w : World) (setup : Setup) (t : Nat) :
    (w.opened setup).session t
      = if t = w.sessions.size then w.newSession setup else w.session t :=
  Arena.get_push w.sessions _ t

/-- Joins the sides of a session as far as its setup asks for it. -/
def joined (w : World) (s : Nat) (setup : Setup) : World :=
  let w := if setup.withDebugger then w.addDebugger s else w
  if setup.joined then w.joinSides s else w

end World

namespace Bridge

open World

variable {σ : Type} [Inhabited σ] [Engine σ]

omit [Inhabited σ] [Engine σ] in
/-- A session is opened, and its front end is told; only then are its sides joined. -/
theorem world_launch (b : Bridge σ) (setup : Setup) :
    ∃ j, (b.launch setup).2.world
        = { b.world.opened setup with journal := j }.joined b.world.sessions.size setup
      ∨ (b.launch setup).2.world
        = { b.world.opened setup with journal := j }.dropSession b.world.sessions.size := by
  let s := b.world.sessions.size
  have hrun : startSession setup.options setup.manager setup.observed b.world
      = (do notify s (.created .target); return s : Act Nat) (b.world.opened setup) := rfl
  obtain ⟨j, hok | ⟨failure, herror⟩⟩ :=
    notify_cases s (.created .target) (b.world.opened setup)
  · rw [run_bind_ok hok] at hrun
    refine ⟨j, .inl ?_⟩
    unfold launch act joined
    rw [hrun]
    dsimp only
    cases setup.withDebugger <;> cases setup.joined <;> rfl
  · rw [run_bind_error herror] at hrun
    refine ⟨j, .inr ?_⟩
    unfold launch act
    rw [hrun]
    rfl

/-- A session that is opened is told of by notifications that are mild. -/
theorem mild_opened (w : World) (setup : Setup) : Mild w (w.opened setup) := by
  have hframes : ∀ t, ((w.opened setup).session t).frames = (w.session t).frames := by
    intro t
    rw [session_opened]
    split
    · next ht =>
        rw [ht, session, Arena.get, Arena.size, Array.getElem?_eq_none (Nat.le_refl _)]
        rfl
    · rfl
  refine Lasts.mild ⟨?_, .refl _, fun t k => ?_, fun t => ?_⟩ rfl
  · exact Nat.le_of_lt (Nat.lt_of_lt_of_eq (Nat.lt_succ_self _) (Arena.size_push _ _).symm)
  · rw [hframes]
    exact .refl _
  · exact Nat.le_of_eq (by rw [hframes])

/-- Sides that are joined are told of by notifications that are mild. -/
theorem mild_joined (w : World) (s : Nat) (setup : Setup) : Mild w (w.joined s setup) := by
  have hadd : ∀ w : World, Mild w (w.addDebugger s) := fun w => mild_modifySession w s _ rfl
  have hjoin : ∀ w : World, Mild w (w.joinSides s) := fun w =>
    steady_mild.trans (mild_modifySession w s (fun session =>
      { session with attached := true, mailbox := ∅ }) rfl) (mild_modifyDebugger _ s _)
  unfold joined
  cases setup.withDebugger with
  | true =>
      cases setup.joined with
      | true => exact steady_mild.trans (hadd w) (hjoin _)
      | false => exact hadd w
  | false =>
      cases setup.joined with
      | true => exact hjoin w
      | false => exact steady_mild.refl w

omit [Inhabited σ] [Engine σ] in
/-- To open a session leaves no more behind than plain notifications. -/
theorem mild_launch (b : Bridge σ) (setup : Setup) : Mild b.world (b.launch setup).2.world := by
  let s := b.world.sessions.size
  let tell : Act Nat := do notify s (.created .target); return s
  have hrun : startSession setup.options setup.manager setup.observed b.world
      = tell (b.world.opened setup) := rfl
  have hcreated : Notice.created .target ≠ .terminated .target := by simp
  have htell : Keeps Plain tell :=
    Keeps.bind steady_plain (plain_notify s hcreated) fun _ => Keeps.pure steady_plain s
  have htold : Mild (b.world.opened setup) (worldAfter tell (b.world.opened setup)) :=
    (htell _).mild
  have hopen := steady_mild.trans (mild_opened b.world setup) htold
  unfold launch act
  rw [hrun]
  unfold worldAfter at hopen
  cases htell : tell (b.world.opened setup) with
  | error failure w =>
      rw [htell] at hopen
      exact steady_mild.trans hopen (mild_modifySession w s _ rfl)
  | ok _ w =>
      rw [htell] at hopen
      have hjoin := steady_mild.trans hopen (mild_joined w s setup)
      revert hjoin
      unfold joined
      cases setup.withDebugger <;> cases setup.joined <;> exact id

/-- Sides that are joined change no manager. -/
theorem aside_joined (w : World) (s : Nat) (setup : Setup) : Aside w (w.joined s setup) := by
  have h := steady_aside
  have hadd : ∀ w : World, Aside w (w.addDebugger s) := fun w =>
    aside_modifySession w s _ (fun _ => id) (fun _ => rfl) fun _ => rfl
  have hjoin : ∀ w : World, Aside w (w.joinSides s) := by
    intro w
    refine h.trans (v := w.modifySession s fun session =>
      { session with attached := true, mailbox := ∅ }) ?_ ?_
    · exact aside_modifySession w s _ (fun _ => id) (fun _ => rfl) fun _ => rfl
    · exact aside_modifySession _ s _ (fun _ => id) (fun _ => rfl) fun _ => rfl
  unfold joined
  cases setup.withDebugger with
  | true =>
      cases setup.joined with
      | true => exact h.trans (hadd w) (hjoin _)
      | false => exact hadd w
  | false =>
      cases setup.joined with
      | true => exact hjoin w
      | false => exact h.refl w

/-! ### Messages that are handed over -/

omit [Inhabited σ] [Engine σ] in
/-- A failure of a front end is logged. -/
theorem world_deliverEvent (b : Bridge σ) (s : Nat) (e : Event) :
    ∃ j, (b.deliverEvent s e).world
      = { worldAfter (handleEvent s e) b.world with journal := j } := by
  unfold deliverEvent act worldAfter
  cases handleEvent s e b.world with
  | ok a w => exact ⟨w.journal, rfl⟩
  | error failure w => exact ⟨_, rfl⟩

omit [Inhabited σ] [Engine σ] in
/-- To log a failure notifies nobody. -/
theorem mild_deliverEvent (b : Bridge σ) (s : Nat) (e : Event) :
    Mild (worldAfter (handleEvent s e) b.world) (b.deliverEvent s e).world := by
  unfold deliverEvent act worldAfter
  cases handleEvent s e b.world with
  | ok a w => exact steady_mild.refl w
  | error failure w => exact .beside rfl rfl rfl

/-- What holds of the parts of which a delivery is made up holds of all of it. -/
theorem related_handOver {R : World → World → Prop} (hR : Steady R) {s : Nat} (b : Bridge σ)
    (hsame : ∀ {w w' : World}, w'.sessions = w.sessions → w'.managers = w.managers →
      w'.reaction = w.reaction → w'.nextNumber = w.nextNumber → Mild w w' → R w w')
    (htake : ∀ w, R w (w.modifySession s fun session =>
      { session with mailbox := (w.session s).mailbox.take.2 }))
    (htells : ∀ {w w'}, Tells s w w' → R w w')
    (hhears : ∀ e, b.handed s (.deliver s) = some (.event e) → Keeps R (handleEvent s e)) :
    R b.world (b.handOver s).world := by
  have htaken : R b.world (b.take s).2.world := htake b.world
  have hhanded : b.handed s (.deliver s) = (b.take s).1 := if_pos rfl
  unfold handOver
  split
  · next b' h =>
      rw [h] at htaken
      exact htaken
  · next m b' h =>
      rw [h] at htaken hhanded
      refine hR.trans htaken ?_
      let u := b'.trace "dispatcher" ("route " ++ m.text b'.world.marks)
      have hu : R b'.world u.world := hsame rfl rfl rfl rfl (.beside rfl rfl rfl)
      cases m with
      | event e =>
          obtain ⟨j, hj⟩ := world_deliverEvent u s e
          have hrun : (b'.accept s (.event e)).world = (u.deliverEvent s e).world := rfl
          have hlog := mild_deliverEvent u s e
          rw [hj] at hlog
          rw [hrun, hj]
          exact hR.trans hu (hR.trans (hhears e hhanded u.world) (hsame rfl rfl rfl rfl hlog))
      | request r =>
          let v := u.onWorld (·.noteReceived s r)
          have hv : R b'.world v.world :=
            hR.trans hu (hsame rfl rfl rfl rfl (.beside rfl rfl rfl))
          have hrun : b'.accept s (.request r)
              = if (v.world.session s).debugger.isSome then v.receive s r else v := rfl
          rw [hrun]
          split
          · exact hR.trans hv (htells (tells_receive v r))
          · exact hv

section Readied

variable {s : Nat} {b : Bridge σ} {x : Deed σ} {script : Script} {thread : Handle} {root : Bool}

omit [Inhabited σ] [Engine σ] in
/-- A script is ready if the model goes through its event. -/
theorem readied?_of_ok {w : World}
    (hx : b.handed s x = some (.event (.scriptReady script thread root)))
    (h : handleEvent s (.scriptReady script thread root)
      (b.offered s (.event (.scriptReady script thread root))).world = .ok () w) :
    b.readied? s x = some script := by
  unfold readied? act
  rw [hx]
  dsimp only
  rw [h]

omit [Inhabited σ] [Engine σ] in
/-- No script is ready if a front end breaks the event off. -/
theorem readied?_of_error {w : World} {failure : String}
    (hx : b.handed s x = some (.event (.scriptReady script thread root)))
    (h : handleEvent s (.scriptReady script thread root)
      (b.offered s (.event (.scriptReady script thread root))).world = .error failure w) :
    b.readied? s x = none := by
  unfold readied? act
  rw [hx]
  dsimp only
  rw [h]

omit [Inhabited σ] [Engine σ] in
/-- Only the news that a script is ready makes it the one of its resource. -/
theorem readied?_of_ne
    (hx : ∀ script thread root, b.handed s x ≠ some (.event (.scriptReady script thread root))) :
    b.readied? s x = none := by
  unfold readied?
  split
  · next script thread root h => exact absurd h (hx script thread root)
  · rfl

end Readied

/-! ### Relations that every deed keeps -/

/-- A relation that users keep by what they do while a session goes on, where managers may get
breakpoints with a property, and values are read and written by operations with a property. -/
structure Serves (P : Breakpoint → Prop) (H : HeapM Unit → Prop) (R : World → World → Prop) : Prop
    extends Steady R where
  beside : ∀ {w w'}, w'.sessions = w.sessions → w'.managers = w.managers →
    w'.reaction = w.reaction → w.nextNumber ≤ w'.nextNumber → Mild w w' → R w w'
  onHeap : ∀ w op, H op → R w (w.onHeap op).2
  asks : ∀ {w w'}, Asks w w' → R w w'
  posts : ∀ {s w w'}, PostsSome s w w' → R w w'
  enter : ∀ w m p, (w.manager m).has p = false → P p → R w (w.modifyManager m fun manager =>
    { manager with breakpoints := manager.breakpoints ++ [p] })
  leave : ∀ w m (p : Breakpoint), R w (w.modifyManager m fun manager =>
    { manager with breakpoints := manager.breakpoints.filter fun q => q.id ≠ p.id })
  prune : ∀ w m, R w (w.prune m)
  listen : ∀ w m name, R w (w.addListener m name).2

namespace Serves

variable {P : Breakpoint → Prop} {H : HeapM Unit → Prop} {R : World → World → Prop}

/-- Users keep a relation when they tell listeners of a breakpoint. -/
theorem tellAll (h : Serves P H R) (p : Breakpoint) (c : BreakpointChange)
    (es : List (Nat × Subscriber)) (w : World) : R w (w.tellAll p c es) := by
  induction es generalizing w with
  | nil => exact h.refl w
  | cons e es ih =>
      refine h.trans (v := w.tell p c e.2) ?_ (ih _)
      cases e.2 with
      | session s => exact h.posts (postsSome_routeBreakpoint w s p c)
      | client l => exact h.beside rfl rfl rfl (Nat.le_refl _) (mild_note w trivial)

/-- Users keep a relation when they announce a breakpoint. -/
theorem announce (h : Serves P H R) (w : World) (m : Nat) (p : Breakpoint)
    (c : BreakpointChange) : R w (w.announce m p c) :=
  h.trans (h.prune w m) (h.tellAll p c (w.live m) (w.prune m))

/-- Users keep a relation when they add a breakpoint with the property. -/
theorem addBreakpoint (h : Serves P H R) (w : World) (m : Nat) {p : Breakpoint} (hp : P p) :
    R w (w.addBreakpoint m p) := by
  unfold World.addBreakpoint
  split
  · exact h.refl w
  · next hnew => exact h.trans (h.enter w m p (by simpa using hnew) hp) (h.announce _ m p .added)

/-- Users keep a relation when they remove a breakpoint. -/
theorem removeBreakpoint (h : Serves P H R) (w : World) (m : Nat) (p : Breakpoint) :
    R w (w.removeBreakpoint m p).2 := by
  unfold World.removeBreakpoint
  split
  · exact h.trans (h.leave w m p) (h.announce _ m p .removed)
  · exact h.refl w

/-- Users keep a relation when they enable or disable a breakpoint. -/
theorem enableBreakpoint (h : Serves P H R) (w : World) (m : Nat) (p : Breakpoint)
    (enabled : Bool) : R w (w.enableBreakpoint m p enabled) := by
  have hmarks : R w { w with marks := w.marks.enable p enabled } :=
    h.beside rfl rfl rfl (Nat.le_refl _) (.beside rfl rfl rfl)
  unfold World.enableBreakpoint
  dsimp only
  split
  · exact h.trans hmarks (h.announce _ m p .changed)
  · exact hmarks

/-- Users keep a relation when they send a request. -/
theorem post (h : Serves P H R) (w : World) (s : Nat) {r : Request} (hr : r.IsSent) :
    R w (w.post s r) :=
  h.posts (postsSome_post s hr w)

/-- What users do while a session goes on is kept. -/
theorem manual (h : Serves P H R) (b : Bridge σ) {x : Deed σ} (hx : x.IsManual)
    (hadd : ∀ m p, x = .addBreakpoint m p → P p) (hheap : ∀ op, x = .onHeap op → H op) :
    R b.world (b.after x).world := by
  have hasks : ∀ {α : Type} {op : Act α}, Keeps Asks op → R b.world (b.act op).2.world := by
    intro α op hop
    rw [world_act]
    exact h.asks (hop b.world)
  have hbeside : (b.after x).world.sessions = b.world.sessions →
      (b.after x).world.managers = b.world.managers →
      (b.after x).world.reaction = b.world.reaction →
      b.world.nextNumber ≤ (b.after x).world.nextNumber →
      Mild b.world (b.after x).world → R b.world (b.after x).world := h.beside
  cases x with
  | launch _ | call _ _ | deliver _ | disconnect _ | dropSession _ => exact absurd hx id
  | order s i c => exact hasks (keeps_commandThread s i c)
  | orderTarget s c => exact hasks (keeps_commandTarget s c)
  | readFrames s i => exact hasks (keeps_stackFrames s i)
  | readVariables f => exact hasks (keeps_frameVariables f)
  | watch expression context listener => exact hasks (keeps_evaluateIn expression context listener)
  | assign x expression => exact hasks (keeps_assignVariable x expression)
  | setDirty f => exact hasks (plain_setDirty f).asks
  | setAttribute s key value =>
      change R b.world (b.act (DebugBridge.setAttribute s key value)).2.world
      rw [world_act]
      exact h.asks (asks_setAttribute s key value b.world)
  | addBreakpoint m p => exact h.addBreakpoint b.world m (hadd m p rfl)
  | removeBreakpoint m p => exact h.removeBreakpoint b.world m p
  | enableBreakpoint m p enabled => exact h.enableBreakpoint b.world m p enabled
  | listen m name => exact h.listen b.world m name
  | onHeap op => exact h.onHeap b.world op (hheap op rfl)
  | takeNumber => exact hbeside rfl rfl rfl (Nat.le_succ _) (.beside rfl rfl rfl)
  | _ => exact hbeside rfl rfl rfl (Nat.le_refl _) (.beside rfl rfl rfl)

end Serves

/-- A relation that users keep by what they do, and models by what they do with an event that has a
property. -/
structure Handles (P : Breakpoint → Prop) (E : Event → Prop) (H : HeapM Unit → Prop)
    (R : World → World → Prop) : Prop extends Serves P H R where
  depicts : ∀ {s ts w w'}, Depicts s ts w w' → R w w'
  register : ∀ w s script, R w (w.register s script)
  fill : ∀ frame reported, E (.frameVariables frame reported) →
    Keeps R (withInHand frame (setVariables frame reported))
  result : ∀ expression frame result listener, E (.evaluated expression frame result listener) →
    Keeps R (withInHand frame
      (deliverResult listener (WatchResult.of expression result (.frame frame))))

namespace Handles

variable {P : Breakpoint → Prop} {E : Event → Prop} {H : HeapM Unit → Prop}
  {R : World → World → Prop}

/-- A model keeps a relation when it handles an event, if it does when a session ends. -/
theorem handleEvent (h : Handles P E H R) (s : Nat) {e : Event} (he : E e)
    (hend : e = .engineTerminated → Keeps R (endSession s)) : Keeps R (handleEvent s e) := by
  refine keeps_handleEvent_of h.toSteady e h.depicts (fun w script => h.register w s script)
    (fun w r hr => h.post w s hr) ?_ ?_ hend
  · rintro frame reported rfl
    exact h.fill frame reported he
  · rintro expression frame result listener rfl
    exact h.result expression frame result listener he

end Handles

/-- A relation that all parts of deeds keep, but for the opening of sessions. -/
structure Spans (P : Breakpoint → Prop) (E : Event → Prop) (H : HeapM Unit → Prop)
    (R : World → World → Prop) : Prop extends Handles P E H R where
  tells : ∀ {s w w'}, Tells s w w' → R w w'
  take : ∀ w s, R w (w.modifySession s fun session =>
    { session with mailbox := (w.session s).mailbox.take.2 })
  part : ∀ w s, R w (w.post s .disconnect)
  finish : ∀ s, Keeps R (endSession s)
  drop : ∀ w s, R w (w.dropSession s)

namespace Spans

variable {P : Breakpoint → Prop} {E : Event → Prop} {H : HeapM Unit → Prop}
  {R : World → World → Prop}

/-- A message that is handed over keeps a relation, if its event has the property. -/
theorem handOver (h : Spans P E H R) (b : Bridge σ) (s : Nat)
    (he : ∀ e, b.handed s (.deliver s) = some (.event e) → E e) :
    R b.world (b.handOver s).world :=
  related_handOver (s := s) h.toSteady b (fun hs hm hr hn => h.beside hs hm hr
    (Nat.le_of_eq hn.symm)) (fun w => h.take w s) h.tells
    fun e hmem => h.handleEvent s (he e hmem) fun _ => h.finish s

/-- Users that disconnect keep a relation. -/
theorem disconnect (h : Spans P E H R) (w : World) (s : Nat) :
    R w (worldAfter (disconnect s) w) := by
  obtain ⟨-, hrun⟩ | ⟨-, u, hu, hend⟩ := disconnect_cases s w
  · rw [hrun]
    exact h.refl w
  · rw [hend]
    exact h.trans (h.posts hu) (h.trans (h.part u s) (h.finish s _))

/-- What all parts of deeds keep is kept by every deed, but perhaps by the opening of a session. -/
theorem after (h : Spans P E H R) (b : Bridge σ) (x : Deed σ)
    (hadd : ∀ m p, x = .addBreakpoint m p → P p)
    (hevent : ∀ s e, b.handed s x = some (.event e) → E e)
    (hheap : ∀ op, x = .onHeap op → H op)
    (hlaunch : ∀ setup, x = .launch setup → R b.world (b.after x).world) :
    R b.world (b.after x).world := by
  cases x with
  | launch setup => exact hlaunch setup rfl
  | call i c =>
      change R b.world (if b.isWaiting i then b else (b.perform i c).2).world
      split
      · exact h.refl _
      · exact h.tells (tells_perform b i c)
  | deliver s => exact h.handOver b s (hevent s)
  | disconnect s =>
      change R b.world (b.act (DebugBridge.disconnect s)).2.world
      rw [world_act]
      exact h.disconnect b.world s
  | dropSession s => exact h.drop b.world s
  | _ => exact h.manual b trivial hadd hheap

end Spans

/-- A relation that all parts of deeds keep, but for the opening of sessions, and that looks neither
at values nor at the journal. Managers may get breakpoints with a property. -/
structure Covers (P : Breakpoint → Prop) (R : World → World → Prop) : Prop extends Steady R where
  shared : ∀ {w w'}, w'.sessions = w.sessions → w'.managers = w.managers →
    w'.reaction = w.reaction → w.nextNumber ≤ w'.nextNumber → R w w'
  asks : ∀ {w w'}, Asks w w' → R w w'
  tells : ∀ {s w w'}, Tells s w w' → R w w'
  shows : ∀ {s ts w w'}, Shows s ts w w' → R w w'
  posts : ∀ {s rs w w'}, Posts s rs w w' → R w w'
  take : ∀ w s, R w (w.modifySession s fun session =>
    { session with mailbox := (w.session s).mailbox.take.2 })
  register : ∀ w s script, R w (w.register s script)
  close : ∀ w s, R w (w.close s)
  drop : ∀ w s, R w (w.dropSession s)
  enter : ∀ w m p, (w.manager m).has p = false → P p → R w (w.modifyManager m fun manager =>
    { manager with breakpoints := manager.breakpoints ++ [p] })
  leave : ∀ w m (p : Breakpoint), R w (w.modifyManager m fun manager =>
    { manager with breakpoints := manager.breakpoints.filter fun q => q.id ≠ p.id })
  prune : ∀ w m, R w (w.prune m)
  listen : ∀ w m name, R w (w.addListener m name).2

namespace Covers

variable {P : Breakpoint → Prop} {R : World → World → Prop}

/-- What shows in no session is kept. -/
theorem still (h : Covers P R) {w w' : World} (hw : Still w w') : R w w' :=
  h.shows (hw.shows 0 [])

/-- A relation that all parts of deeds keep, and that looks at sessions and managers only, is one
that they keep. -/
theorem spans (h : Covers P R) : Spans P (fun _ => True) (fun _ => True) R where
  toSteady := h.toSteady
  beside hs hm hr hn _ := h.shared hs hm hr hn
  onHeap _ _ _ := h.shared rfl rfl rfl (Nat.le_refl _)
  asks := h.asks
  tells := h.tells
  depicts hw := h.shows hw.toShows
  posts := fun ⟨_, _, _, hw⟩ => h.posts hw
  part w s := by
    obtain ⟨rs, hw⟩ := exists_posts_post w s .disconnect
    exact h.posts hw
  take := h.take
  register := h.register
  fill frame reported _ w :=
    h.still (still_withInHand frame (keeps_setVariables frame reported) w)
  result _ frame _ listener _ w :=
    h.still (still_withInHand frame (keeps_deliverResult listener _) w)
  finish s w := h.trans (h.close w s) (h.still (still_endSession s w))
  drop := h.drop
  enter := h.enter
  leave := h.leave
  prune := h.prune
  listen := h.listen

/-- What all parts of deeds keep is kept by every deed, but perhaps by the opening of a session. -/
theorem after (h : Covers P R) (b : Bridge σ) (x : Deed σ)
    (hadd : ∀ m p, x = .addBreakpoint m p → P p)
    (hlaunch : ∀ setup, x = .launch setup → R b.world (b.after x).world) :
    R b.world (b.after x).world :=
  h.spans.after b x hadd (fun _ _ _ => trivial) (fun _ _ => trivial) hlaunch

end Covers

/-! ### Subscriptions throughout a run -/

/-- A session that is given up changes no manager. -/
theorem aside_dropSession (w : World) (s : Nat) : Aside w (w.dropSession s) :=
  aside_modifySession w s _ (fun _ h => by simp at h) (fun _ => rfl) fun _ => rfl

omit [Inhabited σ] [Engine σ] in
/-- A session that is opened is enrolled with its manager, like all others. -/
theorem enrolled_launch (b : Bridge σ) (setup : Setup) (he : Enrolled b.world) :
    Enrolled (b.launch setup).2.world := by
  have hopen : Enrolled (b.world.opened setup) :=
    enrolled_push b.world he (b.world.newSession setup) rfl
  have htold : ∀ j, Enrolled { b.world.opened setup with journal := j } := fun j =>
    hopen.congr rfl rfl
  obtain ⟨j, h | h⟩ := world_launch b setup
  · rw [h]
    exact (aside_joined _ _ setup).enrolled (htold j)
  · rw [h]
    exact (aside_dropSession _ _).enrolled (htold j)

/-- Sessions stay enrolled, whatever is done. -/
theorem covers_enrolled : Covers (fun _ => True) fun w w' => Enrolled w → Enrolled w' where
  refl _ := id
  trans h h' he := h' (h he)
  shared hs hm _ _ he := he.congr hs hm
  asks h := h.aside.enrolled
  tells h := h.aside.enrolled
  shows h := h.aside.enrolled
  posts h := h.aside.enrolled
  take w s := (aside_modifySession w s (fun session =>
    { session with mailbox := (w.session s).mailbox.take.2 })
    (fun _ => id) (fun _ => rfl) fun _ => rfl).enrolled
  register w s script := (aside_modifySession w s
    (fun session => { session with scripts := session.scripts.insert script })
    (fun _ => id) (fun _ => rfl) fun _ => rfl).enrolled
  close w s := enrolled_close w s
  drop w s := (aside_dropSession w s).enrolled
  enter w m p _ _ he := enrolled_modifyBreakpoints w he m (· ++ [p])
  leave w m p he := enrolled_modifyBreakpoints w he m (List.filter fun q => q.id ≠ p.id)
  prune w m he := enrolled_prune w m he
  listen w m name he := enrolled_addListener w he m name

/-- Every deed leaves the subscriptions in order. -/
theorem enrolled_after (b : Bridge σ) (x : Deed σ) (he : Enrolled b.world) :
    Enrolled (b.after x).world := by
  refine covers_enrolled.after b x (fun _ _ _ => trivial) (fun setup hx _ => ?_) he
  subst hx
  exact enrolled_launch b setup he

/-- Sessions are enrolled in every run. -/
theorem enrolled_run {b : Bridge σ} (hb : b.Fresh) (ds : List (Deed σ)) :
    Enrolled (run ds b).world := by
  obtain ⟨reaction, h⟩ := hb
  refine run_induction (P := fun b => Enrolled b.world) ?_ enrolled_after ds
  rw [h]
  exact enrolled_of_start rfl rfl

/-! ### Front ends throughout a run -/

omit [Inhabited σ] [Engine σ] in
/-- A session that is opened does not change how front ends react. -/
theorem reaction_launch (b : Bridge σ) (setup : Setup) :
    (b.launch setup).2.world.reaction = b.world.reaction := by
  have hjoined : ∀ w : World, (w.joined b.world.sessions.size setup).reaction = w.reaction := by
    intro w
    unfold joined
    cases setup.withDebugger <;> cases setup.joined <;> rfl
  obtain ⟨j, h | h⟩ := world_launch b setup
  · rw [h, hjoined]
    rfl
  · rw [h]
    rfl

/-- How front ends react does not change, whatever is done. -/
theorem covers_reaction : Covers (fun _ => True) fun w w' => w'.reaction = w.reaction where
  refl _ := rfl
  trans h h' := h'.trans h
  shared _ _ h _ := h
  asks h := h.reaction
  tells h := h.reaction
  shows h := h.reaction
  posts h := h.reaction
  take _ _ := rfl
  register _ _ _ := rfl
  close w s := by
    unfold World.close
    dsimp only
    split
    · rfl
    · split <;> rfl
  drop _ _ := rfl
  enter _ _ _ _ _ := rfl
  leave _ _ _ := rfl
  prune _ _ := rfl
  listen _ _ _ := rfl

/-- Front ends react throughout a run as they did at its beginning. -/
theorem reaction_run (b : Bridge σ) (ds : List (Deed σ)) :
    (run ds b).world.reaction = b.world.reaction := by
  refine run_induction (P := fun b' => b'.world.reaction = b.world.reaction) rfl ?_ ds
  intro b' x h
  refine (covers_reaction.after b' x (fun _ _ _ => trivial) fun setup hx => ?_).trans h
  subst hx
  exact reaction_launch b' setup

end Bridge

end DebugBridge
