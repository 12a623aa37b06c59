import DebugBridge.Interpreter.VariableTable
import DebugBridge.Proofs.Lifetime
import DebugBridge.Proofs.Outline

/-!
# Who stands still

The model shows a thread as suspended when it was told that the thread stopped, which may be long
after the interpreter did so. What the two sides agree on at every moment is what the model will show
once it has heard all that is on its way. This is the outline of a thread followed through the events
that wait: for a thread that waits at a line it is suspended with the frames of its stack, for any
other it is not. When nothing is on its way, the model shows it.

A thread that waits before a script never waits for nothing: the news of it is still on its way to
the model, or a request to resume is on its way back.

## Main definitions

* `World.foretold`: the outline of a thread when all events that wait were heard;
* `Execution.Fits`, `World.Agrees`: what this has to be;
* `World.Awaited`: whoever waits before a script will be resumed;
* `World.AgreesOnStops`: what front ends see of this when nothing is on its way.

## Main results

* `inStep_run`: the sides agree throughout a run in which no front end fails;
* `agreesOnStops_run`: who stands still, and where, when nothing is on its way.
-/

namespace DebugBridge

/-! ### Following events -/

section Follow

variable {options : LaunchOptions} {id : Nat} {e : Event} {handle : Handle}

/-- An event about one thread does not change the outline of another. -/
theorem followEvent_of_ne (he : e.thread? = some handle) (hid : handle.id ≠ id)
    (o : Option Outline) : followEvent options id o e = o := by
  unfold followEvent
  rw [he]
  exact if_neg hid

/-- An event about a thread changes its outline, which begins at first sight. -/
theorem followEvent_self (he : e.thread? = some handle) (o : Option Outline) :
    followEvent options handle.id o e = some ((o.getD .start).follow options e) := by
  unfold followEvent
  rw [he]
  exact if_pos rfl

/-- An event that concerns no thread changes no outline. -/
theorem followEvent_of_isQuiet (he : e.IsQuiet) (o : Option Outline) :
    followEvent options id o e = o := by
  cases e with
  | engineStarted => rfl
  | frameVariables => rfl
  | evaluated => rfl
  | _ => cases he

/-- What messages make of an outline: requests are not for the model. -/
def followMessage (options : LaunchOptions) (id : Nat) (o : Option Outline) :
    Message → Option Outline
  | .event e => followEvent options id o e
  | .request _ => o

/-- Requests change no outline. -/
theorem foldl_followMessage_request (rs : List Request) (o : Option Outline) :
    (rs.map Message.request).foldl (followMessage options id) o = o := by
  induction rs with
  | nil => rfl
  | cons r rs ih => exact ih

/-- Events among messages change outlines like events. -/
theorem foldl_followMessage_event (es : List Event) (o : Option Outline) :
    (es.map Message.event).foldl (followMessage options id) o
      = es.foldl (followEvent options id) o := by
  rw [List.foldl_map]
  rfl

end Follow

/-! ### Outlines that fit -/

namespace Execution

/-- What the model will show of a thread. -/
def Fits (options : LaunchOptions) (x : Execution) (o : Option Outline) : Prop :=
  if x.waiting = some .line then o = some ⟨.suspended, activationIds (options.shownStack x.stack)⟩
  else ∀ p, o = some p → p.state ≠ .suspended ∧ p.state ≠ .terminated

variable {options : LaunchOptions} {x : Execution} {o : Option Outline}

/-- A thread that waits at a line is shown as suspended, with its stack. -/
theorem Fits.of_line (h : x.Fits options o) (hw : x.waiting = some .line) :
    o = some ⟨.suspended, activationIds (options.shownStack x.stack)⟩ := by
  unfold Fits at h
  rwa [if_pos hw] at h

/-- What waits at a line fits an outline that is suspended, with the stack. -/
theorem fits_line (hw : x.waiting = some .line)
    (h : o = some ⟨.suspended, activationIds (options.shownStack x.stack)⟩) : x.Fits options o := by
  unfold Fits
  rwa [if_pos hw]

/-- A thread that does not wait at a line is shown neither as suspended nor as gone. -/
theorem Fits.of_ne_line (h : x.Fits options o) (hw : x.waiting ≠ some .line) :
    ∀ p, o = some p → p.state ≠ .suspended ∧ p.state ≠ .terminated := by
  unfold Fits at h
  rwa [if_neg hw] at h

/-- What does not wait at a line fits an outline that is neither suspended nor gone. -/
theorem fits_ne_line (hw : x.waiting ≠ some .line)
    (h : ∀ p, o = some p → p.state ≠ .suspended ∧ p.state ≠ .terminated) : x.Fits options o := by
  unfold Fits
  rwa [if_neg hw]

/-- No thread is shown as gone as long as it is there. -/
theorem Fits.state_ne_terminated (h : x.Fits options o) :
    (o.getD .start).state ≠ .terminated := by
  by_cases hw : x.waiting = some .line
  · rw [h.of_line hw]
    simp
  · cases ho : o with
    | none => simp [Outline.start]
    | some p => exact (h.of_ne_line hw p ho).2

/-- A thread that goes its way is not shown as suspended. -/
theorem Fits.state_ne_suspended (h : x.Fits options o) (hw : x.waiting ≠ some .line) :
    (o.getD .start).state ≠ .suspended := by
  cases ho : o with
  | none => simp [Outline.start]
  | some p => exact (h.of_ne_line hw p ho).1

/-- What is said of a change fits the changed execution. -/
theorem Fits.follows {ts : List Script} {x' : Execution} {es : List Event}
    (h : x.Fits options o) (hs : x.Says ts x' es) :
    x'.Fits options (es.foldl (followEvent options x.handle.id) o) := by
  have hlive := h.state_ne_terminated
  cases hs with
  | moved _ hw hw' =>
      refine fits_ne_line (by rw [hw']; simp) ?_
      exact h.of_ne_line (by rw [hw]; simp)
  | putOff pending => exact h
  | held script root hw =>
      have hstill := h.state_ne_suspended (by rw [hw]; simp)
      rw [List.foldl_cons, List.foldl_nil, followEvent_self rfl, Outline.follow_scriptReady]
      refine fits_ne_line (by simp) fun p hp => ?_
      obtain rfl := Option.some.inj hp
      exact ⟨hstill, hlive⟩
  | stopped reason hw =>
      rw [List.foldl_cons, List.foldl_nil, followEvent_self rfl]
      refine fits_line rfl ?_
      rw [Outline.follow, if_neg hlive]
  | released _ kind hw hw' =>
      rw [List.foldl_cons, List.foldl_nil, followEvent_self rfl]
      refine fits_ne_line (by rw [hw']; simp) fun p hp => ?_
      obtain rfl : (o.getD .start).follow options (.resumed x.handle kind) = p :=
        Option.some.inj hp
      rw [Outline.follow, if_neg hlive]
      dsimp only
      split <;> simp

/-- What mentions a thread leaves its outline fit. -/
theorem Fits.mentions {e : Event} (h : x.Fits options o) (he : x.Mentions e) :
    x.Fits options (followEvent options x.handle.id o e) := by
  have hlive := h.state_ne_terminated
  cases he with
  | created hw =>
      have hstill := h.state_ne_suspended (by rw [hw]; simp)
      rw [followEvent_self rfl, Outline.follow_threadCreated]
      refine fits_ne_line (by rw [hw]; simp) fun p hp => ?_
      obtain rfl := Option.some.inj hp
      exact ⟨hstill, hlive⟩
  | frames hw =>
      rw [followEvent_self rfl, Outline.follow, if_neg hlive]
      by_cases hline : x.waiting = some .line
      · refine fits_line hline ?_
        rw [h.of_line hline]
        rfl
      · refine fits_ne_line hline fun p hp => ?_
        obtain rfl := Option.some.inj hp
        exact ⟨h.state_ne_suspended hline, hlive⟩

end Execution

/-- What an execution says of itself is about its thread. -/
theorem Execution.Says.thread? {ts : List Script} {x x' : Execution} {es : List Event}
    (h : x.Says ts x' es) :
    ∀ e ∈ es, e.thread? = some x.handle := by
  intro e he
  cases h with
  | moved => cases he
  | putOff => cases he
  | _ =>
      obtain rfl := List.mem_singleton.mp he
      rfl

/-- An event that mentions an execution is about its thread. -/
theorem Execution.Mentions.thread? {x : Execution} {e : Event} (h : x.Mentions e) :
    e.thread? = some x.handle := by
  cases h <;> rfl

/-- What is said of one thread does not concern the outlines of others. -/
theorem foldl_followEvent_of_ne {options : LaunchOptions} {id : Nat} {handle : Handle}
    (hid : handle.id ≠ id) (es : List Event) (hes : ∀ e ∈ es, e.thread? = some handle)
    (o : Option Outline) : es.foldl (followEvent options id) o = o := by
  induction es with
  | nil => rfl
  | cons e es ih =>
      rw [List.foldl_cons, followEvent_of_ne (hes e List.mem_cons_self) hid]
      exact ih fun e' he' => hes e' (List.mem_cons_of_mem _ he')

/-- What concerns no thread changes no outline. -/
theorem foldl_followEvent_of_isQuiet {options : LaunchOptions} {id : Nat} (es : List Event)
    (hes : ∀ e ∈ es, e.IsQuiet) (o : Option Outline) :
    es.foldl (followEvent options id) o = o := by
  induction es with
  | nil => rfl
  | cons e es ih =>
      rw [List.foldl_cons, followEvent_of_isQuiet (hes e List.mem_cons_self)]
      exact ih fun e' he' => hes e' (List.mem_cons_of_mem _ he')

/-! ### Agreement -/

/-- What outlines have to be for the executions of a debugger, where all handles given out by now
are below a bound. -/
structure Debugger.Agrees (options : LaunchOptions) (f : Nat → Option Outline) (n : Nat)
    (d : Debugger) : Prop where
  fits : ∀ x ∈ d.executions, x.Fits options (f x.handle.id)
  left : ∀ id, (∀ x ∈ d.executions, x.handle.id ≠ id) → ∀ p, f id = some p → p.state = .terminated
  unborn : ∀ id, n ≤ id → f id = none

namespace Debugger.Agrees

variable {options : LaunchOptions} {f f' : Nat → Option Outline} {n n' : Nat} {d d' : Debugger}

/-- A thread without an execution is not shown as suspended. -/
theorem gone (h : Agrees options f n d) (id : Nat) (hid : ∀ x ∈ d.executions, x.handle.id ≠ id)
    (p : Outline) (hp : f id = some p) : p.state ≠ .suspended := by
  rw [h.left id hid p hp]
  nofun

/-- A step that concerns one execution and the outline of its thread alone. -/
theorem update (h : Agrees options f n d) (hord : d.Orderly n) {x : Execution}
    (hx : x ∈ d.executions)
    (hold : ∀ y ∈ d'.executions, y ∈ d.executions ∧ y.owner ≠ x.owner
      ∨ y.handle = x.handle ∧ y.Fits options (f' x.handle.id))
    (hkept : ∀ y ∈ d.executions, y.owner ≠ x.owner → y ∈ d'.executions)
    (hself : (∀ y ∈ d'.executions, y.handle.id ≠ x.handle.id) → ∀ p, f' x.handle.id = some p →
      p.state = .terminated)
    (hf : ∀ id, x.handle.id ≠ id → f' id = f id) (hn : n ≤ n') : Agrees options f' n' d' := by
  have hother : ∀ y ∈ d.executions, y.owner ≠ x.owner → x.handle.id ≠ y.handle.id :=
    fun y hy hne hid => hne (hord.distinct y hy x hx hid.symm)
  refine ⟨fun y hy => ?_, fun id hid => ?_, fun id hid => ?_⟩
  · obtain ⟨hy, hne⟩ | ⟨hh, hfit⟩ := hold y hy
    · rw [hf _ (hother y hy hne)]
      exact h.fits y hy
    · rw [hh]
      exact hfit
  · by_cases hxid : x.handle.id = id
    · subst hxid
      exact hself hid
    · rw [hf id hxid]
      refine h.left id fun y hy => ?_
      by_cases ho : y.owner = x.owner
      · rw [hord.eq_of_owner hy hx ho]
        exact hxid
      · exact hid y (hkept y hy ho)
  · have hne : x.handle.id ≠ id :=
      Nat.ne_of_lt (Nat.lt_of_lt_of_le (hord.below x hx) (Nat.le_trans hn hid))
    rw [hf id hne]
    exact h.unborn id (Nat.le_trans hn hid)

/-- Handles may be given out to something else. -/
theorem mono (h : Agrees options f n d) (hn : n ≤ n') : Agrees options f n' d :=
  ⟨h.fits, h.left, fun id hid => h.unborn id (Nat.le_trans hn hid)⟩

/-- An execution that changes is told of. -/
theorem put (h : Agrees options f n d) (hord : d.Orderly n) {ts : List Script}
    {x x' : Execution} {es : List Event}
    (hx : x ∈ d.executions) (hs : x.Says ts x' es) (hn : n ≤ n') :
    Agrees options (fun id => es.foldl (followEvent options id) (f id)) n' (d.put x') := by
  have howner := hs.owner
  have hmem : x' ∈ (d.put x').executions :=
    mem_of_ofOwner? (World.ofOwner?_put_self (hord.keyed x hx) howner)
  refine h.update hord hx (fun y hy => ?_) (fun y hy hne => ?_) (fun hnone => ?_) (fun id hid => ?_) hn
  · obtain ⟨hy, hne⟩ | ⟨rfl, -⟩ := mem_put hy
    · exact .inl ⟨hy, howner ▸ hne⟩
    · exact .inr ⟨hs.handle, (h.fits x hx).follows hs⟩
  · refine List.mem_map.mpr ⟨y, hy, if_neg ?_⟩
    rw [howner]
    exact hne
  · exact absurd (congrArg Handle.id hs.handle) (hnone x' hmem)
  · exact foldl_followEvent_of_ne hid es hs.thread? _

/-- An execution that is mentioned stays as it is. -/
theorem mention (h : Agrees options f n d) (hord : d.Orderly n) {x : Execution} {e : Event}
    (hx : x ∈ d.executions) (he : x.Mentions e) (hn : n ≤ n') :
    Agrees options (fun id => [e].foldl (followEvent options id) (f id)) n' d := by
  refine h.update hord hx (fun y hy => ?_) (fun y hy _ => hy) (fun hnone => ?_) (fun id hid => ?_) hn
  · by_cases ho : y.owner = x.owner
    · obtain rfl := hord.eq_of_owner hy hx ho
      exact .inr ⟨rfl, (h.fits y hy).mentions he⟩
    · exact .inl ⟨hy, ho⟩
  · exact absurd rfl (hnone x hx)
  · exact followEvent_of_ne he.thread? hid _

/-- A thread that goes is shown as gone. -/
theorem erase (h : Agrees options f n d) (hord : d.Orderly n) {x : Execution}
    (hx : x ∈ d.executions) (hn : n ≤ n') :
    Agrees options (fun id => [Event.threadTerminated x.handle].foldl (followEvent options id) (f id))
      n' (d.erase x.owner) := by
  have hlive := (h.fits x hx).state_ne_terminated
  refine h.update hord hx (fun y hy => ?_) (fun y hy hne => ?_) (fun _ p hp => ?_) (fun id hid => ?_)
    hn
  · obtain ⟨hy, hne⟩ := List.mem_filter.mp hy
    exact .inl ⟨hy, by simpa using hne⟩
  · exact List.mem_filter.mpr ⟨hy, by simpa using hne⟩
  · rw [List.foldl_cons, List.foldl_nil, followEvent_self rfl, Outline.follow, if_neg hlive] at hp
    obtain rfl := Option.some.inj hp
    rfl
  · exact followEvent_of_ne (e := .threadTerminated x.handle) rfl hid _

/-- A thread that is seen for the first time goes its way. -/
theorem insert (h : Agrees options f n d) (o : Nat) (name : String) (hn : n < n') :
    Agrees options f n' (d.insert (.start o ⟨n, name⟩)) := by
  refine ⟨fun y hy => ?_, fun id hid => h.left id fun y hy => ?_, ?_⟩
  · rcases List.mem_append.mp hy with hy | hy
    · exact h.fits y hy
    · obtain rfl := List.mem_singleton.mp hy
      refine Execution.fits_ne_line (by simp [Execution.start]) fun p hp => ?_
      have hnone : f n = none := h.unborn n (Nat.le_refl n)
      rw [show (Execution.start o ⟨n, name⟩).handle.id = n from rfl, hnone] at hp
      cases hp
  · exact hid y (List.mem_append_left _ hy)
  · exact fun id hid => h.unborn id (Nat.le_trans (Nat.le_of_lt hn) hid)

end Debugger.Agrees

/-- A message that leads to the resumption of the thread with a number: the news that the thread
waits before a script, or a request to resume it. -/
def Message.Frees (id : Nat) : Message → Prop
  | .event (.scriptReady _ thread _) => thread.id = id
  | .request (.resume (some thread) _) => thread.id = id
  | _ => False

namespace World

variable {s o : Nat} {d d' : Debugger} {w w' : World}

/-- What the model will show of the thread with a number once it heard all events that wait. -/
def foretold (w : World) (s id : Nat) : Option Outline :=
  (w.mail s).foldl (followMessage (w.session s).options id) ((w.session s).outline id)

/-- The two sides of a session agree on what the model will show. -/
def Agrees (w : World) (s : Nat) (d : Debugger) : Prop :=
  d.Agrees (w.session s).options (w.foretold s) w.nextNumber

/-- Messages that are added are heard last. -/
theorem foretold_append {ms : List Message} (hm : (w'.session s).model = (w.session s).model)
    (hmail : w'.mail s = w.mail s ++ ms) (id : Nat) :
    w'.foretold s id = ms.foldl (followMessage (w.session s).options id) (w.foretold s id) := by
  have hoptions : (w'.session s).options = (w.session s).options := (congrArg Session.options hm :)
  have hthreads : (w'.session s).threads = (w.session s).threads := by
    rw [← Session.threads_model, hm, Session.threads_model]
  rw [foretold, foretold, hmail, hoptions, List.foldl_append, Session.outline, Session.outline,
    hthreads]

/-- Requests that come behind the rest change nothing of what is foretold. -/
theorem foretold_requests {rs : List Request} (hm : (w'.session s).model = (w.session s).model)
    (hmail : w'.mail s = w.mail s ++ rs.map .request) : w'.foretold s = w.foretold s := by
  funext id
  rw [foretold_append hm hmail, foldl_followMessage_request]

/-- Events that are told come last. -/
theorem foretold_becomes {es : List Event} (h : Live w s d) (hb : Becomes s d' es w w') :
    w'.foretold s = fun id => es.foldl (followEvent (w.session s).options id) (w.foretold s id) := by
  funext id
  rw [foretold_append hb.tells.here.model (h.mail_becomes hb), foldl_followMessage_event]

/-- A step for one thread is told of as it should be. -/
theorem Agrees.reports (ha : Agrees w s d) (h : Live w s d) (hr : Reports s o ts w d w' d') :
    Agrees w' s d' := by
  have hoptions : ∀ {es : List Event}, Becomes s d' es w w' →
      (w'.session s).options = (w.session s).options := fun hb =>
    (congrArg Session.options hb.tells.here.model :)
  unfold Agrees
  cases hr with
  | opened name hnew hn hb =>
      rw [hoptions hb, foretold_becomes h hb]
      exact Debugger.Agrees.insert ha o name hn
  | said x x' es hx ho hs hb =>
      rw [hoptions hb, foretold_becomes h hb]
      exact Debugger.Agrees.put ha h.orderly hx hs hb.tells.numbers
  | told x e hx ho he hb =>
      rw [hoptions hb, foretold_becomes h hb]
      exact Debugger.Agrees.mention ha h.orderly hx he hb.tells.numbers
  | quiet es hq hb =>
      rw [hoptions hb, foretold_becomes h hb]
      simp only [foldl_followEvent_of_isQuiet es hq]
      exact Debugger.Agrees.mono ha hb.tells.numbers
  | gone x hx ho hb =>
      rw [hoptions hb, foretold_becomes h hb]
      subst ho
      exact Debugger.Agrees.erase ha h.orderly hx hb.tells.numbers

/-! ### Threads before a script -/

/-- Whoever waits before a script will be resumed by what is on its way. -/
def Awaited (w : World) (s : Nat) (d : Debugger) : Prop :=
  ∀ x ∈ d.executions, x.waiting = some .load → ∃ m ∈ w.mail s, m.Frees x.handle.id

/-- Where no message is lost, only threads that come to wait before a script have to be looked
at. -/
theorem Awaited.of_old {ms : List Message} (h : Awaited w s d) (hmail : w'.mail s = w.mail s ++ ms)
    (hold : ∀ y ∈ d'.executions, y.waiting = some .load →
      (∃ x ∈ d.executions, x.waiting = some .load ∧ x.handle = y.handle)
        ∨ ∃ m ∈ ms, m.Frees y.handle.id) : Awaited w' s d' := by
  intro y hy hw
  rw [hmail]
  obtain ⟨x, hx, hxw, hh⟩ | ⟨m, hm, hfrees⟩ := hold y hy hw
  · obtain ⟨m, hm, hfrees⟩ := h x hx hxw
    exact ⟨m, List.mem_append_left _ hm, hh ▸ hfrees⟩
  · exact ⟨m, List.mem_append_right _ hm, hfrees⟩

/-- Who waits before a script is still awaited after a step of the debugger. -/
theorem Awaited.reports (ha : Awaited w s d) (h : Live w s d) (hr : Reports s o ts w d w' d') :
    Awaited w' s d' := by
  cases hr with
  | opened name hnew hn hb =>
      refine ha.of_old (h.mail_becomes hb) fun y hy hw => ?_
      rcases List.mem_append.mp hy with hy | hy
      · exact .inl ⟨y, hy, hw, rfl⟩
      · obtain rfl := List.mem_singleton.mp hy
        cases hw
  | said x x' es hx ho hs hb =>
      refine ha.of_old (h.mail_becomes hb) fun y hy hw => ?_
      obtain ⟨hy, -⟩ | ⟨rfl, -⟩ := Debugger.mem_put hy
      · exact .inl ⟨y, hy, hw, rfl⟩
      · cases hs with
        | moved _ _ hw' =>
            rw [hw'] at hw
            cases hw
        | putOff pending => exact .inl ⟨x, hx, hw, rfl⟩
        | held script root _ => exact .inr ⟨_, List.mem_cons_self, rfl⟩
        | stopped reason _ => cases hw
        | released _ kind _ hw' =>
            rw [hw'] at hw
            cases hw
  | told x e hx ho he hb =>
      exact ha.of_old (h.mail_becomes hb) fun y hy hw => .inl ⟨y, hy, hw, rfl⟩
  | quiet es hq hb =>
      exact ha.of_old (h.mail_becomes hb) fun y hy hw => .inl ⟨y, hy, hw, rfl⟩
  | gone x hx ho hb =>
      exact ha.of_old (h.mail_becomes hb) fun y hy hw =>
        .inl ⟨y, (List.mem_filter.mp hy).1, hw, rfl⟩

/-! ### Every step -/

/-- The two sides of a session are in step. -/
structure InStep (w : World) (s : Nat) (d : Debugger) : Prop where
  agrees : w.Agrees s d
  awaited : w.Awaited s d
  numbered : Numbered (w.session s).threads

/-- The two sides of a session are in step after a step of the debugger. -/
theorem InStep.reports (hs : InStep w s d) (h : Live w s d) (hr : Reports s o ts w d w' d') :
    InStep w' s d' := by
  refine ⟨hs.agrees.reports h hr, hs.awaited.reports h hr, ?_⟩
  obtain ⟨es, hb⟩ := hr.becomes
  rw [← Session.threads_model, hb.tells.here.model, Session.threads_model]
  exact hs.numbered

/-- The two sides of a session are in step after several steps of the debugger. -/
theorem InStep.works (hs : InStep w s d) (h : Live w s d) (hw : Works s o ts w d w' d') :
    InStep w' s d' :=
  h.works_induction (P := fun w d => InStep w s d) hw hs fun hlive hstep hr =>
    hstep.reports hlive hr

/-- What does not show in where threads stand changes nothing. -/
theorem InStep.becomes (hs : InStep w s d) (h : Live w s d) (hb : Becomes s d' [] w w')
    (hback : ∀ y ∈ d'.executions, ∃ x ∈ d.executions,
      y.handle = x.handle ∧ y.waiting = x.waiting ∧ y.stack = x.stack)
    (hforth : ∀ x ∈ d.executions, ∃ y ∈ d'.executions, y.handle = x.handle) : InStep w' s d' := by
  have hm := hb.tells.here.model
  have hoptions : (w'.session s).options = (w.session s).options := (congrArg Session.options hm :)
  refine ⟨?_, ?_, ?_⟩
  · unfold Agrees
    rw [hoptions, foretold_becomes h hb]
    refine ⟨fun y hy => ?_, fun id hid => ?_, fun id hid => ?_⟩
    · obtain ⟨x, hx, hh, hw, hstack⟩ := hback y hy
      have hfit := hs.agrees.fits x hx
      unfold Execution.Fits at hfit ⊢
      rw [hh, hw, hstack]
      exact hfit
    · refine hs.agrees.left id fun x hx => ?_
      obtain ⟨y, hy, hh⟩ := hforth x hx
      rw [← hh]
      exact hid y hy
    · exact hs.agrees.unborn id (Nat.le_trans hb.tells.numbers hid)
  · refine hs.awaited.of_old (h.mail_becomes hb) fun y hy hw => ?_
    obtain ⟨x, hx, hh, hxw, -⟩ := hback y hy
    exact .inl ⟨x, hx, hxw ▸ hw, hh.symm⟩
  · rw [← Session.threads_model, hm, Session.threads_model]
    exact hs.numbered

/-- Requests on their way to the interpreter side change nothing. -/
theorem InStep.requests (hs : InStep w s d) {rs : List Request}
    (hm : (w'.session s).model = (w.session s).model)
    (hmail : w'.mail s = w.mail s ++ rs.map .request) (hn : w.nextNumber ≤ w'.nextNumber) :
    InStep w' s d := by
  have hoptions : (w'.session s).options = (w.session s).options := (congrArg Session.options hm :)
  refine ⟨?_, ?_, ?_⟩
  · unfold Agrees
    rw [hoptions, foretold_requests hm hmail]
    exact Debugger.Agrees.mono hs.agrees hn
  · exact hs.awaited.of_old hmail fun y hy hw => .inl ⟨y, hy, hw, rfl⟩
  · rw [← Session.threads_model, hm, Session.threads_model]
    exact hs.numbered

/-- A session that was just opened is in step: nothing is known on either side. -/
theorem Opened.inStep (h : Opened w s d) : InStep w s d := by
  have hthreads : (w.session s).threads = [] := by
    unfold Session.threads
    rw [h.process]
  have hnone : ∀ id, w.foretold s id = none := by
    intro id
    rw [foretold, h.mail, Session.outline, hthreads]
    rfl
  refine ⟨⟨?_, fun id _ p hp => ?_, fun id _ => hnone id⟩, ?_, ?_⟩
  · rw [h.executions]
    exact List.forall_mem_nil _
  · rw [hnone] at hp
    cases hp
  · unfold Awaited
    rw [h.executions]
    exact List.forall_mem_nil _
  · rw [hthreads]
    exact List.nodup_nil

/-- The events that wait are heard in their order. -/
theorem foretold_of_follows {u : World} {e : Event} {rs : List Request} (hu : Takes s w u)
    (hmail : w.mail s = .event e :: u.mail s) (hf : Follows s e u w')
    (hoptions : (w'.session s).options = (u.session s).options)
    (hmail' : w'.mail s = u.mail s ++ rs.map .request) : w'.foretold s = w.foretold s := by
  have hmodel : (u.session s).outline = (w.session s).outline
      ∧ (u.session s).options = (w.session s).options := by
    rw [hu.here]
    exact ⟨rfl, rfl⟩
  funext id
  rw [foretold, foretold, hmail, hmail', List.foldl_append, foldl_followMessage_request,
    hf.outline, hoptions, hmodel.1, hmodel.2]
  rfl

/-- What the debugger is asked for is not for the model. -/
theorem foretold_of_takes {u : World} {r : Request} (hu : Takes s w u)
    (hmail : w.mail s = .request r :: u.mail s) : u.foretold s = w.foretold s := by
  funext id
  rw [foretold, foretold, hmail, hu.here]
  rfl

/-- What the sides agree on does not change when a request is handed over. -/
theorem InStep.agrees_of_takes {u : World} {r : Request} (hs : InStep w s d) (hu : Takes s w u)
    (hmail : w.mail s = .request r :: u.mail s) : u.Agrees s d := by
  have hoptions : (u.session s).options = (w.session s).options := by rw [hu.here]
  unfold Agrees
  rw [hoptions, foretold_of_takes hu hmail, hu.numbers]
  exact hs.agrees

/-- Whoever waits is still awaited, unless the request that is handed over is the one that was waited
for. -/
theorem InStep.awaited_of_takes {u : World} {r : Request} {y : Execution} (hs : InStep w s d)
    (hmail : w.mail s = .request r :: u.mail s) (hy : y ∈ d.executions)
    (hw : y.waiting = some .load) (hnot : ¬Message.Frees y.handle.id (.request r)) :
    ∃ m ∈ u.mail s, m.Frees y.handle.id := by
  obtain ⟨m, hm, hfrees⟩ := hs.awaited y hy hw
  rw [hmail] at hm
  rcases List.mem_cons.mp hm with rfl | hm
  · exact absurd hfrees hnot
  · exact ⟨m, hm, hfrees⟩

/-- The sides stay in step when a request is handed over that resumes no thread the debugger knows. -/
theorem InStep.takes {u : World} {r : Request} (hs : InStep w s d) (hlive : Live u s d)
    (hu : Takes s w u) (hmail : w.mail s = .request r :: u.mail s)
    (hr : ∀ handle kind, r = .resume (some handle) kind → d.ofHandle? handle = none) :
    InStep u s d := by
  refine ⟨hs.agrees_of_takes hu hmail, fun y hy hw => ?_, by rw [hu.here]; exact hs.numbered⟩
  refine hs.awaited_of_takes hmail hy hw fun hfrees => ?_
  cases r with
  | resume thread kind =>
      cases thread with
      | none => exact hfrees
      | some handle =>
          have hnone := hr handle kind rfl
          rw [hlive.orderly.ofHandle?_eq hy hfrees.symm] at hnone
          cases hnone
  | _ => exact hfrees

/-- An event that is heard leaves the sides in step, if a script that is ready is answered. -/
theorem InStep.heard {u : World} {e : Event} (rs : List Request) (hs : InStep w s d)
    (hu : Takes s w u) (hmail : w.mail s = .event e :: u.mail s) (hf : Follows s e u w')
    (hoptions : (w'.session s).options = (u.session s).options)
    (hmail' : w'.mail s = u.mail s ++ rs.map .request) (hn : u.nextNumber ≤ w'.nextNumber)
    (hready : ∀ script thread root, e = .scriptReady script thread root →
      ∃ handle kind, handle.id = thread.id ∧ .resume (some handle) kind ∈ rs) :
    InStep w' s d := by
  have hsame : (u.session s).options = (w.session s).options := by rw [hu.here]
  refine ⟨?_, fun x hx hw => ?_, hf.numbered ?_⟩
  · unfold Agrees
    rw [hoptions, hsame, foretold_of_follows hu hmail hf hoptions hmail']
    exact Debugger.Agrees.mono hs.agrees (hu.numbers ▸ hn)
  · rw [hmail']
    obtain ⟨m, hm, hfrees⟩ := hs.awaited x hx hw
    rw [hmail] at hm
    rcases List.mem_cons.mp hm with rfl | hm
    · cases e with
      | scriptReady script thread root =>
          obtain ⟨handle, kind, hid, hmem⟩ := hready script thread root rfl
          exact ⟨_, List.mem_append_right _ (List.mem_map_of_mem hmem), hid.trans hfrees⟩
      | _ => exact absurd hfrees id
    · exact ⟨m, List.mem_append_left _ hm, hfrees⟩
  · rw [hu.here]
    exact hs.numbered

end World

namespace Bridge

open World

variable {σ : Type} [Inhabited σ] [Engine σ] {s : Nat} {d d' : Debugger} {b b' : Bridge σ}
  {x : Deed σ}

omit [Inhabited σ] [Engine σ] in
/-- A debugger that takes a request stays in step. -/
theorem inStep_obeyed {u : World} {r : Request} (hs : InStep b.world s d)
    (hlive : Live u s d) (hlive' : Live b'.world s d') (hu : Takes s b.world u)
    (hmail : b.world.mail s = .request r :: u.mail s) (hend : r ≠ .terminate)
    (h : Obeyed s d r u b'.world) : InStep b'.world s d' := by
  cases h with
  | resumed handle kind y hr hy hreports =>
      subst hr
      obtain ⟨es, hb⟩ := hreports.becomes
      obtain rfl := Live.unique hlive' (hlive.reports hreports)
      have hmem := Debugger.mem_of_ofHandle? hy
      have hid : y.handle.id = handle.id := by simpa using List.find?_some hy
      refine ⟨(hs.agrees_of_takes hu hmail).reports hlive hreports, fun z hz hw => ?_, ?_⟩
      · obtain ⟨hz, hne⟩ | ⟨rfl, -⟩ := Debugger.mem_put hz
        · obtain ⟨m, hm, hfrees⟩ := hs.awaited_of_takes hmail hz hw fun hfrees => by
            refine hne ?_
            rw [Execution.owner_resume]
            exact hlive.orderly.distinct z hz y hmem (Eq.symm (hid.trans hfrees))
          rw [hlive.mail_becomes hb]
          exact ⟨m, List.mem_append_left _ hm, hfrees⟩
        · rw [Execution.waiting_resume] at hw
          cases hw
      · rw [← Session.threads_model, hb.tells.here.model, Session.threads_model, hu.here]
        exact hs.numbered
  | served o d₁ hr hx hworks hwaiting =>
      obtain rfl := Live.unique hlive' (hlive.works hworks)
      exact (hs.takes hlive hu hmail hx).works hlive hworks
  | nudged thread hr f hf hb =>
      have hstep : InStep u s d := hs.takes hlive hu hmail (by rw [hr]; simp)
      obtain rfl := hlive'.eq_of_debugger hb.debugger
      refine hstep.becomes hlive hb (fun y hy => ?_) fun y hy => ?_
      · obtain ⟨z, hz, rfl⟩ := List.mem_map.mp hy
        obtain ⟨-, hhandle, hwaiting, hstack⟩ := Execution.same_of_asks hf z
        exact ⟨z, hz, hhandle, hwaiting, hstack⟩
      · exact ⟨f y, List.mem_map_of_mem hy, (Execution.same_of_asks hf y).2.1⟩
  | noted script point mode hr hb =>
      have hstep : InStep u s d := hs.takes hlive hu hmail (by rw [hr]; simp)
      obtain rfl := hlive'.eq_of_debugger hb.debugger
      exact hstep.becomes hlive hb (fun y hy => ⟨y, hy, rfl, rfl, rfl⟩) fun y hy => ⟨y, hy, rfl⟩
  | left hr => exact absurd hr hend

/-- Where no front end fails, every step of a live session keeps its sides in step. -/
theorem inStep_goes (hc : b.world.Calm) (hs : InStep b.world s d) (hlive : Live b.world s d)
    (hlive' : Live b'.world s d') (h : Goes s b d x b' d') : InStep b'.world s d' := by
  have hcalm : ∀ {u : World}, Takes s b.world u → u.Calm := by
    intro u hu notes n
    rw [hu.reaction]
    exact hc notes n
  cases h with
  | asked rs _ hr hd hmodel hmail hb hn =>
      subst hd
      exact hs.requests hmodel hmail hn
  | changed p c hp hd hmodel hmail hb hn =>
      subst hd
      exact hs.requests hmodel hmail hn
  | called i c hx hi hw hrun hworks hb => exact hs.works hlive hworks
  | shown e u j hx hd hu hliveU hmail _ hrun hshows hend hbroken hb =>
      subst hd
      obtain ⟨_, w, hok, hfollows⟩ := ends_handleEvent (hcalm hu) hliveU.alive hliveU.attached hend
      have hw : b'.world.session s = w.session s := by
        rw [hrun, worldAfter, hok]
        rfl
      have hfollows' : Follows s e u b'.world := by
        refine ⟨fun id => ?_, fun hn => ?_⟩
        · rw [hw]
          exact hfollows.outline id
        · rw [hw]
          exact hfollows.numbered hn
      exact hs.heard [] hu hmail hfollows' (congrArg Session.options hshows.here :)
        (by rw [mail_of_outer (outer_of_shell hshows.here)]; simp) hshows.numbers
        fun script thread root he => by
          obtain ⟨failure, w', herror⟩ := hbroken script thread root he
          rw [hok] at herror
          cases herror
  | answered script thread root u v handle kind j hx hd hu hliveU hmail _ hrun hv hid hposts hmail' hb =>
      subst hd
      obtain ⟨_, w, hok, hfollows⟩ := ends_handleEvent (e := .scriptReady script thread root)
        (hcalm hu) hliveU.alive hliveU.attached (by simp)
      have hw : b'.world.session s = w.session s := by
        rw [hrun, worldAfter, hok]
        rfl
      have hfollows' : Follows s (.scriptReady script thread root) u b'.world := by
        refine ⟨fun id => ?_, fun hn => ?_⟩
        · rw [hw]
          exact hfollows.outline id
        · rw [hw]
          exact hfollows.numbered hn
      have hoptions : (b'.world.session s).options = (u.session s).options := by
        have hreg : ((v.register s script).session s).options = (u.session s).options :=
          (congrArg Session.options ((outer_register v s script).trans (outer_of_shell hv.here)) :)
        exact (congrArg Session.options hposts.here.model :).trans hreg
      refine hs.heard _ hu hmail hfollows' hoptions hmail' (Nat.le_trans hv.numbers hposts.numbers)
        fun script' thread' root' he => ?_
      cases he
      exact ⟨handle, kind, hid, List.mem_append_right _ List.mem_cons_self⟩
  | obeyed r u hx hu hliveU hmail hr hend hobeyed hb =>
      exact inStep_obeyed hs hliveU hlive' hu hmail hend hobeyed

/-! ### Runs -/

/-- Where no front end fails, the sides of a session are in step as long as it is live. -/
theorem inStep_run {b : Bridge σ} (hb : b.world = .start) (ds : List (Deed σ))
    (hlive : Live (run ds b).world s d) : InStep (run ds b).world s d := by
  have hfresh : b.Fresh := ⟨World.start.reaction, hb⟩
  have hcalm : ∀ ds, (run ds b).world.Calm := by
    intro ds notes n
    rw [reaction_run, hb]
    rfl
  exact live_induction hfresh (J := fun ds d => InStep (run ds b).world s d)
    (fun _ _ _ hopened => hopened.inStep)
    (fun ds _ _ _ hlive hs hgoes hlive' => inStep_goes (hcalm ds) hs hlive hlive' hgoes) ds hlive

end Bridge

/-- What front ends see of the threads of an interpreter when nothing is on its way: none waits
before a script, those that wait at a line are shown as suspended and no others are, and their frames
stand for their stacks, innermost first, without generated code unless that is shown. -/
structure World.AgreesOnStops (w : World) (s : Nat) (d : Debugger) : Prop where
  passed : ∀ x ∈ d.executions, x.waiting ≠ some .load
  stopped : ∀ x ∈ d.executions, x.waiting = some .line ↔
    ∃ t ∈ (w.session s).threads, t.handle.id = x.handle.id ∧ t.state = .suspended
  known : ∀ t ∈ (w.session s).threads, t.state = .suspended →
    ∃ x ∈ d.executions, x.handle.id = t.handle.id
  frames : ∀ x ∈ d.executions, x.waiting = some .line → ∀ t ∈ (w.session s).threads,
    t.handle.id = x.handle.id → t.frames.map (·.activation.id)
      = activationIds ((w.session s).options.shownStack x.stack)

namespace Bridge

open World

variable {σ : Type} [Inhabited σ] [Engine σ] {s : Nat} {d : Debugger}

/-- Where no front end fails, the model and the interpreter agree on who stands still, and where,
whenever nothing is on its way. -/
theorem agreesOnStops_run {b : Bridge σ} (hb : b.world = .start) (ds : List (Deed σ))
    (hl : ((run ds b).world.session s).alive = true)
    (ha : ((run ds b).world.session s).attached = true)
    (hd : ((run ds b).world.session s).debugger = some d)
    (hq : ((run ds b).world.session s).mailbox.queue = []) :
    (run ds b).world.AgreesOnStops s d := by
  let w := (run ds b).world
  have hlive : Live w s d := live_of_queue_eq_nil ⟨World.start.reaction, hb⟩ ds hl ha hd hq
  have hs : InStep w s d := inStep_run hb ds hlive
  have hmail : w.mail s = [] := by
    rw [mail, hq]
    rfl
  have hshown : w.foretold s = (w.session s).outline := by
    funext id
    rw [foretold, hmail]
    rfl
  have hfits : ∀ x ∈ d.executions, x.Fits (w.session s).options ((w.session s).outline x.handle.id) :=
    fun x hx => hshown ▸ hs.agrees.fits x hx
  have houtline : ∀ t ∈ (w.session s).threads, (w.session s).outline t.handle.id = some t.outline :=
    fun t ht => outlineIn_of_mem hs.numbered ht
  refine ⟨fun x hx hw => ?_, fun x hx => ⟨fun hw => ?_, ?_⟩, fun t ht hsusp => ?_, ?_⟩
  · obtain ⟨m, hm, -⟩ := hs.awaited x hx hw
    rw [hmail] at hm
    cases hm
  · obtain ⟨t, ht, hid, ho⟩ := exists_of_outlineIn ((hfits x hx).of_line hw)
    exact ⟨t, ht, hid, (congrArg Outline.state ho :)⟩
  · rintro ⟨t, ht, hid, hsusp⟩
    cases hw : decide (x.waiting = some .line) with
    | true => exact of_decide_eq_true hw
    | false =>
        have hnot := (hfits x hx).of_ne_line (of_decide_eq_false hw) t.outline
          (hid ▸ houtline t ht)
        exact absurd hsusp hnot.1
  · cases hnone : d.executions.any fun x => x.handle.id = t.handle.id with
    | true =>
        obtain ⟨x, hx, hid⟩ := List.any_eq_true.mp hnone
        exact ⟨x, hx, by simpa using hid⟩
    | false =>
        rw [List.any_eq_false] at hnone
        refine absurd hsusp (hs.agrees.gone t.handle.id (fun x hx hid => ?_) t.outline ?_)
        · exact hnone x hx (by simpa using hid)
        · rw [hshown]
          exact houtline t ht
  · intro x hx hw t ht hid
    have ho := houtline t ht
    rw [hid, (hfits x hx).of_line hw] at ho
    exact congrArg Outline.ids (Option.some.inj ho).symm

/-- A thread with generated code at the bottom of its stack is asked to stop and does so at a line. -/
def stopAtLine : List (Deed VariableTable) :=
  let script : Script := .snippet 0 "main"
  let i : Interpreter := .idle 0 "main" 0
  [.launch ⟨.off, 0, true, true, true⟩, .call i .threadStarted, .deliver 0,
    .call i (.push ⟨2, .generated 1 "wrapper", .file, none⟩), .call i (.scriptStarted script),
    .deliver 0, .deliver 0, .deliver 0, .call i (.push ⟨3, script, .file, none⟩),
    .order 0 0 .suspend, .deliver 0, .call i (.line script 1), .deliver 0]

/-- The thread waits at the line, both sides know, and the generated code does not show. -/
theorem agreesOnStops_stopAtLine :
    (((run stopAtLine ∅).world.debugger 0).executions.map (·.waiting)) = [some .line]
      ∧ (run stopAtLine ∅).world.AgreesOnStops 0 ((run stopAtLine ∅).world.debugger 0) := by
  refine ⟨by decide +kernel, agreesOnStops_run rfl stopAtLine (by decide +kernel)
    (by decide +kernel) (debugger_of_isSome (by decide +kernel)) ?_⟩
  exact List.isEmpty_iff.mp (by decide +kernel)

end Bridge

end DebugBridge
