import DebugBridge.Proofs.Stops
import DebugBridge.Proofs.Stranding
import DebugBridge.Proofs.Suspension

/-!
# Steps of a live session in full

While a session is live and no front end fails, a deed is one of five things for it. Requests are
posted, one of its threads makes a call, its model hears of an event, its model answers a script that
is ready, or its debugger takes a request. Here it is said what becomes of the messages that wait, of
the outlines of threads and of the executions, each time in full.

## Main definitions

* `Event.Passes`, `Execution.Stays`: what leaves a thread where it is;
* `Bridge.Advances`: what a deed is for a live session.

## Main results

* `Performs.keeps`, `Obeys.keeps`: what becomes of a thread when it or another makes a call, and when
  its debugger takes a request;
* `advances_of_goes`: every deed is one of these things;
* `advances_before`: a session that is live advanced to where it is, or it was just opened;
* `Advances.executions`: no thread gets its handle back.
-/

namespace DebugBridge

open World

section Calm

variable {s : Nat} {w : World}

/-- Where no front end fails, a script that is ready is answered to its end: by its breakpoints, and
then by a request to resume in a way that depends on the state of its thread. -/
theorem ends_handleEvent_scriptReady (hc : w.Calm) (hl : (w.session s).alive = true)
    (ha : (w.session s).attached = true) (script : Script) (handle : Handle) (root : Bool) :
    Ends (handleEvent s (.scriptReady script handle root)) w fun _ w' =>
      ∃ v thread, thread.id = handle.id ∧ Shows s [] w v
        ∧ Posts s (v.answers s script thread (loadResume (w.session s).options script root
          ((((w.session s).outline handle.id).getD .start).state = .stepping)))
          (v.register s script) w' := by
  let u := w.trace "model" ("process " ++ (Event.scriptReady script handle root).text w.marks)
  have hcalm : u.Calm := hc
  have hends : Ends (applyEvent s (.scriptReady script handle root)) u fun _ w' =>
      ∃ v thread, thread.id = handle.id ∧ Shows s [] u v
        ∧ Posts s (v.answers s script thread (loadResume (u.session s).options script root
          ((((u.session s).outline handle.id).getD .start).state = .stepping)))
          (v.register s script) w' := by
    refine Ends.bind (((ends_ensureProcess (s := s) hcalm).keeps (@keeps_ensureProcess s [])).mono ?_)
    rintro _ v ⟨⟨hthreads, hp⟩, hv⟩
    have hoptions : (v.session s).options = (u.session s).options :=
      (congrArg Session.options hv.here :)
    have houtline : (v.session s).outline = (u.session s).outline := by
      funext id
      rw [Session.outline, Session.outline, hthreads]
    refine (ends_scriptReady (hcalm.shows hv.toShows) ((congrArg Session.alive hv.here :).trans hl)
      ((congrArg Session.attached hv.here :).trans ha) script handle root hp).mono ?_
    rintro _ w' ⟨-, v', thread, hid, hv', hposts⟩
    rw [hoptions, houtline] at hposts
    exact ⟨v', thread, hid, (steady_shows s []).trans hv.toShows hv', hposts⟩
  obtain ⟨_, w', hrun, v, thread, hid, hv, hposts⟩ := hends
  have hu : Shows s [] w u := (plain_trace w _ _).toStill.shows s []
  exact ⟨(), w', (handleEvent_eq ha).trans hrun, v, thread, hid, (steady_shows s []).trans hu hv,
    hposts⟩

end Calm

/-! ### Executions -/

namespace Debugger

variable {d d' : Debugger} {m : Marks} {n : Nat} {i : Interpreter} {c : Call} {r : Request}
  {es : List Event} {z : Execution}

/-- An execution of a debugger that knows a thread was there before, or it begins. -/
theorem mem_meet (hz : z ∈ (d.meet n i).executions) : z ∈ d.executions ∨ z.handle.id = n := by
  unfold meet at hz
  split at hz
  · exact .inl hz
  · rcases List.mem_append.mp hz with hz | hz
    · exact .inl hz
    · obtain rfl := List.mem_singleton.mp hz
      exact .inr rfl

/-- The execution of a thread that makes a call was there before, or it begins. -/
theorem mem_executionFor (d : Debugger) (n : Nat) (i : Interpreter) :
    d.executionFor n i ∈ d.executions ∨ (d.executionFor n i).handle.id = n :=
  mem_meet (mem_of_ofOwner? (ofOwner?_meet d n i))

/-- After a call an execution has the thread and the handle of one before, or it began. -/
theorem Performs.executions (h : d.Performs m n i c d' es) (hz : z ∈ d'.executions) :
    (∃ y ∈ d.executions, y.owner = z.owner ∧ y.handle = z.handle) ∨ z.handle.id = n := by
  have hmeet : z ∈ (d.meet n i).executions →
      (∃ y ∈ d.executions, y.owner = z.owner ∧ y.handle = z.handle) ∨ z.handle.id = n :=
    fun hz => (mem_meet hz).imp (fun hz => ⟨z, hz, rfl, rfl⟩) id
  have hput : ∀ {x' : Execution}, z ∈ ((d.meet n i).put x').executions →
      x'.owner = (d.executionFor n i).owner → x'.handle = (d.executionFor n i).handle →
      (∃ y ∈ d.executions, y.owner = z.owner ∧ y.handle = z.handle) ∨ z.handle.id = n := by
    intro x' hz ho hh
    obtain ⟨hz, -⟩ | ⟨rfl, -⟩ := mem_put hz
    · exact hmeet hz
    · rw [ho, hh]
      exact (mem_executionFor d n i).imp (fun hx => ⟨_, hx, rfl, rfl⟩) id
  cases h with
  | aside => exact .inl ⟨z, hz, rfl, rfl⟩
  | moved => exact hput hz rfl rfl
  | held => exact hput hz rfl rfl
  | passed => exact hmeet hz
  | stopped => exact hput hz rfl rfl
  | gone x hx => exact .inl ⟨z, (List.mem_filter.mp hz).1, rfl, rfl⟩

/-- After a request an execution has the thread and the handle of one before. -/
theorem Obeys.executions (h : d.Obeys m r d' es) (hz : z ∈ d'.executions) :
    ∃ y ∈ d.executions, y.owner = z.owner ∧ y.handle = z.handle := by
  have hput : ∀ {x x' : Execution}, z ∈ (d.put x').executions → x ∈ d.executions →
      x'.owner = x.owner → x'.handle = x.handle →
      ∃ y ∈ d.executions, y.owner = z.owner ∧ y.handle = z.handle := by
    intro x x' hz hx ho hh
    obtain ⟨hz, -⟩ | ⟨rfl, -⟩ := mem_put hz
    · exact ⟨z, hz, rfl, rfl⟩
    · exact ⟨x, hx, ho.symm, hh.symm⟩
  have heach : ∀ {f : Execution → Execution}, (∀ x, (f x).owner = x.owner) →
      (∀ x, (f x).handle = x.handle) → z ∈ (d.each f).executions →
      ∃ y ∈ d.executions, y.owner = z.owner ∧ y.handle = z.handle := by
    intro f ho hh hz
    obtain ⟨x, hx, rfl⟩ := List.mem_map.mp hz
    exact ⟨x, hx, (ho x).symm, (hh x).symm⟩
  cases h with
  | resumed handle kind x hr hx =>
      exact hput hz (mem_of_ofHandle? hx) (Execution.owner_resume _ _ _)
        (Execution.handle_resume _ _ _)
  | resumedAll kind hr es =>
      exact heach (fun x => x.owner_resume _ _) (fun x => x.handle_resume _ _) hz
  | nudged thread hr =>
      exact heach (fun x => x.owner_nudge thread) (fun x => x.handle_nudge thread) hz
  | noted table hr => exact ⟨z, hz, rfl, rfl⟩
  | putOff x pending hx hr => exact hput hz hx rfl rfl
  | served answers ha hr hx => exact ⟨z, hz, rfl, rfl⟩

/-- A thread performs nothing that changes whether generated code is shown. -/
theorem Performs.showDynamicCode (h : d.Performs m n i c d' es) :
    d'.showDynamicCode = d.showDynamicCode := by
  cases h with
  | aside | gone => rfl
  | passed => exact showDynamicCode_meet d n i
  | moved | held | stopped => exact showDynamicCode_meet d n i

/-- No request changes whether generated code is shown. -/
theorem Obeys.showDynamicCode (h : d.Obeys m r d' es) : d'.showDynamicCode = d.showDynamicCode := by
  cases h <;> rfl

end Debugger

/-! ### Steps of a thread and of others -/

/-- Whether an event says nothing of where a thread is: it is an answer, or not about the thread. -/
def Event.Passes (id : Nat) (e : Event) : Prop :=
  e.isAnswer = true ∨ ∀ thread, e.thread? = some thread → thread.id ≠ id

/-- An execution of the same thread that was resumed in the same way and waits where the other
does. -/
structure Execution.Stays (z x : Execution) : Prop where
  handle : z.handle = x.handle
  kind : z.resumeKind = x.resumeKind
  waiting : z.waiting = x.waiting

namespace Debugger

variable {d d' : Debugger} {m : Marks} {n o : Nat} {i : Interpreter} {c : Call} {r : Request}
  {es : List Event} {x z : Execution}

/-- A thread that made a call is the same one, however often it makes another. -/
theorem executionFor_eq (hx : d.ofOwner? i.id = some x) : d.executionFor n i = x := by
  rw [executionFor, hx]
  rfl

/-- A debugger that knows a thread has met it. -/
theorem meet_eq (hx : d.ofOwner? i.id = some x) : d.meet n i = d := by
  rw [meet, hx]

/-- A thread in a step into a script has a reason to stop at every line. -/
theorem exists_stopAt (d : Debugger) (m : Marks) (hkind : x.resumeKind = .stepInto)
    (hbusy : x.stack ≠ []) (script : Script) (line : Nat) :
    ∃ reason, d.stopAt m x script line = some reason := by
  obtain ⟨top, rest, hstack⟩ := List.exists_cons_of_ne_nil hbusy
  have hend : x.isStepEnd (m.moveTo top line) = true := by
    rw [Execution.isStepEnd, hkind]
  simp only [stopAt, Execution.stopReason, hstack, hend, List.isEmpty_cons, if_true]
  split
  · cases ‹false = true›
  · split
    · exact ⟨_, rfl⟩
    · split <;> exact ⟨_, rfl⟩

/-- What is told in a call is about the thread that makes it. -/
theorem Performs.passes (h : d.Performs m n i c d' es) {id : Nat}
    (hid : (d.executionFor n i).handle.id ≠ id) : ∀ e ∈ es, e.Passes id := by
  have hhere : ∀ e : Event, e.thread? = some (d.executionFor n i).handle → e.Passes id := by
    intro e he
    refine .inr fun thread ht => ?_
    rw [he] at ht
    exact Option.some.inj ht ▸ hid
  intro e he
  cases h with
  | aside c es hes =>
      obtain rfl | rfl := hes
      · cases he
      · obtain rfl := List.mem_singleton.mp he
        exact .inr fun _ ht => nomatch ht
  | moved c hc es hes =>
      obtain rfl | rfl := hes
      · cases he
      · obtain rfl := List.mem_singleton.mp he
        exact hhere _ rfl
  | held script ht answers ha =>
      obtain rfl | he := List.mem_cons.mp he
      · exact hhere _ rfl
      · exact .inl (ha e he)
  | passed => cases he
  | stopped script line reason ht hr answers ha =>
      obtain rfl | he := List.mem_cons.mp he
      · exact hhere _ rfl
      · exact .inl (ha e he)
  | gone x hx =>
      obtain rfl := List.mem_singleton.mp he
      refine hhere _ ?_
      rw [executionFor_eq hx]
      rfl

/-- A call of a thread leaves the executions of all others as they are. -/
theorem Performs.ofOwner?_of_ne (h : d.Performs m n i c d' es) (ho : o ≠ i.id) :
    d'.ofOwner? o = d.ofOwner? o := by
  have hput : ∀ x' : Execution, x'.owner = i.id →
      ((d.meet n i).put x').ofOwner? o = d.ofOwner? o := by
    intro x' hx'
    rw [ofOwner?_put, if_neg fun h => ho (h.symm.trans hx'), ofOwner?_meet_of_ne ho]
  cases h with
  | aside => rfl
  | moved | held | stopped => exact hput _ (d.owner_executionFor n i)
  | passed => exact ofOwner?_meet_of_ne ho
  | gone => exact d.ofOwner?_erase_of_ne ho

/-- Only visible scripts are reported ready. -/
theorem Performs.isTracked (h : d.Performs m n i c d' es) {script : Script} {thread : Handle}
    {root : Bool} (he : .scriptReady script thread root ∈ es) : d.isTracked script = true := by
  cases h with
  | aside c es hes => obtain rfl | rfl := hes <;> simp at he
  | moved c hc es hes => obtain rfl | rfl := hes <;> simp at he
  | held script' ht answers ha =>
      rcases List.mem_cons.mp he with heq | he
      · cases heq
        exact ht
      · cases ha _ he
  | passed => cases he
  | stopped script' line reason ht hr answers ha =>
      rcases List.mem_cons.mp he with heq | he
      · cases heq
      · cases ha _ he
  | gone => simp at he

/-- What becomes of a thread in a call of some thread. It is left where it is, or it is held up
before a script, or it reaches a line. -/
theorem Performs.keeps (h : d.Performs m n i c d' es) (hord : d.Orderly n)
    (hx : d.ofOwner? o = some x) (hz : d'.ofOwner? o = some z) :
    (z.Stays x ∧ ∀ e ∈ es, e.Passes x.handle.id ∨ e = .threadCreated x.handle)
      ∨ (i.id = o ∧ ∃ script answers, c = .scriptStarted script
        ∧ z = { x with waiting := some .load, pending := [] }
        ∧ es = .scriptReady script x.handle x.stack.isEmpty :: answers
        ∧ ∀ e ∈ answers, e.Passes x.handle.id)
      ∨ (i.id = o ∧ ∃ script line, c = .line script line ∧ d.minds script line = true
        ∧ x.stack ≠ []) := by
  by_cases ho : o = i.id
  · subst ho
    have hsame : d.executionFor n i = x := executionFor_eq hx
    have hmeet : d.meet n i = d := meet_eq hx
    have hput : ∀ {x' : Execution}, x'.owner = x.owner → (d.put x').ofOwner? i.id = some z → z = x' :=
      fun howner hz => Option.some.inj (hz.symm.trans (World.ofOwner?_put_self hx howner))
    cases h with
    | aside c es hes =>
        left
        obtain rfl := Option.some.inj (hz.symm.trans hx)
        refine ⟨⟨rfl, rfl, rfl⟩, fun e he => .inl ?_⟩
        obtain rfl | rfl := hes
        · cases he
        · obtain rfl := List.mem_singleton.mp he
          exact .inr fun _ ht => nomatch ht
    | moved c hc es hes =>
        left
        rw [hsame, hmeet] at hz
        obtain rfl := hput (by rfl) hz
        refine ⟨⟨rfl, rfl, rfl⟩, fun e he => .inr ?_⟩
        obtain rfl | rfl := hes
        · cases he
        · rw [hsame] at he
          exact List.mem_singleton.mp he
    | held script ht answers ha =>
        right
        left
        rw [hsame, hmeet] at hz
        rw [hsame]
        exact ⟨rfl, script, answers, rfl, hput (by rfl) hz, rfl, fun e he => .inl (ha e he)⟩
    | passed script line ht hr =>
        left
        rw [hmeet] at hz
        obtain rfl := Option.some.inj (hz.symm.trans hx)
        exact ⟨⟨rfl, rfl, rfl⟩, List.forall_mem_nil _⟩
    | stopped script line reason ht hr =>
        refine .inr (.inr ⟨rfl, script, line, rfl, ht, fun hstack => ?_⟩)
        rw [hsame, stopAt, hstack] at hr
        cases hr
    | gone =>
        have hmem := mem_of_ofOwner? hz
        have howner := (List.mem_filter.mp hmem).2
        simp [owner_of_ofOwner? hz] at howner
  · left
    rw [h.ofOwner?_of_ne ho] at hz
    obtain rfl := Option.some.inj (hz.symm.trans hx)
    refine ⟨⟨rfl, rfl, rfl⟩, fun e he => .inl (h.passes (fun hid => ?_) e he)⟩
    obtain hmem | hnew := mem_executionFor d n i
    · refine ho ?_
      rw [← owner_of_ofOwner? hx, ← d.owner_executionFor n i]
      exact (hord.distinct _ hmem z (mem_of_ofOwner? hx) hid).symm
    · have hlt := hord.below z (mem_of_ofOwner? hx)
      omega

/-- A debugger that takes a request reports no script. -/
theorem Obeys.scriptReady_notMem (h : d.Obeys m r d' es) (hr : r.IsProper) (script : Script)
    (thread : Handle) (root : Bool) : .scriptReady script thread root ∉ es := by
  intro he
  cases h with
  | resumed handle kind x hres hx =>
      split at he <;> simp at he
  | resumedAll kind hres =>
      subst hres
      exact hr.elim
  | served answers ha => cases ha _ he
  | nudged | noted | putOff => cases he

/-- A request that is not to resume a thread resumes none. -/
theorem resumed?_ne (hr : ∀ thread, r ≠ .suspend thread ∧ ∀ kind, r ≠ .resume thread kind)
    (id : Nat) : Message.resumed? (.request r) ≠ some id := by
  cases r with
  | resume thread kind => exact absurd rfl ((hr thread).2 kind)
  | _ => nofun

/-- One thread is resumed, and all others are left where they are. -/
theorem Orderly.keeps_resume (hord : d.Orderly n) {handle : Handle} {kind : ResumeKind}
    {y : Execution} (hy : d.ofHandle? handle = some y) (hx : d.ofOwner? o = some x)
    (hz : (d.put (y.resume m kind)).ofOwner? o = some z) :
    (handle.id = x.handle.id ∧ y = x ∧ z = x.resume m kind)
      ∨ y.handle.id ≠ x.handle.id ∧ handle.id ≠ x.handle.id ∧ z = x := by
  have hymem := mem_of_ofHandle? hy
  have hyid : y.handle.id = handle.id := by simpa using List.find?_some hy
  by_cases ho : y.owner = o
  · obtain rfl := hord.eq_of_ofOwner? hx hymem ho
    exact .inl ⟨hyid.symm, rfl, Option.some.inj (hz.symm.trans
      (World.ofOwner?_put_self hx (Execution.owner_resume _ _ _)))⟩
  · have hne : y.handle.id ≠ x.handle.id := fun hid =>
      ho ((hord.distinct y hymem x (mem_of_ofOwner? hx) hid).trans (owner_of_ofOwner? hx))
    rw [ofOwner?_put, if_neg (by rwa [Execution.owner_resume])] at hz
    exact .inr ⟨hne, hyid ▸ hne, Option.some.inj (hz.symm.trans hx)⟩

/-- What becomes of a thread when its debugger takes a request. It is resumed, or it is left where it
is. -/
theorem Obeys.keeps (h : d.Obeys m r d' es) (hord : d.Orderly n) (hr : r.IsProper)
    (hx : d.ofOwner? o = some x) (hz : d'.ofOwner? o = some z) :
    (∃ handle kind, r = .resume (some handle) kind ∧ handle.id = x.handle.id
        ∧ z = x.resume m kind
        ∧ es = if x.waiting.isSome then [.resumed x.handle (x.resume m kind).resumeKind] else [])
      ∨ Message.resumed? (.request r) ≠ some x.handle.id ∧ z.Stays x
        ∧ ∀ e ∈ es, e.Passes x.handle.id := by
  cases h with
  | resumed handle kind y hres hy =>
      obtain ⟨hid, rfl, hz⟩ | ⟨hne, hid, rfl⟩ := hord.keeps_resume hy hx hz
      · exact .inl ⟨handle, kind, hres, hid, hz, rfl⟩
      · refine .inr ⟨?_, ⟨rfl, rfl, rfl⟩, fun e he => .inr fun thread ht => ?_⟩
        · rw [hres]
          exact fun hsome => hid (Option.some.inj hsome)
        · split at he
          · obtain rfl := List.mem_singleton.mp he
            exact Option.some.inj ht ▸ hne
          · cases he
  | resumedAll kind hres =>
      subst hres
      exact hr.elim
  | nudged thread hres =>
      have hmap := d.ofOwner?_map (f := (·.nudge thread)) (fun y => y.owner_nudge thread) o
      rw [hx] at hmap
      obtain rfl : z = x.nudge thread := Option.some.inj (hz.symm.trans hmap)
      refine .inr ⟨by rw [hres]; nofun, ⟨x.handle_nudge thread, ?_, x.waiting_nudge thread⟩,
        List.forall_mem_nil _⟩
      exact congrArg ResumePoint.kind (x.origin_nudge thread)
  | noted table hres =>
      obtain rfl := Option.some.inj (hz.symm.trans hx)
      exact .inr ⟨resumed?_ne hres _, ⟨rfl, rfl, rfl⟩, List.forall_mem_nil _⟩
  | putOff y pending hy hres =>
      refine .inr ⟨resumed?_ne hres _, ?_, List.forall_mem_nil _⟩
      by_cases ho : y.owner = o
      · obtain rfl := hord.eq_of_ofOwner? hx hy ho
        let y' : Execution := { y with pending }
        have hself : (d.put y').ofOwner? o = some y' := World.ofOwner?_put_self hx rfl
        obtain rfl := Option.some.inj (hz.symm.trans hself)
        exact ⟨rfl, rfl, rfl⟩
      · rw [ofOwner?_put, if_neg ho] at hz
        obtain rfl := Option.some.inj (hz.symm.trans hx)
        exact ⟨rfl, rfl, rfl⟩
  | served answers ha hs hnone =>
      obtain rfl := Option.some.inj (hz.symm.trans hx)
      refine .inr ⟨fun hid => ?_, ⟨rfl, rfl, rfl⟩, fun e he => .inl (ha e he)⟩
      unfold Message.resumed? at hid
      split at hid
      · next handle kind heq =>
          cases heq
          obtain ⟨handle', heq, hgone⟩ := hnone _ kind rfl
          obtain rfl := Option.some.inj heq
          rw [hord.ofHandle?_eq (mem_of_ofOwner? hx) (Option.some.inj hid).symm] at hgone
          cases hgone
      · cases hid

end Debugger

namespace Bridge

variable {σ : Type} [Inhabited σ] [Engine σ] {s : Nat} {d d' : Debugger} {b b' : Bridge σ}
  {x : Deed σ}

/-- What a deed is for a session that is live before and after it, where no front end fails. -/
inductive Advances (s : Nat) (b : Bridge σ) (d : Debugger) (x : Deed σ) (b' : Bridge σ)
    (d' : Debugger) : Prop where
  /-- Requests come to its mailbox, if anything. -/
  | posted (rs : List Request) (hnone : b.handed s x = none) (hd : d' = d)
      (hmodel : (b'.world.session s).model = (b.world.session s).model)
      (hmail : b'.world.mail s = b.world.mail s ++ rs.map .request)
      (hn : b.world.nextNumber ≤ b'.world.nextNumber)
  /-- One of its threads makes a call. -/
  | called (i : Interpreter) (c : Call) (es : List Event) (hx : x = .call i c) (hi : i.session = s)
      (hw : d.isWaiting i.id = false)
      (hperforms : d.Performs b.world.marks b.world.nextNumber i c d' es)
      (hmodel : (b'.world.session s).model = (b.world.session s).model)
      (hmail : b'.world.mail s = b.world.mail s ++ es.map .event)
      (hn : b.world.nextNumber ≤ b'.world.nextNumber)
  /-- Its model hears of an event, and that is all. -/
  | shown (e : Event) (hx : x = .deliver s) (hd : d' = d)
      (hready : ∀ script thread root, e ≠ .scriptReady script thread root)
      (hmail : b.world.mail s = .event e :: b'.world.mail s)
      (hfollows : Follows s e b.world b'.world)
      (hoptions : (b'.world.session s).options = (b.world.session s).options)
      (hn : b.world.nextNumber ≤ b'.world.nextNumber)
  /-- Its model hears of a script that is ready, and answers. -/
  | answered (script : Script) (thread handle : Handle) (root : Bool) (behind : List Message)
      (hx : x = .deliver s) (hd : d' = d) (hid : handle.id = thread.id)
      (hmail : b.world.mail s = .event (.scriptReady script thread root) :: behind)
      (hmail' : b'.world.mail s = behind ++ (((b.world.breakpoints s).filter fun p =>
        script.isOf p.resource).map fun p => .request (.breakpoint script p .add))
          ++ [.request (.resume (some handle) (loadResume (b.world.session s).options script root
            ((((b.world.session s).outline thread.id).getD .start).state = .stepping)))])
      (hfollows : Follows s (.scriptReady script thread root) b.world b'.world)
      (hoptions : (b'.world.session s).options = (b.world.session s).options)
      (hn : b.world.nextNumber ≤ b'.world.nextNumber)
  /-- Its debugger takes a request. -/
  | obeyed (r : Request) (es : List Event) (behind : List Message) (hx : x = .deliver s)
      (hmail : b.world.mail s = .request r :: behind)
      (hobeys : d.Obeys b.world.marks r d' es)
      (hmodel : (b'.world.session s).model = (b.world.session s).model)
      (hmail' : b'.world.mail s = behind ++ es.map .event)
      (hn : b.world.nextNumber ≤ b'.world.nextNumber)

omit [Inhabited σ] [Engine σ] in
/-- What an event makes of outlines when its message was taken it made of them before. -/
theorem follows_of_takes {u w' : World} {e : Event} (hu : Takes s b.world u)
    (h : Follows s e u w') : Follows s e b.world w' := by
  have hhere : (u.session s).outline = (b.world.session s).outline
      ∧ (u.session s).options = (b.world.session s).options
      ∧ (u.session s).threads = (b.world.session s).threads := by
    rw [hu.here]
    exact ⟨rfl, rfl, rfl⟩
  refine ⟨fun id => ?_, fun hn => h.numbered (hhere.2.2 ▸ hn)⟩
  rw [h.outline, hhere.1, hhere.2.1]

omit [Inhabited σ] [Engine σ] in
/-- How a world follows an event is a matter of the session alone. -/
theorem follows_congr {u v w : World} {e : Event} (h : Follows s e u v)
    (hs : w.session s = v.session s) : Follows s e u w := by
  refine ⟨fun id => ?_, fun hn => ?_⟩
  · rw [hs]
    exact h.outline id
  · rw [hs]
    exact h.numbered hn

/-- What a debugger tells when it takes a request comes behind all that waits. -/
theorem advances_of_obeyed {r : Request} {u : World} (hlive : Live b.world s d)
    (hlive' : Live b'.world s d') (hx : x = .deliver s)
    (hmail : b.world.mail s = .request r :: u.mail s) (hm : Moves s b x b') :
    Advances s b d x b' d' := by
  have hhanded : b.handed s x = some (.request r) := handed_of_mail hx hmail
  cases hm with
  | asked hnone =>
      rw [hhanded] at hnone
      cases hnone
  | changed p c hp =>
      subst hx
      cases hp
  | called i c hd =>
      subst hx
      cases hd
  | heard e u' j hd htake =>
      rw [handed_of_takes hd htake] at hhanded
      cases hhanded
  | obeyed r' v hd htake hv hrun =>
      rw [handed_of_takes hd htake] at hhanded
      obtain rfl := Message.request.inj (Option.some.inj hhanded)
      have hliveV := hlive.takes hv htake
      have hmailV := (hlive.toSound.takes hv htake).2
      have hmodelV : (v.world.session s).model = (b.world.session s).model := by
        rw [hv.here]
        rfl
      obtain ⟨d₁, es, hobeys, hbecomes⟩ | ⟨-, hgone⟩ :=
        obeys_receive hliveV.here hliveV.listens hliveV.running hliveV.orderly r'
      · rw [← hrun] at hbecomes
        obtain rfl := hlive'.eq_of_debugger hbecomes.debugger
        exact .obeyed r' es _ hx hmailV (hv.marks ▸ hobeys) (hbecomes.tells.here.model.trans hmodelV)
          (hliveV.mail_becomes hbecomes) (hv.numbers ▸ hbecomes.tells.numbers)
      · rw [← hrun] at hgone
        have hattached := (hgone d' hlive'.here).attached
        rw [hlive'.listens] at hattached
        cases hattached

omit [Inhabited σ] [Engine σ] in
/-- A script that is ready is answered behind all that waits. -/
theorem advances_of_ready (hc : b.world.Calm) (hd : d' = d) {u : World}
    {script : Script} {thread : Handle} {root : Bool} {j : Journal} (hx : x = .deliver s)
    (hu : Takes s b.world u) (hliveU : Live u s d)
    (hmail : b.world.mail s = .event (.scriptReady script thread root) :: u.mail s)
    (hrun : b'.world
      = { worldAfter (handleEvent s (.scriptReady script thread root)) u with journal := j }) :
    Advances s b d x b' d' := by
  have hcalm : u.Calm := by
    intro notes n
    rw [hu.reaction]
    exact hc notes n
  have hhere : (u.session s).options = (b.world.session s).options
      ∧ (u.session s).outline = (b.world.session s).outline := by
    rw [hu.here]
    exact ⟨rfl, rfl⟩
  obtain ⟨_, w, hok, hfollows⟩ := ends_handleEvent (e := .scriptReady script thread root) hcalm
    hliveU.alive hliveU.attached (by simp)
  obtain ⟨_, w', hok', v, handle, hid, hv, hposts⟩ := ends_handleEvent_scriptReady hcalm hliveU.alive
    hliveU.attached script thread root
  obtain rfl : w = w' := (EStateM.Result.ok.inj (hok.symm.trans hok')).2
  have hw : b'.world.session s = w.session s := by
    rw [hrun, worldAfter, hok]
    rfl
  have houter : ((v.register s script).session s).outer = (u.session s).outer :=
    (outer_register v s script).trans (outer_of_shell hv.here)
  have hreg := hliveU.of_outer houter hv.numbers
  obtain ⟨-, hmailW⟩ := hreg.posted hposts.here (fun r => isProper_of_mem_answers) hposts.numbers
  rw [mail_of_outer houter, hhere.1, hhere.2] at hmailW
  have hmailB : b'.world.mail s = w.mail s := by
    rw [mail, mail, hw]
  have hbefore : v.breakpoints s = b.world.breakpoints s :=
    (breakpoints_of_outer hv.managers (outer_of_shell hv.here)).trans (breakpoints_of_takes hu)
  refine .answered script thread handle root (u.mail s) hx hd hid hmail ?_
    (follows_of_takes hu (follows_congr hfollows hw)) ?_ ?_
  · rw [hmailB, hmailW, answers, breakpointsIn_eq, hbefore, List.map_append, List.map_map,
      ← List.append_assoc]
    rfl
  · have hoptions : (w.session s).options = ((v.register s script).session s).options :=
      (congrArg Session.options hposts.here.model :)
    rw [hw, hoptions]
    exact (congrArg Session.options houter :).trans hhere.1
  · have hnumbers : b'.world.nextNumber = w.nextNumber := by
      rw [hrun, worldAfter, hok]
    rw [hnumbers, ← hu.numbers]
    exact Nat.le_trans hv.numbers hposts.numbers

/-- Where no front end fails, a session that is live before and after a deed advances. -/
theorem advances_of_goes (hc : b.world.Calm) (hlive : Live b.world s d) (hlive' : Live b'.world s d')
    (hm : Moves s b x b') (hg : Goes s b d x b' d') : Advances s b d x b' d' := by
  cases hg with
  | asked rs hnone hr hd hmodel hmail hb hn => exact .posted rs hnone hd hmodel hmail hn
  | changed p c hp hd hmodel hmail hb hn =>
      exact .posted _ (handed_of_point? hp) hd hmodel hmail hn
  | called i c hx hi hw hrun hworks hb =>
      subst hi hrun
      have hfree : d.isWaiting i.id = false := isWaiting_eq hlive rfl ▸ hw
      have hc : c ≠ .engineFinished := by
        rintro rfl
        have hleft := (leaves_finishEngine hlive.here hlive.listens).left d' hlive'.here
        have hattached := hleft.attached
        rw [hlive'.listens] at hattached
        cases hattached
      obtain ⟨d₁, es, hperforms, hbecomes⟩ := performs_perform hlive.here hlive.listens
        hlive.orderly hc
      obtain rfl := hlive'.eq_of_debugger hbecomes.debugger
      exact .called i c es hx rfl hfree hperforms hbecomes.tells.here.model
        (hlive.mail_becomes hbecomes) hbecomes.tells.numbers
  | shown e u j hx hd hu hliveU hmail hready hrun hshows hend hbroken hb =>
      have hcalm : u.Calm := by
        intro notes n
        rw [hu.reaction]
        exact hc notes n
      obtain ⟨_, w, hok, hfollows⟩ := ends_handleEvent hcalm hliveU.alive hliveU.attached hend
      have hw : b'.world.session s = w.session s := by
        rw [hrun, worldAfter, hok]
        rfl
      have hsame : b'.world.mail s = u.mail s := mail_of_outer (outer_of_shell hshows.here)
      refine .shown e hx hd (fun script thread root he => ?_) (hsame ▸ hmail)
        (follows_of_takes hu (follows_congr hfollows hw)) ?_ (hu.numbers ▸ hshows.numbers)
      · obtain ⟨failure, w', herror⟩ := hbroken script thread root he
        rw [hok] at herror
        cases herror
      · have hoptions : (u.session s).options = (b.world.session s).options := by rw [hu.here]
        exact (congrArg Session.options hshows.here :).trans hoptions
  | answered script thread root u v handle kind j hx hd hu hliveU hmail hready hrun hv hid hposts =>
      exact advances_of_ready hc hd hx hu hliveU hmail hrun
  | obeyed r u hx hu hliveU hmail => exact advances_of_obeyed hlive hlive' hx hmail hm

/-- In a run in which no front end fails, a session that is live advanced to where it is, or it was
just opened. -/
theorem advances_before (hb : b.world = .start) (ds : List (Deed σ)) (x : Deed σ)
    (h : Live (run (ds ++ [x]) b).world s d') :
    (∃ d, Live (run ds b).world s d ∧ Advances s (run ds b) d x (run (ds ++ [x]) b) d')
      ∨ s = (run ds b).world.sessions.size ∧ Opened (run (ds ++ [x]) b).world s d' := by
  have hfresh : b.Fresh := ⟨World.start.reaction, hb⟩
  obtain ⟨d, hlive, hgoes⟩ | ⟨⟨-, -, hsize⟩, hopened⟩ := live_before hfresh ds x h
  · have hrun : run (ds ++ [x]) b = (run ds b).after x := run_append ds [x] b
    have hm : Moves s (run ds b) x (run (ds ++ [x]) b) := by
      rw [hrun] at h ⊢
      exact moves_of_joined _ (enrolled_run hfresh ds) hlive.toSound x h.toJoined
    exact .inl ⟨d, hlive, advances_of_goes (calm_run hb ds) hlive h hm hgoes⟩
  · exact .inr ⟨hsize, hopened⟩

/-- A session that has a debugger is not opened again: if it is live later, it advances. -/
theorem exists_advances (hb : b.world = .start) {ds : List (Deed σ)}
    (hsome : ((run ds b).world.session s).debugger.isSome = true)
    (h : Live (run (ds ++ [x]) b).world s d') :
    ∃ d, Live (run ds b).world s d ∧ Advances s (run ds b) d x (run (ds ++ [x]) b) d' := by
  obtain hbefore | ⟨hsize, -⟩ := advances_before hb ds x h
  · exact hbefore
  · rw [hsize] at hsome
    simp [session, Arena.get, Arena.size, default, Session.absent] at hsome

/-- A session that has a debugger and is live later is live. -/
theorem exists_live_of_present (hb : b.world = .start) {ds : List (Deed σ)} (es : List (Deed σ))
    (hsome : ((run ds b).world.session s).debugger.isSome = true)
    (h : Live (run (ds ++ es) b).world s d') : ∃ d, Live (run ds b).world s d := by
  induction es using List.reverseRecOn generalizing d' with
  | nil => exact ⟨d', List.append_nil ds ▸ h⟩
  | append_singleton es x ih =>
      rw [← List.append_assoc] at h
      have hlater : ((run (ds ++ es) b).world.session s).debugger.isSome = true := by
        rw [run_append]
        exact present_run (run ds b) es hsome
      obtain ⟨d, hlive, -⟩ := exists_advances hb hlater h
      exact ih hlive

/-! ### What steps leave as it is -/

omit [Inhabited σ] [Engine σ] in
/-- A step leaves the options of a session as they are. -/
theorem Advances.options (h : Advances s b d x b' d') :
    (b'.world.session s).options = (b.world.session s).options := by
  cases h with
  | posted rs hnone hd hmodel => exact (congrArg Session.options hmodel :)
  | called i c es hx hi hw hperforms hmodel => exact (congrArg Session.options hmodel :)
  | shown e hx hd hready hmail hfollows hoptions => exact hoptions
  | answered script thread handle root behind hx hd hid hmail hmail' hfollows hoptions =>
      exact hoptions
  | obeyed r es behind hx hmail hobeys hmodel => exact (congrArg Session.options hmodel :)

omit [Inhabited σ] [Engine σ] in
/-- Numbers that were given are not given again by a deed. -/
theorem Advances.numbers (h : Advances s b d x b' d') :
    b.world.nextNumber ≤ b'.world.nextNumber := by
  cases h <;> assumption

omit [Inhabited σ] [Engine σ] in
/-- Which code a debugger follows never changes. -/
theorem Advances.showDynamicCode (h : Advances s b d x b' d') :
    d'.showDynamicCode = d.showDynamicCode := by
  cases h with
  | posted rs hnone hd => rw [hd]
  | called i c es hx hi hw hperforms => exact hperforms.showDynamicCode
  | shown e hx hd => rw [hd]
  | answered script thread handle root behind hx hd => rw [hd]
  | obeyed r es behind hx hmail hobeys => exact hobeys.showDynamicCode

omit [Inhabited σ] [Engine σ] in
/-- After a step an execution has the thread and the handle of one before, or it began. -/
theorem Advances.executions (h : Advances s b d x b' d') {z : Execution}
    (hz : z ∈ d'.executions) : (∃ y ∈ d.executions, y.owner = z.owner ∧ y.handle = z.handle)
      ∨ z.handle.id = b.world.nextNumber := by
  cases h with
  | posted rs hnone hd => exact .inl ⟨z, hd ▸ hz, rfl, rfl⟩
  | called i c es hx hi hw hperforms => exact hperforms.executions hz
  | shown e hx hd => exact .inl ⟨z, hd ▸ hz, rfl, rfl⟩
  | answered script thread handle root behind hx hd => exact .inl ⟨z, hd ▸ hz, rfl, rfl⟩
  | obeyed r es behind hx hmail hobeys => exact .inl (hobeys.executions hz)

omit [Inhabited σ] [Engine σ] in
/-- A thread that has a handle after a step had it before, if the handle was given out by then. -/
theorem Advances.ofOwner?_eq (h : Advances s b d x b' d') (ho : d.Orderly b.world.nextNumber)
    {o : Nat} {z : Execution} (hz : d'.ofOwner? o = some z) (hid : z.handle.id < b.world.nextNumber) :
    ∃ y, d.ofOwner? o = some y ∧ y.handle = z.handle := by
  obtain ⟨y, hy, howner, hhandle⟩ | hnew := h.executions (Debugger.mem_of_ofOwner? hz)
  · refine ⟨y, ?_, hhandle⟩
    rw [← ho.keyed y hy, howner, Debugger.owner_of_ofOwner? hz]
  · omega

/-! ### Numbers throughout a run -/

/-- Numbers grow throughout a run, in whatever session. -/
theorem covers_numbers : Covers (fun _ => True) fun w w' => w.nextNumber ≤ w'.nextNumber where
  refl _ := Nat.le_refl _
  trans h h' := Nat.le_trans h h'
  shared _ _ _ h := h
  asks h := h.numbers
  tells h := h.numbers
  shows h := h.numbers
  posts h := h.numbers
  take _ _ := Nat.le_refl _
  register _ _ _ := Nat.le_refl _
  close w s := by
    unfold World.close
    dsimp only
    split
    · exact Nat.le_refl _
    · split <;> exact Nat.le_refl _
  drop _ _ := Nat.le_refl _
  enter _ _ _ _ _ := Nat.le_refl _
  leave _ _ _ := Nat.le_refl _
  prune _ _ := Nat.le_refl _
  listen _ _ _ := Nat.le_refl _

/-- Numbers that were given out are not given out again. -/
theorem numbers_run (ds : List (Deed σ)) (b : Bridge σ) :
    b.world.nextNumber ≤ (run ds b).world.nextNumber := by
  refine run_induction (P := fun b' => b.world.nextNumber ≤ b'.world.nextNumber) (Nat.le_refl _) ?_ ds
  intro b' x h
  refine Nat.le_trans h (covers_numbers.after b' x (fun _ _ _ => trivial) fun setup hx => ?_)
  subst hx
  exact (spares_launch b' setup (Nat.succ_ne_self b'.world.sessions.size)).numbers

end Bridge

end DebugBridge
