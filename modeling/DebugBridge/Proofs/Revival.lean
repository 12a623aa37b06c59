import DebugBridge.Proofs.Echoes

/-!
# What terminates with a session

When a session terminates, so do its process and all of its threads. That lasts as long as the session
hears of nothing. But a session that has terminated may be attached again, and then it takes events
like any other: it makes a process and threads at first sight, which nobody terminates any more.

## Main definitions

* `Session.Lively`, `Session.Lifeless`: whether a part of a session goes on;
* `Session.Finished`: a session as it is when it has just terminated;
* `World.Balks`: a front end that fails when it is told;
* `World.Wakes`, `World.Revives`: what makes a part that goes on.

## Main results

* `finished_end`: how a session terminates;
* `lifeless_after`: what comes of a session without such a part;
* `lifeless_iff`: in a run, no part goes on after the end as long as nothing revives the session.
-/

namespace DebugBridge

/-! ### Sessions that go on -/

/-- A process that has not terminated, or has a thread that has not. -/
def Process.Lively (p : Process) : Prop :=
  p.terminated = false ∨ ∃ t ∈ p.threads, t.isTerminated = false

/-- A session with a process that has not terminated, or with a thread that has not. -/
def Session.Lively (x : Session) : Prop :=
  ∃ p, x.process = some p ∧ p.Lively

/-- A session whose threads have all terminated, and its process too if there is one. -/
structure Session.Lifeless (x : Session) : Prop where
  threads : ∀ t ∈ x.threads, t.isTerminated = true
  process : ∀ p, x.process = some p → p.terminated = true

/-- A session is lifeless if its process is, with all threads in it. -/
theorem Session.lifeless_of_process {x : Session}
    (h : ∀ p, x.process = some p → p.terminated = true ∧ ∀ t ∈ p.threads, t.isTerminated = true) :
    x.Lifeless := by
  refine ⟨fun t ht => ?_, fun p hp => (h p hp).1⟩
  unfold threads at ht
  cases hp : x.process with
  | none =>
      rw [hp] at ht
      cases ht
  | some p =>
      rw [hp] at ht
      exact (h p hp).2 t ht

/-- A session is lifeless if it is not lively, and only then. -/
theorem Session.lifeless_iff_not_lively {x : Session} : x.Lifeless ↔ ¬x.Lively := by
  constructor
  · rintro h ⟨p, hp, hlive | ⟨t, ht, hlive⟩⟩
    · rw [h.process p hp] at hlive
      cases hlive
    · rw [h.threads t (by rwa [threads, hp])] at hlive
      cases hlive
  · refine fun h => lifeless_of_process fun p hp => ⟨?_, fun t ht => ?_⟩
    · exact Bool.of_not_eq_false fun hlive => h ⟨p, hp, .inl hlive⟩
    · exact Bool.of_not_eq_false fun hlive => h ⟨p, hp, .inr ⟨t, ht, hlive⟩⟩

/-- Whether a session is lifeless can be told from its process. -/
theorem Session.Lifeless.congr {x x' : Session} (h : x.Lifeless) (hp : x'.process = x.process) :
    x'.Lifeless := by
  have ht : x'.threads = x.threads := by rw [Session.threads, Session.threads, hp]
  exact ⟨ht ▸ h.threads, hp ▸ h.process⟩

/-- A session that has terminated with all of its parts, and that nobody has attached again. -/
structure Session.Finished (x : Session) : Prop where
  attached : x.attached = false
  terminated : x.terminated = true
  threads : ∀ t ∈ x.threads, t.state = .terminated ∧ t.frames = []
  process : ∀ p, x.process = some p → p.terminated = true
  scripts : x.scripts = .empty
  subscription : x.subscription = none

/-- A session that is finished is lifeless. -/
theorem Session.Finished.lifeless {x : Session} (h : x.Finished) : x.Lifeless :=
  ⟨fun t ht => decide_eq_true (h.threads t ht).1, h.process⟩

/-- All parts of a session end with it. -/
theorem Session.finished_ended (x : Session) : x.ended.Finished := by
  refine ⟨rfl, rfl, fun t ht => ?_, fun p hp => ?_, rfl, rfl⟩
  · unfold threads ended at ht
    cases hp : x.process with
    | none =>
        rw [hp] at ht
        cases ht
    | some p =>
        rw [hp] at ht
        obtain ⟨t₀, -, rfl⟩ := List.mem_map.mp ht
        exact ⟨rfl, rfl⟩
  · obtain ⟨p₀, -, rfl⟩ := Option.map_eq_some_iff.mp hp
    rfl

namespace World

variable {s : Nat} {u v w w' : World}

/-- A step that leaves the process of a session as it is, with its threads. -/
def SameProcess (s : Nat) (w w' : World) : Prop :=
  (w'.session s).process = (w.session s).process

/-- A step after which the process of a session has a property if it had it before. -/
def Sustains (P : Process → Prop) (s : Nat) (w w' : World) : Prop :=
  (∃ p, (w.session s).process = some p ∧ P p) → ∃ p, (w'.session s).process = some p ∧ P p

/-- Steps that leave the process as it is hold of a sequence. -/
theorem steady_sameProcess (s : Nat) : Steady (SameProcess s) where
  refl _ := rfl
  trans h h' := h'.trans h

/-- What each step sustains a sequence of them sustains. -/
theorem steady_sustains (P : Process → Prop) (s : Nat) : Steady (Sustains P s) where
  refl _ := id
  trans h h' := h' ∘ h

/-- A step that leaves the process as it is sustains any property of it. -/
theorem SameProcess.sustains {P : Process → Prop} (h : SameProcess s w w') : Sustains P s w w' :=
  fun ⟨p, hp, hlive⟩ => ⟨p, h.trans hp, hlive⟩

/-- The process of a session may change as long as it keeps the property. -/
theorem sustains_of_map {P : Process → Prop} {f : Process → Process}
    (h : (w'.session s).process = (w.session s).process.map f) (hf : ∀ p, P p → P (f p)) :
    Sustains P s w w' := by
  rintro ⟨p, hp, hP⟩
  exact ⟨f p, by rw [h, hp]; rfl, hf p hP⟩

/-- A request that is sent leaves the process as it is. -/
theorem sameProcess_post (w : World) (r : Request) : SameProcess s w (w.post s r) := by
  unfold SameProcess post
  split
  · rfl
  · split
    · rw [session_send, if_pos rfl]
    · rfl

/-- A script that is registered leaves the process as it is. -/
theorem sameProcess_register (w : World) (script : Script) : SameProcess s w (w.register s script) := by
  rw [SameProcess, register, session_modifySession, if_pos rfl]

/-- Whether the front end of a session fails when it is told of something now. -/
def Balks (w : World) (s : Nat) (n : Notice) : Prop :=
  (w.session s).alive = true ∧ (w.session s).observed = true
    ∧ ∃ failure, w.reaction w.journal.notes (.model s n (w.noticeText s n)) = some failure

/-- An event that makes a process or a thread that goes on. A thread that is heard of for the first
time when it has terminated goes on only if the front end fails when it is told of the new thread. -/
def Wakes (w : World) (s : Nat) : Event → Prop
  | .engineStarted => (w.session s).process = none
  | .threadTerminated thread =>
    (w.session s).process = none
      ∨ (w.session s).findThread? thread = none
        ∧ (w.addThread s thread).Balks s (.created (.thread (w.session s).threads.length))
  | e => ∃ thread, e.thread? = some thread ∧ (w.session s).findThread? thread = none

/-- What happens makes a process or a thread that goes on. -/
def Revives (w : World) (s : Nat) : Happening → Prop
  | .heard e => (w.session s).attached = true ∧ w.Wakes s e
  | _ => False

end World

open World

section Operations

variable {s i : Nat} {w : World}

/-! ### What leaves a session alive -/

/-- A notification leaves the process as it is. -/
theorem sameProcess_notify (t : Nat) (n : Notice) : Keeps (SameProcess s) (notify t n) := by
  intro w
  unfold worldAfter
  obtain ⟨j, hok | ⟨failure, herror⟩⟩ := notify_cases t n w
  · rw [hok]
    rfl
  · rw [herror]
    rfl

/-- An answer to a thread that waits before a script leaves the process as it is. -/
theorem sameProcess_answerThread (script : Script) (root : Bool) (i : Nat) :
    Keeps (SameProcess s) (answerThread s script root i) :=
  keeps_answerThread (steady_sameProcess s) (fun w => sameProcess_register w script)
    (fun w r _ => sameProcess_post w r) root i

/-- A notification sustains any property of the process. -/
theorem sustains_notify (P : Process → Prop) (n : Notice) : Keeps (Sustains P s) (notify s n) :=
  fun w => (sameProcess_notify s n w).sustains

/-- A thread that is changed is one of the process. -/
theorem process_modifyThread (w : World) (s i : Nat) (f : Thread → Thread) :
    ((w.modifyThread s i f).session s).process
      = (w.session s).process.map fun p => { p with threads := p.threads.modify i f } := by
  rw [modifyThread, session_modifySession, if_pos rfl]
  rfl

/-- A thread may change as long as it does not terminate. -/
theorem Process.Lively.modify {p : Process} (h : p.Lively) (i : Nat) {f : Thread → Thread}
    (hf : ∀ t, t.isTerminated = false → (f t).isTerminated = false) :
    ({ p with threads := p.threads.modify i f } : Process).Lively := by
  refine h.imp id fun ⟨t, ht, hlive⟩ => ?_
  obtain ⟨j, hj⟩ := List.mem_iff_getElem?.mp ht
  by_cases hij : i = j
  · refine ⟨f t, List.mem_of_getElem? (i := j) ?_, hf t hlive⟩
    rw [List.getElem?_modify, hj, hij]
    simp
  · refine ⟨t, List.mem_of_getElem? (i := j) ?_, hlive⟩
    rw [List.getElem?_modify_ne _ _ hij, hj]

/-- A process stays lively when a thread changes that goes on as it did. -/
theorem lively_modifyThread (w : World) (i : Nat) {f : Thread → Thread}
    (hf : ∀ t, t.isTerminated = false → (f t).isTerminated = false) :
    Sustains Process.Lively s w (w.modifyThread s i f) :=
  sustains_of_map (process_modifyThread w s i f) fun _ h => h.modify i hf

/-- A process stays lively when a thread gets frames. -/
theorem lively_putFrames (w : World) (i : Nat) (c : FrameChange) :
    Sustains Process.Lively s w (w.putFrames s i c) := by
  have hroom : SameProcess s w (c.created.foldl (fun w f => w.modifyFrame f fun _ => default) w) :=
    process_of_still (plain_makeRoom c.created w).toStill
  exact (steady_sustains _ s).trans hroom.sustains (lively_modifyThread _ i fun _ h => h)

/-- A process stays lively when a thread gets a stack. -/
theorem lively_setStack (i : Nat) (stack : List Activation) :
    Keeps (Sustains Process.Lively s) (setStack s i stack) := by
  have h := steady_sustains Process.Lively s
  have htrace : ∀ (w : World) topic text, Sustains Process.Lively s w (w.trace topic text) :=
    fun _ _ _ => id
  have hdirty : ∀ f, Keeps (Sustains Process.Lively s) (setDirty f) := fun f w =>
    SameProcess.sustains (process_of_still (plain_setDirty f w).toStill)
  have hnotices : ∀ (f : FrameRef → Notice) (fs : List FrameRef),
      Keeps (Sustains Process.Lively s) (fs.forM fun frame => notify s (f frame)) :=
    fun f => Keeps.forM h fun frame => sustains_notify _ _
  refine Keeps.bind h (Keeps.get h) fun w => ?_
  dsimp only
  split
  · exact Keeps.change fun w => htrace w _ _
  · refine Keeps.bind h (Keeps.change fun w => htrace w _ _) fun _ => ?_
    refine Keeps.bind h (Keeps.change fun w => lively_putFrames w i _) fun _ => ?_
    refine Keeps.bind h (Keeps.forM h hdirty _) fun _ => ?_
    refine Keeps.bind h (hnotices _ _) fun _ => ?_
    exact Keeps.bind h (hnotices _ _) fun _ => sustains_notify _ _

/-- A process stays lively when a thread stops. -/
theorem lively_threadSuspended (i : Nat) (reason : SuspendReason) (stack : List Activation) :
    Keeps (Sustains Process.Lively s) (threadSuspended s i reason stack) := by
  have h := steady_sustains Process.Lively s
  refine Keeps.bind h (Keeps.get h) fun w => ?_
  split
  · exact Keeps.pure h _
  · refine Keeps.bind h (Keeps.change fun w => lively_modifyThread w i fun _ _ => rfl) fun _ => ?_
    exact Keeps.bind h (lively_setStack i stack) fun _ => sustains_notify _ _

/-- A process stays lively when a thread goes on. -/
theorem lively_threadResumed (i : Nat) (kind : ResumeKind) :
    Keeps (Sustains Process.Lively s) (threadResumed s i kind) := by
  have h := steady_sustains Process.Lively s
  have hresume : ∀ t : Thread, (t.resume kind).isTerminated = false := by
    intro t
    cases hkind : kind.isStep <;> simp [Thread.resume, Thread.isTerminated, hkind]
  refine Keeps.bind h (Keeps.get h) fun w => ?_
  split
  · exact Keeps.pure h _
  · refine Keeps.bind h (Keeps.change fun w => ?_) fun _ => sustains_notify _ _
    exact lively_modifyThread w i fun t _ => hresume t

/-! ### What makes a process or a thread -/

/-- A process that is made goes on, and so do the threads that are added to it. -/
theorem fresh_ensureProcess (hp : (w.session s).process = none) :
    ∃ p, ((worldAfter (ensureProcess s) w).session s).process = some p ∧ p.terminated = false := by
  have hadd : ((w.addProcess s).session s).process = some .start := by
    rw [addProcess, session_modifySession, if_pos rfl]
  have hrun : worldAfter (ensureProcess s) w
      = worldAfter (notify s (.created .process)) (w.addProcess s) := by
    unfold worldAfter ensureProcess
    rw [run_get_bind, hp]
    rfl
  rw [hrun]
  exact sustains_notify _ _ _ ⟨.start, hadd, rfl⟩

/-- There is a process already. -/
theorem run_ensureProcess (hp : (w.session s).process ≠ none) : ensureProcess s w = .ok () w := by
  obtain ⟨-, hrun⟩ | ⟨hnone, -⟩ := ensureProcess_cases s w
  · exact hrun
  · exact absurd hnone hp

/-- A thread that is added comes behind the others of the process. -/
theorem process_addThread (w : World) (s : Nat) (handle : Handle) :
    ((w.addThread s handle).session s).process
      = (w.session s).process.map fun p => { p with threads := p.threads ++ [.start handle] } := by
  rw [addThread, session_modifySession, if_pos rfl]

/-- A property of processes that a new thread does not break is sustained when a thread is found or
made. -/
theorem sustains_findOrCreateThread {P : Process → Prop} (handle : Handle)
    (hP : ∀ p, P p → P { p with threads := p.threads ++ [.start handle] }) :
    Keeps (Sustains P s) (findOrCreateThread s handle) := by
  have h := steady_sustains P s
  intro w
  cases hfind : (w.session s).findThread? handle with
  | some i =>
      rw [worldAfter, run_findOrCreateThread hfind]
      exact h.refl w
  | none =>
      rw [worldAfter, run_findOrCreateThread_new hfind]
      refine h.trans (sustains_of_map (process_addThread w s handle) hP) ?_
      exact Keeps.bind h (sustains_notify P _) (fun _ => Keeps.pure h _) _

/-- A thread of which nothing was known goes on. -/
theorem lively_addThread (hp : (w.session s).process ≠ none) (handle : Handle) :
    ((w.addThread s handle).session s).Lively := by
  obtain ⟨p, hp⟩ := Option.ne_none_iff_exists'.mp hp
  refine ⟨{ p with threads := p.threads ++ [.start handle] }, ?_, .inr ⟨.start handle, ?_, rfl⟩⟩
  · rw [process_addThread, hp]
    rfl
  · exact List.mem_append_right _ List.mem_cons_self

/-- Whatever comes next, a session goes on that has got a process or a thread. -/
theorem lively_threadOf {α : Type} {handle : Handle} {f : Nat × Bool → Act α}
    (hnew : (w.session s).findThread? handle = none)
    (hf : ∀ found, Keeps (Sustains Process.Lively s) (f found)) :
    ((worldAfter (do ensureProcess s; f (← findOrCreateThread s handle)) w).session s).Lively := by
  have h := steady_sustains Process.Lively s
  have hfind : Keeps (Sustains Process.Lively s) (findOrCreateThread s handle) :=
    sustains_findOrCreateThread handle fun p hp =>
      hp.imp id fun ⟨t, ht, hlive⟩ => ⟨t, List.mem_append_left _ ht, hlive⟩
  by_cases hp : (w.session s).process = none
  · obtain ⟨p, hmade, hfresh⟩ := fresh_ensureProcess hp
    exact Keeps.after_bind h (fun _ => Keeps.bind h hfind hf) w ⟨p, hmade, .inl hfresh⟩
  · rw [worldAfter, run_bind_ok (run_ensureProcess hp)]
    refine Keeps.after_bind h hf w ?_
    rw [worldAfter, run_findOrCreateThread_new hnew]
    exact Keeps.bind h (sustains_notify _ _) (fun _ => Keeps.pure h _) _ (lively_addThread hp handle)

end Operations

section Events

variable {s i : Nat} {w : World} {thread : Handle}

/-- A thread is looked for in the process, which is made before if need be. -/
theorem threadOf_bind {α : Type} (s : Nat) (handle : Handle) (f : Nat → Act α) :
    threadOf s handle >>= f = (do
      ensureProcess s
      let found ← findOrCreateThread s handle
      f found.1) := by
  unfold threadOf
  rw [bind_assoc]
  simp only [bind_assoc, pure_bind]

/-! ### Front ends that fail -/

/-- A front end that balks breaks a notification off. -/
theorem notify_of_balks {n : Notice} (h : w.Balks s n) :
    ∃ failure j, notify s n w = .error failure { w with journal := j } := by
  obtain ⟨hl, ho, failure, hfails⟩ := h
  refine ⟨failure, w.journal.note (.model s n (w.noticeText s n)), ?_⟩
  rw [run_notify, hl, ho]
  dsimp only [Bool.and_self, if_true]
  rw [hfails]
  rfl

/-- A front end that does not balk lets a notification go through. -/
theorem notify_of_not_balks {n : Notice} (h : ¬w.Balks s n) :
    ∃ j, notify s n w = .ok () { w with journal := j } := by
  rw [run_notify]
  cases hl : (w.session s).alive && (w.session s).observed with
  | false => exact ⟨w.journal, rfl⟩
  | true =>
      refine ⟨w.journal.note (.model s n (w.noticeText s n)), ?_⟩
      obtain ⟨hl, ho⟩ := Bool.and_eq_true_iff.mp hl
      dsimp only [if_true]
      cases hreaction : w.reaction w.journal.notes (.model s n (w.noticeText s n)) with
      | none => rfl
      | some failure => exact absurd ⟨hl, ho, failure, hreaction⟩ h

/-! ### Events that make something -/

/-- A thread that is heard of first when it has terminated goes on if the front end fails before it
is terminated. Its process goes on if there was none. -/
theorem lively_threadTerminated (h : w.Wakes s (.threadTerminated thread)) :
    ((worldAfter (applyEvent s (.threadTerminated thread)) w).session s).Lively := by
  by_cases hp : (w.session s).process = none
  · have hR := steady_sustains (·.terminated = false) s
    have hrest : Keeps (Sustains (·.terminated = false) s) (threadTerminated s thread) := by
      refine Keeps.bind hR (sustains_findOrCreateThread thread fun _ => id) fun found => ?_
      refine Keeps.bind hR (Keeps.get hR) fun w => ?_
      split
      · exact Keeps.pure hR _
      · refine Keeps.bind hR (Keeps.change fun w => ?_) fun _ => sustains_notify _ _
        exact sustains_of_map (process_modifyThread w s _ _) fun _ => id
    obtain ⟨p, hmade, hfresh⟩ := Keeps.after_bind hR (fun _ => hrest) w (fresh_ensureProcess hp)
    exact ⟨p, hmade, .inl hfresh⟩
  · obtain ⟨hnew, hbalks⟩ := h.resolve_left hp
    obtain ⟨failure, j, hfails⟩ := notify_of_balks hbalks
    have hrun : applyEvent s (.threadTerminated thread) w
        = .error failure { w.addThread s thread with journal := j } := by
      rw [applyEvent, run_bind_ok (run_ensureProcess hp)]
      refine run_bind_error ?_ _
      rw [run_findOrCreateThread_new hnew, run_bind_error hfails]
    rw [worldAfter, hrun]
    exact lively_addThread hp thread

/-- An event that makes a process or a thread leaves the session with one that goes on. -/
theorem lively_applyEvent {e : Event} (h : w.Wakes s e) :
    ((worldAfter (applyEvent s e) w).session s).Lively := by
  have hR := steady_sustains Process.Lively s
  cases e with
  | engineStarted =>
      obtain ⟨p, hmade, hfresh⟩ := fresh_ensureProcess h
      exact ⟨p, hmade, .inl hfresh⟩
  | scriptReady script thread root =>
      obtain ⟨_, ⟨⟩, hnew⟩ := h
      rw [applyEvent, scriptReady_eq, greetThread, bind_assoc]
      refine lively_threadOf hnew fun found => Keeps.bind hR ?_ fun i w =>
        (sameProcess_answerThread script root i w).sustains
      split
      · exact Keeps.pure hR _
      · exact Keeps.bind hR (sustains_notify _ _) fun _ => Keeps.pure hR _
  | threadCreated thread =>
      obtain ⟨_, ⟨⟩, hnew⟩ := h
      rw [applyEvent, threadOf_bind]
      exact lively_threadOf hnew fun _ => Keeps.pure hR _
  | threadTerminated thread => exact lively_threadTerminated h
  | suspended thread reason stack =>
      obtain ⟨_, ⟨⟩, hnew⟩ := h
      rw [applyEvent, worldAfter, run_get_bind, threadOf_bind]
      exact lively_threadOf hnew fun found => lively_threadSuspended found.1 reason _
  | resumed thread kind =>
      obtain ⟨_, ⟨⟩, hnew⟩ := h
      rw [applyEvent, threadOf_bind]
      exact lively_threadOf hnew fun found => lively_threadResumed found.1 kind
  | stackFrames thread stack =>
      obtain ⟨_, ⟨⟩, hnew⟩ := h
      rw [applyEvent, worldAfter, run_get_bind, threadOf_bind]
      exact lively_threadOf hnew fun found => lively_setStack found.1 _
  | frameVariables frame reported =>
      obtain ⟨_, ⟨⟩, -⟩ := h
  | evaluated expression frame result listener =>
      obtain ⟨_, ⟨⟩, -⟩ := h
  | engineTerminated =>
      obtain ⟨_, ⟨⟩, -⟩ := h

/-! ### Events that make nothing -/

/-- A thread that is found in a session of which no part goes on has terminated. -/
theorem gone_of_findThread? (hl : (w.session s).Lifeless)
    (hi : (w.session s).findThread? thread = some i) :
    (w.session s).process ≠ none ∧ (w.thread s i).isTerminated = true := by
  obtain ⟨hlt, -⟩ := List.findIdx?_eq_some_iff_getElem.mp hi
  refine ⟨fun hp => ?_, ?_⟩
  · rw [threads_eq_nil hp] at hlt
    exact Nat.not_lt_zero _ hlt
  · rw [thread_eq (List.getElem?_eq_getElem hlt)]
    exact hl.threads _ (List.getElem_mem hlt)

/-- A thread that is there is found, and nothing happens. -/
theorem run_threadOf (hp : (w.session s).process ≠ none)
    (hi : (w.session s).findThread? thread = some i) : threadOf s thread w = .ok i w := by
  unfold threadOf
  rw [run_bind_ok (run_ensureProcess hp), run_bind_ok (run_findOrCreateThread hi)]
  rfl

/-- A thread that is gone does not stop. -/
theorem run_threadSuspended_gone (hgone : (w.thread s i).isTerminated = true) (reason : SuspendReason)
    (stack : List Activation) : threadSuspended s i reason stack w = .ok () w := by
  unfold threadSuspended
  rw [run_get_bind, hgone]
  rfl

/-- A thread that is gone does not go on. -/
theorem run_threadResumed_gone (hgone : (w.thread s i).isTerminated = true) (kind : ResumeKind) :
    threadResumed s i kind w = .ok () w := by
  unfold threadResumed
  rw [run_get_bind, hgone]
  rfl

/-- A thread that is gone gets no stack. -/
theorem sameProcess_setStack_gone (hgone : (w.thread s i).isTerminated = true) (stack : List Activation) :
    SameProcess s w (worldAfter (setStack s i stack) w) := by
  unfold setStack worldAfter
  rw [run_get_bind]
  dsimp only
  rw [if_pos hgone]
  rfl

/-- A script that is ready for a thread that is there is registered and answered. -/
theorem sameProcess_scriptReady (hi : (w.session s).findThread? thread = some i) (script : Script)
    (root : Bool) : SameProcess s w (worldAfter (scriptReady s script thread root) w) := by
  have hR := steady_sameProcess s
  rw [scriptReady_eq]
  refine hR.trans ?_ (Keeps.after_bind hR (fun i => sameProcess_answerThread script root i) w)
  unfold greetThread
  rw [worldAfter, run_bind_ok (run_findOrCreateThread hi)]
  exact Keeps.bind hR (sameProcess_notify s _) (fun _ => Keeps.pure hR _) w

/-- A thread that is added and terminated leaves no part that goes on. -/
theorem lifeless_terminateNew (hl : (w.session s).Lifeless) (thread : Handle) :
    (((w.addThread s thread).modifyThread s (w.session s).threads.length Thread.terminate).session
      s).Lifeless := by
  refine Session.lifeless_of_process fun p' hp' => ?_
  rw [process_modifyThread, process_addThread] at hp'
  cases hp : (w.session s).process with
  | none =>
      rw [hp] at hp'
      cases hp'
  | some p =>
      have hthreads : (w.session s).threads = p.threads := by rw [Session.threads, hp]
      rw [hp] at hp'
      cases hp'
      refine ⟨hl.process p hp, fun t ht => ?_⟩
      obtain ⟨k, hk⟩ := List.mem_iff_getElem?.mp ht
      dsimp only at hk
      rw [List.getElem?_modify, hthreads] at hk
      obtain ⟨t₀, ht₀, rfl⟩ := Option.map_eq_some_iff.mp hk
      split
      · rfl
      · next hne =>
          have hlt := (List.getElem?_eq_some_iff.mp ht₀).1
          rw [List.length_append, List.length_singleton] at hlt
          rw [List.getElem?_append_left (by omega)] at ht₀
          exact hl.threads t₀ (hthreads ▸ List.mem_of_getElem? ht₀)

/-- A session stays lifeless when a thread ends that does not wake it. -/
theorem lifeless_threadTerminated (hl : (w.session s).Lifeless)
    (h : ¬w.Wakes s (.threadTerminated thread)) :
    ((worldAfter (applyEvent s (.threadTerminated thread)) w).session s).Lifeless := by
  obtain ⟨hp, hbalks⟩ := not_or.mp h
  rw [applyEvent, worldAfter, run_bind_ok (run_ensureProcess hp)]
  cases hfind : (w.session s).findThread? thread with
  | some i =>
      have hgone := (gone_of_findThread? hl hfind).2
      rw [threadTerminated, run_bind_ok (run_findOrCreateThread hfind)]
      dsimp only
      rw [run_get_bind, if_pos hgone]
      exact hl
  | none =>
      -- The thread is there and terminated, whether or not the front end fails when it is told of that.
      obtain ⟨j, hok⟩ := notify_of_not_balks fun h => hbalks ⟨hfind, h⟩
      let v : World := { w.addThread s thread with journal := j }
      have hnew : findOrCreateThread s thread w = .ok ((w.session s).threads.length, true) v := by
        rw [run_findOrCreateThread_new hfind, run_bind_ok hok]
        rfl
      have hlive : (v.thread s (w.session s).threads.length).isTerminated = false := by
        have hthreads := threads_addThread w s thread
        rw [Option.isSome_iff_ne_none.mpr hp, if_pos rfl] at hthreads
        have hlast : (v.session s).threads[(w.session s).threads.length]? = some (.start thread) := by
          change ((w.addThread s thread).session s).threads[_]? = _
          rw [hthreads, List.getElem?_concat_length]
        rw [thread_eq hlast]
        rfl
      rw [threadTerminated, run_bind_ok hnew]
      dsimp only
      rw [run_get_bind, hlive]
      refine (lifeless_terminateNew hl thread).congr ?_
      exact sameProcess_notify s (.terminated (.thread (w.session s).threads.length))
        (v.modifyThread s (w.session s).threads.length Thread.terminate)

/-- What is heard of parts that have terminated makes none that goes on. -/
theorem lifeless_applyEvent (ht : (w.session s).terminated = true) (hl : (w.session s).Lifeless)
    {e : Event} (h : ¬w.Wakes s e) : ((worldAfter (applyEvent s e) w).session s).Lifeless := by
  have hfound : ∀ {thread}, (w.session s).findThread? thread ≠ none →
      ∃ i, (w.session s).findThread? thread = some i ∧ (w.session s).process ≠ none
        ∧ (w.thread s i).isTerminated = true := fun hne => by
    obtain ⟨i, hi⟩ := Option.ne_none_iff_exists'.mp hne
    exact ⟨i, hi, gone_of_findThread? hl hi⟩
  have hstill : ∀ {w'}, Still w w' → (w'.session s).Lifeless := fun h' => hl.congr (process_of_still h')
  cases e with
  | engineStarted =>
      rw [applyEvent, worldAfter, run_ensureProcess h]
      exact hl
  | scriptReady script thread root =>
      obtain ⟨i, hi, hp, -⟩ := hfound fun hnew => h ⟨thread, rfl, hnew⟩
      rw [applyEvent, worldAfter, run_bind_ok (run_ensureProcess hp)]
      exact hl.congr (sameProcess_scriptReady hi script root)
  | threadCreated thread =>
      obtain ⟨i, hi, hp, -⟩ := hfound fun hnew => h ⟨thread, rfl, hnew⟩
      rw [applyEvent, worldAfter, run_bind_ok (run_threadOf hp hi)]
      exact hl
  | threadTerminated thread => exact lifeless_threadTerminated hl h
  | suspended thread reason stack =>
      obtain ⟨i, hi, hp, hgone⟩ := hfound fun hnew => h ⟨thread, rfl, hnew⟩
      rw [applyEvent, worldAfter, run_get_bind, run_bind_ok (run_threadOf hp hi),
        run_threadSuspended_gone hgone]
      exact hl
  | resumed thread kind =>
      obtain ⟨i, hi, hp, hgone⟩ := hfound fun hnew => h ⟨thread, rfl, hnew⟩
      rw [applyEvent, worldAfter, run_bind_ok (run_threadOf hp hi), run_threadResumed_gone hgone]
      exact hl
  | stackFrames thread stack =>
      obtain ⟨i, hi, hp, hgone⟩ := hfound fun hnew => h ⟨thread, rfl, hnew⟩
      rw [applyEvent, worldAfter, run_get_bind, run_bind_ok (run_threadOf hp hi)]
      exact hl.congr (sameProcess_setStack_gone hgone _)
  | frameVariables frame reported =>
      exact hstill (still_withInHand frame (keeps_setVariables frame reported) w)
  | evaluated expression frame result listener =>
      exact hstill (keeps_evaluated steady_still
        (still_withInHand frame (keeps_deliverResult listener _)) w)
  | engineTerminated =>
      refine hl.congr ?_
      rw [applyEvent, worldAfter, run_endSession, if_pos ht, session_close_self, if_pos ht]

end Events

/-! ### Whatever happens -/

section Runs

variable {s : Nat} {w : World}

/-- What becomes of a session that has terminated and of which no part goes on. -/
theorem lifeless_after (ht : (w.session s).terminated = true) (hl : (w.session s).Lifeless)
    (h : Happening) : ((h.after s w).session s).Lifeless ↔ ¬w.Revives s h := by
  cases h with
  | heard e =>
      cases ha : (w.session s).attached with
      | true =>
          let u := w.trace "model" ("process " ++ e.text w.marks)
          have hafter : worldAfter (handleEvent s e) w = worldAfter (applyEvent s e) u := by
            rw [worldAfter, handleEvent_eq ha]
            rfl
          have hwakes : w.Wakes s e ↔ u.Wakes s e := by cases e <;> exact Iff.rfl
          change ((worldAfter (handleEvent s e) w).session s).Lifeless ↔ ¬(_ ∧ w.Wakes s e)
          rw [hafter, hwakes]
          constructor
          · rintro hafter ⟨-, hw⟩
            exact Session.lifeless_iff_not_lively.mp hafter (lively_applyEvent hw)
          · exact fun hw => lifeless_applyEvent (w := u) ht hl fun h' => hw ⟨ha, h'⟩
      | false =>
          change ((worldAfter (handleEvent s e) w).session s).Lifeless ↔ ¬(_ ∧ _)
          rw [worldAfter, handleEvent_unattached ha, ha]
          exact ⟨fun _ h => Bool.false_ne_true h.1, fun _ => hl⟩
  | disconnected =>
      obtain ⟨-, hrun⟩ | ⟨hnot, -⟩ := disconnect_cases s w
      · refine ⟨fun _ => id, fun _ => ?_⟩
        rw [Happening.after, hrun]
        exact hl
      · rw [ht] at hnot
        cases hnot
  | detached =>
      refine ⟨fun _ => id, fun _ => hl.congr ?_⟩
      rw [Happening.after, session_modifySession, if_pos rfl]
  | attached box =>
      refine ⟨fun _ => id, fun _ => hl.congr ?_⟩
      rw [Happening.after, session_modifySession, if_pos rfl]

/-- A session that has terminated has terminated for good. -/
theorem terminated_after (ht : (w.session s).terminated = true) (h : Happening) :
    ((h.after s w).session s).terminated = true := by
  have hR : Steady fun w w' => (w.session s).terminated = true → (w'.session s).terminated = true :=
    ⟨fun _ => id, fun h h' => h' ∘ h⟩
  cases h with
  | heard e =>
      refine keeps_handleEvent hR (fun h => (congrArg Session.terminated h.here :).trans)
        (fun w script => ?_) (fun w r => ?_) (fun w ht => ?_) e w ht
      · rw [register, session_modifySession, if_pos rfl]
        exact id
      · obtain ⟨rs, hp⟩ := exists_posts_post w s r
        exact (congrArg Session.terminated hp.here.model :).trans
      · rw [session_close_self, if_pos ht]
        exact ht
  | disconnected =>
      obtain ⟨-, hrun⟩ | ⟨hnot, -⟩ := disconnect_cases s w
      · rw [Happening.after, hrun]
        exact ht
      · rw [ht] at hnot
        cases hnot
  | detached =>
      rw [Happening.after, session_modifySession, if_pos rfl]
      exact ht
  | attached box =>
      rw [Happening.after, session_modifySession, if_pos rfl]
      exact ht

/-- Only the end of the interpreter ends a session that hears of it. -/
theorem terminated_handleEvent {e : Event} (he : e ≠ .engineTerminated) (w : World) :
    ((worldAfter (handleEvent s e) w).session s).terminated = (w.session s).terminated := by
  have hR : Steady fun w w' => (w'.session s).terminated = (w.session s).terminated :=
    ⟨fun _ => rfl, fun h h' => h'.trans h⟩
  have hstill : ∀ {w w' : World}, Still w w' →
      (w'.session s).terminated = (w.session s).terminated :=
    fun h => (congrArg Session.terminated (h.everywhere s) :)
  refine keeps_handleEvent_of hR e (fun h => (congrArg Session.terminated h.here :))
    (fun w script => ?_) (fun w r _ => ?_) (fun frame reported _ w => ?_)
    (fun _ frame _ listener _ w => ?_) (fun h => absurd h he) w
  · rw [register, session_modifySession, if_pos rfl]
  · obtain ⟨rs, hp⟩ := exists_posts_post w s r
    exact (congrArg Session.terminated hp.here.model :)
  · exact hstill (still_withInHand frame (keeps_setVariables frame reported) w)
  · exact hstill (still_withInHand frame (keeps_deliverResult listener _) w)

/-- A session is finished when it ends, even if its front end fails when it is told. -/
theorem finished_endSession (ht : (w.session s).terminated = false) :
    ((worldAfter (endSession s) w).session s).Finished := by
  have hself : (worldAfter (endSession s) w).session s = (w.session s).ended := by
    have hclose := session_close_self w s
    rw [ht] at hclose
    rw [worldAfter_endSession]
    split <;> exact hclose
  rw [hself]
  exact Session.finished_ended _

/-- A session that an event ends is finished. -/
theorem finished_handleEvent (ht : (w.session s).terminated = false) (e : Event)
    (hend : ((worldAfter (handleEvent s e) w).session s).terminated = true) :
    ((worldAfter (handleEvent s e) w).session s).Finished := by
  by_cases he : e = .engineTerminated
  · subst he
    cases ha : (w.session s).attached with
    | false =>
        rw [worldAfter, handleEvent_unattached ha, ht] at hend
        cases hend
    | true =>
        rw [worldAfter, handleEvent_eq ha]
        exact finished_endSession ht
  · rw [terminated_handleEvent he, ht] at hend
    cases hend

/-- A session that its users end is finished. -/
theorem finished_disconnect (ht : (w.session s).terminated = false) :
    ((worldAfter (disconnect s) w).session s).Finished := by
  obtain ⟨hdone, -⟩ | ⟨-, u, ⟨-, rs, -, hu⟩, hrun⟩ := disconnect_cases s w
  · rw [hdone] at ht
    cases ht
  · obtain ⟨rs', hp⟩ := exists_posts_post u s .disconnect
    rw [hrun]
    refine finished_endSession ?_
    exact (congrArg Session.terminated hp.here.model :).trans
      ((congrArg Session.terminated hu.here.model :).trans ht)

/-- When a session has just terminated, it is finished. -/
theorem finished_end (ht : (w.session s).terminated = false) (h : Happening)
    (hend : ((h.after s w).session s).terminated = true) : ((h.after s w).session s).Finished := by
  cases h with
  | heard e => exact finished_handleEvent ht e hend
  | disconnected => exact finished_disconnect ht
  | detached =>
      rw [Happening.after, session_modifySession, if_pos rfl] at hend
      cases ht.symm.trans hend
  | attached box =>
      rw [Happening.after, session_modifySession, if_pos rfl] at hend
      cases ht.symm.trans hend

/-- Whatever happens to a session, its threads and its process have all terminated whenever it has,
exactly as long as nothing revives it: that it hears, once it has terminated and is attached again, of
the start of the interpreter or of a thread that it did not know. -/
theorem lifeless_iff (hw : (w.session s).terminated = false) (hs : List Happening) :
    (∀ before, before <+: hs → ((w.afterAll s before).session s).terminated = true →
        ((w.afterAll s before).session s).Lifeless)
      ↔ ∀ before h, before ++ [h] <+: hs → ((w.afterAll s before).session s).terminated = true →
        ¬(w.afterAll s before).Revives s h := by
  have hstep : ∀ before h, w.afterAll s (before ++ [h]) = h.after s (w.afterAll s before) :=
    fun before h => afterAll_append w s before [h]
  constructor
  · intro hall before h hprefix ht
    have hl := hall before ((List.prefix_append before [h]).trans hprefix) ht
    refine (lifeless_after ht hl h).mp ?_
    rw [← hstep]
    exact hall _ hprefix (by rw [hstep]; exact terminated_after ht h)
  · intro hnone before
    induction before using List.reverseRecOn with
    | nil =>
        intro _ ht
        exact absurd (hw.symm.trans ht) nofun
    | append_singleton before h ih =>
        intro hprefix ht
        have hearlier := ih ((List.prefix_append before [h]).trans hprefix)
        rw [hstep] at ht ⊢
        cases hbefore : ((w.afterAll s before).session s).terminated with
        | false => exact (finished_end hbefore h ht).lifeless
        | true =>
            exact (lifeless_after hbefore (hearlier hbefore) h).mpr (hnone before h hprefix hbefore)

/-- A session that has terminated is attached again and hears of a thread. -/
theorem lifeless_iff_reattached :
    let thread : Handle := ⟨0, "main"⟩
    let hs : List Happening := [.attached ∅, .heard .engineStarted, .heard .engineTerminated,
      .attached ∅, .heard (.threadCreated thread)]
    ((opening.afterAll 0 hs).session 0).terminated = true
      ∧ ((opening.afterAll 0 hs).session 0).threads = [.start thread]
      ∧ ¬∀ before, before <+: hs → ((opening.afterAll 0 before).session 0).terminated = true →
        ((opening.afterAll 0 before).session 0).Lifeless := by
  intro thread hs
  refine ⟨by decide +kernel, by decide +kernel, fun hall => ?_⟩
  have hnone := (lifeless_iff (by decide +kernel) hs).mp hall (hs.take 4) (.heard (.threadCreated thread))
    (List.prefix_refl _) (by decide +kernel)
  exact hnone ⟨by decide +kernel, thread, rfl, by decide +kernel⟩

end Runs

end DebugBridge
