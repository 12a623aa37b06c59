import DebugBridge.Proofs.Display
import Mathlib.Data.List.Induction

/-!
# The outline of a thread

Of a thread of the model only its state and the activations of its frames matter to the interpreter.
Where no front end fails, an event changes this outline in a way that depends on the outline and the
event alone: what front ends watch, which frames are kept and which variables are known plays no
part. So what a thread will look like can be told beforehand from the events that wait.

## Main definitions

* `Outline`, `Outline.follow`: an outline, and what an event makes of it;
* `followEvent`: the same for a thread of which nothing may be known yet;
* `Restacks`: frames that a reported stack puts in the place of others;
* `Event.Makes`, `Renders`: what an event makes of its thread, and of the threads of a session;
* `World.Calm`: no front end fails.

## Main results

* `ids_frames_of`: the frames of a reported stack stand for its activations;
* `renders_handleEvent`: an event changes its thread as told, and no other;
* `ends_handleEvent`: so it does with outlines.
-/

namespace DebugBridge

/-- The numbers by which the activations of a stack are told apart. -/
def activationIds (stack : List Activation) : List Nat :=
  stack.map (·.id)

/-- What matters of a thread: its state and the activations of its frames. -/
structure Outline where
  state : ThreadState
  ids : List Nat
deriving DecidableEq, Repr

namespace Outline

/-- The outline of a thread that was just heard of. -/
def start : Outline := ⟨.running, []⟩

/-- What an event about a thread makes of its outline. What is gone stays as it is. -/
def follow (options : LaunchOptions) (o : Outline) (e : Event) : Outline :=
  if o.state = .terminated then o
  else
    match e with
    | .threadTerminated _ => ⟨.terminated, []⟩
    | .suspended _ _ stack => ⟨.suspended, activationIds (options.shownStack stack)⟩
    | .resumed _ kind => { o with state := if kind.isStep then .stepping else .running }
    | .stackFrames _ stack => { o with ids := activationIds (options.shownStack stack) }
    | _ => o

/-- A thread that is only looked for stays as it is. -/
@[simp] theorem follow_threadCreated (options : LaunchOptions) (o : Outline) (thread : Handle) :
    o.follow options (.threadCreated thread) = o := by
  unfold follow
  split <;> rfl

/-- A script that is ready does not change the outline of any thread. -/
@[simp] theorem follow_scriptReady (options : LaunchOptions) (o : Outline) (script : Script)
    (thread : Handle) (root : Bool) : o.follow options (.scriptReady script thread root) = o := by
  unfold follow
  split <;> rfl

end Outline

/-- The thread that an event is about. -/
def Event.thread? : Event → Option Handle
  | .scriptReady _ thread _ | .threadCreated thread | .threadTerminated thread
  | .suspended thread _ _ | .resumed thread _ | .stackFrames thread _ => some thread
  | _ => none

/-- What an event makes of the outline of the thread with a number, if there is one yet. -/
def followEvent (options : LaunchOptions) (id : Nat) (o : Option Outline) (e : Event) :
    Option Outline :=
  match e.thread? with
  | some handle => if handle.id = id then some ((o.getD .start).follow options e) else o
  | none => o

/-- The outline of a thread. -/
def Thread.outline (t : Thread) : Outline :=
  ⟨t.state, t.frames.map (·.activation.id)⟩

/-- The first thread with a number. -/
def threadIn (ts : List Thread) (id : Nat) : Option Thread :=
  ts.find? fun t => t.handle.id = id

/-- The outline of the first thread with a number. -/
def outlineIn (ts : List Thread) (id : Nat) : Option Outline :=
  (ts.find? fun t => t.handle.id = id).map Thread.outline

/-- The outline of a thread with a number is that of the first thread with the number. -/
theorem outlineIn_eq (ts : List Thread) (id : Nat) :
    outlineIn ts id = (threadIn ts id).map Thread.outline :=
  rfl

/-- The outline of the thread of a session with a number. -/
def Session.outline (x : Session) (id : Nat) : Option Outline :=
  outlineIn x.threads id

/-! ### Frames of a reported stack -/

/-- The frames of a reported stack stand for its activations, in their order. -/
theorem ids_frames_of (s : Nat) (handle : Handle) (stack : List Activation) (old : List FrameRef)
    (count : Nat) :
    (FrameChange.of s handle old count stack).frames.map (·.activation.id)
      = activationIds stack := by
  induction stack generalizing old count with
  | nil => rfl
  | cons a stack ih =>
      rw [FrameChange.of]
      cases hp : FrameChange.pick? a old with
      | some found =>
          obtain ⟨f, others⟩ := found
          have hrest := ih others count
          simp only [List.map_cons, activationIds] at hrest ⊢
          rw [id_of_pick? hp, hrest]
      | none =>
          have hrest := ih old (count + 1)
          simp only [List.map_cons, activationIds] at hrest ⊢
          rw [hrest]

/-- Frames that a reported stack puts in the place of others: they stand for its activations, and each
of them belongs to one of these or was there before. -/
structure Restacks (stack : List Activation) (old new : List FrameRef) : Prop where
  ids : new.map (·.activation.id) = activationIds stack
  known : ∀ f ∈ new, f.activation ∈ stack ∨ f ∈ old

/-- The frames of a change of a stack stand for the activations of the stack. -/
theorem restacks_of (s : Nat) (handle : Handle) (stack : List Activation) (old : List FrameRef)
    (count : Nat) : Restacks stack old (FrameChange.of s handle old count stack).frames :=
  ⟨ids_frames_of s handle stack old count, fun _ hf =>
    (mem_frames_of hf).elim (fun h => .inr h.1) fun h => .inl (created_of h).2.2.2⟩

/-! ### Lists of threads -/

/-- The threads with a handle, which is added at first sight. -/
def enroll (ts : List Thread) (handle : Handle) : List Thread :=
  if ts.any fun t => t.handle.id = handle.id then ts else ts ++ [.start handle]

/-- Every thread has a number of its own. -/
def Numbered (ts : List Thread) : Prop :=
  (ts.map (·.handle.id)).Nodup

/-- A thread that is added at first sight has a number of its own. -/
theorem numbered_enroll {ts : List Thread} (h : Numbered ts) (handle : Handle) :
    Numbered (enroll ts handle) := by
  unfold enroll
  split
  · exact h
  · next hnone =>
      unfold Numbered
      rw [List.map_append, List.nodup_append]
      refine ⟨h, by simp, fun a ha c hc hac => hnone ?_⟩
      obtain ⟨t, ht, rfl⟩ := List.mem_map.mp ha
      simp only [List.map_cons, List.map_nil, List.mem_singleton] at hc
      rw [List.any_eq_true]
      exact ⟨t, ht, by simpa [Thread.start] using hac.trans hc⟩

/-- Changes that keep the handle of a thread keep all handles. -/
theorem handles_modify (ts : List Thread) (i : Nat) {f : Thread → Thread}
    (hf : ∀ t, (f t).handle = t.handle) :
    (ts.modify i f).map Thread.handle = ts.map Thread.handle := by
  refine List.ext_getElem? fun k => ?_
  rw [List.getElem?_map, List.getElem?_map, List.getElem?_modify]
  cases ts[k]? with
  | none => rfl
  | some t =>
      by_cases hk : i = k
      · simp [hk, hf]
      · simp [hk]

/-- Threads have numbers of their own if no number occurs twice. -/
theorem numbered_iff {ts : List Thread} : Numbered ts ↔ ((ts.map Thread.handle).map Handle.id).Nodup := by
  rw [List.map_map]
  rfl

/-- Threads keep their numbers when one of them changes but for its handle. -/
theorem numbered_modify {ts : List Thread} (h : Numbered ts) (i : Nat) {f : Thread → Thread}
    (hf : ∀ t, (f t).handle = t.handle) : Numbered (ts.modify i f) := by
  rw [numbered_iff, handles_modify ts i hf]
  exact numbered_iff.mp h

/-- Where the thread with a number stands is not changed by changes that keep the handles. -/
theorem findIdx?_modify (ts : List Thread) (i : Nat) {f : Thread → Thread}
    (hf : ∀ t, (f t).handle = t.handle) (handle : Handle) :
    (ts.modify i f).findIdx? (fun t => t.handle.id = handle.id)
      = ts.findIdx? fun t => t.handle.id = handle.id := by
  have hmap : ∀ us : List Thread, us.findIdx? (fun t => t.handle.id = handle.id)
      = (us.map Thread.handle).findIdx? fun other => other.id = handle.id := fun us => by
    rw [List.findIdx?_map]
    rfl
  rw [hmap, hmap, handles_modify ts i hf]

/-- Among threads with numbers of their own, the one with a number is the one that is found. -/
theorem Numbered.getElem? {ts : List Thread} (h : Numbered ts) {handle : Handle} {i : Nat}
    (hi : ts.findIdx? (fun t => t.handle.id = handle.id) = some i) {t : Thread} (ht : t ∈ ts)
    (hid : t.handle.id = handle.id) : ts[i]? = some t := by
  induction ts generalizing i with
  | nil => cases ht
  | cons u us ih =>
      obtain ⟨hu, hus⟩ := List.nodup_cons.mp h
      rw [List.findIdx?_cons] at hi
      rcases List.mem_cons.mp ht with rfl | ht
      · rw [if_pos (by simpa using hid)] at hi
        cases hi
        rfl
      · have hne : u.handle.id ≠ handle.id := fun heq =>
          hu (List.mem_map.mpr ⟨t, ht, hid.trans heq.symm⟩)
        rw [if_neg (by simpa using hne)] at hi
        obtain ⟨k, hk, rfl⟩ := Option.map_eq_some_iff.mp hi
        exact ih hus hk ht

/-- Threads with different numbers are different; the outline of a number is that of its thread. -/
theorem outlineIn_of_mem {ts : List Thread} (h : Numbered ts) {t : Thread} (ht : t ∈ ts) :
    outlineIn ts t.handle.id = some t.outline := by
  induction ts with
  | nil => cases ht
  | cons u us ih =>
      obtain ⟨hu, hus⟩ := List.nodup_cons.mp h
      unfold outlineIn
      rw [List.find?_cons]
      rcases List.mem_cons.mp ht with rfl | ht
      · simp
      · have hne : u.handle.id ≠ t.handle.id := by
          intro hid
          exact hu (List.mem_map.mpr ⟨t, ht, hid.symm⟩)
        simp only [hne, decide_false]
        exact ih hus ht

/-- A thread with an outline is there. -/
theorem exists_of_outlineIn {ts : List Thread} {id : Nat} {o : Outline}
    (h : outlineIn ts id = some o) : ∃ t ∈ ts, t.handle.id = id ∧ t.outline = o := by
  obtain ⟨t, ht, rfl⟩ := Option.map_eq_some_iff.mp h
  exact ⟨t, List.mem_of_find?_eq_some ht, by simpa using List.find?_some ht, rfl⟩

/-- A handle that is added comes with a new thread. -/
theorem threadIn_enroll (ts : List Thread) (handle : Handle) (id : Nat) :
    threadIn (enroll ts handle) id
      = if handle.id = id then some ((threadIn ts id).getD (.start handle)) else threadIn ts id := by
  unfold enroll
  split
  · next hany =>
      split
      · next hid =>
          obtain ⟨t, ht, hth⟩ := List.any_eq_true.mp hany
          cases ho : threadIn ts id with
          | some o => rfl
          | none =>
              have hnone := List.find?_eq_none.mp ho t ht
              rw [← hid] at hnone
              exact absurd hth hnone
      · rfl
  · next hnone =>
      unfold threadIn
      rw [List.find?_append]
      split
      · next hid =>
          have hfind : ts.find? (fun t => t.handle.id = id) = none := by
            rw [List.find?_eq_none]
            intro t ht hth
            refine hnone (List.any_eq_true.mpr ⟨t, ht, ?_⟩)
            rw [hid]
            exact hth
          have hstart : (Thread.start handle).handle.id = id := hid
          rw [hfind, Option.none_or, List.find?_singleton, if_pos (by simpa using hstart)]
          rfl
      · next hid =>
          have hstart : (Thread.start handle).handle.id ≠ id := hid
          rw [List.find?_singleton, if_neg (by simpa using hstart), Option.or_none]

/-- A change of a thread that keeps its handle shows under its number and under no other. -/
theorem threadIn_modify {ts : List Thread} {handle : Handle} {i : Nat}
    (hi : ts.findIdx? (fun t => t.handle.id = handle.id) = some i) {f : Thread → Thread}
    (hf : ∀ t, (f t).handle = t.handle) (id : Nat) :
    threadIn (ts.modify i f) id
      = if handle.id = id then (threadIn ts id).map f else threadIn ts id := by
  induction ts generalizing i with
  | nil => cases hi
  | cons t ts ih =>
      rw [List.findIdx?_cons] at hi
      by_cases ht : t.handle.id = handle.id
      · simp only [ht, decide_true, if_true, Option.some.injEq] at hi
        subst hi
        unfold threadIn
        rw [List.modify_zero_cons, List.find?_cons, List.find?_cons, hf, ht]
        by_cases hid : handle.id = id
        · simp [hid]
        · simp [hid]
      · simp only [ht, decide_false, Bool.false_eq_true, if_false] at hi
        obtain ⟨k, hk, rfl⟩ := Option.map_eq_some_iff.mp hi
        have hrest := ih hk
        unfold threadIn at hrest ⊢
        rw [List.modify_succ_cons, List.find?_cons, List.find?_cons]
        by_cases hid : t.handle.id = id
        · have hne : handle.id ≠ id := fun h => ht (hid.trans h.symm)
          simp [hid, hne]
        · simp only [hid, decide_false]
          exact hrest

/-- A change at one place is the same if it does the same there. -/
theorem modify_congr {ts : List Thread} {i : Nat} {f g : Thread → Thread}
    (h : ∀ t, ts[i]? = some t → f t = g t) : ts.modify i f = ts.modify i g := by
  refine List.ext_getElem? fun k => ?_
  rw [List.getElem?_modify, List.getElem?_modify]
  by_cases hk : i = k
  · subst hk
    cases ht : ts[i]? with
    | none => rfl
    | some t => simp [h t ht]
  · simp [hk]

/-! ### Where no front end fails -/

/-- No front end fails. -/
def World.Calm (w : World) : Prop :=
  ∀ notes n, w.reaction notes n = none

open World

/-- What an operation keeps also holds where it ends. -/
theorem Ends.keeps {α : Type} {op : Act α} {w : World} {Q : α → World → Prop}
    {R : World → World → Prop} (h : Ends op w Q) (hk : Keeps R op) :
    Ends op w fun a w' => Q a w' ∧ R w w' := by
  obtain ⟨a, w', hop, hQ⟩ := h
  have hR := hk w
  rw [worldAfter, hop] at hR
  exact ⟨a, w', hop, hQ, hR⟩

/-- Where an operation ends in two ways it ends in both. -/
theorem Ends.and {α : Type} {op : Act α} {w : World} {Q Q' : α → World → Prop} (h : Ends op w Q)
    (h' : Ends op w Q') : Ends op w fun a w' => Q a w' ∧ Q' a w' := by
  obtain ⟨a, w', hrun, hq⟩ := h
  obtain ⟨a', w'', hrun', hq'⟩ := h'
  rw [hrun] at hrun'
  cases hrun'
  exact ⟨a, w', hrun, hq, hq'⟩

section Calm

variable {s : Nat} {w : World}

/-- A step that is still lets no front end fail. -/
theorem World.Calm.still (hc : w.Calm) {w' : World} (h : Still w w') : w'.Calm := by
  intro notes n
  rw [h.reaction]
  exact hc notes n

/-- A step that changes what is shown lets no front end fail. -/
theorem World.Calm.shows {ts : List Script} (hc : w.Calm) {w' : World} (h : Shows s ts w w') :
    w'.Calm := by
  intro notes n
  rw [h.reaction]
  exact hc notes n

/-- The threads of a session are no part of what is known of frames. -/
theorem threads_of_still {w' : World} (h : Still w w') :
    (w'.session s).threads = (w.session s).threads :=
  (congrArg Session.threads (h.everywhere s) :)

/-- A step that is still leaves the process as it is. -/
theorem process_of_still {w' : World} (h : Still w w') :
    (w'.session s).process = (w.session s).process :=
  (congrArg Session.process (h.everywhere s) :)

/-- Where no front end fails, a notification goes through. -/
theorem ends_notify (hc : w.Calm) (notice : Notice) :
    Ends (notify s notice) w fun _ w' => Still w w' := by
  have h := run_notify s notice w
  split at h
  · dsimp only at h
    rw [hc] at h
    exact ⟨(), _, h, .of_sessions rfl rfl rfl (Nat.le_refl _)⟩
  · exact ⟨(), w, h, steady_still.refl w⟩

/-- Where no front end fails, a frame goes out of date. -/
theorem ends_setDirty (hc : w.Calm) (f : FrameRef) :
    Ends (setDirty f) w fun _ w' => Still w w' := by
  have h : Still w (w.modifyFrame f fun state => { state with dirty := true }) :=
    still_modifyFrame w f _
  refine Ends.bind (Ends.change ?_)
  exact (ends_notify (hc.still h) _).mono fun _ _ h' => steady_still.trans h h'

/-- Where no front end fails, several notifications go through. -/
theorem ends_notices {α : Type} (hc : w.Calm) (f : α → Notice) (xs : List α) :
    Ends (xs.forM fun a => notify s (f a)) w fun _ w' => Still w w' :=
  Ends.forM steady_still (fun h hc => hc.still h) (fun _ _ hc => ends_notify hc _) xs hc

/-! ### Operations on threads -/

/-- Where no front end fails, a process is there afterwards, with the threads that it had. -/
theorem ends_ensureProcess (hc : w.Calm) :
    Ends (ensureProcess s) w fun _ w' => (w'.session s).threads = (w.session s).threads
      ∧ (w'.session s).process.isSome = true := by
  unfold ensureProcess
  refine Ends.bind (Ends.get ?_)
  cases hp : (w.session s).process with
  | some p => exact Ends.pure ⟨rfl, by rw [hp]; rfl⟩
  | none =>
      have hs : (w.addProcess s).session s = { w.session s with process := some .start } := by
        rw [addProcess, session_modifySession, if_pos rfl]
      have hcalm : (w.addProcess s).Calm := hc
      refine Ends.bind (Ends.change ((ends_notify (w := w.addProcess s) hcalm _).mono ?_))
      intro _ w' h
      rw [threads_of_still h, process_of_still h, hs, Session.threads, Session.threads, hp]
      exact ⟨rfl, rfl⟩

/-- A thread is found by its number. -/
theorem findThread?_eq (x : Session) (handle : Handle) :
    x.findThread? handle = x.threads.findIdx? fun t => t.handle.id = handle.id :=
  rfl

/-- A thread is found among those that are there, or it is added behind them. -/
theorem ends_findOrCreateThread (hc : w.Calm) (hp : (w.session s).process.isSome = true)
    (handle : Handle) :
    Ends (findOrCreateThread s handle) w fun found w' =>
      (w'.session s).threads = enroll (w.session s).threads handle
        ∧ (w'.session s).threads.findIdx? (fun t => t.handle.id = handle.id) = some found.1 := by
  unfold findOrCreateThread
  refine Ends.bind (Ends.get ?_)
  cases hf : (w.session s).findThread? handle with
  | some i =>
      obtain ⟨hi, hid, -⟩ := List.findIdx?_eq_some_iff_getElem.mp hf
      refine Ends.pure ⟨?_, hf⟩
      unfold enroll
      rw [if_pos (List.any_eq_true.mpr ⟨_, List.getElem_mem hi, hid⟩)]
  | none =>
      obtain ⟨p, hp⟩ := Option.isSome_iff_exists.mp hp
      have hnone := List.findIdx?_eq_none_iff.mp hf
      have hadd : ((w.addThread s handle).session s).threads
          = enroll (w.session s).threads handle := by
        have hno : (w.session s).threads.any (fun t => t.handle.id = handle.id) = false := by
          rw [List.any_eq_false]
          intro t ht
          simp [hnone t ht]
        unfold enroll
        rw [hno, addThread, session_modifySession, if_pos rfl]
        simp [Session.threads, hp]
      have hidx : ((w.addThread s handle).session s).threads.findIdx?
          (fun t => t.handle.id = handle.id) = some (w.session s).threads.length := by
        rw [hadd, enroll, if_neg]
        · rw [List.findIdx?_append, List.findIdx?_eq_none_iff.mpr hnone]
          simp [Thread.start]
        · simp only [List.any_eq_true, not_exists, not_and]
          intro t ht
          simp [hnone t ht]
      have hcalm : (w.addThread s handle).Calm := hc
      unfold createThread
      refine Ends.bind (Ends.bind (Ends.get (Ends.bind (Ends.change ?_))))
      refine Ends.bind ((ends_notify (w := w.addThread s handle) hcalm _).mono ?_)
      intro _ w' h
      refine Ends.pure (Ends.pure ?_)
      rw [threads_of_still h]
      exact ⟨hadd, hidx⟩

/-- Where no front end fails, a thread that is looked for is found, and it was added at first sight.
-/
theorem ends_threadOf (hc : w.Calm) (handle : Handle) :
    Ends (threadOf s handle) w fun i w' =>
      (w'.session s).threads = enroll (w.session s).threads handle
        ∧ (w'.session s).threads.findIdx? (fun t => t.handle.id = handle.id) = some i := by
  unfold threadOf
  refine Ends.bind (((ends_ensureProcess hc).keeps (@keeps_ensureProcess s [])).mono ?_)
  rintro _ u ⟨⟨hthreads, hprocess⟩, hu⟩
  refine Ends.bind ((ends_findOrCreateThread (hc.shows hu.toShows) hprocess handle).mono ?_)
  intro found w' h
  rw [hthreads] at h
  exact Ends.pure h

/-- Threads stay as they are when one that is gone should change. -/
theorem modify_of_isTerminated {i : Nat} (hgone : (w.thread s i).isTerminated = true)
    (f : Thread → Thread) :
    ((w.session s).threads.modify i fun t => if t.isTerminated then t else f t)
      = (w.session s).threads := by
  have hsame : ((w.session s).threads.modify i fun t => if t.isTerminated then t else f t)
      = (w.session s).threads.modify i id :=
    modify_congr fun t ht => if_pos (thread_eq ht ▸ hgone)
  rw [hsame, List.modify_id]

/-- A thread that is not gone may change in any way. -/
theorem modify_of_not_isTerminated {i : Nat} (hgone : (w.thread s i).isTerminated = false)
    (f : Thread → Thread) :
    ((w.session s).threads.modify i fun t => if t.isTerminated then t else f t)
      = (w.session s).threads.modify i f := by
  refine modify_congr fun t ht => if_neg ?_
  rw [← thread_eq ht, hgone]
  exact Bool.false_ne_true

/-- The frames of a thread stand for the stack that was reported last, unless the thread is gone. -/
theorem ends_setStack (hc : w.Calm) (i : Nat) (stack : List Activation) :
    Ends (setStack s i stack) w fun _ w' =>
      ∃ frames, Restacks stack (w.thread s i).frames frames
        ∧ (w'.session s).threads = (w.session s).threads.modify i fun t =>
          if t.isTerminated then t else { t with frames } := by
  unfold setStack
  refine Ends.bind (Ends.get ?_)
  let c := FrameChange.of s (w.thread s i).handle (w.thread s i).frames
    (w.session s).frames.size stack
  dsimp only
  split
  · next hgone =>
      exact Ends.change ⟨c.frames, restacks_of s _ stack _ _, (modify_of_isTerminated hgone _).symm⟩
  · next hgone =>
      let v := w.trace "model" ((w.thread s i).name ++ ": " ++ c.summary)
      have hput : ((v.putFrames s i c).session s).threads
          = (w.session s).threads.modify i fun t =>
            if t.isTerminated then t else { t with frames := c.frames } := by
        rw [threads_putFrames]
        exact (modify_of_not_isTerminated (w := w) (by simpa using hgone) _).symm
      have hcalm : (v.putFrames s i c).Calm := by
        intro notes n
        have hreaction : (v.putFrames s i c).reaction = v.reaction :=
          (plain_makeRoom c.created v).toStill.reaction
        rw [hreaction]
        exact hc notes n
      refine Ends.bind (Ends.change (Ends.bind (Ends.change ?_)))
      refine Ends.bind ((Ends.forM (w := v.putFrames s i c) steady_still
        (fun h hc => hc.still h) (fun f _ hc => ends_setDirty hc f) c.reused hcalm).mono ?_)
      intro _ w₁ h₁
      refine Ends.bind ((ends_notices (hcalm.still h₁) _ _).mono fun _ w₂ h₂ => ?_)
      have h₁₂ := steady_still.trans h₁ h₂
      refine Ends.bind ((ends_notices (hcalm.still h₁₂) _ _).mono fun _ w₃ h₃ => ?_)
      have h₁₃ := steady_still.trans h₁₂ h₃
      refine (ends_notify (hcalm.still h₁₃) _).mono fun _ w₄ h₄ => ?_
      refine ⟨c.frames, restacks_of s _ stack _ _, ?_⟩
      rw [threads_of_still (steady_still.trans h₁₃ h₄), hput]

/-- Where no front end fails, a thread that stops gets the frames of its stack, unless it is gone.
-/
theorem ends_threadSuspended (hc : w.Calm) (i : Nat) (reason : SuspendReason)
    (stack : List Activation) :
    Ends (threadSuspended s i reason stack) w fun _ w' =>
      ∃ frames, Restacks stack (w.thread s i).frames frames
        ∧ (w'.session s).threads = (w.session s).threads.modify i fun t =>
          if t.isTerminated then t else { t.suspend reason with frames } := by
  unfold threadSuspended
  refine Ends.bind (Ends.get ?_)
  cases hgone : (w.thread s i).isTerminated with
  | true =>
      -- What is gone keeps no frames, whatever they are.
      exact Ends.pure ⟨_, restacks_of s (w.thread s i).handle stack (w.thread s i).frames 0,
        (modify_of_isTerminated hgone _).symm⟩
  | false =>
      let u := w.modifyThread s i (·.suspend reason)
      have hcalm : u.Calm := hc
      simp only [Bool.false_eq_true, if_false]
      refine Ends.bind (Ends.change (Ends.bind ?_))
      have hkeeps : Keeps (Depicts s (stack.map Activation.script)) (setStack s i stack) :=
        keeps_setStack i stack fun a => List.mem_map_of_mem
      refine ((ends_setStack hcalm i stack).keeps hkeeps).mono ?_
      rintro _ v ⟨⟨frames, hframes, hv⟩, hshows⟩
      have hold : (u.thread s i).frames = (w.thread s i).frames := by
        rw [World.thread, World.thread, Session.thread, Session.thread, threads_modifyThread,
          List.getElem?_modify]
        simp only [if_true]
        cases (w.session s).threads[i]? <;> rfl
      rw [hold] at hframes
      refine (ends_notify (hcalm.shows hshows.toShows) _).mono fun _ w' h => ⟨frames, hframes, ?_⟩
      rw [threads_of_still h, hv, threads_modifyThread, List.modify_modify_eq,
        modify_of_not_isTerminated hgone]
      refine modify_congr fun t _ => ?_
      have hnot : ¬(t.suspend reason).isTerminated = true := by
        simp [Thread.suspend, Thread.isTerminated]
      rw [Function.comp_apply, if_neg hnot]

/-- A thread of a session moves from one state to another, unless it is gone. -/
theorem ends_moveThread (hc : w.Calm) (i : Nat) (f : Thread → Thread) (notice : Notice) :
    Ends (unless (w.thread s i).isTerminated do
        change (·.modifyThread s i f)
        notify s notice) w fun _ w' =>
      (w'.session s).threads = (w.session s).threads.modify i fun t =>
        if t.isTerminated then t else f t := by
  cases hgone : (w.thread s i).isTerminated with
  | true =>
      exact Ends.pure (modify_of_isTerminated hgone f).symm
  | false =>
      have hcalm : (w.modifyThread s i f).Calm := hc
      simp only [Bool.false_eq_true, if_false]
      refine Ends.bind (Ends.change ((ends_notify hcalm _).mono fun _ w' h => ?_))
      rw [threads_of_still h, threads_modifyThread]
      exact (modify_of_not_isTerminated hgone f).symm

/-- Where no front end fails, a thread goes on, unless it is gone. -/
theorem ends_threadResumed (hc : w.Calm) (i : Nat) (kind : ResumeKind) :
    Ends (threadResumed s i kind) w fun _ w' =>
      (w'.session s).threads = (w.session s).threads.modify i fun t =>
        if t.isTerminated then t else t.resume kind := by
  unfold threadResumed
  exact Ends.bind (Ends.get (ends_moveThread hc i (·.resume kind) _))

/-- Where no front end fails, a thread ends, which is added at first sight. -/
theorem ends_threadTerminated (hc : w.Calm) (hp : (w.session s).process.isSome = true)
    (handle : Handle) :
    Ends (threadTerminated s handle) w fun _ w' =>
      ∃ i, (enroll (w.session s).threads handle).findIdx?
          (fun t => t.handle.id = handle.id) = some i
        ∧ (w'.session s).threads = (enroll (w.session s).threads handle).modify i fun t =>
          if t.isTerminated then t else t.terminate := by
  unfold threadTerminated
  refine Ends.bind (((ends_findOrCreateThread hc hp handle).keeps
    (@keeps_findOrCreateThread s [] handle)).mono ?_)
  rintro ⟨i, added⟩ u ⟨⟨hu, hi⟩, hshows⟩
  rw [hu] at hi
  refine Ends.bind (Ends.get ?_)
  refine (ends_moveThread (hc.shows hshows.toShows) i Thread.terminate _).mono fun _ w' h => ⟨i, hi, ?_⟩
  rw [h, hu]

/-! ### Operations on variables -/

/-- An operation on a frame that is held meanwhile. -/
theorem ends_withInHand {op : Act Unit} (f : FrameRef) (hc : w.Calm)
    (h : ∀ u : World, u.Calm → Ends op u fun _ u' => Still u u') :
    Ends (withInHand f op) w fun _ w' => Still w w' := by
  obtain ⟨_, u, hop, hu⟩ := h { w with inHand := some f } hc
  refine ⟨(), { u with inHand := w.inHand }, ?_, ?_⟩
  · unfold withInHand
    rw [hop]
  · exact ⟨hu.size, hu.everywhere, hu.managers, hu.reaction, hu.numbers⟩

/-- Where no front end fails, a frame takes variables in without a change of any thread. -/
theorem ends_setVariables (hc : w.Calm) (f : FrameRef) (reported : List VariableId) :
    Ends (setVariables f reported) w fun _ w' => Still w w' := by
  let merging := mergeVariables w.reach f (w.frame f).known reported
  let u := (w.onHeap merging).2
  let v := u.modifyFrame f fun _ => ⟨(w.onHeap merging).1, false⟩
  have hu : Still w u := .of_sessions rfl rfl rfl (Nat.le_refl _)
  have hv : Still w v := steady_still.trans hu (still_modifyFrame u f _)
  obtain ⟨_, w', hnotify, hw'⟩ :=
    ends_notify (s := f.session) (hc.still hv) (.changed (.frame f) .content)
  exact ⟨(), w', hnotify, steady_still.trans hv hw'⟩

/-- A result that is handed on changes no thread. -/
theorem ends_deliverResult (listener : String) (result : WatchResult) :
    Ends (deliverResult listener result) w fun _ w' => Still w w' :=
  ⟨(), _, rfl, .of_sessions rfl rfl rfl (Nat.le_refl _)⟩

/-! ### Every event -/

/-- The thread with a handle changed, which was added at first sight, and no other did. -/
structure Amends (s : Nat) (handle : Handle) (P : Thread → Thread → Prop) (w w' : World) : Prop where
  here : ∃ t', threadIn (w'.session s).threads handle.id = some t'
    ∧ P ((threadIn (w.session s).threads handle.id).getD (.start handle)) t'
  elsewhere : ∀ id, handle.id ≠ id →
    threadIn (w'.session s).threads id = threadIn (w.session s).threads id
  numbered : Numbered (w.session s).threads → Numbered (w'.session s).threads

/-- What becomes of a thread may be said in less detail. -/
theorem Amends.mono {handle : Handle} {P Q : Thread → Thread → Prop} {w' : World}
    (h : Amends s handle P w w')
    (hPQ : ∀ t', P ((threadIn (w.session s).threads handle.id).getD (.start handle)) t' →
      Q ((threadIn (w.session s).threads handle.id).getD (.start handle)) t') :
    Amends s handle Q w w' :=
  ⟨h.here.imp fun t' ht => ⟨ht.1, hPQ t' ht.2⟩, h.elsewhere, h.numbered⟩

/-- The first thread with a number is the one that is found. -/
theorem threadIn_of_findIdx? {x : Session} {handle : Handle} {i : Nat}
    (hi : x.threads.findIdx? (fun t => t.handle.id = handle.id) = some i) :
    threadIn x.threads handle.id = some (x.thread i) := by
  obtain ⟨hlt, hid, hbefore⟩ := List.findIdx?_eq_some_iff_getElem.mp hi
  have hget : x.thread i = x.threads[i] := by
    simp [Session.thread, List.getElem?_eq_getElem hlt]
  rw [hget]
  exact List.find?_eq_some_iff_getElem.mpr ⟨hid, i, hlt, rfl, fun j hj => by simpa using hbefore j hj⟩

/-- A thread that is found where it was added at first sight was there before, or it is new. -/
theorem thread_of_enroll {x : Session} {ts : List Thread} {handle : Handle} {i : Nat}
    (ht : x.threads = enroll ts handle)
    (hi : x.threads.findIdx? (fun t => t.handle.id = handle.id) = some i) :
    x.thread i = (threadIn ts handle.id).getD (.start handle) := by
  have hthread := threadIn_of_findIdx? hi
  rw [ht, threadIn_enroll, if_pos rfl] at hthread
  exact (Option.some.inj hthread).symm

/-- A thread that is added at first sight, and then changes unless it is gone. -/
theorem amends_unlessGone {handle : Handle} {w' : World} {i : Nat} {f : Thread → Thread}
    (hi : (enroll (w.session s).threads handle).findIdx? (fun t => t.handle.id = handle.id) = some i)
    (hw' : (w'.session s).threads = (enroll (w.session s).threads handle).modify i fun t =>
      if t.isTerminated then t else f t)
    (hf : ∀ t, (f t).handle = t.handle) :
    Amends s handle (fun t t' => t' = if t.isTerminated then t else f t) w w' := by
  have hhandle : ∀ t : Thread, (if t.isTerminated then t else f t).handle = t.handle := by
    intro t
    split
    · rfl
    · exact hf t
  refine ⟨⟨_, ?_, rfl⟩, fun id hid => ?_, fun hn => ?_⟩
  · rw [hw', threadIn_modify hi hhandle, if_pos rfl, threadIn_enroll, if_pos rfl]
    rfl
  · rw [hw', threadIn_modify hi hhandle, if_neg hid, threadIn_enroll, if_neg hid]
  · rw [hw']
    exact numbered_modify (numbered_enroll hn handle) i hhandle

/-- A thread that is only looked for changes in nothing. -/
theorem amends_of_enroll {handle : Handle} {w' : World} {i : Nat}
    (ht : (w'.session s).threads = enroll (w.session s).threads handle)
    (hi : (w'.session s).threads.findIdx? (fun t => t.handle.id = handle.id) = some i) :
    Amends s handle (fun t t' => t' = t) w w' := by
  have hsame : (w'.session s).threads = (enroll (w.session s).threads handle).modify i fun t =>
      if t.isTerminated then t else t := by
    rw [ht]
    simp only [ite_self]
    exact (List.modify_id ..).symm
  refine (amends_unlessGone (f := fun t => t) (ht ▸ hi) hsame fun _ => rfl).mono fun t' h => ?_
  rw [h, ite_self]

/-- What an event makes of its thread. What is gone stays as it is. -/
def Event.Makes (options : LaunchOptions) (e : Event) (t t' : Thread) : Prop :=
  if t.isTerminated then t' = t
  else
    match e with
    | .threadTerminated _ => t' = t.terminate
    | .suspended _ reason stack => ∃ frames, Restacks (options.shownStack stack) t.frames frames
        ∧ t' = { t.suspend reason with frames }
    | .resumed _ kind => t' = t.resume kind
    | .stackFrames _ stack => ∃ frames, Restacks (options.shownStack stack) t.frames frames
        ∧ t' = { t with frames }
    | _ => t' = t

/-- A thread that is only looked for stays as it is. -/
theorem Event.makes_threadCreated {options : LaunchOptions} {thread : Handle} {t t' : Thread} :
    (Event.threadCreated thread).Makes options t t' ↔ t' = t := by
  simp [Event.Makes]

/-- A script that is ready makes nothing of its thread. -/
theorem Event.makes_scriptReady {options : LaunchOptions} {script : Script} {thread : Handle}
    {root : Bool} {t t' : Thread} :
    (Event.scriptReady script thread root).Makes options t t' ↔ t' = t := by
  simp [Event.Makes]

/-- A thread has terminated if that is its state. -/
theorem Thread.isTerminated_iff (t : Thread) : t.isTerminated = true ↔ t.state = .terminated := by
  simp [isTerminated]

/-- What an event makes of a thread shows in its outline as told. -/
theorem Event.Makes.outline {options : LaunchOptions} {e : Event} {t t' : Thread}
    (h : e.Makes options t t') : t'.outline = t.outline.follow options e := by
  unfold Event.Makes at h
  unfold Outline.follow
  by_cases hgone : t.isTerminated = true
  · rw [if_pos hgone] at h
    rw [if_pos (show t.outline.state = _ from t.isTerminated_iff.mp hgone), h]
  · rw [if_neg hgone] at h
    rw [if_neg (show t.outline.state ≠ _ from fun hs => hgone (t.isTerminated_iff.mpr hs))]
    cases e with
    | suspended _ _ stack | stackFrames _ stack =>
        obtain ⟨frames, hframes, rfl⟩ := h
        change _ = Outline.mk _ (activationIds (options.shownStack stack))
        rw [← hframes.ids]
        rfl
    | _ =>
        cases h
        rfl

/-- The threads of a session are what an event makes of them. -/
def Renders (s : Nat) (e : Event) (w w' : World) : Prop :=
  match e.thread? with
  | some handle => Amends s handle (e.Makes (w.session s).options) w w'
  | none => (w'.session s).threads = (w.session s).threads

/-- What an event makes of a session does not depend on anything else. -/
theorem Renders.congr {e : Event} {u w' : World} (h : Renders s e u w')
    (hs : u.session s = w.session s) : Renders s e w w' := by
  unfold Renders at h ⊢
  cases he : e.thread? with
  | none =>
      rw [he, hs] at h
      exact h
  | some handle =>
      rw [he] at h
      obtain ⟨hhere, helsewhere, hn⟩ := h
      rw [hs] at hhere helsewhere hn
      exact ⟨hhere, helsewhere, hn⟩

/-- What an event makes of the outlines of the threads of a session. -/
structure Follows (s : Nat) (e : Event) (w w' : World) : Prop where
  outline : ∀ id, (w'.session s).outline id
    = followEvent (w.session s).options id ((w.session s).outline id) e
  numbered : Numbered (w.session s).threads → Numbered (w'.session s).threads

/-- If threads are what an event makes of them, so are their outlines. -/
theorem Renders.follows {e : Event} {w' : World} (h : Renders s e w w') : Follows s e w w' := by
  unfold Renders at h
  cases he : e.thread? with
  | none =>
      rw [he] at h
      refine ⟨fun id => ?_, fun hn => h ▸ hn⟩
      rw [followEvent, he, Session.outline, h]
      rfl
  | some handle =>
      rw [he] at h
      refine ⟨fun id => ?_, h.numbered⟩
      rw [followEvent, he, Session.outline, Session.outline, outlineIn_eq, outlineIn_eq]
      dsimp only
      split
      · next hid =>
          subst hid
          obtain ⟨t', ht', hmade⟩ := h.here
          rw [ht', Option.map_some, hmade.outline]
          cases threadIn (w.session s).threads handle.id <;> rfl
      · next hid => rw [h.elsewhere id hid]

/-- A script that is ready is answered, in a way that depends on the thread that waits before it. The
thread stays as it is. -/
theorem ends_scriptReady (hc : w.Calm) (hl : (w.session s).alive = true)
    (ha : (w.session s).attached = true) (script : Script) (handle : Handle) (root : Bool)
    (hp : (w.session s).process.isSome = true) :
    Ends (scriptReady s script handle root) w fun _ w' =>
      Amends s handle (fun t t' => t' = t) w w'
      ∧ ∃ v thread, thread.id = handle.id ∧ Shows s [] w v
        ∧ Posts s (v.answers s script thread (loadResume (w.session s).options script root
          ((((w.session s).outline handle.id).getD .start).state = .stepping)))
          (v.register s script) w' := by
  rw [scriptReady_eq]
  unfold greetThread
  refine Ends.bind (Ends.bind (((ends_findOrCreateThread hc hp handle).keeps
    (@keeps_findOrCreateThread s [] handle)).mono ?_))
  rintro ⟨i, added⟩ u ⟨hfound, hshows⟩
  have hgo : ∀ v, Still u v →
      Ends (answerThread s script root i) v fun _ w' =>
        Amends s handle (fun t t' => t' = t) w w' ∧ ∃ v thread, thread.id = handle.id ∧ Shows s [] w v
          ∧ Posts s (v.answers s script thread (loadResume (w.session s).options script root
            ((((w.session s).outline handle.id).getD .start).state = .stepping)))
            (v.register s script) w' := by
    intro v hv
    have hs : (v.session s).shell = (w.session s).shell :=
      ((hv.shows s []).here).trans hshows.here
    refine (ends_answerThread s script root i v ((congrArg Session.alive hs :).trans hl)
      ((congrArg Session.attached hs :).trans ha)).mono ?_
    intro _ w' hposts
    have htv : (v.session s).threads = (u.session s).threads := threads_of_still hv
    have ht : (w'.session s).threads = (u.session s).threads := by
      rw [← Session.threads_model, hposts.here.model, Session.threads_model, register,
        session_modifySession, if_pos rfl, ← htv]
      rfl
    have hthread : v.thread s i
        = (threadIn (w.session s).threads handle.id).getD (.start handle) :=
      thread_of_enroll (htv.trans hfound.1) (htv ▸ hfound.2)
    have hid : (v.thread s i).handle.id = handle.id := by
      rw [hthread]
      cases hin : threadIn (w.session s).threads handle.id with
      | none => rfl
      | some t => simpa using List.find?_some hin
    have hoptions : (v.session s).options = (w.session s).options :=
      (congrArg Session.options hs :)
    have hstate : (v.thread s i).state
        = (((w.session s).outline handle.id).getD .start).state := by
      rw [hthread, Session.outline, outlineIn_eq]
      cases threadIn (w.session s).threads handle.id <;> rfl
    rw [hoptions, hstate] at hposts
    rw [← ht] at hfound
    exact ⟨amends_of_enroll hfound.1 hfound.2, v, _, hid,
      (steady_shows s []).trans hshows.toShows (hv.shows s []), hposts⟩
  cases added with
  | true => exact Ends.pure (hgo u (steady_still.refl u))
  | false =>
      refine Ends.bind ((ends_notify (hc.shows hshows.toShows) _).mono fun _ v hv => ?_)
      exact Ends.pure (hgo v hv)

/-- Where no front end fails, every event but the end of the interpreter is handled to its end. The
threads of its session are what it makes of them. -/
theorem renders_applyEvent (hc : w.Calm) (hl : (w.session s).alive = true)
    (ha : (w.session s).attached = true) {e : Event} (hend : e ≠ .engineTerminated) :
    Ends (applyEvent s e) w fun _ w' => Renders s e w w' := by
  have hprocess := (ends_ensureProcess (s := s) hc).keeps (@keeps_ensureProcess s [])
  have hthread := fun handle => (ends_threadOf (s := s) hc handle).keeps (@keeps_threadOf s [] handle)
  cases e with
  | engineStarted => exact (ends_ensureProcess hc).mono fun _ w' h => h.1
  | scriptReady script thread root =>
      refine Ends.bind (hprocess.mono ?_)
      rintro _ u ⟨⟨hthreads, hp⟩, hu⟩
      refine (ends_scriptReady (hc.shows hu.toShows) ((congrArg Session.alive hu.here :).trans hl)
        ((congrArg Session.attached hu.here :).trans ha) script thread root hp).mono ?_
      rintro _ w' ⟨⟨hhere, helsewhere, hn⟩, -⟩
      rw [hthreads] at hhere helsewhere hn
      refine Amends.mono (P := fun t t' => t' = t) ⟨hhere, helsewhere, hn⟩ fun t' h => ?_
      exact Event.makes_scriptReady.mpr h
  | threadCreated thread =>
      refine Ends.bind ((ends_threadOf hc thread).mono fun i w' h => Ends.pure ?_)
      exact (amends_of_enroll h.1 h.2).mono fun t' => Event.makes_threadCreated.mpr
  | threadTerminated thread =>
      refine Ends.bind (hprocess.mono ?_)
      rintro _ u ⟨⟨hthreads, hp⟩, hu⟩
      refine (ends_threadTerminated (hc.shows hu.toShows) hp thread).mono ?_
      rintro _ w' ⟨i, hi, hw'⟩
      rw [hthreads] at hi hw'
      refine (amends_unlessGone hi hw' fun _ => rfl).mono fun t' h => ?_
      unfold Event.Makes
      split <;> simp_all
  | suspended thread reason stack =>
      refine Ends.bind (Ends.get (Ends.bind ((hthread thread).mono ?_)))
      rintro i u ⟨⟨hu, hi⟩, hshows⟩
      refine (ends_threadSuspended (hc.shows hshows.toShows) i reason _).mono ?_
      rintro _ w' ⟨frames, hframes, hw'⟩
      rw [World.thread, thread_of_enroll hu hi] at hframes
      rw [hu] at hi hw'
      refine (amends_unlessGone hi hw' fun _ => rfl).mono fun t' h => ?_
      unfold Event.Makes
      split
      · simp_all
      · exact ⟨frames, hframes, by simp_all⟩
  | resumed thread kind =>
      refine Ends.bind ((hthread thread).mono ?_)
      rintro i u ⟨⟨hu, hi⟩, hshows⟩
      refine (ends_threadResumed (hc.shows hshows.toShows) i kind).mono fun _ w' hw' => ?_
      rw [hu] at hi hw'
      refine (amends_unlessGone hi hw' fun _ => rfl).mono fun t' h => ?_
      unfold Event.Makes
      split <;> simp_all
  | stackFrames thread stack =>
      refine Ends.bind (Ends.get (Ends.bind ((hthread thread).mono ?_)))
      rintro i u ⟨⟨hu, hi⟩, hshows⟩
      refine (ends_setStack (hc.shows hshows.toShows) i _).mono ?_
      rintro _ w' ⟨frames, hframes, hw'⟩
      rw [World.thread, thread_of_enroll hu hi] at hframes
      rw [hu] at hi hw'
      refine (amends_unlessGone hi hw' fun _ => rfl).mono fun t' h => ?_
      unfold Event.Makes
      split
      · simp_all
      · exact ⟨frames, hframes, by simp_all⟩
  | frameVariables frame reported =>
      refine (ends_withInHand frame hc fun u hu => ends_setVariables hu frame reported).mono ?_
      exact fun _ w' h => threads_of_still h
  | evaluated expression frame result listener =>
      refine Ends.bind (Ends.get ?_)
      split
      · exact Ends.pure rfl
      · refine (ends_withInHand frame hc fun _ _ => ends_deliverResult listener _).mono ?_
        exact fun _ w' h => threads_of_still h
  | engineTerminated => exact absurd rfl hend

/-- The same holds of every event that reaches a session. -/
theorem renders_handleEvent (hc : w.Calm) (hl : (w.session s).alive = true)
    (ha : (w.session s).attached = true) {e : Event} (hend : e ≠ .engineTerminated) :
    Ends (handleEvent s e) w fun _ w' => Renders s e w w' := by
  let u := w.trace "model" ("process " ++ e.text w.marks)
  have hcalm : u.Calm := hc
  obtain ⟨_, w', hrun, hw'⟩ := renders_applyEvent (w := u) hcalm hl ha hend
  exact ⟨(), w', (handleEvent_eq ha).trans hrun, hw'.congr rfl⟩

/-- The outlines of threads change as told. -/
theorem ends_handleEvent (hc : w.Calm) (hl : (w.session s).alive = true)
    (ha : (w.session s).attached = true) {e : Event} (hend : e ≠ .engineTerminated) :
    Ends (handleEvent s e) w fun _ w' => Follows s e w w' :=
  (renders_handleEvent hc hl ha hend).mono fun _ _ h => h.follows

end Calm

end DebugBridge
