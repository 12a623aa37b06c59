import DebugBridge.Proofs.Frames

/-!
# What an event may change

An event changes the threads of the session that hears of it, and that is all, with two exceptions.
A script that is ready is registered and answered by its breakpoints and a request to resume. The
end of the interpreter ends the session.

A front end that fails may break an event off. What was answered by then was answered in full.

## Main definitions

* `World.Shows`: a step that changes the threads of a session at most;
* `World.Depicts`: such a step that leaves nothing else behind but plain notifications;
* `World.Posts`: a step that adds requests to a mailbox;
* `World.answers`: how a script that is ready is answered;
* `World.Heard`: what became of an event.

## Main results

* `heard_handleEvent`: every event comes to one of the three ends;
* `worldAfter_disconnect`: what is asked for before a session is left, and what becomes of it.
-/

namespace DebugBridge

/-- The scripts of the frames that the threads of a session have. -/
def Session.frameScripts (x : Session) : List Script :=
  x.threads.flatMap fun t => t.frames.map (·.activation.script)

/-- The scripts that an event mentions. -/
def Event.scripts : Event → List Script
  | .scriptReady script _ _ => [script]
  | .suspended _ _ stack | .stackFrames _ stack => stack.map Activation.script
  | _ => []

/-- A session without its process and without what it knows of frames. -/
def Session.shell (x : Session) : Session :=
  { x with process := none, frames := ∅ }

/-- A session to whose mailbox requests came. -/
structure Session.Posted (rs : List Request) (x x' : Session) : Prop where
  model : x'.model = x.model
  debugger : x'.debugger = x.debugger
  mailbox : x.mailbox.Gains (rs.map .request) x'.mailbox
  idle : x.attached = false → rs = []

namespace Session.Posted

variable {rs rs' : List Request} {x y z : Session}

/-- A session to which nothing is posted stays as it is. -/
theorem refl (x : Session) : x.Posted [] x :=
  ⟨rfl, rfl, .refl _, fun _ => rfl⟩

/-- What a model holds tells whether its session is alive and attached. -/
theorem attached (h : x.Posted rs y) : y.attached = x.attached :=
  (congrArg Session.attached h.model :)

/-- A session that gets requests is there if it was. -/
theorem alive (h : x.Posted rs y) : y.alive = x.alive :=
  (congrArg Session.alive h.model :)

/-- What is posted in two steps comes in their order. -/
theorem trans (h : x.Posted rs y) (h' : y.Posted rs' z) : x.Posted (rs ++ rs') z := by
  refine ⟨h'.model.trans h.model, h'.debugger.trans h.debugger, ?_, fun hx => ?_⟩
  · rw [List.map_append]
    exact h.mailbox.trans h'.mailbox
  · rw [h.idle hx, h'.idle (h.attached.trans hx)]
    rfl

end Session.Posted

namespace World

/-! ### Kinds of steps -/

/-- A step that changes the threads of a session, and what is known of frames, at most. Where a
thread gets new frames, they belong to scripts of a list. -/
structure Shows (s : Nat) (ts : List Script) (w w' : World) : Prop where
  here : (w'.session s).shell = (w.session s).shell
  elsewhere : ∀ t, t ≠ s → (w'.session t).unframed = (w.session t).unframed
  frames : ∀ script ∈ (w'.session s).frameScripts,
    script ∈ (w.session s).frameScripts ∨ script ∈ ts
  managers : w'.managers = w.managers
  reaction : w'.reaction = w.reaction
  numbers : w.nextNumber ≤ w'.nextNumber

/-- Steps that change what is shown hold of a sequence. -/
theorem steady_shows (s : Nat) (ts : List Script) : Steady (Shows s ts) where
  refl _ := ⟨rfl, fun _ _ => rfl, fun _ => .inl, rfl, rfl, Nat.le_refl _⟩
  trans h h' :=
    ⟨h'.here.trans h.here, fun t ht => (h'.elsewhere t ht).trans (h.elsewhere t ht),
      fun script hs => (h'.frames script hs).elim (h.frames script) .inr,
      h'.managers.trans h.managers, h'.reaction.trans h.reaction, Nat.le_trans h.numbers h'.numbers⟩

/-- What changes no thread changes those of one session at most. -/
theorem Still.shows {w w' : World} (s : Nat) (ts : List Script) (h : Still w w') :
    Shows s ts w w' := by
  have hs : ∀ x : Session, x.shell = x.unframed.shell := fun _ => rfl
  have hf : (w'.session s).frameScripts = (w.session s).frameScripts :=
    (congrArg Session.frameScripts (h.everywhere s) :)
  refine ⟨?_, fun t _ => h.everywhere t, fun script hmem => .inl (hf ▸ hmem), h.managers,
    h.reaction, h.numbers⟩
  rw [hs, h.everywhere s, ← hs]

/-- Frames of scripts of a list belong to scripts of a longer one. -/
theorem Shows.mono {s : Nat} {ts ts' : List Script} {w w' : World} (h : Shows s ts w w')
    (hts : ts ⊆ ts') : Shows s ts' w w' :=
  { h with frames := fun script hs => (h.frames script hs).imp id fun hmem => hts hmem }

/-- A step that changes the threads of a session and loses none, and leaves nothing else behind but
plain notifications and frames that are out of date. -/
structure Depicts (s : Nat) (ts : List Script) (w w' : World) : Prop extends Shows s ts w w' where
  threads : ∀ t, (w.session t).threads.length ≤ (w'.session t).threads.length
  marks : w'.marks = w.marks
  regroups : ∀ t, Regroups t w w'
  mild : Mild w w'

/-- Steps that change threads and lose none hold of a sequence. -/
theorem steady_depicts (s : Nat) (ts : List Script) : Steady (Depicts s ts) where
  refl w := ⟨(steady_shows s ts).refl w, fun _ => Nat.le_refl _, rfl, fun t => .refl t w,
    steady_mild.refl w⟩
  trans h h' := ⟨(steady_shows s ts).trans h.toShows h'.toShows,
    fun t => Nat.le_trans (h.threads t) (h'.threads t), h'.marks.trans h.marks,
    fun t => (h.regroups t).trans (h'.regroups t) (h'.mild.frames t),
    steady_mild.trans h.mild h'.mild⟩

/-- What shows in no session changes the threads of none. -/
theorem Still.threads {w w' : World} (h : Still w w') (t : Nat) :
    (w'.session t).threads = (w.session t).threads :=
  (congrArg Session.threads (h.everywhere t) :)

/-- A plain step changes no thread. -/
theorem Plain.depicts {w w' : World} (s : Nat) (ts : List Script) (h : Plain w w') :
    Depicts s ts w w' :=
  ⟨h.toStill.shows s ts, fun t => Nat.le_of_eq (congrArg List.length (h.toStill.threads t)).symm,
    h.marks, fun t => regroups_of_eq (h.mild.room t) (h.toStill.threads t), h.mild⟩

/-- Requests came to the mailbox of a session. -/
structure Posts (s : Nat) (rs : List Request) (w w' : World) : Prop where
  here : (w.session s).Posted rs (w'.session s)
  elsewhere : ∀ t, t ≠ s → w'.session t = w.session t
  managers : w'.managers = w.managers
  reaction : w'.reaction = w.reaction
  numbers : w.nextNumber ≤ w'.nextNumber

/-- Requests leave the models of all sessions as they are. -/
theorem model_of_posts {s t : Nat} {rs : List Request} {w w' : World} (h : Posts t rs w w') :
    (w'.session s).model = (w.session s).model := by
  by_cases hst : s = t
  · subst hst
    exact h.here.model
  · rw [h.elsewhere s hst]

/-- Where nothing is done, nothing is posted. -/
theorem Posts.refl (s : Nat) (w : World) : Posts s [] w w :=
  ⟨.refl _, fun _ _ => rfl, rfl, rfl, Nat.le_refl _⟩

/-- Requests that are posted in two steps come in their order. -/
theorem Posts.trans {s : Nat} {rs rs' : List Request} {u v w : World} (h : Posts s rs u v)
    (h' : Posts s rs' v w) : Posts s (rs ++ rs') u w :=
  ⟨h.here.trans h'.here, fun t ht => (h'.elsewhere t ht).trans (h.elsewhere t ht),
    h'.managers.trans h.managers, h'.reaction.trans h.reaction, Nat.le_trans h.numbers h'.numbers⟩

/-- A session that is attached posts a request to itself. -/
theorem posts_send (w : World) {s : Nat} (ha : (w.session s).attached = true) (r : Request) :
    Posts s [r] w (w.send s (.request r)) := by
  have h : (w.send s (.request r)).session s
      = { w.session s with mailbox := (w.session s).mailbox.post (.request r) } := by
    rw [session_send, if_pos rfl]
  refine ⟨?_, fun t ht => ?_, rfl, rfl, Nat.le_refl _⟩
  · rw [h]
    exact ⟨rfl, rfl, Mailbox.gains_post _ _, fun hidle => by rw [hidle] at ha; cases ha⟩
  · rw [session_send, if_neg (Ne.symm ht)]

/-- A session that is alive and attached sends what is posted. -/
theorem posts_post (w : World) (s : Nat) (r : Request) (hl : (w.session s).alive = true)
    (ha : (w.session s).attached = true) : Posts s [r] w (w.post s r) := by
  have h : w.post s r = w.send s (.request r) := by
    simp [post, hl, ha]
  rw [h]
  exact posts_send w ha r

/-- Whatever its state, a session sends what is posted or drops it. -/
theorem exists_posts_post (w : World) (s : Nat) (r : Request) :
    ∃ rs, Posts s rs w (w.post s r) := by
  unfold post
  split
  · exact ⟨[], .refl s w⟩
  · split
    · next ha => exact ⟨[r], posts_send w ha r⟩
    · exact ⟨[], .refl _, fun _ _ => rfl, rfl, rfl, Nat.le_refl _⟩

/-- Requests that are posted one after the other come to the mailbox in their order. -/
theorem posts_foldl {α : Type} (s : Nat) (f : α → Request) (xs : List α) (w : World)
    (hl : (w.session s).alive = true) (ha : (w.session s).attached = true) :
    Posts s (xs.map f) w (xs.foldl (fun w a => w.post s (f a)) w) := by
  induction xs generalizing w with
  | nil => exact .refl s w
  | cons x xs ih =>
      have h := posts_post w s (f x) hl ha
      exact h.trans (ih _ (h.here.alive.trans hl) (h.here.attached.trans ha))

end World

open World

/-! ### Threads of the model -/

section Threads

variable {s : Nat} {ts : List Script}

/-- What shows in no session changes no thread. -/
theorem Keeps.shows {α : Type} {op : Act α} (h : Keeps Still op) : Keeps (Shows s ts) op :=
  fun w => (h w).shows s ts

/-- A plain operation changes no thread. -/
theorem Keeps.depicts {α : Type} {op : Act α} (h : Keeps Plain op) : Keeps (Depicts s ts) op :=
  fun w => (h w).depicts s ts

/-- The scripts of frames are those of the frames of its threads. -/
theorem mem_frameScripts {x : Session} {script : Script} :
    script ∈ x.frameScripts ↔ ∃ t ∈ x.threads, ∃ f ∈ t.frames, f.activation.script = script := by
  simp [Session.frameScripts]

/-- Threads come or change, but they keep to the frames that they had. -/
theorem depicts_modifySession (w : World) (f : Session → Session)
    (hf : ∀ x : Session, (f x).shell = x.shell ∧ (f x).frames = x.frames)
    (hthreads : (w.session s).threads.length ≤ (f (w.session s)).threads.length)
    (hframes : ∀ t' ∈ (f (w.session s)).threads, ∀ r ∈ t'.frames,
      ∃ t ∈ (w.session s).threads, t.handle = t'.handle ∧ r ∈ t.frames) :
    Depicts s ts w (w.modifySession s f) := by
  have hmild : Mild w (w.modifySession s f) := mild_modifySession w s _ (hf _).2
  have hself : (w.modifySession s f).session s = f (w.session s) :=
    (session_modifySession ..).trans (if_pos rfl)
  have hother : ∀ t, t ≠ s → (w.modifySession s f).session t = w.session t := fun t ht =>
    (session_modifySession ..).trans (if_neg (Ne.symm ht))
  refine ⟨⟨?_, fun t ht => by rw [hother t ht], fun script hs => .inl ?_, rfl, rfl, Nat.le_refl _⟩,
    fun t => ?_, rfl, fun t => ?_, hmild⟩
  · rw [hself, (hf _).1]
  · rw [hself] at hs
    obtain ⟨t', ht', r, hr, rfl⟩ := mem_frameScripts.mp hs
    obtain ⟨t, ht, -, hr⟩ := hframes t' ht' r hr
    exact mem_frameScripts.mpr ⟨t, ht, r, hr, rfl⟩
  · by_cases ht : t = s
    · rw [ht, hself]
      exact hthreads
    · exact Nat.le_of_eq (by rw [hother t ht])
  · by_cases ht : t = s
    · subst ht
      exact regroups_of_threads (hmild.room t) (hself ▸ hframes)
    · exact regroups_of_eq (hmild.room t) (by rw [hother t ht])

/-- A process that gets more threads has no fewer. -/
theorem le_length_modifyProcess (x : Session) {f : List Thread → List Thread}
    (hf : ∀ threads, threads.length ≤ (f threads).length) :
    x.threads.length ≤ ({ x with
      process := x.process.map fun p => { p with threads := f p.threads } } : Session).threads.length := by
  rw [threads_modifyProcess]
  split
  · exact hf _
  · next h => exact Nat.le_of_eq (congrArg List.length (threads_eq_nil (by simpa using h)))

/-- A thread may change as long as it keeps its handle and gets no frames. -/
theorem depicts_modifyThread (w : World) (i : Nat) (f : Thread → Thread)
    (hf : ∀ t, (f t).handle = t.handle ∧ ∀ r ∈ (f t).frames, r ∈ t.frames) :
    Depicts s ts w (w.modifyThread s i f) := by
  have hlength := le_length_modifyProcess (w.session s) (f := (·.modify i f)) fun threads =>
    Nat.le_of_eq (List.length_modify ..).symm
  refine depicts_modifySession w _ (fun _ => ⟨rfl, rfl⟩) hlength fun t' ht' r hr => ?_
  rw [Session.modifyThread, threads_modifyProcess (w.session s) (·.modify i f)] at ht'
  split at ht'
  · obtain ht' | ⟨t₀, ht₀, rfl⟩ := mem_threads_modify ht'
    · exact ⟨t', ht', rfl, hr⟩
    · exact ⟨t₀, List.mem_of_getElem? ht₀, (hf t₀).1.symm, (hf t₀).2 r hr⟩
  · cases ht'

/-- A thread gets the frames of a reported stack. -/
theorem depicts_putFrames (w : World) (i : Nat) (stack : List Activation)
    (hs : ∀ a ∈ stack, a.script ∈ ts) :
    Depicts s ts w (w.putFrames s i (FrameChange.of s (w.thread s i).handle (w.thread s i).frames
      (w.session s).frames.size stack)) := by
  let t := w.thread s i
  let c := FrameChange.of s t.handle t.frames (w.session s).frames.size stack
  let v := c.created.foldl (fun w f => w.modifyFrame f fun _ => default) w
  let put := fun t : Thread => { t with frames := c.frames }
  have hroom : Plain w v := plain_makeRoom c.created w
  have hself : (v.modifyThread s i put).session s = (v.session s).modifyThread i put :=
    (session_modifySession ..).trans (if_pos rfl)
  have hother : ∀ k, k ≠ s → (v.modifyThread s i put).session k = v.session k := fun k hk =>
    (session_modifySession ..).trans (if_neg (Ne.symm hk))
  have hthreads : ((v.modifyThread s i put).session s).threads = (w.session s).threads.modify i put :=
    (threads_modifyThread v s i put).trans (by rw [hroom.toStill.threads])
  have hmild : Mild w (v.modifyThread s i put) :=
    steady_mild.trans hroom.mild (mild_modifySession v s (·.modifyThread i put) rfl)
  refine ⟨⟨?_, fun k hk => ?_, fun script hscript => ?_, hroom.managers, hroom.reaction, hroom.numbers⟩,
    fun k => ?_, hroom.marks, fun k => ?_, hmild⟩
  · have hshell : ((v.modifyThread s i put).session s).shell = (v.session s).shell := by
      rw [hself]
      rfl
    exact hshell.trans (hroom.toStill.shows s []).here
  · change ((v.modifyThread s i put).session k).unframed = _
    rw [hother k hk]
    exact hroom.everywhere k
  · obtain ⟨t', ht', r, hr, rfl⟩ := mem_frameScripts.mp hscript
    obtain ht' | ⟨t₀, ht₀, rfl⟩ := mem_threads_modify (hthreads ▸ ht')
    · exact .inl (mem_frameScripts.mpr ⟨t', ht', r, hr, rfl⟩)
    · have ht : t = t₀ := thread_eq ht₀
      refine (mem_frames_of hr).imp (fun hr => ?_) fun hr => hs _ (created_of hr).2.2.2
      exact mem_frameScripts.mpr ⟨t₀, List.mem_of_getElem? ht₀, r, ht ▸ hr.1, rfl⟩
  · change _ ≤ ((v.modifyThread s i put).session k).threads.length
    by_cases hk : k = s
    · subst hk
      exact Nat.le_of_eq (by rw [hthreads, List.length_modify])
    · exact Nat.le_of_eq (by rw [hother k hk, hroom.toStill.threads])
  · by_cases hk : k = s
    · subst hk
      exact regroups_putFrames w i stack
    · refine regroups_of_eq (hmild.room k) ?_
      change ((v.modifyThread s i put).session k).threads = _
      rw [hother k hk, hroom.toStill.threads]

/-- A process that is made loses no thread. -/
theorem keeps_ensureProcess : Keeps (Depicts s ts) (ensureProcess s) := by
  intro w
  unfold ensureProcess worldAfter
  rw [run_get_bind]
  cases hp : (w.session s).process with
  | some p => exact (steady_depicts s ts).refl w
  | none =>
      refine (steady_depicts s ts).trans (v := w.modifySession s fun session =>
        { session with process := some .start }) ?_ ((plain_notify _ (by simp)).depicts _)
      have hlength : (w.session s).threads.length ≤ 0 :=
        Nat.le_of_eq (congrArg List.length (threads_eq_nil hp))
      exact depicts_modifySession w _ (fun _ => ⟨rfl, rfl⟩) hlength fun t ht => by cases ht

/-- A thread that is made comes to the others. -/
theorem keeps_createThread (handle : Handle) : Keeps (Depicts s ts) (createThread s handle) := by
  have h := steady_depicts s ts
  refine Keeps.bind h (Keeps.get h) fun w => Keeps.bind h (Keeps.change fun w => ?_) fun _ => ?_
  · have hlength := le_length_modifyProcess (w.session s) (f := (· ++ [.start handle]))
      fun threads => by simp
    refine depicts_modifySession w _ (fun _ => ⟨rfl, rfl⟩) hlength fun t ht r hr => ?_
    rw [threads_modifyProcess (w.session s) fun threads => threads ++ [Thread.start handle]] at ht
    split at ht
    · rcases List.mem_append.mp ht with ht | ht
      · exact ⟨t, ht, rfl, hr⟩
      · obtain rfl := List.mem_singleton.mp ht
        cases hr
    · cases ht
  · exact Keeps.bind h (plain_notify _ (by simp)).depicts fun _ => Keeps.pure h _

/-- A thread that is found or made comes to the others. -/
theorem keeps_findOrCreateThread (handle : Handle) :
    Keeps (Depicts s ts) (findOrCreateThread s handle) := by
  have h := steady_depicts s ts
  refine Keeps.bind h (Keeps.get h) fun w => ?_
  split
  · exact Keeps.pure h _
  · exact Keeps.bind h (keeps_createThread handle) fun _ => Keeps.pure h _

/-- A thread that is looked for loses no thread. -/
theorem keeps_threadOf (handle : Handle) : Keeps (Depicts s ts) (threadOf s handle) := by
  have h := steady_depicts s ts
  exact Keeps.bind h keeps_ensureProcess fun _ =>
    Keeps.bind h (keeps_findOrCreateThread handle) fun _ => Keeps.pure h _

/-- The frames of a reported stack belong to its scripts, or the thread had them before. -/
theorem keeps_setStack (i : Nat) (stack : List Activation) (hs : ∀ a ∈ stack, a.script ∈ ts) :
    Keeps (Depicts s ts) (setStack s i stack) := by
  intro w
  have h := steady_depicts s ts
  have htrace : ∀ topic text, Depicts s ts w (w.trace topic text) := fun _ _ =>
    (plain_trace w _ _).depicts s ts
  let t := w.thread s i
  by_cases ht : t.isTerminated = true
  · have hrun : setStack s i stack w
        = .ok () (w.trace "model" (t.name ++ ": frames of terminated thread ignored")) := by
      unfold setStack
      rw [run_get_bind]
      exact congrFun (if_pos ht) w
    rw [worldAfter, hrun]
    exact htrace _ _
  · let c := FrameChange.of s t.handle t.frames (w.session s).frames.size stack
    have hrest : Keeps (Depicts s ts) (do
        c.reused.forM setDirty
        c.created.forM fun f => notify s (.created (.frame f))
        c.gone.forM fun f => notify s (.terminated (.frame f))
        notify s (.changed (.thread i) .content)) := by
      refine Keeps.bind h (Keeps.forM h (fun f => (plain_setDirty f).depicts) _) fun _ => ?_
      refine Keeps.bind h (Keeps.forM h (fun f => (plain_notify _ (by simp)).depicts) _) fun _ => ?_
      refine Keeps.bind h (Keeps.forM h (fun f => (plain_notify _ (by simp)).depicts) _) fun _ => ?_
      exact (plain_notify _ (by simp)).depicts
    let u := w.trace "model" (t.name ++ ": " ++ c.summary)
    have hrun : worldAfter (setStack s i stack) w = worldAfter (do
        c.reused.forM setDirty
        c.created.forM fun f => notify s (.created (.frame f))
        c.gone.forM fun f => notify s (.terminated (.frame f))
        notify s (.changed (.thread i) .content)) (u.putFrames s i c) := by
      unfold worldAfter setStack
      rw [run_get_bind]
      dsimp only
      rw [if_neg ht, run_change_bind, run_change_bind]
    rw [hrun]
    exact h.trans (h.trans (htrace _ _) (depicts_putFrames u i stack hs)) (hrest _)

/-- A thread that stops gets frames of the scripts of its stack. -/
theorem keeps_threadSuspended (i : Nat) (reason : SuspendReason) (stack : List Activation)
    (hs : ∀ a ∈ stack, a.script ∈ ts) : Keeps (Depicts s ts) (threadSuspended s i reason stack) := by
  have h := steady_depicts s ts
  refine Keeps.bind h (Keeps.get h) fun w => ?_
  split
  · exact Keeps.pure h _
  · refine Keeps.bind h (Keeps.change fun w =>
      depicts_modifyThread w i _ fun _ => ⟨rfl, fun _ => id⟩) fun _ => ?_
    exact Keeps.bind h (keeps_setStack i stack hs) fun _ => (plain_notify _ (by simp)).depicts

/-- A thread that goes on keeps its frames. -/
theorem keeps_threadResumed (i : Nat) (kind : ResumeKind) :
    Keeps (Depicts s ts) (threadResumed s i kind) := by
  have h := steady_depicts s ts
  refine Keeps.bind h (Keeps.get h) fun w => ?_
  split
  · exact Keeps.pure h _
  · exact Keeps.bind h (Keeps.change fun w => depicts_modifyThread w i _ fun _ => ⟨rfl, fun _ => id⟩)
      fun _ => (plain_notify _ (by simp)).depicts

/-- A thread that ends loses no other, and is itself still there. -/
theorem keeps_threadTerminated (handle : Handle) :
    Keeps (Depicts s ts) (threadTerminated s handle) := by
  have h := steady_depicts s ts
  refine Keeps.bind h (keeps_findOrCreateThread handle) fun found => ?_
  refine Keeps.bind h (Keeps.get h) fun w => ?_
  split
  · exact Keeps.pure h _
  · exact Keeps.bind h (Keeps.change fun w =>
      depicts_modifyThread w _ _ fun _ => ⟨rfl, fun _ hr => nomatch hr⟩)
      fun _ => (plain_notify _ (by simp)).depicts

/-- A frame that takes variables in shows in what is known of it only. -/
theorem keeps_setVariables (f : FrameRef) (reported : List VariableId) :
    Keeps Still (setVariables f reported) := by
  have h := steady_still
  refine Keeps.bind h (Keeps.get h) fun w => Keeps.bind h (still_onHeap _) fun merged => ?_
  exact Keeps.bind h (Keeps.change fun w => still_modifyFrame w f _) fun _ =>
    fun w => (plain_frameChanged f _ w).toStill

/-- A result that is handed on shows in the journal only. -/
theorem keeps_deliverResult (listener : String) (result : WatchResult) :
    Keeps Still (deliverResult listener result) := by
  have h := steady_still
  refine Keeps.bind h (Keeps.get h) fun w => Keeps.bind h (still_onHeap _) fun shown => ?_
  exact Keeps.change fun w => .of_sessions rfl rfl rfl (Nat.le_refl _)

/-- What is kept while a frame is held is kept, if nobody looks at who holds it. -/
theorem keeps_withInHand {R : World → World → Prop} (hR : Steady R)
    (hin : ∀ w inHand, R w { w with inHand }) {α : Type} {op : Act α} (f : FrameRef)
    (h : Keeps R op) : Keeps R (withInHand f op) := by
  intro w
  have hbegin := hin w (some f)
  have hop := h { w with inHand := some f }
  unfold worldAfter withInHand at *
  cases e : op { w with inHand := some f } with
  | ok a u =>
      rw [e] at hop
      exact hR.trans hbegin (hR.trans hop (hin u _))
  | error failure u =>
      rw [e] at hop
      exact hR.trans hbegin (hR.trans hop (hin u _))

/-- Holding a frame shows in no session. -/
theorem still_withInHand {α : Type} {op : Act α} (f : FrameRef) (h : Keeps Still op) :
    Keeps Still (withInHand f op) :=
  keeps_withInHand steady_still (fun _ _ => .of_sessions rfl rfl rfl (Nat.le_refl _)) f h

/-- An attribute shows in the process alone, and not in its threads. -/
theorem asks_setAttribute (s : Nat) (key value : String) (w : World) :
    Asks w (worldAfter (setAttribute s key value) w) := by
  cases hp : (w.session s).process with
  | none =>
      have hrun : setAttribute s key value w = .ok () w := by
        unfold setAttribute
        rw [run_get_bind, hp]
        rfl
      rw [worldAfter, hrun]
      exact steady_asks.refl w
  | some p =>
      let others := p.attributes.filter fun e => e.1 ≠ key
      let p' : Process := { p with attributes := (key, value) :: others }
      let w' := w.modifySession s fun session => { session with process := some p' }
      have hset : Asks w w' := by
        refine ⟨fun t => ?_, rfl, rfl, Nat.le_refl _, mild_modifySession w s _ rfl⟩
        rw [session_modifySession]
        split
        · next h =>
            subst h
            refine ⟨?_, rfl, [], List.forall_mem_nil _, .refl _, fun _ => rfl⟩
            unfold Session.model
            rw [hp]
            rfl
        · exact .refl _
      have htell : Keeps Plain (unless p.attributes.lookup key = some value do
          notify s (.changed .process .state)) := by
        split
        · exact Keeps.pure steady_plain _
        · exact plain_notify _ (by simp)
      have hrun : setAttribute s key value w = (unless p.attributes.lookup key = some value do
          notify s (.changed .process .state)) w' := by
        unfold setAttribute
        rw [run_get_bind, hp]
        rfl
      have h := (htell w').asks
      rw [worldAfter, hrun]
      exact steady_asks.trans hset h

end Threads

/-! ### Notifications -/

/-- A notification is noted and shown to the front end, if the session has one, which may break it
off. -/
theorem run_notify (s : Nat) (notice : Notice) (w : World) :
    notify s notice w
      = if (w.session s).alive && (w.session s).observed then
          let n : Note := .model s notice (w.noticeText s notice)
          match w.reaction w.journal.notes n with
          | some failure => .error failure (w.note n)
          | none => .ok () (w.note n)
        else .ok () w := by
  let n : Note := .model s notice (w.noticeText s notice)
  unfold notify
  rw [run_get_bind]
  dsimp only
  cases (w.session s).alive && (w.session s).observed with
  | true =>
      cases hr : w.reaction w.journal.notes n with
      | none =>
          simp only [if_true, run_change_bind]
          rfl
      | some failure =>
          simp only [if_true, run_change_bind]
          rfl
  | false => rfl

/-- A notification adds to the journal, and then perhaps the front end fails. -/
theorem notify_cases (s : Nat) (notice : Notice) (w : World) :
    ∃ j, notify s notice w = .ok () { w with journal := j }
      ∨ ∃ failure, notify s notice w = .error failure { w with journal := j } := by
  let n : Note := .model s notice (w.noticeText s notice)
  rw [run_notify]
  split
  · refine ⟨w.journal.note n, ?_⟩
    dsimp only
    cases w.reaction w.journal.notes n with
    | none => exact .inl rfl
    | some failure => exact .inr ⟨failure, rfl⟩
  · exact ⟨w.journal, .inl rfl⟩

/-! ### The end of a session -/

namespace World

/-- A session that ends. What has ended already is not attached any more. -/
def close (w : World) (s : Nat) : World :=
  let session := w.session s
  if session.terminated then w.modifySession s fun session => { session with attached := false }
  else
    match session.subscription with
    | some number =>
      (w.modifyManager session.manager (·.unsubscribe number)).modifySession s Session.ended
    | none => w.modifySession s Session.ended

/-- A session that is closed is not attached any more, and has ended. -/
theorem session_close_self (w : World) (s : Nat) :
    (w.close s).session s
      = if (w.session s).terminated then { w.session s with attached := false }
        else (w.session s).ended := by
  unfold close
  dsimp only
  split
  · rw [session_modifySession, if_pos rfl]
  · split
    · rw [session_modifySession, if_pos rfl]
      rfl
    · rw [session_modifySession, if_pos rfl]

/-- A session that ended is not attached. -/
theorem attached_close (w : World) (s : Nat) : ((w.close s).session s).attached = false := by
  rw [session_close_self]
  split <;> rfl

/-- The end of a session shows in no other. -/
theorem session_close_of_ne (w : World) {s t : Nat} (h : t ≠ s) :
    (w.close s).session t = w.session t := by
  have h' : s ≠ t := Ne.symm h
  unfold close
  dsimp only
  split
  · rw [session_modifySession, if_neg h']
  · split
    · rw [session_modifySession, if_neg h']
      rfl
    · rw [session_modifySession, if_neg h']

/-- The end of a session ends its subscription and leaves all breakpoints where they are. -/
theorem breakpoints_close (w : World) (s m : Nat) :
    ((w.close s).manager m).breakpoints = (w.manager m).breakpoints := by
  unfold close
  dsimp only
  split
  · rfl
  · split
    · simp only [manager, modifySession, modifyManager, Arena.get_modify]
      split
      · next h => rw [← h]; rfl
      · rfl
    · rfl

end World

/-- The notification that a session has ended. -/
def Note.farewell (s : Nat) : Note :=
  .model s (.terminated .target) ("terminate " ++ ("Target(" ++ targetName ++ ")"))

/-- A session ends before its front end is told. -/
theorem run_endSession (s : Nat) (w : World) :
    endSession s w
      = if (w.session s).terminated then .ok () (w.close s)
        else notify s (.terminated .target) (w.close s) := by
  unfold endSession World.close
  rw [run_get_bind]
  dsimp only
  split
  · rfl
  · cases (w.session s).subscription with
    | none => rfl
    | some number => rfl

/-- A front end that listens is told of the end, once. -/
theorem worldAfter_endSession (s : Nat) (w : World) :
    worldAfter (endSession s) w
      = if !(w.session s).terminated && (w.session s).alive && (w.session s).observed
          then (w.close s).note (.farewell s) else w.close s := by
  rw [worldAfter, run_endSession]
  cases ht : (w.session s).terminated with
  | true => rfl
  | false =>
      have hs : (w.close s).session s = (w.session s).ended := by
        rw [session_close_self, ht]
        rfl
      have halive : ((w.close s).session s).alive = (w.session s).alive := by rw [hs]; rfl
      have hobserved : ((w.close s).session s).observed = (w.session s).observed := by rw [hs]; rfl
      rw [run_notify, halive, hobserved]
      simp only [Bool.false_eq_true, if_false, Bool.not_false, Bool.true_and]
      cases (w.session s).alive && (w.session s).observed with
      | false => rfl
      | true =>
          have hfarewell : Note.model s (.terminated .target)
              ((w.close s).noticeText s (.terminated .target)) = .farewell s := rfl
          simp only [if_true, hfarewell]
          cases (w.close s).reaction (w.close s).journal.notes (.farewell s) <;> rfl

/-- To end a session is to close it, and to tell of that. -/
theorem still_endSession (s : Nat) (w : World) :
    Still (w.close s) (worldAfter (endSession s) w) := by
  rw [worldAfter_endSession]
  split
  · exact .of_sessions rfl rfl rfl (Nat.le_refl _)
  · exact steady_still.refl _

/-- Requests that a session sends before it takes leave. -/
def Request.IsSent : Request → Prop
  | .resume none _ | .disconnect => False
  | _ => True

/-- Requests are added, and nothing else is left behind. -/
def World.PostsSome (s : Nat) (w w' : World) : Prop :=
  Mild w w' ∧ ∃ rs, (∀ r ∈ rs, r.IsSent) ∧ Posts s rs w w'

/-- Steps in which requests are added hold of a sequence. -/
theorem steady_postsSome (s : Nat) : Steady (PostsSome s) where
  refl w := ⟨steady_mild.refl w, [], List.forall_mem_nil _, .refl s w⟩
  trans h h' := by
    obtain ⟨hmild, rs, hrs, h⟩ := h
    obtain ⟨hmild', rs', hrs', h'⟩ := h'
    refine ⟨steady_mild.trans hmild hmild', rs ++ rs', fun r hr => ?_, h.trans h'⟩
    rcases List.mem_append.mp hr with hr | hr
    · exact hrs r hr
    · exact hrs' r hr

/-- A request that is posted is added, or dropped. -/
theorem postsSome_post (s : Nat) {r : Request} (hr : r.IsSent) (w : World) :
    PostsSome s w (w.post s r) := by
  refine ⟨mild_post w s r, ?_⟩
  unfold World.post
  split
  · exact ⟨[], List.forall_mem_nil _, .refl s w⟩
  · split
    · next ha => exact ⟨[r], by simpa using hr, posts_send w ha r⟩
    · exact ⟨[], List.forall_mem_nil _, .refl _, fun _ _ => rfl, rfl, rfl, Nat.le_refl _⟩

/-- The request that lets a thread go on which is shown as suspended. -/
def Thread.plea? (t : Thread) : Option Request :=
  if t.state = .suspended then some (.resume (some t.handle) .clientRequest) else none

/-- What a session asks for before it takes leave. -/
def Session.pleas (x : Session) : List Request :=
  .removeAllBreakpoints :: x.threads.filterMap Thread.plea?

/-- Posts requests, one after the other. -/
def World.postAll (w : World) (s : Nat) (rs : List Request) : World :=
  rs.foldl (fun w r => w.post s r) w

/-- A request that is posted leaves threads their handles. -/
theorem handle_thread_post (w : World) (s : Nat) (r : Request) (k : Nat) :
    ((w.post s r).thread s k).handle = (w.thread s k).handle := by
  obtain ⟨rs, hp⟩ := exists_posts_post w s r
  have hthreads := congrArg Session.threads hp.here.model
  rw [Session.threads_model, Session.threads_model] at hthreads
  unfold World.thread Session.thread
  rw [hthreads]

/-- Suspended threads are resumed one after the other. -/
theorem run_pleas (s : Nat) (xs : List (Thread × Nat)) (w : World)
    (h : ∀ x ∈ xs, (w.thread s x.2).handle = x.1.handle) :
    forIn xs PUnit.unit (fun x _ =>
        if x.1.state = .suspended then do
          requestResume s x.2 .clientRequest
          pure (ForInStep.yield PUnit.unit)
        else (pure (ForInStep.yield PUnit.unit) : Act (ForInStep PUnit))) w
      = .ok PUnit.unit (w.postAll s ((xs.map Prod.fst).filterMap Thread.plea?)) := by
  induction xs generalizing w with
  | nil => rfl
  | cons x xs ih =>
      have hx := h x List.mem_cons_self
      rw [List.forIn_cons, List.map_cons]
      by_cases hs : x.1.state = .suspended
      · let r : Request := .resume (some x.1.handle) .clientRequest
        have hplea : x.1.plea? = some r := if_pos hs
        have hpost : (do
            requestResume s x.2 .clientRequest
            pure (ForInStep.yield PUnit.unit) : Act (ForInStep PUnit)) w
            = .ok (.yield PUnit.unit) (w.post s r) := by
          have hrun : requestResume s x.2 .clientRequest w
              = .ok () (w.post s (.resume (some (w.thread s x.2).handle) .clientRequest)) := rfl
          rw [run_bind_ok hrun, hx]
          rfl
        rw [List.filterMap_cons_some hplea, if_pos hs, run_bind_ok hpost]
        exact ih (w.post s r) fun y hy =>
          (handle_thread_post w s r y.2).trans (h y (List.mem_cons_of_mem _ hy))
      · have hplea : x.1.plea? = none := if_neg hs
        have hrun : (pure (ForInStep.yield PUnit.unit) : Act (ForInStep PUnit)) w
            = .ok (.yield PUnit.unit) w := rfl
        rw [List.filterMap_cons_none hplea, if_neg hs, run_bind_ok hrun]
        exact ih w fun y hy => h y (List.mem_cons_of_mem _ hy)

/-- Who disconnects from a session that is not over asks the interpreter to go on alone. Then the
session ends. -/
theorem worldAfter_disconnect {s : Nat} {w : World} (ht : (w.session s).terminated = false) :
    worldAfter (disconnect s) w
      = worldAfter (endSession s) ((w.postAll s (w.session s).pleas).post s .disconnect) := by
  let u := w.post s .removeAllBreakpoints
  have hhandles : ∀ x ∈ (w.session s).threads.zipIdx, (u.thread s x.2).handle = x.1.handle := by
    intro x hx
    have hget := List.mem_zipIdx_iff_getElem?.mp hx
    rw [handle_thread_post, World.thread, Session.thread, hget]
    rfl
  have hresume := run_pleas s _ u hhandles
  rw [List.zipIdx_map_fst] at hresume
  let v := u.postAll s ((w.session s).threads.filterMap Thread.plea?)
  have hclear : post s .removeAllBreakpoints w = .ok () u := rfl
  have hleave : post s .disconnect v = .ok () (v.post s .disconnect) := rfl
  have hpleas : w.postAll s (w.session s).pleas = v := rfl
  unfold worldAfter disconnect
  rw [run_get_bind, hpleas]
  simp only [ht, Bool.false_eq_true, if_false]
  rw [run_bind_ok hclear, run_bind_ok hresume, run_bind_ok hleave]

/-- What a session asks for before it takes leave is sent. -/
theorem isSent_pleas (x : Session) : ∀ r ∈ x.pleas, r.IsSent := by
  refine List.forall_mem_cons.mpr ⟨trivial, fun r hr => ?_⟩
  obtain ⟨t, -, ht⟩ := List.mem_filterMap.mp hr
  unfold Thread.plea? at ht
  split at ht
  · exact Option.some.inj ht ▸ trivial
  · cases ht

/-- Requests that are posted are added, or dropped. -/
theorem postsSome_postAll (s : Nat) {rs : List Request} (hrs : ∀ r ∈ rs, r.IsSent) (w : World) :
    PostsSome s w (w.postAll s rs) := by
  induction rs generalizing w with
  | nil => exact (steady_postsSome s).refl w
  | cons r rs ih =>
      obtain ⟨hr, hrest⟩ := List.forall_mem_cons.mp hrs
      exact (steady_postsSome s).trans (postsSome_post s hr w) (ih hrest _)

/-- Who disconnects asks the interpreter to go on alone, and then the session ends. -/
theorem disconnect_cases (s : Nat) (w : World) :
    (w.session s).terminated = true ∧ worldAfter (disconnect s) w = w
      ∨ (w.session s).terminated = false ∧ ∃ u, PostsSome s w u
        ∧ worldAfter (disconnect s) w = worldAfter (endSession s) (u.post s .disconnect) := by
  cases ht : (w.session s).terminated with
  | true =>
      refine .inl ⟨rfl, ?_⟩
      unfold worldAfter disconnect
      rw [run_get_bind]
      simp only [ht, if_true]
      rfl
  | false =>
      exact .inr ⟨rfl, _, postsSome_postAll s (isSent_pleas _) w, worldAfter_disconnect ht⟩

/-! ### Scripts that are ready -/

namespace World

/-- Registers a script that is ready. -/
def register (w : World) (s : Nat) (script : Script) : World :=
  w.modifySession s fun session => { session with scripts := session.scripts.insert script }

/-- The breakpoints of a session that lie in a script. -/
def breakpointsIn (w : World) (s : Nat) (script : Script) : List Breakpoint :=
  match script.resource with
  | none => []
  | some resource => (w.manager (w.session s).manager).on resource

/-- How a script that is ready is answered: by its breakpoints, and then by a request to resume the
thread that waits. -/
def answers (w : World) (s : Nat) (script : Script) (thread : Handle) (kind : ResumeKind) :
    List Request :=
  (w.breakpointsIn s script).map (.breakpoint script · .add) ++ [.resume (some thread) kind]

end World

/-- Finds the thread that waits before a script, or adds it. -/
def greetThread (s : Nat) (handle : Handle) : Act Nat := do
  let found ← findOrCreateThread s handle
  if found.2 then return found.1
  else
    notify s (.changed (.thread found.1) .content)
    return found.1

/-- Registers a script and answers the thread that waits before it. -/
def answerThread (s : Nat) (script : Script) (root : Bool) (i : Nat) : Act Unit := do
  change (·.register s script)
  applyBreakpoints s script
  let w ← get
  let stepping := (w.thread s i).state = .stepping
  requestResume s i (loadResume (w.session s).options script root stepping)

/-- A script that is ready is greeted by its thread, and then answered. -/
theorem scriptReady_eq (s : Nat) (script : Script) (handle : Handle) (root : Bool) :
    scriptReady s script handle root = greetThread s handle >>= answerThread s script root := by
  unfold scriptReady greetThread
  rw [bind_assoc]
  refine bind_congr fun found => ?_
  obtain ⟨i, created⟩ := found
  cases created with
  | true => rfl
  | false =>
      simp only [Bool.false_eq_true, if_false, bind_assoc]
      rfl

/-- A thread that waits before a script is found or added, and none is lost. -/
theorem keeps_greetThread {s : Nat} {ts : List Script} (handle : Handle) :
    Keeps (Depicts s ts) (greetThread s handle) := by
  have h := steady_depicts s ts
  refine Keeps.bind h (keeps_findOrCreateThread handle) fun found => ?_
  split
  · exact Keeps.pure h _
  · exact Keeps.bind h (plain_notify _ (by simp)).depicts fun _ => Keeps.pure h _

/-- The breakpoints of a script are sent in their order. -/
theorem ends_applyBreakpoints (s : Nat) (script : Script) (w : World)
    (hl : (w.session s).alive = true) (ha : (w.session s).attached = true) :
    Ends (applyBreakpoints s script) w fun _ w' =>
      Posts s ((w.breakpointsIn s script).map (.breakpoint script · .add)) w w' := by
  unfold applyBreakpoints breakpointsIn
  cases script.resource with
  | none => exact Ends.pure (.refl s w)
  | some resource =>
      refine ⟨(), _, run_forM_change w _ _, ?_⟩
      exact posts_foldl s _ _ w hl ha

/-- The answer to a thread is given in full. -/
theorem ends_answerThread (s : Nat) (script : Script) (root : Bool) (i : Nat) (w : World)
    (hl : (w.session s).alive = true) (ha : (w.session s).attached = true) :
    Ends (answerThread s script root i) w fun _ w' =>
      Posts s (w.answers s script (w.thread s i).handle (loadResume (w.session s).options script root
        ((w.thread s i).state = .stepping))) (w.register s script) w' := by
  have hs : (w.register s script).session s
      = { w.session s with scripts := (w.session s).scripts.insert script } := by
    rw [register, session_modifySession, if_pos rfl]
  have hl' : ((w.register s script).session s).alive = true := by rw [hs, ← hl]
  have ha' : ((w.register s script).session s).attached = true := by rw [hs, ← ha]
  have hb : (w.register s script).breakpointsIn s script = w.breakpointsIn s script := by
    unfold breakpointsIn
    rw [hs]
    rfl
  obtain ⟨_, u, happly, hu⟩ := ends_applyBreakpoints s script (w.register s script) hl' ha'
  have hthread : u.thread s i = w.thread s i := by
    have ht : (u.session s).threads = ((w.register s script).session s).threads := by
      rw [← Session.threads_model, hu.here.model, Session.threads_model]
    have ht' : ((w.register s script).session s).threads = (w.session s).threads := by
      rw [hs]
      rfl
    simp only [thread, Session.thread, ht, ht']
  have hoptions : (u.session s).options = (w.session s).options := by
    have ho : (u.session s).options = ((w.register s script).session s).options :=
      (congrArg Session.options hu.here.model :)
    rw [ho, hs]
  let kind := loadResume (w.session s).options script root ((w.thread s i).state = .stepping)
  have hresume := posts_post u s (.resume (some (w.thread s i).handle) kind)
    (hu.here.alive.trans hl') (hu.here.attached.trans ha')
  have hrun : answerThread s script root i w
      = .ok () (u.post s (.resume (some (w.thread s i).handle) kind)) := by
    have hask : answerThread s script root i w
        = .ok () (u.post s (.resume (some (u.thread s i).handle)
          (loadResume (u.session s).options script root ((u.thread s i).state = .stepping)))) := by
      unfold answerThread
      rw [run_change_bind, run_bind_ok happly]
      rfl
    rw [hask, hthread, hoptions]
  have hanswers : w.answers s script (w.thread s i).handle kind
      = ((w.register s script).breakpointsIn s script).map (.breakpoint script · .add)
        ++ [.resume (some (w.thread s i).handle) kind] := by
    rw [answers, hb]
  refine ⟨(), _, hrun, ?_⟩
  rw [hanswers]
  exact hu.trans hresume

/-! ### The thread that waits before a script -/

/-- Adds a thread to the process of a session, if there is one. -/
def World.addThread (w : World) (s : Nat) (handle : Handle) : World :=
  w.modifySession s fun session =>
    { session with process := session.process.map fun p =>
        { p with threads := p.threads ++ [.start handle] } }

/-- The thread with a handle is there already. -/
theorem run_findOrCreateThread {s i : Nat} {handle : Handle} {w : World}
    (hi : (w.session s).findThread? handle = some i) :
    findOrCreateThread s handle w = .ok (i, false) w := by
  unfold findOrCreateThread
  rw [run_get_bind, hi]
  rfl

/-- A thread is added, and the front end is told. -/
theorem run_findOrCreateThread_new {s : Nat} {handle : Handle} {w : World}
    (hnew : (w.session s).findThread? handle = none) :
    findOrCreateThread s handle w = (do
      notify s (.created (.thread (w.session s).threads.length))
      return ((w.session s).threads.length, true) : Act (Nat × Bool)) (w.addThread s handle) := by
  have hcreate : createThread s handle w = (do
      notify s (.created (.thread (w.session s).threads.length))
      return (w.session s).threads.length : Act Nat) (w.addThread s handle) := by
    unfold createThread
    rw [run_get_bind]
    rfl
  unfold findOrCreateThread
  rw [run_get_bind, hnew]
  obtain ⟨j, hok | ⟨failure, herror⟩⟩ :=
    notify_cases s (.created (.thread (w.session s).threads.length)) (w.addThread s handle)
  · rw [run_bind_ok hok] at hcreate ⊢
    exact run_bind_ok hcreate _
  · rw [run_bind_error herror] at hcreate ⊢
    exact run_bind_error hcreate _

/-- A thread with a handle is found, or it is added and the front end is told. -/
theorem findOrCreateThread_cases (s : Nat) (handle : Handle) (w : World) :
    (∃ i, (w.session s).findThread? handle = some i
        ∧ findOrCreateThread s handle w = .ok (i, false) w)
      ∨ (w.session s).findThread? handle = none
        ∧ ∃ j, findOrCreateThread s handle w
            = .ok ((w.session s).threads.length, true) { w.addThread s handle with journal := j }
          ∨ ∃ failure, findOrCreateThread s handle w
            = .error failure { w.addThread s handle with journal := j } := by
  cases hf : (w.session s).findThread? handle with
  | some i => exact .inl ⟨i, rfl, run_findOrCreateThread hf⟩
  | none =>
      rw [run_findOrCreateThread_new hf]
      obtain ⟨j, hok | ⟨failure, herror⟩⟩ :=
        notify_cases s (.created (.thread (w.session s).threads.length)) (w.addThread s handle)
      · exact .inr ⟨rfl, j, .inl (run_bind_ok hok _)⟩
      · exact .inr ⟨rfl, j, .inr ⟨failure, run_bind_error herror _⟩⟩

/-- The thread with a handle has a handle of that number. -/
theorem Session.handle_thread_of_findThread? {x : Session} {handle : Handle} {i : Nat}
    (h : x.findThread? handle = some i) : (x.thread i).handle.id = handle.id := by
  obtain ⟨hi, hid, -⟩ := List.findIdx?_eq_some_iff_getElem.mp h
  simpa [Session.thread, List.getElem?_eq_getElem hi] using hid

/-- The thread that was found before a script is the one that waits there. -/
theorem handle_greetThread {s i : Nat} {handle : Handle} {w u : World}
    (hp : (w.session s).process.isSome = true) (h : greetThread s handle w = .ok i u) :
    (u.thread s i).handle.id = handle.id := by
  unfold greetThread at h
  obtain ⟨k, hk, hrun⟩ | ⟨-, j, hrun | ⟨failure, hrun⟩⟩ := findOrCreateThread_cases s handle w
  · rw [run_bind_ok hrun] at h
    obtain ⟨j, hok | ⟨failure, herror⟩⟩ := notify_cases s (.changed (.thread k) .content) w
    · simp only [Bool.false_eq_true, if_false] at h
      rw [run_bind_ok hok] at h
      cases h
      exact Session.handle_thread_of_findThread? hk
    · simp only [Bool.false_eq_true, if_false] at h
      rw [run_bind_error herror] at h
      cases h
  · rw [run_bind_ok hrun] at h
    cases h
    obtain ⟨p, hp⟩ := Option.isSome_iff_exists.mp hp
    have hs : (w.addThread s handle).session s
        = { w.session s with process := some { p with threads := p.threads ++ [.start handle] } } := by
      rw [World.addThread, session_modifySession, if_pos rfl, hp]
      rfl
    have ht : (w.session s).threads = p.threads := by
      rw [Session.threads, hp]
    have hthread : ((w.addThread s handle).session s).thread (w.session s).threads.length
        = .start handle := by
      rw [hs, ht]
      simp [Session.thread, Session.threads]
    exact congrArg (·.handle.id) hthread
  · rw [run_bind_error hrun] at h
    cases h

/-- Gives a session a process without threads. -/
def World.addProcess (w : World) (s : Nat) : World :=
  w.modifySession s fun session => { session with process := some .start }

/-- There is a process, or it is made and the front end is told. -/
theorem ensureProcess_cases (s : Nat) (w : World) :
    (w.session s).process.isSome = true ∧ ensureProcess s w = .ok () w
      ∨ (w.session s).process = none
        ∧ ∃ j, ensureProcess s w = .ok () { w.addProcess s with journal := j }
          ∨ ∃ failure, ensureProcess s w = .error failure { w.addProcess s with journal := j } := by
  unfold ensureProcess
  rw [run_get_bind]
  cases hp : (w.session s).process with
  | some p => exact .inl ⟨rfl, rfl⟩
  | none => exact .inr ⟨rfl, notify_cases s (.created .process) (w.addProcess s)⟩

/-- There is a process once it was made. -/
theorem isSome_of_ensureProcess_ok {s : Nat} {w u : World} (h : ensureProcess s w = .ok () u) :
    (u.session s).process.isSome = true := by
  obtain ⟨hp, hrun⟩ | ⟨-, j, hrun | ⟨failure, hrun⟩⟩ := ensureProcess_cases s w
  · rw [hrun] at h
    cases h
    exact hp
  · rw [hrun] at h
    cases h
    have hs : (w.addProcess s).session s = { w.session s with process := some .start } := by
      rw [World.addProcess, session_modifySession, if_pos rfl]
    exact congrArg (·.process.isSome) hs
  · rw [hrun] at h
    cases h

/-! ### Every event -/

/-- What became of an event. -/
inductive World.Heard (s : Nat) (e : Event) (w w' : World) : Prop where
  /-- It changed threads at most, or it was broken off before it was answered. -/
  | shown (h : Shows s e.scripts w w') (hend : e ≠ .engineTerminated)
      (hbroken : ∀ script thread root, e = .scriptReady script thread root →
        ∃ failure, handleEvent s e w = .error failure w')
  /-- A script was registered and answered. -/
  | answered (script : Script) (thread : Handle) (root : Bool) (u : World) (handle : Handle)
      (kind : ResumeKind) (he : e = .scriptReady script thread root)
      (hok : handleEvent s e w = .ok () w') (hu : Shows s [] w u) (hid : handle.id = thread.id)
      (hp : Posts s (u.answers s script handle kind) (u.register s script) w')
  /-- The session was over. -/
  | closed (u : World) (he : e = .engineTerminated) (hu : Still w u) (h : Still (u.close s) w')

/-- A session that is attached traces an event and applies it. -/
theorem handleEvent_eq {s : Nat} {e : Event} {w : World} (ha : (w.session s).attached = true) :
    handleEvent s e w = applyEvent s e (w.trace "model" ("process " ++ e.text w.marks)) := by
  unfold handleEvent
  rw [run_get_bind, if_pos ha]
  rfl

/-- A session that is not attached does not listen. -/
theorem handleEvent_unattached {s : Nat} {w : World} (ha : (w.session s).attached = false) (e : Event) :
    handleEvent s e w = .ok () w := by
  unfold handleEvent
  rw [run_get_bind, ha]
  rfl

/-- A script that is ready is answered, unless the front end fails before that. -/
theorem scriptReady_cases (s : Nat) (script : Script) (thread : Handle) (root : Bool) (w : World)
    (hl : (w.session s).alive = true) (ha : (w.session s).attached = true) :
    (∃ failure u, applyEvent s (.scriptReady script thread root) w = .error failure u
        ∧ Shows s [] w u)
      ∨ ∃ u handle kind w', applyEvent s (.scriptReady script thread root) w = .ok () w'
        ∧ Shows s [] w u ∧ handle.id = thread.id
        ∧ Posts s (u.answers s script handle kind) (u.register s script) w' := by
  have h := steady_shows s []
  have hprocess : Shows s [] w (worldAfter (ensureProcess s) w) := (keeps_ensureProcess w).toShows
  have happly : applyEvent s (.scriptReady script thread root) = (do
      ensureProcess s
      greetThread s thread >>= answerThread s script root) := by
    rw [← scriptReady_eq]
    rfl
  rw [happly]
  unfold worldAfter at hprocess
  cases hp : ensureProcess s w with
  | error failure u =>
      rw [hp] at hprocess
      exact .inl ⟨failure, u, run_bind_error hp _, hprocess⟩
  | ok _ u =>
      rw [hp] at hprocess
      have hgreet : Shows s [] u (worldAfter (greetThread s thread) u) :=
        (keeps_greetThread thread u).toShows
      unfold worldAfter at hgreet
      rw [run_bind_ok hp]
      cases hg : greetThread s thread u with
      | error failure v =>
          rw [hg] at hgreet
          exact .inl ⟨failure, v, run_bind_error hg _, h.trans hprocess hgreet⟩
      | ok i v =>
          rw [hg] at hgreet
          have hv := h.trans hprocess hgreet
          have hlv : (v.session s).alive = true := (congrArg Session.alive hv.here :).trans hl
          have hav : (v.session s).attached = true :=
            (congrArg Session.attached hv.here :).trans ha
          obtain ⟨_, w', hrun, hposts⟩ := ends_answerThread s script root i v hlv hav
          refine .inr ⟨v, (v.thread s i).handle, _, w', ?_, hv, ?_, hposts⟩
          · rw [run_bind_ok hg, hrun]
          · exact handle_greetThread (isSome_of_ensureProcess_ok hp) hg

/-- What is shown of a stack is on the stack. -/
theorem mem_of_mem_shownStack {options : LaunchOptions} {stack : List Activation} {a : Activation}
    (h : a ∈ options.shownStack stack) : a ∈ stack := by
  unfold LaunchOptions.shownStack at h
  split at h
  · exact h
  · exact (List.mem_filter.mp h).1

/-- Most events change threads, and leave nothing else behind. -/
theorem depicts_applyEvent {s : Nat} {e : Event}
    (hready : ∀ script thread root, e ≠ .scriptReady script thread root)
    (hvariables : ∀ frame reported, e ≠ .frameVariables frame reported)
    (hresult : ∀ expression frame result listener,
      e ≠ .evaluated expression frame result listener)
    (hend : e ≠ .engineTerminated) : Keeps (Depicts s e.scripts) (applyEvent s e) := by
  have h := steady_depicts s e.scripts
  cases e with
  | scriptReady script thread root => exact absurd rfl (hready script thread root)
  | frameVariables frame reported => exact absurd rfl (hvariables frame reported)
  | evaluated expression frame result listener =>
      exact absurd rfl (hresult expression frame result listener)
  | engineTerminated => exact absurd rfl hend
  | engineStarted => exact keeps_ensureProcess
  | threadCreated thread =>
      exact Keeps.bind h (keeps_threadOf thread) fun _ => Keeps.pure h _
  | threadTerminated thread =>
      exact Keeps.bind h keeps_ensureProcess fun _ => keeps_threadTerminated thread
  | suspended thread reason stack =>
      exact Keeps.bind h (Keeps.get h) fun _ => Keeps.bind h (keeps_threadOf thread) fun i =>
        keeps_threadSuspended i _ _ fun a ha => List.mem_map_of_mem (mem_of_mem_shownStack ha)
  | resumed thread kind =>
      exact Keeps.bind h (keeps_threadOf thread) fun i => keeps_threadResumed i kind
  | stackFrames thread stack =>
      exact Keeps.bind h (Keeps.get h) fun _ => Keeps.bind h (keeps_threadOf thread) fun i =>
        keeps_setStack i _ fun a ha => List.mem_map_of_mem (mem_of_mem_shownStack ha)

/-- What is done with the result of a watch expression that a session hears of. -/
theorem keeps_evaluated {R : World → World → Prop} (hR : Steady R) {s : Nat} {expression : String}
    {frame : FrameRef} {result : Evaluated} {listener : String}
    (h : Keeps R (withInHand frame
      (deliverResult listener (WatchResult.of expression result (.frame frame))))) :
    Keeps R (applyEvent s (.evaluated expression frame result listener)) := by
  refine Keeps.bind hR (Keeps.get hR) fun _ => ?_
  split
  · exact Keeps.pure hR _
  · exact h

/-- All events but two change threads at most. -/
theorem keeps_applyEvent {s : Nat} {e : Event}
    (hready : ∀ script thread root, e ≠ .scriptReady script thread root)
    (hend : e ≠ .engineTerminated) : Keeps (Shows s e.scripts) (applyEvent s e) := by
  cases e with
  | frameVariables frame reported =>
      exact (still_withInHand frame (keeps_setVariables frame reported)).shows
  | evaluated expression frame result listener =>
      exact keeps_evaluated (steady_shows s _)
        (still_withInHand frame (keeps_deliverResult listener _)).shows
  | _ => exact fun w => (depicts_applyEvent hready (by simp) (by simp) hend w).toShows

/-- What holds of the registration of a script and of what is posted holds of the answer to it. -/
theorem keeps_answerThread {R : World → World → Prop} (hR : Steady R) {s : Nat} {script : Script}
    (hregister : ∀ w, R w (w.register s script))
    (hpost : ∀ w (r : Request), r.IsSent → R w (w.post s r)) (root : Bool) (i : Nat) :
    Keeps R (answerThread s script root i) := by
  refine Keeps.bind hR (Keeps.change hregister) fun _ => Keeps.bind hR ?_ fun _ => ?_
  · unfold applyBreakpoints
    split
    · exact Keeps.pure hR _
    · exact Keeps.bind hR (Keeps.get hR) fun w =>
        Keeps.forM hR (fun b => Keeps.change fun w => hpost w (.breakpoint script b .add) trivial) _
  · exact Keeps.bind hR (Keeps.get hR) fun w => Keeps.bind hR (Keeps.get hR) fun u =>
      Keeps.change fun v => hpost v (.resume (some (u.thread s i).handle) _) trivial

/-- What holds of the parts of which the handling of an event is made up holds of all of it. -/
theorem keeps_handleEvent_of {R : World → World → Prop} (hR : Steady R) {s : Nat} (e : Event)
    (hdepicts : ∀ {ts w w'}, Depicts s ts w w' → R w w')
    (hregister : ∀ w script, R w (w.register s script))
    (hpost : ∀ w (r : Request), r.IsSent → R w (w.post s r))
    (hvariables : ∀ frame reported, e = .frameVariables frame reported →
      Keeps R (withInHand frame (setVariables frame reported)))
    (hresult : ∀ expression frame result listener,
      e = .evaluated expression frame result listener → Keeps R (withInHand frame
        (deliverResult listener (WatchResult.of expression result (.frame frame)))))
    (hend : e = .engineTerminated → Keeps R (endSession s)) : Keeps R (handleEvent s e) := by
  have hanswer : ∀ script root i, Keeps R (answerThread s script root i) := fun script root i =>
    keeps_answerThread hR (fun w => hregister w script) hpost root i
  have htrace : ∀ w topic text, R w (w.trace topic text) := fun w topic text =>
    hdepicts ((plain_trace w topic text).depicts s [])
  refine Keeps.bind hR (Keeps.get hR) fun w => ?_
  split
  · refine Keeps.bind hR (Keeps.change fun w => htrace w _ _) fun _ => ?_
    cases e with
    | engineTerminated => exact hend rfl
    | scriptReady script thread root =>
        have hprocess : Keeps (Depicts s []) (ensureProcess s) := keeps_ensureProcess
        have hgreet : Keeps (Depicts s []) (greetThread s thread) := keeps_greetThread thread
        refine Keeps.bind hR (fun w => hdepicts (hprocess w)) fun _ => ?_
        rw [scriptReady_eq]
        exact Keeps.bind hR (fun w => hdepicts (hgreet w)) fun i => hanswer script root i
    | frameVariables frame reported => exact hvariables frame reported rfl
    | evaluated expression frame result listener =>
        exact keeps_evaluated hR (hresult expression frame result listener rfl)
    | _ =>
        exact fun w =>
          hdepicts (depicts_applyEvent (by simp) (by simp) (by simp) (by simp) w)
  · exact Keeps.pure hR _

/-- What all that changes threads at most keeps is kept by the handling of events. -/
theorem keeps_handleEvent {R : World → World → Prop} (hR : Steady R) {s : Nat}
    (hshows : ∀ {ts w w'}, Shows s ts w w' → R w w') (hregister : ∀ w script, R w (w.register s script))
    (hpost : ∀ w r, R w (w.post s r)) (hclose : ∀ w, R w (w.close s)) (e : Event) :
    Keeps R (handleEvent s e) := by
  have hstill : ∀ {w w'}, Still w w' → R w w' := fun h => hshows (h.shows s [])
  refine keeps_handleEvent_of hR e (fun h => hshows h.toShows) hregister
    (fun w r _ => hpost w r) ?_ ?_ ?_
  · rintro frame reported -
    exact fun w => hstill (still_withInHand frame (keeps_setVariables frame reported) w)
  · rintro expression frame result listener -
    exact fun w => hstill (still_withInHand frame (keeps_deliverResult listener _) w)
  · exact fun _ w => hR.trans (hclose w) (hstill (still_endSession s w))

/-- Every event that reaches a session comes to one of three ends. -/
theorem heard_handleEvent (s : Nat) (e : Event) (w : World) (hl : (w.session s).alive = true)
    (ha : (w.session s).attached = true) : Heard s e w (worldAfter (handleEvent s e) w) := by
  let u := w.trace "model" ("process " ++ e.text w.marks)
  have hu : Still w u := (plain_trace w _ _).toStill
  have hrun : handleEvent s e w = applyEvent s e u := handleEvent_eq ha
  have hafter : worldAfter (handleEvent s e) w = worldAfter (applyEvent s e) u := by
    rw [worldAfter, hrun]
    rfl
  by_cases hready : ∃ script thread root, e = .scriptReady script thread root
  · obtain ⟨script, thread, root, rfl⟩ := hready
    obtain ⟨failure, v, herror, hv⟩ | ⟨v, handle, kind, w', hok, hv, hid, hposts⟩ :=
      scriptReady_cases s script thread root u hl ha
    · rw [hafter, worldAfter, herror]
      exact .shown ((steady_shows s _).trans (hu.shows s _) (hv.mono (List.nil_subset _))) (by simp)
        fun _ _ _ _ => ⟨failure, hrun.trans herror⟩
    · rw [hafter, worldAfter, hok]
      exact .answered script thread root v handle kind rfl (hrun.trans hok)
        ((steady_shows s []).trans (hu.shows s []) hv) hid hposts
  · have hne : ∀ script thread root, e ≠ .scriptReady script thread root :=
      fun script thread root he => hready ⟨script, thread, root, he⟩
    by_cases hend : e = .engineTerminated
    · subst hend
      rw [hafter]
      exact .closed u rfl hu (still_endSession s u)
    · refine .shown ?_ hend fun script thread root he => absurd he (hne script thread root)
      rw [hafter]
      exact (steady_shows s _).trans (hu.shows s _) (keeps_applyEvent hne hend u)

end DebugBridge
