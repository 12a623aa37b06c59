import DebugBridge.Proofs.Occasions

/-!
# The last thread of a process

The interpreter can only be ended as a whole, so a thread may be terminated only where it is the last one
of its process: it is not gone, and all others are. Threads come into being by events, in any order and
perhaps by their very end. Still each of them is in the list of its process once and under a handle of its
own, so to count the threads that are left is to tell whether a thread is the last one. To ask changes no
thread, whether the answer is yes or no.

## Main definitions

* `Session.IsLast`: the thread at a place is the last one that is left;
* `World.Numbers`: a step that leaves every thread a handle of its own.

## Main results

* `numbers_handleEvent`, `numbered_meet`: the steps, by event and by encounter;
* `canTerminateThread_iff`: a thread may be terminated if it is the last one;
* `terminates_last_alone`: the guard, in every run.
-/

namespace DebugBridge

open World

/-! ### The last one -/

namespace Session

variable {x : Session} {i j : Nat}

/-- The thread at a place is not gone, and all others are. -/
def IsLast (x : Session) (i : Nat) : Prop :=
  (∃ t, x.threads[i]? = some t ∧ t.state ≠ .terminated)
    ∧ ∀ j u, j ≠ i → x.threads[j]? = some u → u.state = .terminated

/-- There is one last thread at most. -/
theorem IsLast.unique (hi : x.IsLast i) (hj : x.IsLast j) : i = j := by
  by_contra hne
  obtain ⟨t, ht, hleft⟩ := hi.1
  exact hleft (hj.2 i t hne ht)

end Session

/-- How many threads of a list are left is one if the thread at a place is left, and no other. -/
theorem length_filter_left_eq_one_iff {ts : List Thread} {i : Nat} {t : Thread} (ht : ts[i]? = some t)
    (hleft : t.isTerminated = false) :
    (ts.filter fun u => !u.isTerminated).length = 1
      ↔ ∀ j u, j ≠ i → ts[j]? = some u → u.isTerminated = true := by
  have hsplit : ts = ts.take i ++ t :: ts.drop (i + 1) := by
    obtain ⟨hi, rfl⟩ := List.getElem?_eq_some_iff.mp ht
    rw [← List.drop_eq_getElem_cons hi, List.take_append_drop]
  have hcount : (ts.filter fun u => !u.isTerminated).length
      = ((ts.take i).filter fun u => !u.isTerminated).length + 1
        + ((ts.drop (i + 1)).filter fun u => !u.isTerminated).length := by
    conv_lhs => rw [hsplit]
    rw [List.filter_append, List.length_append, List.filter_cons_of_pos (by rw [hleft]; rfl),
      List.length_cons]
    omega
  have hnone : (ts.filter fun u => !u.isTerminated).length = 1
      ↔ (∀ u ∈ ts.take i, u.isTerminated = true) ∧ ∀ u ∈ ts.drop (i + 1), u.isTerminated = true := by
    have hgone : ∀ us : List Thread, (us.filter fun u => !u.isTerminated).length = 0
        ↔ ∀ u ∈ us, u.isTerminated = true := by
      intro us
      rw [List.length_eq_zero_iff, List.filter_eq_nil_iff]
      simp
    rw [← hgone, ← hgone]
    omega
  rw [hnone]
  constructor
  · rintro ⟨hbefore, hbehind⟩ j u hne hu
    obtain hlt | hgt := Nat.lt_or_gt_of_ne hne
    · refine hbefore u (List.mem_of_getElem? (i := j) ?_)
      rw [List.getElem?_take_of_lt hlt, hu]
    · refine hbehind u (List.mem_of_getElem? (i := j - (i + 1)) ?_)
      rw [List.getElem?_drop, show i + 1 + (j - (i + 1)) = j by omega, hu]
  · intro hothers
    refine ⟨fun u hu => ?_, fun u hu => ?_⟩
    · obtain ⟨j, hj⟩ := List.getElem?_of_mem hu
      have hlt : j < i := by
        have hlength := (List.getElem?_eq_some_iff.mp hj).1
        rw [List.length_take] at hlength
        omega
      rw [List.getElem?_take_of_lt hlt] at hj
      exact hothers j u (Nat.ne_of_lt hlt) hj
    · obtain ⟨k, hk⟩ := List.getElem?_of_mem hu
      rw [List.getElem?_drop] at hk
      exact hothers (i + 1 + k) u (by omega) hk

/-- A thread goes on if its state is not that it has terminated. -/
theorem Thread.isTerminated_eq_false_iff (t : Thread) : t.isTerminated = false ↔ t.state ≠ .terminated := by
  rw [← Bool.not_eq_true, t.isTerminated_iff]

/-- A thread of a session that is held may be terminated if it is the last one. -/
theorem canTerminateThread_iff {w : World} {s i : Nat} (hl : (w.session s).alive = true)
    (hi : i < (w.session s).threads.length) :
    w.canTerminateThread s i = true ↔ (w.session s).IsLast i := by
  have ht := List.getElem?_eq_getElem hi
  have hthread : (w.session s).thread i = (w.session s).threads[i] := by
    rw [Session.thread, ht, Option.getD_some]
  obtain ⟨p, hp⟩ : ∃ p, (w.session s).process = some p := by
    cases hp : (w.session s).process with
    | some p => exact ⟨p, rfl⟩
    | none =>
        rw [threads_eq_nil hp] at hi
        exact absurd hi (Nat.not_lt_zero i)
  have hthreads : p.threads = (w.session s).threads := by rw [Session.threads, hp]
  have hcan : w.canTerminateThread s i = true
      ↔ (w.session s).threads[i].isTerminated = false
        ∧ ((w.session s).threads.filter fun u => !u.isTerminated).length = 1 := by
    unfold World.canTerminateThread
    dsimp only
    rw [hp]
    dsimp only
    rw [hl, hthread, Process.liveThreads, hthreads]
    simp
  rw [hcan]
  constructor
  · rintro ⟨hleft, hone⟩
    refine ⟨⟨_, ht, (Thread.isTerminated_eq_false_iff _).mp hleft⟩, fun j u hne hu => ?_⟩
    exact u.isTerminated_iff.mp ((length_filter_left_eq_one_iff ht hleft).mp hone j u hne hu)
  · rintro ⟨⟨t, ht', hleft⟩, hothers⟩
    obtain rfl : (w.session s).threads[i] = t := Option.some.inj (ht.symm.trans ht')
    have hleft' := (Thread.isTerminated_eq_false_iff _).mpr hleft
    refine ⟨hleft', (length_filter_left_eq_one_iff ht hleft').mpr fun j u hne hu => ?_⟩
    exact u.isTerminated_iff.mpr (hothers j u hne hu)

/-- Where one thread is left, it is the last one. -/
theorem exists_isLast {x : Session} (hone : x.threads.countP (fun t => t.state ≠ .terminated) = 1) :
    ∃ i, x.IsLast i := by
  obtain ⟨t, ht, hleft⟩ := List.countP_pos_iff.mp (Nat.lt_of_lt_of_eq Nat.zero_lt_one hone.symm)
  obtain ⟨i, hi⟩ := List.getElem?_of_mem ht
  have hleft' : t.isTerminated = false := t.isTerminated_eq_false_iff.mpr (of_decide_eq_true hleft)
  have hfilter : (x.threads.filter fun u => !u.isTerminated).length = 1 := by
    rw [← List.countP_eq_length_filter, ← hone]
    refine List.countP_congr fun u _ => ?_
    rw [Bool.not_eq_true', u.isTerminated_eq_false_iff, decide_eq_true_iff]
  refine ⟨i, ⟨t, hi, of_decide_eq_true hleft⟩, fun j u hne hu => ?_⟩
  exact u.isTerminated_iff.mp ((length_filter_left_eq_one_iff hi hleft').mp hfilter j u hne hu)

/-! ### Handles of their own -/

namespace World

variable {s : Nat} {u v w w' : World}

/-- A step after which every thread of a session has a handle of its own, if that was so before. -/
def Numbers (s : Nat) (w w' : World) : Prop :=
  Numbered (w.session s).threads → Numbered (w'.session s).threads

/-- Steps that leave threads their handles hold of a sequence. -/
theorem steady_numbers (s : Nat) : Steady (Numbers s) where
  refl _ := id
  trans h h' := h' ∘ h

/-- A step that changes no thread leaves them their handles. -/
theorem numbers_of_threads (h : (w'.session s).threads = (w.session s).threads) : Numbers s w w' := by
  rw [Numbers, h]
  exact id

/-- A thread that changes but for its handle leaves all their handles. -/
theorem numbers_modifyThread (w : World) (i : Nat) {f : Thread → Thread}
    (hf : ∀ t, (f t).handle = t.handle) : Numbers s w (w.modifyThread s i f) := by
  intro h
  rw [threads_modifyThread]
  exact numbered_modify h i hf

/-- A thread with a new handle comes last. -/
theorem numbers_addThread (w : World) {handle : Handle}
    (hnew : (w.session s).findThread? handle = none) : Numbers s w (w.addThread s handle) := by
  intro h
  rw [addThread, session_modifySession, if_pos rfl,
    threads_modifyProcess (w.session s) fun ts => ts ++ [Thread.start handle]]
  split
  · have hnone : ¬((w.session s).threads.any fun t => t.handle.id = handle.id) = true := by
      rw [findThread?_eq, List.findIdx?_eq_none_iff] at hnew
      rw [List.any_eq_true]
      rintro ⟨t, ht, hid⟩
      rw [hnew t ht] at hid
      cases hid
    have henroll := numbered_enroll h handle
    rwa [enroll, if_neg hnone] at henroll
  · exact List.nodup_nil

end World

section Steps

variable {s : Nat}

/-- What shows in no session leaves the handles. -/
theorem Keeps.numbers {α : Type} {op : Act α} (h : Keeps Still op) : Keeps (Numbers s) op := fun w =>
  numbers_of_threads ((h w).threads s)

/-- A notification leaves threads their handles. -/
theorem numbers_notify (notice : Notice) : Keeps (Numbers s) (notify s notice) := fun w => by
  have hsessions : (worldAfter (notify s notice) w).sessions = w.sessions := by
    unfold worldAfter
    obtain ⟨j, h | ⟨failure, h⟩⟩ := notify_cases s notice w
    · rw [h]
    · rw [h]
  exact numbers_of_threads (by rw [session, session, hsessions])

/-- A process that is made has no threads, so that no two share a handle. -/
theorem numbers_ensureProcess : Keeps (Numbers s) (ensureProcess s) := by
  have hR := steady_numbers s
  intro w
  unfold ensureProcess worldAfter
  rw [run_get_bind]
  cases hp : (w.session s).process with
  | some p => exact hR.refl w
  | none =>
      refine hR.trans (v := w.addProcess s) (fun _ => ?_) (numbers_notify _ _)
      rw [addProcess, session_modifySession, if_pos rfl]
      exact List.nodup_nil

/-- A thread that is made has a handle that no other has. -/
theorem numbers_findOrCreateThread (handle : Handle) :
    Keeps (Numbers s) (findOrCreateThread s handle) := by
  have hR := steady_numbers s
  intro w
  have hfound : Attains (Numbers s) (findOrCreateThread s handle) w fun _ _ => True := by
    refine .get_bind ?_
    cases hfind : (w.session s).findThread? handle with
    | some i => exact .pure (hR.refl w) trivial
    | none =>
        have hcreated : Attains (Numbers s) (createThread s handle) w fun _ _ => True :=
          .get_bind (.change_bind hR (numbers_addThread w hfind)
            (.bind hR ((numbers_notify _).attains _) fun _ v _ _ => .pure (hR.refl v) trivial))
        exact .bind hR hcreated fun _ v _ _ => .pure (hR.refl v) trivial
  exact hfound.related

/-- A thread that is looked for is added under a handle that no other has. -/
theorem numbers_threadOf (handle : Handle) : Keeps (Numbers s) (threadOf s handle) := by
  have hR := steady_numbers s
  exact Keeps.bind hR numbers_ensureProcess fun _ =>
    Keeps.bind hR (numbers_findOrCreateThread handle) fun _ => Keeps.pure hR _

/-- Frames take the places of others, in threads that stay. -/
theorem numbers_putFrames (w : World) (i : Nat) (c : FrameChange) : Numbers s w (w.putFrames s i c) := by
  have hroom : Plain w (c.created.foldl (fun w f => w.modifyFrame f fun _ => default) w) :=
    plain_makeRoom c.created w
  exact (steady_numbers s).trans (numbers_of_threads (hroom.toStill.threads s))
    (numbers_modifyThread _ i fun _ => rfl)

/-- A thread that gets a stack keeps its handle. -/
theorem numbers_setStack (i : Nat) (stack : List Activation) : Keeps (Numbers s) (setStack s i stack) := by
  have hR := steady_numbers s
  have htrace : ∀ topic text, Keeps (Numbers s) (change (·.trace topic text)) := fun _ _ =>
    Keeps.change fun _ => numbers_of_threads rfl
  have hdirty : ∀ f, Keeps (Numbers s) (setDirty f) := fun f =>
    Keeps.numbers fun w => (plain_setDirty f w).toStill
  refine Keeps.bind hR (Keeps.get hR) fun w => ?_
  dsimp only
  split
  · exact htrace _ _
  · refine Keeps.bind hR (htrace _ _) fun _ => ?_
    refine Keeps.bind hR (Keeps.change fun w => numbers_putFrames w i _) fun _ => ?_
    refine Keeps.bind hR (Keeps.forM hR hdirty _) fun _ => ?_
    refine Keeps.bind hR (Keeps.forM hR (fun f => numbers_notify _) _) fun _ => ?_
    exact Keeps.bind hR (Keeps.forM hR (fun f => numbers_notify _) _) fun _ => numbers_notify _

/-- A thread that stops keeps its handle. -/
theorem numbers_threadSuspended (i : Nat) (reason : SuspendReason) (stack : List Activation) :
    Keeps (Numbers s) (threadSuspended s i reason stack) := by
  have hR := steady_numbers s
  refine Keeps.bind hR (Keeps.get hR) fun w => ?_
  split
  · exact Keeps.pure hR _
  · refine Keeps.bind hR (Keeps.change fun w => numbers_modifyThread w i fun _ => rfl) fun _ => ?_
    exact Keeps.bind hR (numbers_setStack i stack) fun _ => numbers_notify _

/-- A thread that goes on keeps its handle. -/
theorem numbers_threadResumed (i : Nat) (kind : ResumeKind) :
    Keeps (Numbers s) (threadResumed s i kind) := by
  have hR := steady_numbers s
  refine Keeps.bind hR (Keeps.get hR) fun w => ?_
  split
  · exact Keeps.pure hR _
  · exact Keeps.bind hR (Keeps.change fun w => numbers_modifyThread w i fun _ => rfl) fun _ =>
      numbers_notify _

/-- A thread that ends keeps its handle. -/
theorem numbers_threadTerminated (handle : Handle) :
    Keeps (Numbers s) (threadTerminated s handle) := by
  have hR := steady_numbers s
  refine Keeps.bind hR (numbers_findOrCreateThread handle) fun found => ?_
  refine Keeps.bind hR (Keeps.get hR) fun w => ?_
  split
  · exact Keeps.pure hR _
  · exact Keeps.bind hR (Keeps.change fun w => numbers_modifyThread w _ fun _ => rfl) fun _ =>
      numbers_notify _

/-- A script that is ready leaves threads their handles. -/
theorem numbers_scriptReady (script : Script) (handle : Handle) (root : Bool) :
    Keeps (Numbers s) (scriptReady s script handle root) := by
  have hR := steady_numbers s
  have hpost : ∀ w (r : Request), r.IsSent → Numbers s w (w.post s r) := by
    intro w r _
    obtain ⟨rs, hp⟩ := exists_posts_post w s r
    refine numbers_of_threads ?_
    rw [← Session.threads_model, hp.here.model, Session.threads_model]
  have hregister : ∀ w, Numbers s w (w.register s script) := fun w => numbers_of_threads (by
    rw [register, session_modifySession, if_pos rfl]
    rfl)
  rw [scriptReady_eq]
  refine Keeps.bind hR ?_ fun i => keeps_answerThread hR hregister hpost root i
  refine Keeps.bind hR (numbers_findOrCreateThread handle) fun found => ?_
  split
  · exact Keeps.pure hR _
  · exact Keeps.bind hR (numbers_notify _) fun _ => Keeps.pure hR _

/-- The threads of a session that ends are there still. -/
theorem numbers_endSession : Keeps (Numbers s) (endSession s) := by
  intro w
  have hclosed : Numbers s w (w.close s) := by
    intro h
    rw [session_close_self]
    split
    · exact h
    · refine numbered_iff.mpr ?_
      have hhandles : (w.session s).ended.threads.map Thread.handle
          = (w.session s).threads.map Thread.handle := by
        unfold Session.ended Session.threads
        cases (w.session s).process with
        | none => rfl
        | some p =>
            change (p.threads.map Thread.terminate).map Thread.handle = _
            rw [List.map_map]
            rfl
      rw [hhandles]
      exact numbered_iff.mp h
  exact (steady_numbers s).trans hclosed (numbers_of_threads ((still_endSession s w).threads s))

/-- Whatever a session hears of, its threads have handles of their own. -/
theorem numbers_handleEvent (e : Event) : Keeps (Numbers s) (handleEvent s e) := by
  have hR := steady_numbers s
  refine Keeps.bind hR (Keeps.get hR) fun w => ?_
  split
  · refine Keeps.bind hR (Keeps.change fun _ => numbers_of_threads rfl) fun _ => ?_
    cases e with
    | engineStarted => exact numbers_ensureProcess
    | scriptReady script thread root =>
        exact Keeps.bind hR numbers_ensureProcess fun _ => numbers_scriptReady script thread root
    | threadCreated thread => exact Keeps.bind hR (numbers_threadOf thread) fun _ => Keeps.pure hR _
    | threadTerminated thread =>
        exact Keeps.bind hR numbers_ensureProcess fun _ => numbers_threadTerminated thread
    | suspended thread reason stack =>
        exact Keeps.bind hR (Keeps.get hR) fun _ => Keeps.bind hR (numbers_threadOf thread) fun i =>
          numbers_threadSuspended i reason _
    | resumed thread kind =>
        exact Keeps.bind hR (numbers_threadOf thread) fun i => numbers_threadResumed i kind
    | stackFrames thread stack =>
        exact Keeps.bind hR (Keeps.get hR) fun _ => Keeps.bind hR (numbers_threadOf thread) fun i =>
          numbers_setStack i _
    | frameVariables frame reported =>
        exact Keeps.numbers (still_withInHand frame (keeps_setVariables frame reported))
    | evaluated expression frame result listener =>
        exact keeps_evaluated hR (Keeps.numbers (still_withInHand frame (keeps_deliverResult listener _)))
    | engineTerminated => exact numbers_endSession
  · exact Keeps.pure hR _

end Steps

namespace Bridge

variable {σ : Type} [Inhabited σ] [Engine σ] {s : Nat} {b : Bridge σ}

/-- A step that leaves the model as it is leaves threads their handles. -/
theorem numbers_of_model {w w' : World} (h : (w'.session s).model = (w.session s).model) :
    Numbers s w w' :=
  numbers_of_threads (by rw [← Session.threads_model, h, Session.threads_model])

/-- Whatever is met with, the threads of every session have handles of their own. -/
theorem numbered_meet (b : Bridge σ) (i : Encounter σ) : Numbers s b.world (b.meet i).world := by
  have hR := steady_numbers s
  cases touches s b i with
  | spared _ hsame _ => exact numbers_of_threads (Session.threads_of_substance hsame)
  | opened setup _ _ hnew =>
      intro _
      rw [Session.threads_of_substance hnew]
      exact List.nodup_nil
  | heard e u j _ _ hu hafter =>
      rw [hafter]
      exact hR.trans (numbers_of_model hu) (numbers_handleEvent e u)
  | left u _ hu hafter =>
      rw [hafter]
      exact hR.trans (numbers_of_model hu) (numbers_endSession u)

omit [Inhabited σ] [Engine σ] in
/-- Who asks for the end of a thread gets it if the thread is the last one, and is told its name if not. -/
theorem act_terminate (b : Bridge σ) {i : Nat} (hl : (b.world.session s).alive = true)
    (ha : (b.world.session s).attached = true) (hi : i < (b.world.session s).threads.length) :
    let asked := b.act (commandThread s i .terminate)
    ((b.world.session s).IsLast i →
        asked.1 = .ok (.ok ()) ∧ Posts s [.terminate] b.world asked.2.world)
      ∧ (¬(b.world.session s).IsLast i →
        asked.1 = .ok (.error (.terminateUnsupported (b.world.threadName s i)))
          ∧ asked.2.world = b.world) := by
  have hcan := canTerminateThread_iff (w := b.world) hl hi
  intro asked
  constructor
  · intro hlast
    have hrun : terminateThread s i b.world = .ok (.ok ()) (b.world.post s .terminate) := by
      unfold terminateThread
      rw [run_get_bind, if_pos (hcan.mpr hlast)]
      rfl
    have hasked : asked = (.ok (.ok ()), { b with world := b.world.post s .terminate }) := by
      change b.act (terminateThread s i) = _
      rw [act, hrun]
    rw [hasked]
    exact ⟨rfl, posts_post b.world s .terminate hl ha⟩
  · intro hnot
    have hrun : terminateThread s i b.world
        = .ok (.error (.terminateUnsupported (b.world.threadName s i))) b.world := by
      unfold terminateThread
      rw [run_get_bind, if_neg fun h => hnot (hcan.mp h)]
      rfl
    have hasked : asked = (.ok (.error (.terminateUnsupported (b.world.threadName s i))), b) := by
      change b.act (terminateThread s i) = _
      rw [act, hrun]
    rw [hasked]
    exact ⟨rfl, rfl⟩

/-- A thread is terminated only if it is the last one of its process. In every run, the threads of a
session have handles of their own. If the session is held and attached, to ask for the end of one of
them sends the interpreter one request to terminate if the thread is not gone and all others are;
otherwise it fails with the name of the thread, and leaves everything as it is. So this is granted for one
thread at most, and for one if one is left. No thread of any session changes by it. -/
theorem terminates_last_alone (hb : b.Fresh) (is : List (Encounter σ)) (s : Nat)
    (hl : ((b.meetAll is).world.session s).alive = true)
    (ha : ((b.meetAll is).world.session s).attached = true) :
    let c := b.meetAll is
    let x := c.world.session s
    Numbered x.threads
      ∧ (∀ i, i < x.threads.length →
        let asked := c.act (commandThread s i .terminate)
        (c.world.canTerminateThread s i = true ↔ x.IsLast i)
          ∧ (x.IsLast i → asked.1 = .ok (.ok ()) ∧ Posts s [.terminate] c.world asked.2.world)
          ∧ (¬x.IsLast i →
            asked.1 = .ok (.error (.terminateUnsupported (c.world.threadName s i)))
              ∧ asked.2.world = c.world)
          ∧ ∀ t, (asked.2.world.session t).threads = (c.world.session t).threads)
      ∧ (∀ i j, x.IsLast i → x.IsLast j → i = j)
      ∧ (x.threads.countP (fun t => t.state ≠ .terminated) = 1 → ∃ i, x.IsLast i) := by
  intro c x
  have hnumbered : Numbered (c.world.session s).threads := by
    refine meet_induction (P := fun b => Numbered (b.world.session s).threads) ?_
      (fun b i => numbered_meet b i) is
    obtain ⟨reaction, hstart⟩ := hb
    rw [hstart]
    exact List.nodup_nil
  refine ⟨hnumbered, fun i hi => ?_, fun i j => Session.IsLast.unique, exists_isLast⟩
  obtain ⟨hgranted, hrefused⟩ := act_terminate c hl ha hi
  intro asked
  refine ⟨canTerminateThread_iff hl hi, hgranted, hrefused, fun t => ?_⟩
  by_cases hlast : x.IsLast i
  · rw [← Session.threads_model, model_of_posts (hgranted hlast).2, Session.threads_model]
  · rw [(hrefused hlast).2]

/-- One thread is left, and the other was never heard of before its end. -/
theorem terminates_last_alone_main :
    let is : List (Encounter VariableTable) :=
      [.does (.launch ⟨.off, 0, true, true, true⟩), .befalls 0 (.heard (.threadCreated ⟨0, "main"⟩)),
        .befalls 0 (.heard (.threadTerminated ⟨1, "worker"⟩))]
    let c := (∅ : Bridge VariableTable).meetAll is
    (c.act (commandThread 0 0 .terminate)).1 = .ok (.ok ())
      ∧ Posts 0 [.terminate] c.world (c.act (commandThread 0 0 .terminate)).2.world
      ∧ (c.act (commandThread 0 1 .terminate)).1 = .ok (.error (.terminateUnsupported "Thread: worker"))
      ∧ (c.act (commandThread 0 1 .terminate)).2.world = c.world := by
  intro is c
  have hfresh : (∅ : Bridge VariableTable).Fresh := ⟨_, rfl⟩
  obtain ⟨-, hask, -, -⟩ :=
    terminates_last_alone hfresh is 0 (by decide +kernel) (by decide +kernel)
  obtain ⟨hmain, hgranted, -, -⟩ := hask 0 (by decide +kernel)
  obtain ⟨hworker, -, hrefused, -⟩ := hask 1 (by decide +kernel)
  have hlast : (c.world.session 0).IsLast 0 := hmain.mp (by decide +kernel)
  have hnot : ¬(c.world.session 0).IsLast 1 := fun h =>
    absurd (hworker.mpr h) (by decide +kernel)
  exact ⟨(hgranted hlast).1, (hgranted hlast).2, (hrefused hnot).1, (hrefused hnot).2⟩

end Bridge

end DebugBridge
