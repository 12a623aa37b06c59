import DebugBridge.Proofs.Revival

/-!
# Exchanges that are broken off

When a stack is reported, a thread gets its new frames at once. Then the frames that stay are marked as
out of date one by one, and the front end is told of each as soon as it is marked. If the front end fails
there, the rest of the handling is skipped: the frames behind keep the variables of an earlier stop, and
are not asked for new ones. All other changes of a thread are complete before the front end is told.

## Main definitions

* `World.Outdates`: a step of which the front end is told, and in which frames become out of date;
* `Recites`: an operation that tells one thing after another, and may be broken off in between;
* `Event.report?`: the stack that an event reports for a thread.

## Main results

* `Recites.bind`, `Recites.forM`: what is recited one after the other is recited;
* `recites_tellExchange`: the exchange of frames is recited;
* `swaps_of_report`: a thread has its new frames before the front end is told of them;
* `clean_iff_untold`: exactly the frames of which the front end was not told any more may stay clean.
-/

namespace DebugBridge

namespace World

variable {s : Nat} {marked marked' told told' : List Notice} {u v w w' : World}

/-- Whether the front end of a session is told of anything. -/
def isListening (w : World) (s : Nat) : Bool :=
  (w.session s).alive && (w.session s).observed

/-- What the front end of a session hears of some notices. -/
def hears (w : World) (s : Nat) (ns : List Notice) : List Notice :=
  if w.isListening s then ns else []

/-- It is said that the content of a frame with a number changed. -/
def Marked (ns : List Notice) (k : Nat) : Prop :=
  ∃ f : FrameRef, f.index = k ∧ .changed (.frame f) .content ∈ ns

/-- A step of which the front end is told, and in which some frames become out of date. -/
structure Outdates (s : Nat) (marked told : List Notice) (w w' : World) : Prop where
  threads : (w'.session s).threads = (w.session s).threads
  listening : w'.isListening s = w.isListening s
  notices : w'.noticesOf s = w.noticesOf s ++ told
  clean : ∀ k, ((w'.session s).frames.get k).dirty = false
    ↔ ((w.session s).frames.get k).dirty = false ∧ ¬Marked marked k

/-- A frame is said to have changed by two lists of notices if it is by one of them. -/
theorem marked_append {ns ns' : List Notice} {k : Nat} :
    Marked (ns ++ ns') k ↔ Marked ns k ∨ Marked ns' k := by
  simp [Marked, and_or_left, exists_or]

/-- Where nothing is told and no frame is said to have changed, the world is what it was. -/
theorem Outdates.refl (s : Nat) (w : World) : Outdates s [] [] w w :=
  ⟨rfl, rfl, (List.append_nil _).symm, fun k => by simp [Marked]⟩

/-- What two steps tell and make out of date, they do one after the other. -/
theorem Outdates.trans (h : Outdates s marked told u v) (h' : Outdates s marked' told' v w) :
    Outdates s (marked ++ marked') (told ++ told') u w := by
  refine ⟨h'.threads.trans h.threads, h'.listening.trans h.listening, ?_, fun k => ?_⟩
  · rw [h'.notices, h.notices, List.append_assoc]
  · rw [h'.clean, h.clean, marked_append, not_or, and_assoc]

end World

open World

section Telling

variable {s i : Nat} {all all' : List Notice} {op op' : Act PUnit} {w : World}

/-- An operation that tells the front end of one thing after another, after what it tells has come true.
If the front end fails, it is told no more, and nothing more comes true. -/
def Recites (s : Nat) (all : List Notice) (op : Act PUnit) : Prop :=
  ∀ w : World, (∃ w', op w = .ok ⟨⟩ w' ∧ Outdates s all (w.hears s all) w w')
    ∨ ∃ failure w' ns, op w = .error failure w' ∧ w.isListening s = true ∧ ns <+: all
      ∧ Outdates s ns ns w w'

/-- An operation that does nothing recites nothing. -/
theorem Recites.pure (s : Nat) : Recites s [] (pure ⟨⟩) := by
  intro w
  refine .inl ⟨w, rfl, ?_⟩
  simpa [hears] using Outdates.refl s w

/-- Two recitals make up one. -/
theorem Recites.bind (h : Recites s all op) (h' : Recites s all' op') :
    Recites s (all ++ all') (op >>= fun _ => op') := by
  intro w
  rcases h w with ⟨u, hok, hu⟩ | ⟨failure, u, ns, herror, hlistening, hns, hu⟩
  · rw [run_bind_ok hok]
    rcases h' u with ⟨w', hok', hw'⟩ | ⟨failure, w', ns, herror, hlistening, hns, hw'⟩
    · refine .inl ⟨w', hok', ?_⟩
      have htold : w.hears s all ++ u.hears s all' = w.hears s (all ++ all') := by
        rw [hears, hears, hears, hu.listening]
        split
        · rfl
        · rfl
      exact htold ▸ hu.trans hw'
    · rw [hu.listening] at hlistening
      rw [hears, if_pos hlistening] at hu
      exact .inr ⟨failure, w', all ++ ns, herror, hlistening,
        (List.prefix_append_right_inj all).mpr hns, hu.trans hw'⟩
  · exact .inr ⟨failure, u, ns, run_bind_error herror _, hlistening,
      hns.trans (List.prefix_append all all'), hu⟩

/-- To recite something of each of several things is to recite all of it. -/
theorem Recites.forM {α : Type} {f : α → Act PUnit} {n : α → Notice} {xs : List α}
    (hf : ∀ a ∈ xs, Recites s [n a] (f a)) : Recites s (xs.map n) (xs.forM f) := by
  induction xs with
  | nil => exact .pure s
  | cons x xs ih =>
      exact (hf x List.mem_cons_self).bind (ih fun a ha => hf a (List.mem_cons_of_mem x ha))

/-- A notice that is written down tells the front end, and no frame is out of date for it. -/
theorem outdates_note (s : Nat) (n : Notice) (text : String) (w : World) :
    Outdates s [] [n] w (w.note (.model s n text)) := by
  refine ⟨rfl, rfl, ?_, fun k => ?_⟩
  · rw [noticesOf_note]
    simp [Note.notice?]
  · simp [Marked, World.note, World.session]

/-- What a notification says comes true, and then the front end is told. -/
theorem recites_change_notify {n : Notice} {g : World → World} (hg : ∀ w, Outdates s [n] [] w (g w)) :
    Recites s [n] (do change g; notify s n) := by
  intro w
  have hnote := (hg w).trans (outdates_note s n ((g w).noticeText s n) (g w))
  have hlistening : (g w).isListening s = w.isListening s := (hg w).listening
  rw [isListening] at hlistening
  rw [run_change_bind, run_notify, hlistening]
  cases hl : w.isListening s with
  | false =>
      have hnone : w.hears s [n] = [] := by
        rw [hears, hl]
        rfl
      exact .inl ⟨g w, rfl, hnone.symm ▸ hg w⟩
  | true =>
      have hall : w.hears s [n] = [n] := by
        rw [hears, hl]
        rfl
      rw [if_pos rfl, hall]
      dsimp only
      cases (g w).reaction (g w).journal.notes (.model s n ((g w).noticeText s n)) with
      | none => exact .inl ⟨_, rfl, hnote⟩
      | some failure => exact .inr ⟨failure, _, [n], rfl, rfl, List.prefix_rfl, hnote⟩

/-- A notification that is not about the content of a frame. -/
theorem recites_notify {n : Notice} (hn : ∀ f, n ≠ .changed (.frame f) .content) :
    Recites s [n] (notify s n) := by
  have hnone : ∀ k, ¬Marked [n] k := by
    rintro k ⟨f, -, hf⟩
    exact hn f (List.mem_singleton.mp hf).symm
  exact recites_change_notify (g := id) fun w =>
    ⟨rfl, rfl, (List.append_nil _).symm, fun k => by simp [hnone]⟩

/-- To mark a frame as out of date recites that its content changed. -/
theorem recites_setDirty {f : FrameRef} (hf : f.session = s) :
    Recites s [.changed (.frame f) .content] (setDirty f) := by
  subst hf
  refine recites_change_notify (g := fun w => w.modifyFrame f fun state => { state with dirty := true })
    fun w => ⟨?_, ?_, (List.append_nil _).symm, fun k => ?_⟩
  · exact threads_of_still (still_modifyFrame w f _)
  · have hstill := (still_modifyFrame w f fun state => { state with dirty := true }).everywhere f.session
    rw [isListening, isListening]
    exact congrArg₂ and (congrArg Session.alive hstill :) (congrArg Session.observed hstill :)
  · have hmarked : Marked [.changed (.frame f) .content] k ↔ f.index = k := by
      simp [Marked]
    rw [modifyFrame, session_modifySession, if_pos rfl, hmarked]
    dsimp only
    rw [Arena.get_modify]
    by_cases hk : f.index = k
    · simp [hk]
    · simp [hk]

/-- The notifications of an exchange of frames, in their order. -/
def FrameChange.notices (c : FrameChange) (i : Nat) : List Notice :=
  c.reused.map (fun f => .changed (.frame f) .content) ++ (c.created.map (fun f => .created (.frame f))
    ++ (c.gone.map (fun f => .terminated (.frame f)) ++ [.changed (.thread i) .content]))

/-- To tell of an exchange of frames recites its notices. -/
theorem recites_tellExchange {c : FrameChange} (hc : ∀ f ∈ c.reused, f.session = s) :
    Recites s (c.notices i) (tellExchange s i c) :=
  (Recites.forM fun f hf => recites_setDirty (hc f hf)).bind
    ((Recites.forM fun _ _ => recites_notify (by simp)).bind
      ((Recites.forM fun _ _ => recites_notify (by simp)).bind (recites_notify (by simp))))

end Telling

/-! ### Stacks that are reported -/

/-- The stack that an event reports for a thread, and what the front end is told of the thread at
last. -/
def Event.report? (thread : Handle) (i : Nat) : Event → Option (List Activation × List Notice)
  | .suspended handle reason stack =>
    if handle.id = thread.id then some (stack, [.suspended i reason]) else none
  | .stackFrames handle stack => if handle.id = thread.id then some (stack, []) else none
  | _ => none

section Reports

variable {s i : Nat} {t : Thread} {handle : Handle} {u w : World} {e : Event} {stack : List Activation}
  {last : List Notice}

/-- Operations that end alike go on alike. -/
theorem run_bind_congr {α β : Type} {op op' : Act α} (h : op w = op' u) (f : α → Act β) :
    (op >>= f) w = (op' >>= f) u := by
  change EStateM.bind op f w = EStateM.bind op' f u
  simp only [EStateM.bind, h]

/-- A thread that is reported to be suspended is suspended before its frames are exchanged. -/
theorem run_threadSuspended (hlive : (w.thread s i).isTerminated = false) (reason : SuspendReason)
    (stack : List Activation) :
    threadSuspended s i reason stack w = (do setStack s i stack; notify s (.suspended i reason))
      (w.modifyThread s i (·.suspend reason)) := by
  rw [threadSuspended, run_get_bind, hlive]
  rfl

/-- A world that differs from another one in what is traced and in whether a thread is suspended. -/
structure World.Prepares (s i : Nat) (w u : World) : Prop where
  notices : u.noticesOf s = w.noticesOf s
  frames : (u.session s).frames = (w.session s).frames
  there : ∃ t, (u.session s).threads[i]? = some t

/-- What has threads has a process. -/
theorem process_ne_none (ht : (w.session s).threads[i]? = some t) : (w.session s).process ≠ none := by
  intro hp
  rw [threads_eq_nil hp] at ht
  cases ht

/-- The thread of a handle is found. -/
theorem findThread?_of_numbered (hn : Numbered (w.session s).threads)
    (ht : (w.session s).threads[i]? = some t) (hid : handle.id = t.handle.id) :
    (w.session s).findThread? handle = some i := by
  rw [findThread?_eq]
  cases hfind : (w.session s).threads.findIdx? (fun t => t.handle.id = handle.id) with
  | none =>
      have hnone := List.findIdx?_eq_none_iff.mp hfind t (List.mem_of_getElem? ht)
      simp [hid] at hnone
  | some j =>
      obtain ⟨hj, hsame, -⟩ := List.findIdx?_eq_some_iff_getElem.mp hfind
      have hj' := List.getElem?_eq_getElem hj
      rw [hn.index_eq ht hj' (by simpa [hid] using (of_decide_eq_true hsame).symm)]

/-- An operation that puts new frames in the place of those of a thread, and then tells the front end of
the exchange and of something else. -/
def SwapsThenTells (s i : Nat) (last : List Notice) (c : FrameChange) (w : World) (op : Act PUnit) :
    Prop :=
  ∃ u tell, Prepares s i w u ∧ op w = tell (u.putFrames s i c)
    ∧ ((∀ f ∈ c.reused, f.session = s) → Recites s (c.notices i ++ last) tell)

/-- A reported stack puts its frames in the place of those of the thread and then tells of the
exchange. -/
theorem swaps_stackFrames (hfind : (w.session s).findThread? handle = some i)
    (ha : (w.session s).attached = true) (ht : (w.session s).threads[i]? = some t)
    (hlive : t.isTerminated = false) (stack : List Activation) :
    SwapsThenTells s i [] (w.changeOf s i ((w.session s).options.shownStack stack)) w
      (handleEvent s (.stackFrames handle stack)) := by
  let w₁ := w.trace "model" ("process " ++ (Event.stackFrames handle stack).text w.marks)
  have hthread : threadOf s handle w₁ = .ok i w₁ := run_threadOf (process_ne_none ht) hfind
  have hlive₁ : (w₁.thread s i).isTerminated = false := (thread_eq ht).symm ▸ hlive
  let c := w.changeOf s i ((w.session s).options.shownStack stack)
  refine ⟨w₁.trace "model" ((w₁.thread s i).name ++ ": " ++ c.summary), tellExchange s i c,
    ⟨rfl, rfl, t, ht⟩, ?_, fun hc => ?_⟩
  · rw [handleEvent_eq ha, applyEvent, run_get_bind, run_bind_ok hthread]
    exact run_setStack hlive₁ _
  · rw [List.append_nil]
    exact recites_tellExchange hc

/-- A report that a thread is suspended puts the new frames in place, tells of the exchange, and at
last of the suspension. -/
theorem swaps_suspended (hfind : (w.session s).findThread? handle = some i)
    (ha : (w.session s).attached = true) (ht : (w.session s).threads[i]? = some t)
    (hlive : t.isTerminated = false) (reason : SuspendReason) (stack : List Activation) :
    SwapsThenTells s i [.suspended i reason] (w.changeOf s i ((w.session s).options.shownStack stack)) w
      (handleEvent s (.suspended handle reason stack)) := by
  let w₁ := w.trace "model" ("process " ++ (Event.suspended handle reason stack).text w.marks)
  have hthread : threadOf s handle w₁ = .ok i w₁ := run_threadOf (process_ne_none ht) hfind
  have hlive₁ : (w₁.thread s i).isTerminated = false := (thread_eq ht).symm ▸ hlive
  let shown := (w.session s).options.shownStack stack
  let w₂ := w₁.modifyThread s i (·.suspend reason)
  have ht₂ : (w₂.session s).threads[i]? = some (t.suspend reason) := by
    rw [threads_modifyThread, List.getElem?_modify_eq]
    exact congrArg _ ht
  have hlive₂ : (w₂.thread s i).isTerminated = false := by
    rw [thread_eq ht₂]
    rfl
  have hframes : (w₂.session s).frames = (w.session s).frames := by
    change ((w₁.modifyThread s i (·.suspend reason)).session s).frames = _
    rw [World.modifyThread, session_modifySession, if_pos rfl]
    rfl
  have hchange : w₂.changeOf s i shown = w.changeOf s i shown := by
    rw [changeOf, changeOf, thread_eq ht₂, thread_eq ht, hframes]
    rfl
  have hset := run_setStack hlive₂ shown
  rw [hchange] at hset
  refine ⟨w₂.trace "model" ((w₂.thread s i).name ++ ": " ++ (w.changeOf s i shown).summary),
    do tellExchange s i (w.changeOf s i shown); notify s (.suspended i reason),
    ⟨rfl, hframes, _, ht₂⟩, ?_, fun hc => (recites_tellExchange hc).bind (recites_notify (by simp))⟩
  rw [handleEvent_eq ha, applyEvent, run_get_bind, run_bind_ok hthread]
  exact (run_threadSuspended (w := w₁) hlive₁ reason shown).trans (run_bind_congr hset _)

/-- A stack that is reported for a thread is put in the place of its frames. -/
theorem swaps_of_report (hk : Kempt s w) (ha : (w.session s).attached = true)
    (ht : (w.session s).threads[i]? = some t) (hlive : t.isTerminated = false)
    (he : e.report? t.handle i = some (stack, last)) :
    SwapsThenTells s i last (w.changeOf s i ((w.session s).options.shownStack stack)) w
      (handleEvent s e) := by
  have hfind : ∀ {handle : Handle}, handle.id = t.handle.id →
      (w.session s).findThread? handle = some i :=
    findThread?_of_numbered hk.intact.neat.numbered ht
  cases e with
  | stackFrames handle frames =>
      rw [Event.report?] at he
      split at he
      · next hid =>
        obtain ⟨rfl, rfl⟩ := Prod.mk.inj (Option.some.inj he)
        exact swaps_stackFrames (hfind hid) ha ht hlive frames
      · cases he
  | suspended handle reason frames =>
      rw [Event.report?] at he
      split at he
      · next hid =>
        obtain ⟨rfl, rfl⟩ := Prod.mk.inj (Option.some.inj he)
        exact swaps_suspended (hfind hid) ha ht hlive reason frames
      · cases he
  | _ => cases he

variable {c : FrameChange}

/-- The notifications of an exchange, by what stays, is new and is gone. -/
theorem notices_of_stocked (hs : w.Stocked s t)
    (hc : c = .of s t.handle t.frames (w.session s).frames.size stack) :
    c.notices i = exchangeNotices i t.frames c.frames := by
  subst hc
  rw [FrameChange.notices, exchangeNotices, reused_eq_filter hs.given, created_eq_filter hs.given,
    gone_eq_filter hs.given (List.Nodup.of_map _ hs.distinct), List.append_assoc, List.append_assoc]

/-- Of the frames of a new stack those are clean that were there before and clean then. -/
theorem clean_putFrames_iff (hs : w.Stocked s t)
    (hc : c = .of s t.handle t.frames (w.session s).frames.size stack) (hp : Prepares s i w u)
    {f : FrameRef} (hf : f ∈ c.frames) :
    ((u.putFrames s i c).frame f).dirty = false ↔ f ∈ t.frames ∧ (w.frame f).dirty = false := by
  subst hc
  obtain ⟨hold, -⟩ | hnew := mem_frames_of hf
  · have hne : ∀ g ∈ (FrameChange.of s t.handle t.frames (w.session s).frames.size stack).created,
        g.index ≠ f.index := fun g hg =>
      Nat.ne_of_gt (Nat.lt_of_lt_of_le (hs.given f hold) (created_of hg).2.2.1)
    have hsame : u.frame f = w.frame f := by
      rw [World.frame, World.frame, hs.own f hold, hp.frames]
    rw [frame_putFrames_of_ne u (hs.own f hold) hne, hsame]
    simp [hold]
  · have hnot : f ∉ t.frames := fun hold =>
      Nat.not_lt_of_le (created_of hnew).2.2.1 (hs.given f hold)
    rw [frame_putFrames_created (fun g hg => (created_of hg).1) u hnew]
    simp [hnot, default]

/-- What is said of the frames of a new stack is said of those that stay, each told by its number. -/
theorem marked_iff_mem (hs : w.Stocked s t)
    (hc : c = .of s t.handle t.frames (w.session s).frames.size stack)
    (hlast : ∀ f, .changed (.frame f) .content ∉ last) {ns : List Notice}
    (hns : ∀ n ∈ ns, n ∈ c.notices i ++ last) {f : FrameRef} (hf : f ∈ c.frames) :
    Marked ns f.index ↔ .changed (.frame f) .content ∈ ns := by
  constructor
  · rintro ⟨g, hindex, hg⟩
    have hstays : g ∈ c.reused := by
      rcases List.mem_append.mp (hns _ hg) with hg | hg
      · simpa [FrameChange.notices] using hg
      · exact absurd hg (hlast g)
    have hthere : g ∈ c.frames := by
      rw [hc, reused_eq_filter hs.given, ← hc] at hstays
      exact (List.mem_filter.mp hstays).1
    have hdistinct : (c.frames.map FrameRef.index).Nodup :=
      hc ▸ nodup_frames_of stack hs.distinct hs.given
    rwa [← List.inj_on_of_nodup_map hdistinct hthere hf hindex]
  · exact fun hg => ⟨f, rfl, hg⟩

/-- What the front end is told of a thread at last says of no frame that its content changed. -/
theorem notMem_last_of_report (he : e.report? t.handle i = some (stack, last)) (f : FrameRef) :
    .changed (.frame f) .content ∉ last := by
  cases e with
  | suspended handle reason frames =>
      rw [Event.report?] at he
      split at he
      · obtain ⟨-, rfl⟩ := Prod.mk.inj (Option.some.inj he)
        simp
      · cases he
  | stackFrames handle frames =>
      rw [Event.report?] at he
      split at he
      · obtain ⟨-, rfl⟩ := Prod.mk.inj (Option.some.inj he)
        simp
      · cases he
  | _ => cases he

/-- What is told after an exchange, and what comes true of it, whether it is all of it or not. -/
theorem World.Outdates.after_exchange {marked told : List Notice} {w' : World} (hs : w.Stocked s t)
    (hc : c = .of s t.handle t.frames (w.session s).frames.size stack) (hp : Prepares s i w u)
    (h : Outdates s marked told (u.putFrames s i c) w') :
    (w'.thread s i).frames = c.frames ∧ w'.noticesOf s = w.noticesOf s ++ told
      ∧ ∀ f ∈ c.frames, (w'.frame f).dirty = false
        ↔ f ∈ t.frames ∧ (w.frame f).dirty = false ∧ ¬Marked marked f.index := by
  obtain ⟨t', ht'⟩ := hp.there
  have hthread : (w'.session s).threads[i]? = some { t' with frames := c.frames } := by
    rw [h.threads, getElem?_putFrames, ht', Option.map_some, if_pos rfl]
  have hjournal : (u.putFrames s i c).noticesOf s = u.noticesOf s :=
    noticesOf_congr (congrArg Journal.notes (sight_makeRoom c.created u).2.2 :)
  refine ⟨by rw [thread_eq hthread], by rw [h.notices, hjournal, hp.notices], fun f hf => ?_⟩
  have hsession : f.session = s := by
    rw [hc] at hf
    obtain ⟨hold, -⟩ | hnew := mem_frames_of hf
    · exact hs.own f hold
    · exact (created_of hnew).1
  have hclean := clean_putFrames_iff hs hc hp hf
  rw [World.frame, hsession] at hclean ⊢
  rw [h.clean, hclean, and_assoc]

/-- A thread has the frames of the stack that was reported for it, even if the front end fails. Those
that stay are out of date as far as the front end was told so. -/
theorem clean_of_report (hk : Kempt s w) (ha : (w.session s).attached = true)
    (ht : (w.session s).threads[i]? = some t) (hlive : t.isTerminated = false)
    (he : e.report? t.handle i = some (stack, last)) :
    ((worldAfter (handleEvent s e) w).thread s i).frames.map (·.activation.id)
        = ((w.session s).options.shownStack stack).map (·.id)
      ∧ ∃ ns, (worldAfter (handleEvent s e) w).noticesOf s = w.noticesOf s ++ ns
        ∧ ns <+: exchangeNotices i t.frames ((worldAfter (handleEvent s e) w).thread s i).frames ++ last
        ∧ ∀ f ∈ ((worldAfter (handleEvent s e) w).thread s i).frames,
          ((worldAfter (handleEvent s e) w).frame f).dirty = false ↔ f ∈ t.frames
            ∧ (w.frame f).dirty = false
            ∧ (∃ failure, handleEvent s e w = .error failure (worldAfter (handleEvent s e) w))
            ∧ .changed (.frame f) .content ∉ ns := by
  have hs := hk.stocked (List.mem_of_getElem? ht)
  obtain ⟨u, tell, hp, hrun, hrecites⟩ := swaps_of_report hk ha ht hlive he
  generalize hchange : w.changeOf s i ((w.session s).options.shownStack stack) = c at hrun hrecites
  have hc : c = .of s t.handle t.frames (w.session s).frames.size
      ((w.session s).options.shownStack stack) := by
    rw [← hchange, changeOf, thread_eq ht]
  have hlast := notMem_last_of_report he
  have hids : c.frames.map (·.activation.id) = ((w.session s).options.shownStack stack).map (·.id) := by
    have hstands := forall₂_frames_of s t.handle ((w.session s).options.shownStack stack) t.frames
      (w.session s).frames.size
    rw [← hc] at hstands
    exact List.forall₂_eq_eq_eq ▸ List.forall₂_map_left_iff.mpr
      (List.forall₂_map_right_iff.mpr (hstands.imp fun _ _ h => h.1))
  have hreused : c.reused = c.frames.filter (· ∈ t.frames) := by
    rw [hc]
    exact reused_eq_filter hs.given
  have hown : ∀ f ∈ c.reused, f.session = s := by
    intro f hf
    rw [hreused] at hf
    exact hs.own f (by simpa using (List.mem_filter.mp hf).2)
  rcases hrecites hown (u.putFrames s i c) with ⟨w', hok, hw'⟩ | ⟨failure, w', ns, herror, -, hns, hw'⟩
  · rw [← hrun] at hok
    have hafter : worldAfter (handleEvent s e) w = w' := by
      rw [worldAfter, hok]
    obtain ⟨hframes, hnotices, hclean⟩ := hw'.after_exchange hs hc hp
    rw [hafter, hframes]
    refine ⟨hids, _, hnotices, ?_, fun f hf => ?_⟩
    · rw [notices_of_stocked hs hc, hears]
      split
      · exact List.prefix_rfl
      · exact List.nil_prefix
    · rw [hclean f hf, hok]
      constructor
      · rintro ⟨hold, -, hmarked⟩
        refine absurd ((marked_iff_mem hs hc hlast (fun _ h => h) hf).mpr ?_) hmarked
        have hstays : f ∈ c.reused := by
          rw [hreused]
          simp [hf, hold]
        simp [FrameChange.notices, hstays]
      · rintro ⟨-, -, ⟨failure, hfailed⟩, -⟩
        cases hfailed
  · rw [← hrun] at herror
    have hafter : worldAfter (handleEvent s e) w = w' := by
      rw [worldAfter, herror]
    obtain ⟨hframes, hnotices, hclean⟩ := hw'.after_exchange hs hc hp
    rw [hafter, hframes]
    refine ⟨hids, ns, hnotices, notices_of_stocked hs hc ▸ hns, fun f hf => ?_⟩
    rw [hclean f hf, marked_iff_mem hs hc hlast (fun _ h => hns.subset h) hf, herror]
    simp

/-- Whatever happened before, a thread that has not terminated has the frames of the stack that is
reported for it, whether the front end fails meanwhile or not. They are out of date, with one exception:
if the front end fails before it is told of a frame that stays, the frame is clean if it was. -/
theorem clean_iff_untold (hp : (w.session s).process = none)
    (hn : ∀ n ∈ w.noticesOf s, n = .created .target) (before : List Happening)
    (ha : ((w.afterAll s before).session s).attached = true)
    (ht : ((w.afterAll s before).session s).threads[i]? = some t) (hlive : t.isTerminated = false)
    (he : e.report? t.handle i = some (stack, last)) :
    let u := w.afterAll s before
    let v := worldAfter (handleEvent s e) u
    (v.thread s i).frames.map (·.activation.id) = ((u.session s).options.shownStack stack).map (·.id)
      ∧ ∃ ns, v.noticesOf s = u.noticesOf s ++ ns
        ∧ ns <+: exchangeNotices i t.frames (v.thread s i).frames ++ last
        ∧ ∀ f ∈ (v.thread s i).frames, (v.frame f).dirty = false ↔ f ∈ t.frames
          ∧ (u.frame f).dirty = false ∧ (∃ failure, handleEvent s e u = .error failure v)
          ∧ .changed (.frame f) .content ∉ ns :=
  clean_of_report (kempt_afterAll (kempt_of_unheard hp hn) before) ha ht hlive he

/-- A front end that fails at one of the notifications, in a session that was just opened. -/
def failingAt (count : Nat) : World :=
  { opening with reaction := fun notes _ => if notes.size = count then some "no" else none }

/-- The second of two frames is not asked for its variables again, because of a failure at the first. -/
theorem clean_iff_untold_second :
    let thread : Handle := ⟨0, "main"⟩
    let inner : FrameRef := ⟨0, 0, thread, ⟨0, ⟨1, "a", none, false⟩, .function, none⟩⟩
    let outer : FrameRef := ⟨0, 1, thread, ⟨1, ⟨1, "a", none, false⟩, .file, none⟩⟩
    let stop : Event := .suspended thread .breakpoint [inner.activation, outer.activation]
    let before : List Happening := [.attached ∅, .heard stop, .heard (.frameVariables inner []),
      .heard (.frameVariables outer [])]
    let v := worldAfter (handleEvent 0 stop) ((failingAt 9).afterAll 0 before)
    (v.thread 0 0).frames = [inner, outer] ∧ (v.frame inner).dirty = true
      ∧ (v.frame outer).dirty = false := by
  intro thread inner outer stop before v
  let t : Thread := ⟨thread, .suspended, some .breakpoint, [inner, outer]⟩
  have hp : ((failingAt 9).session 0).process = none := by decide +kernel
  have hn : ∀ n ∈ (failingAt 9).noticesOf 0, n = .created .target := by decide +kernel
  have ha : (((failingAt 9).afterAll 0 before).session 0).attached = true := by decide +kernel
  have ht : (((failingAt 9).afterAll 0 before).session 0).threads[0]? = some t := by decide +kernel
  have hframes : (v.thread 0 0).frames = [inner, outer] := by decide +kernel
  have hall : v.noticesOf 0
      = ((failingAt 9).afterAll 0 before).noticesOf 0 ++ [.changed (.frame inner) .content] := by
    decide +kernel
  have hbroken : (match handleEvent 0 stop ((failingAt 9).afterAll 0 before) with
      | .ok _ _ => false | .error _ _ => true) = true := by
    decide +kernel
  have hclean : (((failingAt 9).afterAll 0 before).frame outer).dirty = false := by decide +kernel
  have he : stop.report? t.handle 0
      = some ([inner.activation, outer.activation], [.suspended 0 .breakpoint]) := rfl
  obtain ⟨-, ns, hnotices, -, hiff⟩ := clean_iff_untold hp hn before ha ht rfl he
  have hns : ns = [.changed (.frame inner) .content] :=
    List.append_cancel_left (hnotices.symm.trans hall)
  have hfails : ∃ failure, handleEvent 0 stop ((failingAt 9).afterAll 0 before) = .error failure v := by
    have hv : v = worldAfter (handleEvent 0 stop) ((failingAt 9).afterAll 0 before) := rfl
    cases hrun : handleEvent 0 stop ((failingAt 9).afterAll 0 before) with
    | ok a v' => simp [hrun] at hbroken
    | error failure v' =>
        rw [worldAfter, hrun] at hv
        exact ⟨failure, by rw [hv]⟩
  have hinner := hiff inner (by rw [hframes]; simp)
  have houter := hiff outer (by rw [hframes]; simp)
  refine ⟨hframes, ?_, houter.mpr ⟨by simp [t], hclean, hfails, by rw [hns]; decide⟩⟩
  rw [hns] at hinner
  simpa using hinner

end Reports

end DebugBridge
