import DebugBridge.Proofs.Exchange
import DebugBridge.Proofs.Integrity

/-!
# What is told of threads and frames that are gone

A thread is gone when it has terminated, a frame when it is on no stack any more, be it that the stack
changed or that its thread has terminated. What is gone stays gone, and the front end is told nothing
of it any more, with two exceptions. A script that is ready for a thread that is gone still changes the
content of the thread, and variables that are listed for a frame that is gone still change the content
of the frame. Nobody looks there whether the thread or the frame is still there.

## Main definitions

* `Part`, `Session.Lost`: threads and frames, and those that are gone;
* `World.noticesOf`, `World.toldOf`: what the front end of a session was told, of all and of one part;
* `World.Accounts`: a step in which the front end is told nothing of what is gone, but for an echo;
* `World.echo`, `World.echoes`: what it is told nevertheless.

## Main results

* `accounts_after`: the steps;
* `stocked_afterAll`: frames are told apart by their numbers in every run;
* `lost_of_terminated`: the frames that a thread had are gone when it has terminated;
* `told_of_lost`: what the front end is told of what is gone.
-/

namespace DebugBridge

/-! ### Threads and frames -/

/-- A thread of a session, or a frame, by its number. -/
inductive Part where
  | thread (i : Nat)
  | frame (k : Nat)
deriving DecidableEq

/-- The thread or the frame that an element is. -/
def Element.part? : Element → Option Part
  | .thread i => some (.thread i)
  | .frame f => some (.frame f.index)
  | .target | .process => none

/-- The thread or the frame that a notification is about. -/
def Notice.part? : Notice → Option Part
  | .created e | .terminated e | .changed e _ => e.part?
  | .suspended i _ | .resumed i _ => some (.thread i)

/-- The thread or the frame that a notification says is gone. -/
def Notice.ends? : Notice → Option Part
  | .terminated e => e.part?
  | _ => none

/-- What the front end of a session was told by a note. -/
def Note.notice? (s : Nat) : Note → Option Notice
  | .model t notice _ => if t = s then some notice else none
  | _ => none

/-- A thread that has terminated, or a frame that was given out and is on no stack. -/
def Session.Lost (x : Session) : Part → Prop
  | .thread i => ∃ t, x.threads[i]? = some t ∧ t.isTerminated = true
  | .frame k => k < x.frames.size ∧ ∀ t ∈ x.threads, ∀ f ∈ t.frames, f.index ≠ k

/-- What is said to be gone is what the notification is about. -/
theorem Notice.part?_of_ends? {n : Notice} {x : Part} (h : n.ends? = some x) : n.part? = some x := by
  cases n <;> first | exact h | cases h

/-- What is gone stays gone while threads stay as they are. -/
theorem Session.Lost.of_threads {x x' : Session} {p : Part} (h : x.Lost p)
    (ht : x'.threads = x.threads) (hroom : x.frames.size ≤ x'.frames.size) : x'.Lost p := by
  cases p with
  | thread i =>
      obtain ⟨t, hi, hgone⟩ := h
      exact ⟨t, ht ▸ hi, hgone⟩
  | frame k => exact ⟨Nat.lt_of_lt_of_le h.1 hroom, fun t hmem => h.2 t (ht ▸ hmem)⟩

namespace World

variable {s : Nat} {u v w w' : World} {echo : Part → List Notice}

/-- What the front end of a session was told. -/
def noticesOf (w : World) (s : Nat) : List Notice :=
  w.journal.notes.toList.filterMap (Note.notice? s)

/-- What the front end of a session was told of a thread or a frame. -/
def toldOf (w : World) (s : Nat) (x : Part) : List Notice :=
  (w.noticesOf s).filter (·.part? = some x)

/-- A note for the front end of a session comes behind what that was told. -/
theorem noticesOf_note (w : World) (n : Note) :
    (w.note n).noticesOf s = w.noticesOf s ++ (n.notice? s).toList := by
  unfold noticesOf note Journal.note
  rw [Array.toList_push, List.filterMap_append]
  cases h : n.notice? s <;> simp [h]

/-- What a front end was told can be read from the notes. -/
theorem noticesOf_congr (h : w'.journal.notes = w.journal.notes) : w'.noticesOf s = w.noticesOf s := by
  rw [noticesOf, noticesOf, h]

/-- A step in which what is gone stays gone. The front end is told nothing of it but an echo, and when
it is told that something is gone that is so. -/
structure Accounts (s : Nat) (echo : Part → List Notice) (w w' : World) : Prop where
  lost : ∀ x, (w.session s).Lost x → (w'.session s).Lost x
  told : ∃ ns, w'.noticesOf s = w.noticesOf s ++ ns
    ∧ (∀ n ∈ ns, ∀ x, n.ends? = some x → (w'.session s).Lost x)
    ∧ ∀ x, (w.session s).Lost x → ns.filter (·.part? = some x) = echo x

/-- No echo. -/
def quiet : Part → List Notice :=
  fun _ => []

/-- A step in which nobody is told anything of what is gone, and then another step. -/
theorem Accounts.after (h : Accounts s quiet u v) (h' : Accounts s echo v w) : Accounts s echo u w := by
  obtain ⟨ns, hns, hends, hquiet⟩ := h.told
  obtain ⟨ns', hns', hends', hecho⟩ := h'.told
  refine ⟨fun x hx => h'.lost x (h.lost x hx), ns ++ ns', ?_, fun n hn x hx => ?_, fun x hx => ?_⟩
  · rw [hns', hns, List.append_assoc]
  · rcases List.mem_append.mp hn with hn | hn
    · exact h'.lost x (hends n hn x hx)
    · exact hends' n hn x hx
  · rw [List.filter_append, hquiet x hx, hecho x (h.lost x hx)]
    rfl

/-- A step, and then one in which nobody is told anything of what is gone. -/
theorem Accounts.before (h : Accounts s echo u v) (h' : Accounts s quiet v w) : Accounts s echo u w := by
  obtain ⟨ns, hns, hends, hecho⟩ := h.told
  obtain ⟨ns', hns', hends', hquiet⟩ := h'.told
  refine ⟨fun x hx => h'.lost x (h.lost x hx), ns ++ ns', ?_, fun n hn x hx => ?_, fun x hx => ?_⟩
  · rw [hns', hns, List.append_assoc]
  · rcases List.mem_append.mp hn with hn | hn
    · exact h'.lost x (hends n hn x hx)
    · exact hends' n hn x hx
  · rw [List.filter_append, hecho x hx, hquiet x (h.lost x hx)]
    exact List.append_nil _

/-- A step of which nobody is told. -/
theorem accounts_of_silent (hn : w'.noticesOf s = w.noticesOf s)
    (hl : ∀ x, (w.session s).Lost x → (w'.session s).Lost x) : Accounts s quiet w w' :=
  ⟨hl, [], by rw [hn, List.append_nil], List.forall_mem_nil _, fun _ _ => rfl⟩

/-- A step that tells nothing and changes no thread is accounted for. -/
theorem accounts_of_threads (hn : w'.noticesOf s = w.noticesOf s)
    (ht : (w'.session s).threads = (w.session s).threads)
    (hroom : (w.session s).frames.size ≤ (w'.session s).frames.size) : Accounts s quiet w w' :=
  accounts_of_silent hn fun _ h => h.of_threads ht hroom

/-- A step that tells nothing and changes no session is accounted for. -/
theorem accounts_of_sessions (hn : w'.noticesOf s = w.noticesOf s) (hs : w'.sessions = w.sessions) :
    Accounts s quiet w w' := by
  have hsame : w'.session s = w.session s := by rw [session, session, hs]
  exact accounts_of_threads hn (by rw [hsame]) (Nat.le_of_eq (by rw [hsame]))

/-- Steps that are accounted for, without echoes, hold of a sequence. -/
theorem steady_accounts (s : Nat) : Steady (Accounts s quiet) where
  refl _ := accounts_of_sessions rfl rfl
  trans h h' := h.after h'

/-! ### Front ends that are told -/

/-- A step that leaves the threads of a session as they are, with what is given out, in which its front
end is told what has a property. -/
structure Utters (s : Nat) (P : Notice → Prop) (w w' : World) : Prop where
  threads : (w'.session s).threads = (w.session s).threads
  room : (w.session s).frames.size ≤ (w'.session s).frames.size
  told : ∃ ns, w'.noticesOf s = w.noticesOf s ++ ns ∧ ∀ n ∈ ns, P n

/-- What is told in a sequence of steps has a property if it has in each. -/
theorem steady_utters (s : Nat) (P : Notice → Prop) : Steady (Utters s P) where
  refl w := ⟨rfl, Nat.le_refl _, [], by rw [List.append_nil], List.forall_mem_nil _⟩
  trans h h' := by
    obtain ⟨ns, hns, hP⟩ := h.told
    obtain ⟨ns', hns', hP'⟩ := h'.told
    refine ⟨h'.threads.trans h.threads, Nat.le_trans h.room h'.room, ns ++ ns', ?_, fun n hn => ?_⟩
    · rw [hns', hns, List.append_assoc]
    · exact (List.mem_append.mp hn).elim (hP n) (hP' n)

/-- A notification after a step from one world to another: what it is about was not gone before, and
what it says is gone is gone after. -/
def Suits (s : Nat) (w w' : World) (n : Notice) : Prop :=
  ∀ x, n.part? = some x → ¬(w.session s).Lost x ∧ (n.ends? = some x → (w'.session s).Lost x)

/-- A step of which the front end is told when it is done. -/
theorem Utters.accounts (h : Utters s (Suits s w u) u w') (hn : u.noticesOf s = w.noticesOf s)
    (hl : ∀ x, (w.session s).Lost x → (u.session s).Lost x) : Accounts s quiet w w' := by
  obtain ⟨ns, hns, hsuits⟩ := h.told
  refine ⟨fun x hx => (hl x hx).of_threads h.threads h.room, ns, hns.trans (by rw [hn]),
    fun n hmem x hx => ?_, fun x hx => ?_⟩
  · exact ((hsuits n hmem x (Notice.part?_of_ends? hx)).2 hx).of_threads h.threads h.room
  · refine List.filter_eq_nil_iff.mpr fun n hmem hpart => ?_
    exact (hsuits n hmem x (by simpa using hpart)).1 hx

end World

open World

section Told

variable {s : Nat} {w : World}

/-- A notification with a property may be told. -/
theorem utters_notify {t : Nat} {P : Notice → Prop} {n : Notice} (hn : t = s → P n) :
    Keeps (Utters s P) (notify t n) := by
  intro w
  have hnote : Utters s P w (w.note (.model t n (w.noticeText t n))) := by
    refine ⟨rfl, Nat.le_refl _, _, noticesOf_note w _, fun n' hmem => ?_⟩
    unfold Note.notice? at hmem
    dsimp only at hmem
    split at hmem
    · next ht =>
        obtain rfl := List.mem_singleton.mp hmem
        exact hn ht
    · cases hmem
  unfold worldAfter
  obtain hok | hok | ⟨failure, herror⟩ := notify_outcomes t n w
  · rw [hok]
    exact (steady_utters s P).refl w
  · rw [hok]
    exact hnote
  · rw [herror]
    exact hnote

/-- Where the front end is told of an element that is neither a thread nor a frame. -/
theorem accounts_notify {n : Notice} (hn : n.part? = none) : Keeps (Accounts s quiet) (notify s n) := by
  intro w
  refine (utters_notify (fun _ x hx => ?_) w).accounts rfl fun _ => id
  rw [hn] at hx
  cases hx

end Told

/-! ### Frames on stacks -/

/-- What is done for the elements of a list keeps what is kept for each of them. -/
theorem Keeps.forM_of_mem {α : Type} {R : World → World → Prop} (hR : Steady R) {f : α → Act PUnit}
    {xs : List α} (hf : ∀ a ∈ xs, Keeps R (f a)) : Keeps R (xs.forM f) := by
  induction xs with
  | nil => exact Keeps.pure hR _
  | cons x xs ih =>
      refine Keeps.bind hR (hf x List.mem_cons_self) fun _ => ?_
      exact ih fun a ha => hf a (List.mem_cons_of_mem x ha)

/-- What is attained goes with what is kept. -/
theorem Attains.of_keeps {α : Type} {R R' : World → World → Prop} {op : Act α} {w : World}
    {Q : α → World → Prop} (h : Attains R op w Q) (hk : R' w (worldAfter op w)) :
    Attains R' op w fun a w' => R w w' ∧ Q a w' := by
  unfold Attains at h ⊢
  unfold worldAfter at hk
  cases hop : op w with
  | ok a w' =>
      rw [hop] at h hk
      exact ⟨hk, h⟩
  | error e w' =>
      rw [hop] at hk
      exact hk

/-- Threads with numbers of their own are at one place only. -/
theorem Numbered.index_eq {ts : List Thread} (h : Numbered ts) {i j : Nat} {t t' : Thread}
    (ht : ts[i]? = some t) (ht' : ts[j]? = some t') (hid : t.handle.id = t'.handle.id) : i = j := by
  have hi : (ts.map (·.handle.id))[i]? = some t.handle.id := by rw [List.getElem?_map, ht]; rfl
  have hj : (ts.map (·.handle.id))[j]? = some t.handle.id := by rw [List.getElem?_map, ht', hid]; rfl
  exact (List.getElem?_inj (List.getElem?_eq_some_iff.mp hi).1 h).mp (hi.trans hj.symm)

namespace World

variable {s : Nat} {u v w w' : World}

/-- A session with its tree in order, whose frames are told apart by their numbers. -/
structure Kempt (s : Nat) (w : World) : Prop where
  intact : Intact s w
  charted : ∃ S, Charted s S w

/-- A step after which the frames that were told apart by their numbers still are, with those that came
into being. -/
def Recharts (s : Nat) (w w' : World) : Prop :=
  ∀ S, Charted s S w → ∃ S', (∀ f, S f → S' f) ∧ Charted s S' w'

/-- Frames that were told apart remain so in a sequence of steps. -/
theorem steady_recharts (s : Nat) : Steady (Recharts s) where
  refl w S h := ⟨S, fun _ => id, h⟩
  trans h h' S hS := by
    obtain ⟨S', hle, hS'⟩ := h S hS
    obtain ⟨S'', hle', hS''⟩ := h' S' hS'
    exact ⟨S'', fun f hf => hle' f (hle f hf), hS''⟩

/-- Threads that are grouped anew leave frames told apart. -/
theorem Regroups.recharts (h : Regroups s w w') : Recharts s w w' :=
  fun _ hS => ⟨_, fun _ => .inl, h.charted hS⟩

/-- A step that changes no thread leaves frames told apart. -/
theorem recharts_of_threads (ht : (w'.session s).threads = (w.session s).threads)
    (hroom : (w.session s).frames.size ≤ (w'.session s).frames.size) : Recharts s w w' :=
  (regroups_of_eq hroom ht).recharts

/-- A step that keeps the tree in order, with frames told apart, keeps the session kempt. -/
theorem Kempt.step (h : Kempt s w) (hu : Upholds s w w') (hr : Recharts s w w') : Kempt s w' := by
  obtain ⟨S, hS⟩ := h.charted
  obtain ⟨S', -, hS'⟩ := hr S hS
  exact ⟨(hu h.intact).1, S', hS'⟩

/-- A frame of a thread that is looked up by its number is a frame of a thread. -/
theorem exists_of_mem_thread {i : Nat} {f : FrameRef} (h : f ∈ (w.thread s i).frames) :
    ∃ t, (w.session s).threads[i]? = some t ∧ f ∈ t.frames := by
  unfold thread Session.thread at h
  cases ht : (w.session s).threads[i]? with
  | none =>
      rw [ht] at h
      cases h
  | some t =>
      rw [ht] at h
      exact ⟨t, rfl, h⟩

/-- A frame on a stack is not gone. -/
theorem not_lost_of_mem {i : Nat} {f : FrameRef} (h : f ∈ (w.thread s i).frames) :
    ¬(w.session s).Lost (.frame f.index) := by
  obtain ⟨t, ht, hf⟩ := exists_of_mem_thread h
  exact fun hlost => hlost.2 t (List.mem_of_getElem? ht) f hf rfl

/-- A thread that has not terminated is not gone. -/
theorem not_lost_thread {i : Nat} (h : (w.thread s i).isTerminated = false) :
    ¬(w.session s).Lost (.thread i) := by
  rintro ⟨t, ht, hgone⟩
  rw [thread_eq ht, hgone] at h
  cases h

/-- Frames of different threads are different, and so are their numbers. -/
theorem Kempt.apart (h : Kempt s w) {i j : Nat} {t t' : Thread} {f g : FrameRef}
    (ht : (w.session s).threads[i]? = some t) (ht' : (w.session s).threads[j]? = some t')
    (hf : f ∈ t.frames) (hg : g ∈ t'.frames) (hindex : g.index = f.index) : g = f ∧ j = i := by
  obtain ⟨S, hS⟩ := h.charted
  obtain ⟨hSf, hhf⟩ := hS.placed t (List.mem_of_getElem? ht) f hf
  obtain ⟨hSg, hhg⟩ := hS.placed t' (List.mem_of_getElem? ht') g hg
  have hsame : g = f := hS.distinct g f hSg hSf hindex
  refine ⟨hsame, ?_⟩
  exact h.intact.neat.numbered.index_eq ht' ht (by rw [← hhg, ← hhf, hsame])

end World

/-! ### Threads that get other frames -/

namespace World

variable {s i : Nat} {stack : List Activation} {w w' : World} {f : FrameRef}

/-- The frames of the threads after one of them got other frames. -/
theorem getElem?_putFrames (c : FrameChange) (j : Nat) :
    ((w.putFrames s i c).session s).threads[j]?
      = ((w.session s).threads[j]?).map fun t => if i = j then { t with frames := c.frames } else t := by
  rw [threads_putFrames, List.getElem?_modify]
  cases (w.session s).threads[j]? with
  | none => rfl
  | some t => by_cases hij : i = j <;> simp [hij]

/-- Frames that are put on a stack do not make its thread end or begin. -/
theorem isTerminated_putFrames (c : FrameChange) (j : Nat) :
    ((w.putFrames s i c).thread s j).isTerminated = (w.thread s j).isTerminated := by
  rw [thread, thread, Session.thread, Session.thread, getElem?_putFrames]
  cases (w.session s).threads[j]? with
  | none => rfl
  | some t => by_cases hij : i = j <;> simp [hij, Thread.isTerminated]

/-- Frames that are put on a stack leave those that were given out. -/
theorem room_putFrames (c : FrameChange) :
    (w.session s).frames.size ≤ ((w.putFrames s i c).session s).frames.size := by
  rw [frames_putFrames]
  exact (plain_makeRoom c.created w).mild.room s

/-- What is gone is on no reported stack. -/
theorem lost_putFrames (hgone : (w.thread s i).isTerminated = false) (stack : List Activation)
    {x : Part} (h : (w.session s).Lost x) : ((w.putFrames s i (w.changeOf s i stack)).session s).Lost x := by
  cases x with
  | thread j =>
      have hne : i ≠ j := by
        rintro rfl
        exact not_lost_thread hgone h
      obtain ⟨t, ht, hterminated⟩ := h
      exact ⟨t, by rw [getElem?_putFrames, ht, Option.map_some, if_neg hne], hterminated⟩
  | frame k =>
      refine ⟨Nat.lt_of_lt_of_le h.1 (room_putFrames _), fun t ht f hf => ?_⟩
      rw [threads_putFrames] at ht
      obtain ht | ⟨t₀, ht₀, rfl⟩ := mem_threads_modify ht
      · exact h.2 t ht f hf
      · obtain ⟨hold, -⟩ | hnew := mem_frames_of hf
        · rw [thread_eq ht₀] at hold
          exact h.2 t₀ (List.mem_of_getElem? ht₀) f hold
        · exact Nat.ne_of_gt (Nat.lt_of_lt_of_le h.1 (created_of hnew).2.2.1)

/-- It may be told that a frame that stays changed. -/
theorem suits_reused (h : f ∈ (w.changeOf s i stack).reused) :
    Suits s w w' (.changed (.frame f) .content) := by
  rintro x hx
  cases hx
  have hold : f ∈ (w.thread s i).frames :=
    (perm_reused_gone s _ stack _ _).mem_iff.mpr (List.mem_append_left _ h)
  exact ⟨not_lost_of_mem hold, nofun⟩

/-- It may be told that a frame that is new was created. -/
theorem suits_created (h : f ∈ (w.changeOf s i stack).created) :
    Suits s w w' (.created (.frame f)) := by
  rintro x hx
  cases hx
  exact ⟨fun hlost => Nat.not_lt_of_le (created_of h).2.2.1 hlost.1, nofun⟩

/-- A frame that left the stack of its thread is on no other. -/
theorem suits_gone (hk : Kempt s w) (h : f ∈ (w.changeOf s i stack).gone) :
    Suits s w (w.putFrames s i (w.changeOf s i stack)) (.terminated (.frame f)) := by
  rintro x hx
  cases hx
  have hneat := hk.intact.thread i
  have hold : f ∈ (w.thread s i).frames := (gone_sublist s _ stack _ _).subset h
  obtain ⟨t, ht, hf⟩ := exists_of_mem_thread hold
  refine ⟨not_lost_of_mem hold, fun _ => ⟨?_, fun t' ht' g hg hindex => ?_⟩⟩
  · exact Nat.lt_of_lt_of_le (hneat.given f hold) (room_putFrames _)
  · obtain ⟨j, hj⟩ := List.mem_iff_getElem?.mp ht'
    rw [getElem?_putFrames] at hj
    obtain ⟨t₀, ht₀, rfl⟩ := Option.map_eq_some_iff.mp hj
    by_cases hij : i = j
    · rw [if_pos hij] at hg
      -- It is not on the new stack of its own thread either.
      have hleft : f ∉ (w.changeOf s i stack).frames := by
        have hgone : (w.changeOf s i stack).gone
            = (w.thread s i).frames.filter (· ∉ (w.changeOf s i stack).frames) :=
          gone_eq_filter hneat.given (List.Nodup.of_map _ hneat.distinct)
        rw [hgone] at h
        simpa using (List.mem_filter.mp h).2
      obtain ⟨hgold, -⟩ | hnew := mem_frames_of hg
      · obtain ⟨t₁, ht₁, hg₁⟩ := exists_of_mem_thread hgold
        exact hleft ((hk.apart ht ht₁ hf hg₁ hindex).1 ▸ hg)
      · exact absurd (hneat.given f hold) (Nat.not_lt_of_le (hindex ▸ (created_of hnew).2.2.1))
    · rw [if_neg hij] at hg
      exact hij (hk.apart ht ht₀ hf hg hindex).2.symm

end World

section Operations

variable {s i : Nat} {w : World}

/-- Where only the end counts. -/
theorem Attains.of_related {α : Type} {R : World → World → Prop} {op : Act α} {w : World}
    (h : R w (worldAfter op w)) : Attains R op w fun _ _ => True := by
  unfold worldAfter at h
  unfold Attains
  cases hop : op w with
  | ok a w' =>
      rw [hop] at h
      exact ⟨h, trivial⟩
  | error e w' =>
      rw [hop] at h
      exact h

/-- What is attained after a step is attained from before it. -/
theorem Attains.of_run {α : Type} {R R' : World → World → Prop} {op op' : Act α} {w u : World}
    {Q : α → World → Prop} (h : Attains R op' u Q) (hrun : op w = op' u)
    (hR : ∀ w', R u w' → R' w w') : Attains R' op w Q := by
  unfold Attains at h ⊢
  rw [hrun]
  cases hop : op' u with
  | ok a w' =>
      rw [hop] at h
      exact ⟨hR w' h.1, h.2⟩
  | error e w' =>
      rw [hop] at h
      exact hR w' h

/-! ### Threads that come into being -/

/-- A thread that is added comes behind the others, if there is a process. -/
theorem threads_addThread (w : World) (s : Nat) (handle : Handle) :
    ((w.addThread s handle).session s).threads
      = if (w.session s).process.isSome then (w.session s).threads ++ [.start handle] else [] := by
  rw [addThread, session_modifySession, if_pos rfl,
    threads_modifyProcess (w.session s) fun threads => threads ++ [Thread.start handle]]

/-- What is gone stays gone when a thread is added. -/
theorem lost_addThread {handle : Handle} {x : Part} (h : (w.session s).Lost x) :
    ((w.addThread s handle).session s).Lost x := by
  have hframes : ((w.addThread s handle).session s).frames = (w.session s).frames := by
    rw [addThread, session_modifySession, if_pos rfl]
  cases hp : (w.session s).process with
  | none =>
      refine h.of_threads ?_ (Nat.le_of_eq (by rw [hframes]))
      rw [threads_addThread, hp, threads_eq_nil hp]
      rfl
  | some p =>
      have hthreads := threads_addThread w s handle
      rw [hp, Option.isSome_some, if_pos rfl] at hthreads
      cases x with
      | thread j =>
          obtain ⟨t, ht, hgone⟩ := h
          refine ⟨t, ?_, hgone⟩
          rw [hthreads, List.getElem?_append_left (List.getElem?_eq_some_iff.mp ht).1, ht]
      | frame k =>
          refine ⟨hframes ▸ h.1, fun t ht => ?_⟩
          rw [hthreads] at ht
          rcases List.mem_append.mp ht with ht | ht
          · exact h.2 t ht
          · rw [List.mem_singleton.mp ht]
            exact fun f hf => (List.not_mem_nil hf).elim

/-- A process that is made, if there is none, is told of without echoes. -/
theorem accounts_ensureProcess : Keeps (Accounts s quiet) (ensureProcess s) := by
  intro w
  unfold ensureProcess worldAfter
  rw [run_get_bind]
  cases hp : (w.session s).process with
  | some p => exact (steady_accounts s).refl w
  | none =>
      have hself : (w.addProcess s).session s = { w.session s with process := some .start } := by
        rw [addProcess, session_modifySession, if_pos rfl]
      have hadd : Accounts s quiet w (w.addProcess s) := by
        refine accounts_of_threads rfl ?_ (Nat.le_of_eq (by rw [hself]))
        rw [hself, threads_eq_nil hp]
        rfl
      have htold : Accounts s quiet (w.addProcess s)
          (worldAfter (notify s (.created .process)) (w.addProcess s)) := accounts_notify rfl _
      exact hadd.after htold

/-- There is a process after that, with the threads that there were. -/
theorem threads_ensureProcess (w : World) :
    Attains (Accounts s quiet) (ensureProcess s) w fun _ v =>
      (v.session s).threads = (w.session s).threads := by
  have hkeeps := accounts_ensureProcess (s := s) w
  unfold worldAfter at hkeeps
  obtain ⟨-, hrun⟩ | ⟨hp, j, hrun | ⟨failure, hrun⟩⟩ := ensureProcess_cases s w
  · rw [hrun] at hkeeps
    exact .of_ok hrun hkeeps rfl
  · rw [hrun] at hkeeps
    refine .of_ok hrun hkeeps ?_
    change ((w.addProcess s).session s).threads = _
    rw [addProcess, session_modifySession, if_pos rfl, threads_eq_nil hp]
    rfl
  · rw [hrun] at hkeeps
    exact .of_error hrun hkeeps

/-- A thread that is made is told of without echoes. -/
theorem accounts_createThread (handle : Handle) : Keeps (Accounts s quiet) (createThread s handle) := by
  intro w
  let n := (w.session s).threads.length
  let u := w.addThread s handle
  have hsuits : Suits s w u (.created (.thread n)) := by
    rintro x hx
    cases hx
    refine ⟨fun ⟨t, ht, _⟩ => ?_, nofun⟩
    exact Nat.lt_irrefl _ (List.getElem?_eq_some_iff.mp ht).1
  have hR := steady_utters s (Suits s w u)
  have htold : Keeps (Utters s (Suits s w u)) (do notify s (.created (.thread n)); return n : Act Nat) :=
    Keeps.bind hR (utters_notify fun _ => hsuits) fun _ => Keeps.pure hR n
  exact (htold u).accounts rfl fun _ => lost_addThread

/-- A thread that is found or made is told of without echoes. -/
theorem accounts_findOrCreateThread (handle : Handle) :
    Keeps (Accounts s quiet) (findOrCreateThread s handle) := by
  have hR := steady_accounts s
  refine Keeps.bind hR (Keeps.get hR) fun w => ?_
  split
  · exact Keeps.pure hR _
  · exact Keeps.bind hR (accounts_createThread handle) fun _ => Keeps.pure hR _

/-- A thread that is looked for is told of without echoes. -/
theorem accounts_threadOf (handle : Handle) : Keeps (Accounts s quiet) (threadOf s handle) := by
  have hR := steady_accounts s
  exact Keeps.bind hR accounts_ensureProcess fun _ =>
    Keeps.bind hR (accounts_findOrCreateThread handle) fun _ => Keeps.pure hR _

/-- A thread that is looked for leaves a session kempt. -/
theorem kempt_threadOf (h : Kempt s w) (handle : Handle) :
    Attains (Accounts s quiet) (threadOf s handle) w fun _ v => Kempt s v := by
  have hdepicts : Depicts s [] w (worldAfter (threadOf s handle) w) := keeps_threadOf handle w
  have hattains := (attains_threadOf h.intact handle).of_keeps (hdepicts.regroups s).recharts
  refine (hattains.of_keeps (accounts_threadOf handle w)).mono ?_
  exact fun _ v _ ⟨hrecharts, hupholds, _⟩ => h.step hupholds hrecharts

/-! ### Threads that change -/

/-- A thread that has not terminated may change. -/
theorem lost_modifyThread {f : Thread → Thread} (hgone : (w.thread s i).isTerminated = false)
    (hf : ∀ t, ∀ r ∈ (f t).frames, r ∈ t.frames) {x : Part} (h : (w.session s).Lost x) :
    ((w.modifyThread s i f).session s).Lost x := by
  cases x with
  | thread j =>
      have hne : i ≠ j := by
        rintro rfl
        exact not_lost_thread hgone h
      obtain ⟨t, ht, hterminated⟩ := h
      exact ⟨t, by rw [threads_modifyThread, List.getElem?_modify_ne _ _ hne, ht], hterminated⟩
  | frame k =>
      have hframes : ((w.modifyThread s i f).session s).frames = (w.session s).frames := by
        rw [modifyThread, session_modifySession, if_pos rfl]
        rfl
      refine ⟨hframes ▸ h.1, fun t ht r hr => ?_⟩
      rw [threads_modifyThread] at ht
      obtain ht | ⟨t₀, ht₀, rfl⟩ := mem_threads_modify ht
      · exact h.2 t ht r hr
      · exact h.2 t₀ (List.mem_of_getElem? ht₀) r (hf t₀ r hr)

/-- A thread that has not terminated changes, and the front end is told. -/
theorem accounts_moveThread {f : Thread → Thread} {n : Notice}
    (hgone : (w.thread s i).isTerminated = false) (hf : ∀ t, ∀ r ∈ (f t).frames, r ∈ t.frames)
    (hn : Suits s w (w.modifyThread s i f) n) :
    Accounts s quiet w (worldAfter (notify s n) (w.modifyThread s i f)) :=
  (utters_notify (fun _ => hn) _).accounts rfl fun _ => lost_modifyThread hgone hf

/-- A thread that goes on is told of without echoes. -/
theorem accounts_threadResumed (i : Nat) (kind : ResumeKind) :
    Keeps (Accounts s quiet) (threadResumed s i kind) := by
  intro w
  unfold threadResumed worldAfter
  rw [run_get_bind]
  cases hgone : (w.thread s i).isTerminated with
  | true => exact (steady_accounts s).refl w
  | false =>
      refine accounts_moveThread (f := (·.resume kind)) hgone (fun _ _ => id) fun x hx => ?_
      cases hx
      exact ⟨not_lost_thread hgone, nofun⟩

/-- A thread that is there terminates, unless it has. -/
theorem accounts_terminateAt (hi : i < (w.session s).threads.length) :
    Accounts s quiet w (worldAfter (do
      unless ((← get).thread s i).isTerminated do
        change (·.modifyThread s i Thread.terminate)
        notify s (.terminated (.thread i))) w) := by
  unfold worldAfter
  rw [run_get_bind]
  cases hgone : (w.thread s i).isTerminated with
  | true => exact (steady_accounts s).refl w
  | false =>
      refine accounts_moveThread (f := Thread.terminate) hgone (fun _ _ => nofun) fun x hx => ?_
      cases hx
      refine ⟨not_lost_thread hgone, fun _ => ⟨((w.session s).threads[i]).terminate, ?_, rfl⟩⟩
      rw [threads_modifyThread, List.getElem?_modify_eq, List.getElem?_eq_getElem hi]
      rfl

/-- A thread that ends is told of without echoes. -/
theorem accounts_threadTerminated (h : Intact s w) (hp : (w.session s).process.isSome = true)
    (handle : Handle) : Accounts s quiet w (worldAfter (threadTerminated s handle) w) := by
  have hfound := (attains_findOrCreateThread h hp handle).of_keeps (accounts_findOrCreateThread handle w)
  have hattains : Attains (Accounts s quiet) (threadTerminated s handle) w fun _ _ => True :=
    .bind (steady_accounts s) hfound fun found v _ hfound =>
      .of_related (accounts_terminateAt hfound.2)
  exact hattains.related

end Operations

section Stacks

variable {s i : Nat} {w : World}

/-- A step that leaves the sessions as they are, and of which nobody is told. -/
theorem World.Kempt.of_sessions {w' : World} (h : Kempt s w) (hn : w'.journal.notes = w.journal.notes)
    (hs : w'.sessions = w.sessions) : Kempt s w' := by
  have hsame : w'.session s = w.session s := by rw [session, session, hs]
  exact h.step (upholds_of_sessions hn hs)
    (recharts_of_threads (by rw [hsame]) (Nat.le_of_eq (by rw [hsame])))

/-- What is known of a frame is no matter of its thread. -/
theorem utters_modifyFrame (P : Notice → Prop) (w : World) (f : FrameRef) (g : FrameState → FrameState) :
    Utters s P w (w.modifyFrame f g) := by
  refine ⟨threads_modifySession w f.session _ rfl, ?_, [], ?_, List.forall_mem_nil _⟩
  · rw [modifyFrame, session_modifySession]
    split
    · next hs =>
        subst hs
        exact Arena.size_le_modify _ _ _
    · exact Nat.le_refl _
  · rw [List.append_nil]
    rfl

/-- A frame that is out of date is told of as changed. -/
theorem utters_setDirty {P : Notice → Prop} {f : FrameRef} (hf : P (.changed (.frame f) .content)) :
    Keeps (Utters s P) (setDirty f) :=
  Keeps.bind (steady_utters s P) (Keeps.change fun w => utters_modifyFrame P w f _) fun _ =>
    utters_notify fun _ => hf

/-- The frames of a thread are replaced by those of a reported stack. -/
theorem attains_exchange (h : Kempt s w) (i : Nat) (stack : List Activation) :
    Attains (Accounts s quiet) (setStack s i stack) w fun _ v =>
      (v.thread s i).isTerminated = (w.thread s i).isTerminated := by
  let c := w.changeOf s i stack
  cases hgone : (w.thread s i).isTerminated with
  | true =>
      refine .get_bind ?_
      dsimp only
      rw [if_pos hgone]
      exact .of_ok rfl (accounts_of_sessions rfl rfl) hgone
  | false =>
      let v := w.trace "model" ((w.thread s i).name ++ ": " ++ c.summary)
      let u := v.putFrames s i c
      have hkempt : Kempt s v := h.of_sessions rfl rfl
      have hnotes : u.noticesOf s = v.noticesOf s :=
        noticesOf_congr (congrArg Journal.notes (sight_makeRoom c.created v).2.2 :)
      have hlive : (u.thread s i).isTerminated = false := (isTerminated_putFrames c i).trans hgone
      have hthread : Suits s v u (.changed (.thread i) .content) := by
        rintro x hx
        cases hx
        exact ⟨not_lost_thread hgone, nofun⟩
      have hR := steady_utters s (Suits s v u)
      have htold : Keeps (Utters s (Suits s v u)) (tellExchange s i c) :=
        Keeps.bind hR (.forM_of_mem hR fun f hf => utters_setDirty (suits_reused hf)) fun _ =>
        Keeps.bind hR (.forM_of_mem hR fun f hf => utters_notify fun _ => suits_created hf) fun _ =>
        Keeps.bind hR (.forM_of_mem hR fun f hf => utters_notify fun _ => suits_gone hkempt hf)
          fun _ => utters_notify fun _ => hthread
      have hend : Attains (Utters s (Suits s v u)) (tellExchange s i c) u fun _ v' =>
          (v'.thread s i).isTerminated = false :=
        (htold.attains u).mono fun _ v' hv' _ => by
          rw [World.thread, Session.thread, hv'.threads]
          exact hlive
      have hv : Accounts s quiet w v := accounts_of_sessions rfl rfl
      have hlost : ∀ x, (v.session s).Lost x → (u.session s).Lost x := fun _ hx =>
        lost_putFrames (w := v) hgone stack hx
      exact hend.of_run (run_setStack hgone stack) fun w' hw' => hv.after (hw'.accounts hnotes hlost)

/-- A thread that is suspended keeps a session kempt. -/
theorem kempt_suspend (h : Kempt s w) (hgone : (w.thread s i).isTerminated = false)
    (reason : SuspendReason) : Kempt s (w.modifyThread s i (·.suspend reason)) := by
  have hdepicts : Depicts s [] w (w.modifyThread s i (·.suspend reason)) :=
    depicts_modifyThread w i _ fun _ => ⟨rfl, fun _ => id⟩
  refine h.step (upholds_modifyThread w i (fun _ => rfl) fun t ht => ⟨fun hgone' => ?_, fun ht' => ?_⟩)
    (hdepicts.regroups s).recharts
  · rw [isTerminated_of_getElem? ht, hgone] at hgone'
    cases hgone'
  · exact ht'.of_frames rfl rfl

/-- A thread that stops is told of, with its frames, without echoes. -/
theorem accounts_threadSuspended (h : Kempt s w) (i : Nat) (reason : SuspendReason)
    (stack : List Activation) :
    Accounts s quiet w (worldAfter (threadSuspended s i reason stack) w) := by
  have hattains : Attains (Accounts s quiet) (threadSuspended s i reason stack) w fun _ _ => True := by
    have hR := steady_accounts s
    refine .get_bind ?_
    cases hgone : (w.thread s i).isTerminated with
    | true => exact .pure (hR.refl w) trivial
    | false =>
        let u := w.modifyThread s i (·.suspend reason)
        have hu : Accounts s quiet w u :=
          accounts_of_silent rfl fun _ => lost_modifyThread hgone (f := (·.suspend reason)) fun _ _ => id
        have hlive : (u.thread s i).isTerminated = false := by
          rw [World.thread, Session.thread, threads_modifyThread, List.getElem?_modify_eq]
          cases (w.session s).threads[i]? <;> rfl
        refine .change_bind hR hu (.bind hR (attains_exchange (kempt_suspend h hgone reason) i stack) ?_)
        intro _ v _ hv
        refine .of_related ((utters_notify (fun _ x hx => ?_) v).accounts rfl fun _ => id)
        cases hx
        exact ⟨not_lost_thread (hv.trans hlive), fun he => by cases he⟩
  exact hattains.related

end Stacks

/-! ### Echoes -/

/-- Whether the front end of a session is told of events. -/
def Session.listens (x : Session) : Bool :=
  x.attached && x.alive && x.observed

namespace World

/-- What the front end is told of a thread or a frame when something happens, whether that is still
there or not: that there is a script for the thread, or that there are variables for the frame. -/
def lateNotice? (w : World) (s : Nat) : Happening → Option Notice
  | .heard (.scriptReady _ thread _) =>
    ((w.session s).findThread? thread).map fun i => .changed (.thread i) .content
  | .heard (.frameVariables f _) =>
    if f.session = s then some (.changed (.frame f) .content) else none
  | _ => none

/-- What the front end is told of a thread or a frame that is gone. -/
def echo (w : World) (s : Nat) (h : Happening) (x : Part) : List Notice :=
  if (w.session s).listens then (w.lateNotice? s h).toList.filter (·.part? = some x) else []

/-- What the front end is told of a thread or a frame that is gone, while several things happen. -/
def echoes (w : World) (s : Nat) (x : Part) : List Happening → List Notice
  | [] => []
  | h :: hs => w.echo s h x ++ (h.after s w).echoes s x hs

/-- What the front end of a session, if there is one, hears of a thread or a frame by some notices. -/
def heardOf (w : World) (s : Nat) (ns : List Notice) (x : Part) : List Notice :=
  if (w.session s).alive && (w.session s).observed then ns.filter (·.part? = some x) else []

/-- What the front end is told when a thread waits before a script, if the thread was there. -/
def greeting (w : World) (s : Nat) (handle : Handle) : List Notice :=
  (((w.session s).findThread? handle).map fun i => .changed (.thread i) .content).toList

end World

section Events

variable {s : Nat} {w : World} {echo : Part → List Notice}

/-- An echo matters for what is gone only. -/
theorem World.Accounts.congr {w' : World} (h : Accounts s echo w w') {echo' : Part → List Notice}
    (he : ∀ x, (w.session s).Lost x → echo' x = echo x) : Accounts s echo' w w' := by
  obtain ⟨ns, hns, hends, hecho⟩ := h.told
  exact ⟨h.lost, ns, hns, hends, fun x hx => (hecho x hx).trans (he x hx).symm⟩

/-- A first operation that may have an echo, and then what has none. -/
theorem accounts_bind {α β : Type} {op : Act α} {f : α → Act β}
    (h : Accounts s echo w (worldAfter op w)) (hf : ∀ a, Keeps (Accounts s quiet) (f a)) :
    Accounts s echo w (worldAfter (op >>= f) w) :=
  h.before (Keeps.after_bind (steady_accounts s) hf w)

/-- A front end that is told of a change hears of nothing else. -/
theorem accounts_changed {t : Nat} {n : Notice} (hn : n.ends? = none) (w : World) :
    Accounts s (w.heardOf t (if t = s then [n] else [])) w (worldAfter (notify t n) w) := by
  let note : Note := .model t n (w.noticeText t n)
  have hafter : worldAfter (notify t n) w
      = if (w.session t).alive && (w.session t).observed then w.note note else w := by
    rw [worldAfter, run_notify]
    cases (w.session t).alive && (w.session t).observed with
    | false => rfl
    | true =>
        dsimp only [if_true]
        cases w.reaction w.journal.notes note <;> rfl
  rw [hafter]
  cases hl : (w.session t).alive && (w.session t).observed with
  | false => exact ((steady_accounts s).refl w).congr fun x _ => by simp [heardOf, hl, quiet]
  | true =>
      have hnotice : note.notice? s = if t = s then some n else none := rfl
      refine ⟨fun _ => id, (note.notice? s).toList, noticesOf_note w note, fun n' hmem x hx => ?_,
        fun x _ => ?_⟩
      · rw [hnotice] at hmem
        split at hmem
        · obtain rfl := List.mem_singleton.mp hmem
          rw [hn] at hx
          cases hx
        · cases hmem
      · rw [hnotice, heardOf, hl]
        by_cases hts : t = s <;> simp [hts]

/-- A request that is sent tells the front end nothing. -/
theorem notes_post (w : World) (t : Nat) (r : Request) :
    (w.post t r).journal.notes = w.journal.notes := by
  unfold World.post
  split
  · rfl
  · split <;> rfl

/-- A request that is sent is accounted for. -/
theorem accounts_post (w : World) (t : Nat) (r : Request) : Accounts s quiet w (w.post t r) := by
  obtain ⟨rs, hp⟩ := exists_posts_post w t r
  exact accounts_of_threads (noticesOf_congr (notes_post w t r))
    (threads_of_model (model_of_posts hp)) ((mild_post w t r).room s)

/-- An answer to a thread that waits before a script is accounted for. -/
theorem accounts_answerThread (script : Script) (root : Bool) (i : Nat) :
    Keeps (Accounts s quiet) (answerThread s script root i) :=
  keeps_answerThread (steady_accounts s)
    (fun w => accounts_of_threads rfl (threads_modifySession w s _ rfl)
      (Nat.le_of_eq (by rw [register, session_modifySession, if_pos rfl])))
    (fun w r _ => accounts_post w s r) root i

/-- The thread that waits before a script is told of if it was there. -/
theorem accounts_greetThread (handle : Handle) (w : World) :
    Accounts s (w.heardOf s (w.greeting s handle)) w (worldAfter (greetThread s handle) w) := by
  cases hfind : (w.session s).findThread? handle with
  | some i =>
      have hrun : worldAfter (greetThread s handle) w
          = worldAfter (do notify s (.changed (.thread i) .content); return i : Act Nat) w := by
        rw [worldAfter, greetThread, run_bind_ok (run_findOrCreateThread hfind)]
        rfl
      rw [hrun]
      refine (accounts_bind (accounts_changed rfl w) fun _ => Keeps.pure (steady_accounts s) _).congr ?_
      intro x _
      simp [greeting, hfind]
  | none =>
      have hrun : worldAfter (greetThread s handle) w = worldAfter (createThread s handle) w := by
        unfold greetThread findOrCreateThread worldAfter
        rw [bind_assoc, run_get_bind, hfind]
        cases hop : createThread s handle w with
        | ok i u =>
            rw [bind_assoc, run_bind_ok hop]
            rfl
        | error e u => rw [bind_assoc, run_bind_error hop]
      rw [hrun]
      refine (accounts_createThread handle w).congr fun x _ => ?_
      simp [heardOf, greeting, hfind, quiet]

/-- A script that is ready is told of for the thread that waits, if that was there. -/
theorem accounts_scriptReady (script : Script) (handle : Handle) (root : Bool) (w : World) :
    Accounts s (w.heardOf s (w.greeting s handle)) w (worldAfter (do
      ensureProcess s
      scriptReady s script handle root) w) := by
  have hready : ∀ v, Accounts s _ v (worldAfter (scriptReady s script handle root) v) := fun v => by
    rw [scriptReady_eq]
    exact accounts_bind (accounts_greetThread handle v) (accounts_answerThread script root)
  obtain ⟨-, hrun⟩ | ⟨hp, -⟩ := ensureProcess_cases s w
  · have hafter : worldAfter (do ensureProcess s; scriptReady s script handle root) w
        = worldAfter (scriptReady s script handle root) w := by
      rw [worldAfter, run_bind_ok hrun]
      rfl
    rw [hafter]
    exact hready w
  · -- Where there is no process, there is no thread.
    have hnone : ∀ v : World, (v.session s).threads = [] → (v.session s).findThread? handle = none :=
      fun v hv => by rw [findThread?_eq, hv]; rfl
    have hquiet : Attains (Accounts s quiet) (do
        ensureProcess s
        scriptReady s script handle root) w fun _ _ => True :=
      .bind (steady_accounts s) (threads_ensureProcess w) fun _ v _ hv =>
        .of_related ((hready v).congr fun x _ => by
          simp [heardOf, greeting, hnone v (hv.trans (threads_eq_nil hp)), quiet])
    refine hquiet.related.congr fun x _ => ?_
    simp [heardOf, greeting, hnone w (threads_eq_nil hp), quiet]

/-- Variables that are listed for a frame are told of. -/
theorem accounts_frameVariables (f : FrameRef) (reported : List VariableId) (w : World) :
    Accounts s (w.heardOf f.session (if f.session = s then [.changed (.frame f) .content] else [])) w
      (worldAfter (withInHand f (setVariables f reported)) w) := by
  let u := { w with inHand := some f }
  let merging := mergeVariables u.reach f (u.frame f).known reported
  let v := (u.onHeap merging).2.modifyFrame f fun _ => ⟨(u.onHeap merging).1, false⟩
  have hrun : worldAfter (setVariables f reported) u
      = worldAfter (notify f.session (.changed (.frame f) .content)) v := rfl
  have hheap : Accounts s quiet w (u.onHeap merging).2 := accounts_of_sessions rfl rfl
  have hframe := utters_modifyFrame (s := s) (fun _ => False) (u.onHeap merging).2 f
    fun _ => ⟨(u.onHeap merging).1, false⟩
  have hset : Accounts s quiet (u.onHeap merging).2 v :=
    accounts_of_threads rfl hframe.threads hframe.room
  have halive : (v.session f.session).alive = (w.session f.session).alive := by
    simp only [v, modifyFrame, session_modifySession, if_true]
    rfl
  have hobserved : (v.session f.session).observed = (w.session f.session).observed := by
    simp only [v, modifyFrame, session_modifySession, if_true]
    rfl
  have htold := accounts_changed (s := s) (t := f.session) (n := .changed (.frame f) .content) rfl v
  have hheard : v.heardOf f.session = w.heardOf f.session := by
    unfold heardOf
    rw [halive, hobserved]
  rw [hheard, ← hrun] at htold
  rw [worldAfter_withInHand]
  exact ((hheap.after hset).after htold).before (accounts_of_sessions rfl rfl)

/-- A result that is handed on is told of without echoes. -/
theorem accounts_evaluated (expression : String) (frame : FrameRef) (result : Evaluated)
    (listener : String) :
    Keeps (Accounts s quiet) (applyEvent s (.evaluated expression frame result listener)) := by
  have hR := steady_accounts s
  refine keeps_evaluated hR (keeps_withInHand hR (fun _ _ => accounts_of_sessions rfl rfl) frame ?_)
  refine Keeps.bind hR (Keeps.get hR) fun w => Keeps.bind hR (fun v => ?_) fun shown =>
    Keeps.change fun v => ?_
  · exact accounts_of_sessions rfl rfl
  · refine accounts_of_sessions ?_ rfl
    rw [noticesOf_note]
    exact List.append_nil _

/-- A session that is closed is told of without echoes. -/
theorem accounts_close (w : World) : Accounts s quiet w (w.close s) := by
  have hnotes : (w.close s).journal.notes = w.journal.notes := by
    unfold World.close
    dsimp only
    split
    · rfl
    · split <;> rfl
  have hself := session_close_self w s
  refine accounts_of_silent (noticesOf_congr hnotes) fun x hx => ?_
  rw [hself]
  split
  · exact hx.of_threads rfl (Nat.le_refl _)
  · have hthreads : (w.session s).ended.threads = (w.session s).threads.map Thread.terminate := by
      unfold Session.ended Session.threads
      cases (w.session s).process <;> rfl
    cases x with
    | thread i =>
        obtain ⟨t, ht, -⟩ := hx
        exact ⟨t.terminate, by rw [hthreads, List.getElem?_map, ht]; rfl, rfl⟩
    | frame k =>
        refine ⟨hx.1, fun t ht => ?_⟩
        rw [hthreads] at ht
        obtain ⟨_, -, rfl⟩ := List.mem_map.mp ht
        exact fun f hf => (List.not_mem_nil hf).elim

/-- A session that ends is told of without echoes. -/
theorem accounts_endSession : Keeps (Accounts s quiet) (endSession s) := by
  intro w
  cases hover : (w.session s).terminated with
  | true =>
      have hrun : worldAfter (endSession s) w = w.close s := by
        rw [worldAfter, run_endSession, if_pos hover]
      rw [hrun]
      exact accounts_close w
  | false =>
      have hrun : worldAfter (endSession s) w = worldAfter (notify s (.terminated .target)) (w.close s) := by
        rw [worldAfter, run_endSession, if_neg (by simp [hover])]
        rfl
      rw [hrun]
      exact (accounts_close w).after (accounts_notify rfl _)

/-- Users that disconnect are told of without echoes. -/
theorem accounts_disconnect : Keeps (Accounts s quiet) (disconnect s) := by
  intro w
  have hR := steady_accounts s
  cases hover : (w.session s).terminated with
  | true =>
      obtain ⟨-, hrun⟩ | ⟨hlive, -⟩ := disconnect_cases s w
      · rw [hrun]
        exact hR.refl w
      · rw [hlive] at hover
        cases hover
  | false =>
      have hpost : ∀ (rs : List Request) (w : World), Accounts s quiet w (w.postAll s rs) := by
        intro rs
        induction rs with
        | nil => exact hR.refl
        | cons r rs ih => exact fun w => (accounts_post w s r).after (ih _)
      rw [worldAfter_disconnect hover]
      exact (hpost _ w).after ((accounts_post _ s .disconnect).after (accounts_endSession _))

/-- What the front end is told when an event is applied. -/
theorem accounts_applyEvent (h : Kempt s w) (ha : (w.session s).attached = true) (e : Event) :
    Accounts s (w.echo s (.heard e)) w (worldAfter (applyEvent s e) w) := by
  have hlistens : (w.session s).listens = ((w.session s).alive && (w.session s).observed) := by
    rw [Session.listens, ha, Bool.true_and]
  have hquiet : w.lateNotice? s (.heard e) = none → w.echo s (.heard e) = quiet := by
    intro hnone
    funext x
    rw [World.echo, hnone]
    simp [quiet]
  cases e with
  | engineStarted => exact hquiet rfl ▸ accounts_ensureProcess w
  | threadCreated thread =>
      rw [hquiet rfl]
      have hR := steady_accounts s
      exact Keeps.bind hR (accounts_threadOf thread) (fun _ => Keeps.pure hR _) w
  | threadTerminated thread =>
      rw [hquiet rfl]
      have hprocess := (attains_ensureProcess h.intact).of_keeps (accounts_ensureProcess w)
      have hend : Attains (Accounts s quiet) (applyEvent s (.threadTerminated thread)) w fun _ _ => True :=
        .bind (steady_accounts s) hprocess fun _ v _ ⟨hu, hp⟩ =>
          .of_related (accounts_threadTerminated (hu.intact h.intact) hp thread)
      exact hend.related
  | suspended thread reason stack =>
      rw [hquiet rfl]
      have hend : Attains (Accounts s quiet) (applyEvent s (.suspended thread reason stack)) w
          fun _ _ => True :=
        .get_bind (.bind (steady_accounts s) (kempt_threadOf h thread) fun i v _ hv =>
          .of_related (accounts_threadSuspended hv i reason _))
      exact hend.related
  | resumed thread kind =>
      rw [hquiet rfl]
      exact Keeps.bind (steady_accounts s) (accounts_threadOf thread)
        (fun i => accounts_threadResumed i kind) w
  | stackFrames thread stack =>
      rw [hquiet rfl]
      have hend : Attains (Accounts s quiet) (applyEvent s (.stackFrames thread stack)) w fun _ _ => True :=
        .get_bind (.bind (steady_accounts s) (kempt_threadOf h thread) fun i v _ hv =>
          (attains_exchange hv i _).mono fun _ _ _ _ => trivial)
      exact hend.related
  | scriptReady script thread root =>
      refine (accounts_scriptReady script thread root w).congr fun x _ => ?_
      rw [World.echo, hlistens]
      rfl
  | frameVariables f reported =>
      refine (accounts_frameVariables f reported w).congr fun x _ => ?_
      rw [World.echo, World.lateNotice?, heardOf]
      by_cases hf : f.session = s
      · rw [hlistens, hf]
        simp
      · simp [hf]
  | evaluated expression frame result listener =>
      rw [hquiet rfl]
      exact accounts_evaluated expression frame result listener w
  | engineTerminated => exact hquiet rfl ▸ accounts_endSession w

/-- An event that a model hears is accounted for, with its echo. -/
theorem accounts_handleEvent (h : Kempt s w) (e : Event) :
    Accounts s (w.echo s (.heard e)) w (worldAfter (handleEvent s e) w) := by
  cases ha : (w.session s).attached with
  | true =>
      let u := w.trace "model" ("process " ++ e.text w.marks)
      have hafter : worldAfter (handleEvent s e) w = worldAfter (applyEvent s e) u := by
        rw [worldAfter, handleEvent_eq ha]
        rfl
      have hu : Accounts s quiet w u := accounts_of_sessions rfl rfl
      rw [hafter]
      exact hu.after (accounts_applyEvent (h.of_sessions rfl rfl : Kempt s u) ha e)
  | false =>
      rw [worldAfter, handleEvent_unattached ha]
      refine ((steady_accounts s).refl w).congr fun x _ => ?_
      rw [World.echo, Session.listens, ha]
      rfl

/-- Whatever happens, the front end is told no more of what is gone than the echo. -/
theorem accounts_after (h : Kempt s w) (x : Happening) :
    Accounts s (w.echo s x) w (x.after s w) := by
  have hquiet : w.lateNotice? s x = none → w.echo s x = quiet := by
    intro hnone
    funext y
    rw [World.echo, hnone]
    simp [quiet]
  cases x with
  | heard e => exact accounts_handleEvent h e
  | disconnected => exact hquiet rfl ▸ accounts_disconnect w
  | detached =>
      rw [hquiet rfl]
      refine accounts_of_threads rfl (threads_modifySession w s _ rfl) (Nat.le_of_eq ?_)
      rw [Happening.after, session_modifySession, if_pos rfl]
  | attached box =>
      rw [hquiet rfl]
      refine accounts_of_threads rfl (threads_modifySession w s _ rfl) (Nat.le_of_eq ?_)
      rw [Happening.after, session_modifySession, if_pos rfl]

end Events

/-! ### Whatever happens -/

section Runs

variable {s : Nat} {w : World}

/-- A step that leaves threads as they are leaves frames told apart. -/
theorem World.Utters.recharts {P : Notice → Prop} {w' : World} (h : Utters s P w w') : Recharts s w w' :=
  recharts_of_threads h.threads h.room

/-- A step that tells nothing and changes no session utters nothing. -/
theorem utters_of_sessions {P : Notice → Prop} {w' : World} (hn : w'.noticesOf s = w.noticesOf s)
    (hs : w'.sessions = w.sessions) : Utters s P w w' := by
  have hsame : w'.session s = w.session s := by rw [session, session, hs]
  exact ⟨by rw [hsame], Nat.le_of_eq (by rw [hsame]), [], by rw [hn, List.append_nil],
    List.forall_mem_nil _⟩

/-- A frame that takes variables in changes no thread. -/
theorem utters_setVariables (f : FrameRef) (reported : List VariableId) :
    Keeps (Utters s fun _ => True) (withInHand f (setVariables f reported)) := by
  have hR := steady_utters s fun _ => True
  refine keeps_withInHand hR (fun _ _ => utters_of_sessions rfl rfl) f ?_
  refine Keeps.bind hR (Keeps.get hR) fun w => Keeps.bind hR ?_ fun merged => ?_
  · exact fun w => utters_of_sessions rfl rfl
  · exact Keeps.bind hR (Keeps.change fun w => utters_modifyFrame _ w f _) fun _ =>
      utters_notify fun _ => trivial

/-- A result that is handed on changes no thread. -/
theorem utters_deliverResult (f : FrameRef) (listener : String) (result : WatchResult) :
    Keeps (Utters s fun _ => True) (withInHand f (deliverResult listener result)) := by
  have hR := steady_utters s fun _ => True
  refine keeps_withInHand hR (fun _ _ => utters_of_sessions rfl rfl) f ?_
  refine Keeps.bind hR (Keeps.get hR) fun w => Keeps.bind hR ?_ fun shown => Keeps.change fun v => ?_
  · exact fun w => utters_of_sessions rfl rfl
  · exact utters_of_sessions ((noticesOf_note v _).trans (List.append_nil _)) rfl

/-- Whatever happens, frames that were told apart still are. -/
theorem recharts_after (w : World) (h : Happening) : Recharts s w (h.after s w) := by
  have hR := steady_recharts s
  have hend : Keeps (Recharts s) (endSession s) := fun w => (carries_endSession s w).regroups.recharts
  have hpost : ∀ w t (r : Request), Recharts s w (w.post t r) := fun w t r => by
    obtain ⟨rs, hp⟩ := exists_posts_post w t r
    exact recharts_of_threads (threads_of_model (model_of_posts hp)) ((mild_post w t r).room s)
  have hmodify : ∀ (w : World) (f : Session → Session), (f (w.session s)).threads = (w.session s).threads →
      (f (w.session s)).frames = (w.session s).frames → Recharts s w (w.modifySession s f) :=
    fun w f hthreads hframes => recharts_of_threads (threads_modifySession w s f hthreads)
      (Nat.le_of_eq (by rw [session_modifySession, if_pos rfl, hframes]))
  cases h with
  | heard e =>
      refine keeps_handleEvent_of hR e (fun h => (h.regroups s).recharts)
        (fun w script => hmodify w _ rfl rfl) (fun w r _ => hpost w s r) ?_ ?_ (fun _ => hend) w
      · rintro frame reported -
        exact fun w => (utters_setVariables frame reported w).recharts
      · rintro expression frame result listener -
        exact fun w => (utters_deliverResult frame listener _ w).recharts
  | disconnected =>
      change Recharts s w (worldAfter (disconnect s) w)
      obtain ⟨-, hrun⟩ | ⟨-, u, ⟨hmild, _, _, hp⟩, hrun⟩ := disconnect_cases s w
      · rw [hrun]
        exact hR.refl w
      · rw [hrun]
        have hu : Recharts s w u :=
          recharts_of_threads (threads_of_model (model_of_posts hp)) (hmild.room s)
        exact hR.trans hu (hR.trans (hpost u s .disconnect) (hend _))
  | detached => exact hmodify w _ rfl rfl
  | attached box => exact hmodify w _ rfl rfl

/-- Whatever happens, a session stays kempt. -/
theorem kempt_after (h : Kempt s w) (x : Happening) : Kempt s (x.after s w) :=
  h.step (upholds_after w x) (recharts_after w x)

/-- The frames of a thread are frames of its session, each with a number of its own. -/
theorem World.Kempt.stocked (h : Kempt s w) {t : Thread} (ht : t ∈ (w.session s).threads) :
    w.Stocked s t := by
  obtain ⟨S, hS⟩ := h.charted
  have hplaced : ∀ f ∈ t.frames, S f := fun f hf => (hS.placed t ht f hf).1
  exact ⟨fun f hf => (hS.here f (hplaced f hf)).1, fun f hf => (hS.here f (hplaced f hf)).2,
    (h.intact.neat.each t ht).distinct⟩

/-- What the front end was told is gone is gone. -/
def World.Truthful (s : Nat) (w : World) : Prop :=
  ∀ n ∈ w.noticesOf s, ∀ x, n.ends? = some x → (w.session s).Lost x

/-- Whatever happens, what the front end was told is gone is gone. -/
theorem truthful_after (h : Kempt s w) (ht : Truthful s w) (x : Happening) : Truthful s (x.after s w) := by
  have haccounts := accounts_after h x
  obtain ⟨ns, hns, hends, -⟩ := haccounts.told
  intro n hn y hy
  rw [hns] at hn
  rcases List.mem_append.mp hn with hn | hn
  · exact haccounts.lost y (ht n hn y hy)
  · exact hends n hn y hy

/-- What happens in two runs happens in one, the second behind the first. -/
theorem afterAll_append (w : World) (s : Nat) (hs hs' : List Happening) :
    w.afterAll s (hs ++ hs') = (w.afterAll s hs).afterAll s hs' :=
  List.foldl_append

/-- A session is kempt after all that happens. -/
theorem kempt_afterAll (h : Kempt s w) (hs : List Happening) : Kempt s (w.afterAll s hs) := by
  induction hs generalizing w with
  | nil => exact h
  | cons x hs ih => exact ih (kempt_after h x)

/-- Frames that were told apart are so after all that happens. -/
theorem recharts_afterAll (w : World) (hs : List Happening) : Recharts s w (w.afterAll s hs) := by
  induction hs generalizing w with
  | nil => exact (steady_recharts s).refl w
  | cons x hs ih => exact (steady_recharts s).trans (recharts_after w x) (ih _)

/-- What the front end was told is gone is gone after all that happens. -/
theorem truthful_afterAll (h : Kempt s w) (ht : Truthful s w) (hs : List Happening) :
    Truthful s (w.afterAll s hs) := by
  induction hs generalizing w with
  | nil => exact ht
  | cons x hs ih => exact ih (kempt_after h x) (truthful_after h ht x)

/-- The front end is told no more of what is gone than the echoes, and what is gone stays gone. -/
theorem toldOf_afterAll (h : Kempt s w) {x : Part} (hx : (w.session s).Lost x) (hs : List Happening) :
    (w.afterAll s hs).toldOf s x = w.toldOf s x ++ w.echoes s x hs
      ∧ ((w.afterAll s hs).session s).Lost x := by
  induction hs generalizing w with
  | nil => exact ⟨(List.append_nil _).symm, hx⟩
  | cons y hs ih =>
      have haccounts := accounts_after h y
      obtain ⟨ns, hns, -, hecho⟩ := haccounts.told
      have hstep : (y.after s w).toldOf s x = w.toldOf s x ++ w.echo s y x := by
        rw [World.toldOf, hns, List.filter_append, hecho x hx, World.toldOf]
      obtain ⟨htold, hlost⟩ := ih (kempt_after h y) (haccounts.lost x hx)
      refine ⟨htold.trans ?_, hlost⟩
      rw [hstep, List.append_assoc]
      rfl

/-- The frames that a thread had are gone when it has terminated. -/
theorem lost_of_terminated {w' : World} (hk : Kempt s w) (hk' : Kempt s w') (hr : Recharts s w w')
    (hl : (w.session s).Lasts (w'.session s)) {i : Nat} {f : FrameRef}
    (hf : f ∈ (w.thread s i).frames) (hgone : (w'.thread s i).isTerminated = true) :
    (w'.session s).Lost (.frame f.index) := by
  obtain ⟨t, ht, hf⟩ := exists_of_mem_thread hf
  obtain ⟨t', ht', hlasts⟩ := hl.thread ht
  obtain ⟨S, hS⟩ := hk.charted
  obtain ⟨S', hle, hS'⟩ := hr S hS
  obtain ⟨hSf, hhf⟩ := hS.placed t (List.mem_of_getElem? ht) f hf
  refine ⟨Nat.lt_of_lt_of_le (hS.here f hSf).2 hl.room, fun u hu g hg hindex => ?_⟩
  obtain ⟨hSg, hhg⟩ := hS'.placed u hu g hg
  -- A frame with the number of a former one is that one, and its thread is the one that is gone.
  have hsame : g = f := hS'.distinct g f hSg (hle f hSf) hindex
  obtain ⟨j, hj⟩ := List.mem_iff_getElem?.mp hu
  have hji : j = i := by
    refine hk'.intact.neat.numbered.index_eq hj ht' ?_
    rw [← hhg, hsame, hhf, hlasts.handle]
  rw [hji, ht'] at hj
  cases hj
  rw [thread_eq ht'] at hgone
  rw [(hk'.intact.neat.each t' hu).bare hgone] at hg
  cases hg

/-- A session whose front end knows no more than that it was opened is kempt. -/
theorem kempt_of_unheard (hp : (w.session s).process = none)
    (hn : ∀ n ∈ w.noticesOf s, n = .created .target) : Kempt s w := by
  have htold : ∀ m, w.timesTold s m = 0 := by
    intro m
    refine List.countP_eq_zero.mpr fun note hnote hm => ?_
    unfold Note.milestone? at hm
    split at hm
    · next t notice text =>
        split at hm
        · next hts =>
            have hmem : notice ∈ w.noticesOf s :=
              List.mem_filterMap.mpr ⟨_, hnote, by rw [Note.notice?, if_pos hts]⟩
            rw [hn notice hmem] at hm
            cases of_decide_eq_true hm
        · cases of_decide_eq_true hm
    · cases of_decide_eq_true hm
  refine ⟨intact_of_unheard hp htold, fun _ => False, fun _ => False.elim, fun _ _ => False.elim,
    fun t ht => ?_⟩
  rw [threads_eq_nil hp] at ht
  cases ht

/-- So the frames of a thread can be exchanged whatever happened before. -/
theorem stocked_afterAll (hp : (w.session s).process = none)
    (hn : ∀ n ∈ w.noticesOf s, n = .created .target) (hs : List Happening) :
    ∀ t ∈ ((w.afterAll s hs).session s).threads, (w.afterAll s hs).Stocked s t :=
  fun _ ht => (kempt_afterAll (kempt_of_unheard hp hn) hs).stocked ht

/-- Once the front end was told that a thread or a frame is gone, or the thread of a frame has
terminated, it is told nothing of it any more, with two exceptions: whenever a script is ready for the
thread, and whenever variables are listed for the frame, it is told that the content changed. -/
theorem told_of_lost (hp : (w.session s).process = none)
    (hn : ∀ n ∈ w.noticesOf s, n = .created .target) (before after : List Happening) (x : Part)
    (hx : (∃ n ∈ (w.afterAll s before).noticesOf s, n.ends? = some x)
      ∨ ∃ earlier later i f, before = earlier ++ later
        ∧ f ∈ ((w.afterAll s earlier).thread s i).frames
        ∧ ((w.afterAll s before).thread s i).isTerminated = true ∧ x = .frame f.index) :
    (w.afterAll s (before ++ after)).toldOf s x
      = (w.afterAll s before).toldOf s x ++ (w.afterAll s before).echoes s x after := by
  have hstart := kempt_of_unheard hp hn
  have hkempt := kempt_afterAll hstart before
  have hlost : ((w.afterAll s before).session s).Lost x := by
    rcases hx with ⟨n, hmem, hends⟩ | ⟨earlier, later, i, f, rfl, hf, hgone, rfl⟩
    · have htruthful : Truthful s w := by
        intro n hmem y hy
        rw [hn n hmem] at hy
        cases hy
      exact truthful_afterAll hstart htruthful before n hmem x hends
    · have hearlier := kempt_afterAll hstart earlier
      rw [afterAll_append] at hgone hkempt ⊢
      exact lost_of_terminated hearlier hkempt (recharts_afterAll _ later)
        (upholds_afterAll _ later hearlier.intact).2 hf hgone
  rw [afterAll_append]
  exact (toldOf_afterAll hkempt hlost after).1

/-- A session that was just opened. -/
def opening : World :=
  worldAfter (startSession .off 0 true) .start

/-- Variables come for a frame whose thread has terminated, and a script is ready for the thread. -/
theorem told_of_lost_late :
    let thread : Handle := ⟨0, "main"⟩
    let script : Script := ⟨1, "a", none, false⟩
    let frame : FrameRef := ⟨0, 0, thread, ⟨0, script, .function, none⟩⟩
    let before : List Happening := [.attached ∅,
      .heard (.suspended thread .breakpoint [frame.activation]), .heard (.threadTerminated thread)]
    let after : List Happening := [.heard (.frameVariables frame []),
      .heard (.scriptReady script thread true)]
    (opening.afterAll 0 (before ++ after)).toldOf 0 (.frame 0)
        = [.created (.frame frame), .changed (.frame frame) .content]
      ∧ (opening.afterAll 0 (before ++ after)).toldOf 0 (.thread 0)
        = [.created (.thread 0), .changed (.thread 0) .content, .suspended 0 .breakpoint,
          .terminated (.thread 0), .changed (.thread 0) .content] := by
  intro thread script frame before after
  have hp : (opening.session 0).process = none := by decide +kernel
  have hn : ∀ n ∈ opening.noticesOf 0, n = .created .target := by decide +kernel
  have hframe := told_of_lost hp hn before after (.frame 0)
    (.inr ⟨[.attached ∅, .heard (.suspended thread .breakpoint [frame.activation])],
      [.heard (.threadTerminated thread)], 0, frame, rfl, by decide +kernel, by decide +kernel, rfl⟩)
  have hthread := told_of_lost hp hn before after (.thread 0)
    (.inl ⟨.terminated (.thread 0), by decide +kernel, rfl⟩)
  refine ⟨hframe.trans ?_, hthread.trans ?_⟩
  · decide +kernel
  · decide +kernel

end Runs

end DebugBridge
