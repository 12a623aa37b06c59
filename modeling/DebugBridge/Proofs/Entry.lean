import Mathlib.Data.List.Infix
import DebugBridge.Interpreter.VariableTable
import DebugBridge.Proofs.Steps

/-!
# Threads that are to stop at their first line

The options of a session may ask to stop at the first line of every script, or of the first script
of a thread. The model then answers the news of the script by a request to step into it, and the step
is complete at the next line. Other scripts may be loaded before the thread gets there. Their answers
do not break the step off: by then the model knows of it, and asks the thread to go on as before.

All this holds as long as each answer lets the thread go on from the script that it is meant for. So
what is followed here are the messages that wait, each with whether it was sent in answer to a script.

## Main definitions

* `Bridge.labelled`: the messages that wait, each with whether it is an answer;
* `Execution.Gated`, `Execution.Stepping`: a thread that will get into a step, and one that is in it;
* `Bridge.IsToStop`: a thread that enters a script is to stop;
* `Bridge.Undisturbed`: nothing resumes a thread but answers.

## Main results

* `primed_run`: a thread that is to stop is in a step as soon as it goes on;
* `waits_of_entered`: a thread that is to stop waits at the first line that it reaches.
-/

namespace DebugBridge

/-- Whether a message is the news that a script is ready. -/
def Message.isReady : Message → Bool
  | .event (.scriptReady _ _ _) => true
  | _ => false

/-- A list beside a longer one of equal elements is the list with that element. -/
theorem zip_replicate_of_le {α β : Type} {as : List α} {n : Nat} (h : as.length ≤ n) (c : β) :
    as.zip (List.replicate n c) = as.map (·, c) := by
  induction as generalizing n with
  | nil => rfl
  | cons a as ih =>
      cases n with
      | zero => cases h
      | succ n =>
          rw [List.replicate_succ, List.zip_cons_cons, List.map_cons, ih (Nat.le_of_succ_le_succ h)]

/-! ### What a thread is told -/

section Follow

variable {options : LaunchOptions} {id : Nat} {o : Option Outline} {m : Message}

/-- A message that leaves a thread in its step. -/
def Message.Spares (id : Nat) (m : Message) : Prop :=
  ∀ options o, (Option.getD o .start).state = .stepping →
    ((followMessage options id o m).getD .start).state = .stepping

/-- Requests spare every thread. -/
theorem spares_request (r : Request) : Message.Spares id (.request r) :=
  fun _ _ h => h

/-- What an event makes of a thread in a step. -/
theorem spares_of_follow {e : Event} {thread : Handle} (he : e.thread? = some thread)
    (h : ∀ options (p : Outline), p.state = .stepping → (p.follow options e).state = .stepping) :
    Message.Spares id (.event e) := by
  intro options o ho
  rw [followMessage, followEvent, he]
  dsimp only
  split
  · exact h options _ ho
  · exact ho

/-- An event that passes a thread spares it. -/
theorem Event.Passes.spares {e : Event} (h : e.Passes id) : Message.Spares id (.event e) := by
  obtain ha | hnot := h
  · cases e with
    | frameVariables => exact fun _ _ ho => ho
    | evaluated => exact fun _ _ ho => ho
    | stackFrames thread stack =>
        refine spares_of_follow rfl fun options p hp => ?_
        rw [Outline.follow, if_neg (by rw [hp]; simp)]
        exact hp
    | _ => cases ha
  · intro options o ho
    rw [followMessage]
    cases he : e.thread? with
    | none =>
        rw [followEvent, he]
        exact ho
    | some thread =>
        rw [followEvent_of_ne he (hnot thread he)]
        exact ho

/-- A thread that is heard of is in its step if it was. -/
theorem spares_threadCreated (thread : Handle) : Message.Spares id (.event (.threadCreated thread)) :=
  spares_of_follow rfl fun options p hp => by rwa [Outline.follow_threadCreated]

/-- A script that is ready leaves its thread in its step. -/
theorem spares_scriptReady (script : Script) (thread : Handle) (root : Bool) :
    Message.Spares id (.event (.scriptReady script thread root)) :=
  spares_of_follow rfl fun options p hp => by rwa [Outline.follow_scriptReady]

/-- A thread that goes on in a step is in it. -/
theorem spares_resumed (thread : Handle) : Message.Spares id (.event (.resumed thread .stepInto)) := by
  refine spares_of_follow rfl fun options p hp => ?_
  rw [Outline.follow, if_neg (by rw [hp]; simp)]
  rfl

/-- Messages that spare a thread leave it in its step. -/
theorem foldl_spares {ms : List Message} (hms : ∀ m ∈ ms, m.Spares id)
    (h : (o.getD .start).state = .stepping) :
    ((ms.foldl (followMessage options id) o).getD .start).state = .stepping := by
  induction ms generalizing o with
  | nil => exact h
  | cons m ms ih =>
      exact ih (fun m' hm' => hms m' (List.mem_cons_of_mem _ hm'))
        (hms m List.mem_cons_self options o h)

end Follow

/-! ### Executions -/

namespace Execution

variable {options : LaunchOptions} {x z : Execution} {o o' : Option Outline}
  {ls : List (Message × Bool)} {m : Message} {t : Bool}

/-- A thread waits before a script, and every answer that it may get asks it to step into one. -/
structure Gated (options : LaunchOptions) (x : Execution) (ls : List (Message × Bool)) : Prop where
  waits : x.waiting = some .load
  answers : ∀ handle kind, (.request (.resume (some handle) kind), true) ∈ ls →
    handle.id = x.handle.id → kind = .stepInto
  scripts : ∀ script handle root t, (.event (.scriptReady script handle root), t) ∈ ls →
    handle.id = x.handle.id → options.stopsAt script root = true

/-- A thread is in a step, as the model will know when it hears of another script of the thread, and
no answer that it may get breaks the step off. -/
structure Stepping (options : LaunchOptions) (x : Execution) (o : Option Outline)
    (ls : List (Message × Bool)) : Prop where
  kind : x.resumeKind = .stepInto
  goes : x.waiting ≠ some .line
  answers : ∀ handle kind, (.request (.resume (some handle) kind), true) ∈ ls →
    handle.id = x.handle.id → kind = .stepInto ∨ kind = .unspecified
  scripts : ∀ before after script handle root t,
    ls = before ++ (.event (.scriptReady script handle root), t) :: after →
    handle.id = x.handle.id → options.stopsAt script root = true
      ∨ (((before.map Prod.fst).foldl (followMessage options x.handle.id) o).getD .start).state
        = .stepping
  foretold : (((ls.map Prod.fst).foldl (followMessage options x.handle.id) o).getD .start).state
    = .stepping

/-- A thread that will stop at its next line, unless anything but an answer resumes it before. -/
def Primed (options : LaunchOptions) (x : Execution) (o : Option Outline)
    (ls : List (Message × Bool)) : Prop :=
  x.Gated options ls ∨ x.Stepping options o ls

namespace Gated

/-- A thread that is gated is so without the message that was taken. -/
theorem less (h : x.Gated options ((m, t) :: ls)) : x.Gated options ls :=
  ⟨h.waits, fun handle kind hm => h.answers handle kind (List.mem_cons_of_mem _ hm),
    fun script handle root t hm => h.scripts script handle root t (List.mem_cons_of_mem _ hm)⟩

/-- A thread that is gated is so with messages that ask it for nothing else. -/
theorem more (h : x.Gated options ls) (hz : z.Stays x) {ms : List Message} (t : Bool)
    (hanswers : t = true → ∀ handle kind, .request (.resume (some handle) kind) ∈ ms →
      handle.id = x.handle.id → kind = .stepInto)
    (hready : ∀ script handle root, .event (.scriptReady script handle root) ∈ ms →
      handle.id ≠ x.handle.id) : z.Gated options (ls ++ ms.map (·, t)) := by
  refine ⟨hz.waiting.trans h.waits, fun handle kind hm hid => ?_, fun script handle root t' hm hid => ?_⟩
  · rw [hz.handle] at hid
    rcases List.mem_append.mp hm with hm | hm
    · exact h.answers handle kind hm hid
    · obtain ⟨m, hm, he⟩ := List.mem_map.mp hm
      obtain ⟨rfl, ht⟩ := Prod.mk.inj he
      exact hanswers ht handle kind hm hid
  · rw [hz.handle] at hid
    rcases List.mem_append.mp hm with hm | hm
    · exact h.scripts script handle root t' hm hid
    · obtain ⟨m, hm, he⟩ := List.mem_map.mp hm
      obtain ⟨rfl, -⟩ := Prod.mk.inj he
      exact absurd hid (hready script handle root hm)

/-- A thread that is asked to step into its script is in a step from then on. -/
theorem release (h : x.Gated options ls) (marks : Marks)
    (ho : (((ls.map Prod.fst).foldl (followMessage options x.handle.id) o).getD .start).state
      ≠ .terminated) :
    (x.resume marks .stepInto).Stepping options o
      (ls ++ [.event (.resumed x.handle .stepInto)].map (·, false)) := by
  refine ⟨rfl, by simp, fun handle kind hm hid => ?_, fun before after script handle root t hls hid => ?_,
    ?_⟩
  · rcases List.mem_append.mp hm with hm | hm
    · exact .inl (h.answers handle kind hm hid)
    · simp at hm
  · have hm : (.event (.scriptReady script handle root), t)
        ∈ ls ++ [.event (.resumed x.handle .stepInto)].map (·, false) := by
      rw [hls]
      simp
    rcases List.mem_append.mp hm with hm | hm
    · exact .inl (h.scripts script handle root t hm hid)
    · simp at hm
  · rw [handle_resume, List.map_append, List.foldl_append]
    change ((followEvent options x.handle.id _ (.resumed x.handle .stepInto)).getD .start).state = _
    rw [followEvent_self rfl, Outline.follow, Option.getD_some, if_neg ho]
    rfl

end Gated

namespace Stepping

/-- A message that is taken is behind: what it says has become of the outline. -/
theorem less (h : x.Stepping options o ((m, t) :: ls))
    (ho : o' = followMessage options x.handle.id o m) : x.Stepping options o' ls := by
  subst ho
  refine ⟨h.kind, h.goes, fun handle kind hm => h.answers handle kind (List.mem_cons_of_mem _ hm),
    fun before after script handle root t' hls hid => ?_, h.foretold⟩
  exact h.scripts ((m, t) :: before) after script handle root t' (by rw [hls]; rfl) hid

/-- A thread in its step is so with messages that ask it for nothing else. -/
theorem more (h : x.Stepping options o ls) (hhandle : z.handle = x.handle)
    (hkind : z.resumeKind = .stepInto) (hgoes : z.waiting ≠ some .line) {ms : List Message} (t : Bool)
    (hanswers : t = true → ∀ handle kind, .request (.resume (some handle) kind) ∈ ms →
      handle.id = x.handle.id → kind = .stepInto ∨ kind = .unspecified)
    (hspares : ∀ m ∈ ms, m.Spares x.handle.id) : z.Stepping options o (ls ++ ms.map (·, t)) := by
  refine ⟨hkind, hgoes, fun handle kind hm hid => ?_, fun before after script handle root t' hls hid => ?_,
    ?_⟩
  · rw [hhandle] at hid
    rcases List.mem_append.mp hm with hm | hm
    · exact h.answers handle kind hm hid
    · obtain ⟨m, hm, he⟩ := List.mem_map.mp hm
      obtain ⟨rfl, ht⟩ := Prod.mk.inj he
      exact hanswers ht handle kind hm hid
  · rw [hhandle] at hid ⊢
    obtain ⟨cs, rfl, hcs⟩ | ⟨cs, rfl, hcs⟩ := List.append_eq_append_iff.mp hls
    -- The script came last: what is ahead of it leaves the thread in its step.
    · right
      have hall : ∀ m ∈ cs.map Prod.fst, m.Spares x.handle.id := by
        intro m hm
        obtain ⟨l, hl, rfl⟩ := List.mem_map.mp hm
        have hl' : l ∈ ms.map (·, t) := hcs ▸ List.mem_append_left _ hl
        obtain ⟨m', hm', rfl⟩ := List.mem_map.mp hl'
        exact hspares m' hm'
      rw [List.map_append, List.foldl_append]
      exact foldl_spares hall h.foretold
    · cases cs with
      | nil =>
          right
          have hforetold := h.foretold
          rwa [List.append_nil] at hforetold
      | cons c cs =>
          obtain ⟨rfl, -⟩ := List.cons.inj hcs
          exact h.scripts before cs script handle root t' rfl hid
  · rw [hhandle, List.map_append, List.foldl_append, List.map_map]
    refine foldl_spares (fun m hm => ?_) h.foretold
    obtain ⟨m', hm', rfl⟩ := List.mem_map.mp hm
    exact hspares m' hm'

end Stepping

end Execution

/-! ### Messages and where they come from -/

namespace Bridge

open World

variable {σ : Type} [Inhabited σ] [Engine σ] {s : Nat} {b b' : Bridge σ} {ds : List (Deed σ)}
  {x : Deed σ} {ls : List (Message × Bool)}

/-- The messages that wait after a deed, each with whether it was sent in answer to a script. Where
there were labels before, they stay with their messages. -/
def relabel (s : Nat) (b : Bridge σ) (x : Deed σ) (ls : List (Message × Bool)) :
    List (Message × Bool) :=
  let kept := if (b.handed s x).isSome then ls.tail else ls
  let mail := (b.after x).world.mail s
  mail.zip (kept.map Prod.snd ++ List.replicate mail.length ((b.handed s x).any Message.isReady))

/-- The messages that wait after a run, each with whether it was sent in answer to a script. -/
def labelled (s : Nat) : List (Deed σ) → Bridge σ → List (Message × Bool) → List (Message × Bool)
  | [], _, ls => ls
  | x :: ds, b, ls => labelled s ds (b.after x) (relabel s b x ls)

/-- The labels after a run are those that its last deed leaves. -/
theorem labelled_append_singleton (ds : List (Deed σ)) (x : Deed σ) (b : Bridge σ)
    (ls : List (Message × Bool)) :
    labelled s (ds ++ [x]) b ls = relabel s (run ds b) x (labelled s ds b ls) := by
  induction ds generalizing b ls with
  | nil => rfl
  | cons y ds ih => exact ih (b.after y) (relabel s b y ls)

/-- Every message that waits has a label. -/
theorem fst_relabel (b : Bridge σ) (x : Deed σ) (ls : List (Message × Bool)) :
    (relabel s b x ls).map Prod.fst = (b.after x).world.mail s := by
  refine List.map_fst_zip ?_
  rw [List.length_append, List.length_replicate]
  exact Nat.le_add_left _ _

omit [Inhabited σ] [Engine σ] in
/-- In the beginning no message waits. -/
theorem mail_start (hb : b.world = .start) : b.world.mail s = [] := by
  rw [hb]
  rfl

/-- The messages with labels are those that wait. -/
theorem fst_labelled (hb : b.world = .start) (ds : List (Deed σ)) :
    (labelled s ds b []).map Prod.fst = (run ds b).world.mail s := by
  cases ds using List.reverseRecOn with
  | nil => exact (mail_start hb).symm
  | append_singleton ds x =>
      rw [labelled_append_singleton, fst_relabel, run_append]
      rfl

/-- What comes behind the messages that wait gets one label. -/
theorem relabel_eq (kept : List (Message × Bool)) (ms : List Message)
    (hkept : (if (b.handed s x).isSome then ls.tail else ls) = kept)
    (hmail : (b.after x).world.mail s = kept.map Prod.fst ++ ms) :
    relabel s b x ls = kept ++ ms.map (·, (b.handed s x).any Message.isReady) := by
  unfold relabel
  dsimp only
  rw [hkept, hmail, List.zip_append (by rw [List.length_map, List.length_map]),
    ← List.zip_of_prod rfl rfl, zip_replicate_of_le]
  rw [List.length_append]
  exact Nat.le_add_left _ _

/-- Where nothing is handed over, messages come behind those that wait. -/
theorem relabel_of_none (hls : ls.map Prod.fst = b.world.mail s) (hnone : b.handed s x = none)
    {ms : List Message} (hmail : (b.after x).world.mail s = b.world.mail s ++ ms) :
    relabel s b x ls = ls ++ ms.map (·, false) := by
  rw [relabel_eq ls ms (by rw [hnone]; rfl) (by rw [hmail, hls]), hnone]
  rfl

/-- What is handed over is the first message that waits. -/
theorem relabel_of_some (ms : List Message) (hls : ls.map Prod.fst = b.world.mail s) {m : Message}
    {behind : List Message} (hx : x = .deliver s) (hhead : b.world.mail s = m :: behind)
    (hmail : (b.after x).world.mail s = behind ++ ms) :
    ∃ t kept, ls = (m, t) :: kept ∧ kept.map Prod.fst = behind
      ∧ relabel s b x ls = kept ++ ms.map (·, m.isReady) := by
  have hsome := handed_of_mail hx hhead
  rw [hhead] at hls
  obtain ⟨⟨m', t⟩, kept, rfl, rfl, hkept⟩ := List.map_eq_cons_iff.mp hls
  refine ⟨t, kept, rfl, hkept, ?_⟩
  rw [relabel_eq kept ms (by rw [hsome]; rfl) (by rw [hmail, hkept]), hsome]
  rfl

/-! ### Steps -/

/-- Outlines are those of a model. -/
theorem outline_of_model {x x' : Session} (h : x'.model = x.model) : x'.outline = x.outline := by
  funext id
  rw [Session.outline, Session.outline, ← Session.threads_model, h, Session.threads_model]

section Steps

variable {d d' : Debugger} {o : Nat} {y z : Execution}

/-- Messages that do not concern a thread leave it primed. -/
theorem primed_of_spares {options : LaunchOptions} {p : Option Outline} {ms : List Message}
    (h : y.Primed options p ls) (hz : z.Stays y) (t : Bool)
    (hanswers : t = true → ∀ handle kind, .request (.resume (some handle) kind) ∈ ms →
      handle.id ≠ y.handle.id)
    (hready : ∀ script handle root, .event (.scriptReady script handle root) ∈ ms →
      handle.id ≠ y.handle.id)
    (hspares : ∀ m ∈ ms, m.Spares y.handle.id) : z.Primed options p (ls ++ ms.map (·, t)) := by
  obtain h | h := h
  · refine .inl (h.more hz t (fun ht handle kind hm hid => ?_) hready)
    exact absurd hid (hanswers ht handle kind hm)
  · refine .inr (h.more hz.handle (hz.kind.trans h.kind) (hz.waiting ▸ h.goes) t
      (fun ht handle kind hm hid => ?_) hspares)
    exact absurd hid (hanswers ht handle kind hm)

/-- A call leaves a thread primed, unless the thread reaches a line in it. -/
theorem primed_called {i : Interpreter} {c : Call} {es : List Event} {m : Marks} {n : Nat}
    {options : LaunchOptions} {p : Option Outline} (hord : d.Orderly n)
    (h : d.Performs m n i c d' es) (hw : d.isWaiting i.id = false) (hy : d.ofOwner? o = some y)
    (hz : d'.ofOwner? o = some z) (hp : y.Primed options p ls)
    (hline : ∀ script line, c = .line script line → i.id = o → d.minds script line = true →
      y.stack = []) : z.Primed options p (ls ++ (es.map Message.event).map (·, false)) := by
  obtain ⟨hstays, hes⟩ | ⟨hi, script, answers, -, hheld, rfl, hanswers⟩
      | ⟨hi, script, line, hc, hminds, hbusy⟩ := h.keeps hord hy hz
  · refine primed_of_spares hp hstays false nofun (fun script handle root hm hid => ?_) fun m hm => ?_
    · obtain ⟨e, he, heq⟩ := List.mem_map.mp hm
      obtain rfl := Message.event.inj heq
      obtain (ha | hnot) | hcreated := hes _ he
      · cases ha
      · exact hnot handle rfl hid
      · cases hcreated
    · obtain ⟨e, he, rfl⟩ := List.mem_map.mp hm
      obtain hpasses | rfl := hes e he
      · exact hpasses.spares
      · exact spares_threadCreated _
  -- A thread that is held up before another script was in its step before.
  · obtain h | h := hp
    · subst hi
      rw [Debugger.isWaiting_eq hy, h.waits] at hw
      cases hw
    · have hhandle : z.handle = y.handle := by rw [hheld]
      have hkind : z.resumeKind = y.resumeKind := by rw [hheld]
      have hgoes : z.waiting ≠ some .line := by simp [hheld]
      refine .inr (h.more hhandle (hkind.trans h.kind) hgoes false nofun fun m hm => ?_)
      obtain ⟨e, he, rfl⟩ := List.mem_map.mp hm
      obtain rfl | he := List.mem_cons.mp he
      · exact spares_scriptReady _ _ _
      · exact (hanswers e he).spares
  · exact absurd (hline script line hc hi hminds) hbusy

/-- A script that is answered leaves a thread primed: if it is the thread that waits before the
script, the answer asks it to step, or to go on as before. -/
theorem primed_answered {options : LaunchOptions} {p p' : Option Outline} {script : Script}
    {thread handle : Handle} {root t : Bool} {ps : List Breakpoint}
    (hp : y.Primed options p ((.event (.scriptReady script thread root), t) :: ls))
    (hid : handle.id = thread.id)
    (hp' : p' = followMessage options y.handle.id p (.event (.scriptReady script thread root)))
    {stepping : Bool}
    (hstepping : thread.id = y.handle.id → stepping = decide ((p.getD .start).state = .stepping)) :
    y.Primed options p' (ls ++ (ps.map (fun q => Message.request (.breakpoint script q .add))
      ++ [Message.request (.resume (some handle) (loadResume options script root stepping))]).map
        (·, true)) := by
  have hlast : ∀ {handle' kind}, Message.request (.resume (some handle') kind)
      ∈ ps.map (fun q => Message.request (.breakpoint script q .add))
        ++ [Message.request (.resume (some handle) (loadResume options script root stepping))] →
      handle' = handle ∧ kind = loadResume options script root stepping := by
    intro handle' kind hm
    rcases List.mem_append.mp hm with hm | hm
    · obtain ⟨q, -, heq⟩ := List.mem_map.mp hm
      cases heq
    · cases List.mem_singleton.mp hm
      exact ⟨rfl, rfl⟩
  obtain h | h := hp
  · refine .inl (h.less.more ⟨rfl, rfl, rfl⟩ true (fun _ handle' kind hm hid' => ?_) ?_)
    · obtain ⟨rfl, rfl⟩ := hlast hm
      have hstop := h.scripts script thread root t List.mem_cons_self (hid.symm.trans hid')
      exact if_pos hstop
    · intro script' handle' root' hm
      rcases List.mem_append.mp hm with hm | hm
      · obtain ⟨q, -, heq⟩ := List.mem_map.mp hm
        cases heq
      · cases List.mem_singleton.mp hm
  · refine .inr ((h.less hp').more rfl h.kind h.goes true (fun _ handle' kind hm hid' => ?_)
      fun m hm => ?_)
    · obtain ⟨rfl, rfl⟩ := hlast hm
      have hthread := hid.symm.trans hid'
      unfold loadResume
      split
      · exact .inl rfl
      · next hstop =>
          obtain hstop' | hstate := h.scripts [] ls script thread root t rfl hthread
          · exact absurd hstop' hstop
          · rw [(hstepping hthread).trans (decide_eq_true hstate), if_pos rfl]
            exact .inr rfl
    · rcases List.mem_append.mp hm with hm | hm
      · obtain ⟨q, -, rfl⟩ := List.mem_map.mp hm
        exact spares_request _
      · obtain rfl := List.mem_singleton.mp hm
        exact spares_request _

/-- A request leaves a thread primed, unless it resumes the thread and is no answer. -/
theorem primed_obeyed {r : Request} {es : List Event} {m : Marks} {n : Nat} {t : Bool}
    {options : LaunchOptions} {p : Option Outline} (hord : d.Orderly n) (hr : r.IsProper)
    (h : d.Obeys m r d' es) (hy : d.ofOwner? o = some y) (hz : d'.ofOwner? o = some z)
    (hlives : (((ls.map Prod.fst).foldl (followMessage options y.handle.id) p).getD .start).state
      ≠ .terminated)
    (hp : y.Primed options p ((.request r, t) :: ls))
    (ht : Message.resumed? (.request r) = some y.handle.id → t = true) :
    z.Primed options p (ls ++ (es.map Message.event).map (·, false)) := by
  obtain ⟨handle, kind, rfl, hid, rfl, rfl⟩ | ⟨-, hstays, hes⟩ := h.keeps hord hr hy hz
  · obtain rfl := ht (congrArg some hid)
    obtain h | h := hp
    · obtain rfl := h.answers handle kind List.mem_cons_self hid
      rw [h.waits]
      exact .inr (h.less.release m hlives)
    · have hkind : (y.resume m kind).resumeKind = .stepInto := by
        obtain rfl | rfl := h.answers handle kind List.mem_cons_self hid
        · rfl
        · exact h.kind
      refine .inr ((h.less rfl).more (y.handle_resume m kind) hkind (by simp) false nofun
        fun m' hm => ?_)
      obtain ⟨e, he, rfl⟩ := List.mem_map.mp hm
      split at he
      · obtain rfl := List.mem_singleton.mp he
        rw [hkind]
        exact spares_resumed _
      · cases he
  · have hp' : y.Primed options p ls := hp.imp (·.less) (·.less rfl)
    refine primed_of_spares hp' hstays false nofun (fun script handle root hm hid => ?_)
      fun m hm => ?_
    · obtain ⟨e, he, heq⟩ := List.mem_map.mp hm
      obtain rfl := Message.event.inj heq
      obtain ha | hnot := hes _ he
      · cases ha
      · exact hnot handle rfl hid
    · obtain ⟨e, he, rfl⟩ := List.mem_map.mp hm
      exact (hes e he).spares

/-- A step of a live session leaves a thread primed, unless the thread reaches a line in it, or is
resumed by what is no answer. -/
theorem primed_advances (hlive : Live b.world s d) (hin : InStep b.world s d)
    (h : Advances s b d x (b.after x) d') (hls : ls.map Prod.fst = b.world.mail s)
    (hy : d.ofOwner? o = some y) (hz : d'.ofOwner? o = some z)
    (hp : y.Primed (b.world.session s).options ((b.world.session s).outline y.handle.id) ls)
    (hheed : ∀ m, b.handed s x = some m → m.resumed? = some y.handle.id →
      ls.head?.map Prod.snd = some true)
    (hline : ∀ i script line, x = .call i (.line script line) → i.session = s → i.id = o →
      d.isWaiting i.id = false → d.minds script line = true → y.stack = []) :
    z.Primed (b.world.session s).options (((b.after x).world.session s).outline y.handle.id)
      (relabel s b x ls) := by
  cases h with
  | posted rs hnone hd hmodel hmail =>
      subst hd
      obtain rfl := Option.some.inj (hz.symm.trans hy)
      rw [relabel_of_none hls hnone hmail, outline_of_model hmodel]
      refine primed_of_spares hp ⟨rfl, rfl, rfl⟩ false nofun (fun script handle root hm => ?_)
        fun m hm => ?_
      · obtain ⟨r, -, heq⟩ := List.mem_map.mp hm
        cases heq
      · obtain ⟨r, -, rfl⟩ := List.mem_map.mp hm
        exact spares_request r
  | called i c es hx hi hw hperforms hmodel hmail =>
      subst hx
      rw [relabel_of_none hls rfl hmail, outline_of_model hmodel]
      refine primed_called hlive.orderly hperforms hw hy hz hp fun script line hc hio hminds => ?_
      subst hc
      exact hline i script line rfl hi hio hw hminds
  | shown e hx hd hready hmail hfollows hoptions =>
      subst hd
      obtain rfl := Option.some.inj (hz.symm.trans hy)
      obtain ⟨t, kept, rfl, -, hrelabel⟩ := relabel_of_some [] hls hx hmail
        (List.append_nil _).symm
      rw [hrelabel, List.map_nil, List.append_nil, hfollows.outline]
      exact hp.imp (·.less) (·.less rfl)
  | answered script thread handle root behind hx hd hid hmail hmail' hfollows hoptions =>
      subst hd
      obtain rfl := Option.some.inj (hz.symm.trans hy)
      rw [List.append_assoc] at hmail'
      obtain ⟨t, kept, rfl, -, hrelabel⟩ := relabel_of_some _ hls hx hmail hmail'
      rw [hrelabel, hfollows.outline]
      exact primed_answered hp hid rfl fun heq => by rw [heq]
  | obeyed r es behind hx hmail hobeys hmodel hmail' =>
      have hm := handed_of_mail hx hmail
      obtain ⟨t, kept, rfl, hkept, hrelabel⟩ := relabel_of_some _ hls hx hmail hmail'
      rw [hrelabel, outline_of_model hmodel]
      refine primed_obeyed hlive.orderly (hlive.proper r (hmail ▸ List.mem_cons_self)) hobeys hy hz
        ?_ hp fun hres => Option.some.inj (hheed _ hm hres)
      have hfits := (hin.agrees.fits y (Debugger.mem_of_ofOwner? hy)).state_ne_terminated
      rwa [foretold, hmail, List.foldl_cons, ← hkept] at hfits

end Steps

/-! ### Runs -/

/-- In a run nothing resumes a thread but what was sent in answer to a script. The run goes on from
where another left off. -/
def Undisturbed (s : Nat) (thread : Handle) (cs es : List (Deed σ)) (b : Bridge σ) : Prop :=
  ∀ fs x, fs ++ [x] <+: es → ∀ m, (run (cs ++ fs) b).handed s x = some m →
    m.resumed? = some thread.id → (labelled s (cs ++ fs) b []).head?.map Prod.snd = some true

/-- A thread that goes on reaches a line, at which it may stop. -/
def Reaches (b : Bridge σ) (i : Interpreter) (script : Script) (line : Nat) : Prop :=
  b.isWaiting i = false ∧ (b.world.debugger i.session).minds script line = true
    ∧ ∃ x, (b.world.debugger i.session).ofOwner? i.id = some x ∧ x.stack ≠ []

section Runs

variable {d : Debugger} {o : Nat} {cs es : List (Deed σ)} {y z : Execution}

omit [Inhabited σ] [Engine σ] in
/-- A debugger that knows a thread is there. -/
theorem isSome_of_ofOwner? {w : World} {o : Nat} (hy : (w.debugger s).ofOwner? o = some y) :
    (w.session s).debugger.isSome = true := by
  cases hd : (w.session s).debugger with
  | some d => rfl
  | none =>
      rw [debugger, hd] at hy
      cases hy

/-- What is primed at the beginning of a run stays so as long as nothing resumes it but answers, and
it reaches no line. -/
theorem primed_run (hb : b.world = .start)
    (hy : ((run cs b).world.debugger s).ofOwner? o = some y)
    (hp : y.Primed ((run cs b).world.session s).options
      (((run cs b).world.session s).outline y.handle.id) (labelled s cs b []))
    (hes : Undisturbed s y.handle cs es b)
    (hline : ∀ fs i script line, fs ++ [.call i (.line script line)] <+: es → i.session = s →
      i.id = o → ¬(run (cs ++ fs) b).Reaches i script line)
    (hlive : Live (run (cs ++ es) b).world s d) (hz : d.ofOwner? o = some z)
    (hsame : z.handle = y.handle) :
    z.Primed ((run (cs ++ es) b).world.session s).options
      (((run (cs ++ es) b).world.session s).outline y.handle.id) (labelled s (cs ++ es) b []) := by
  induction es using List.reverseRecOn generalizing d z with
  | nil =>
      rw [List.append_nil] at hlive ⊢
      rw [debugger_eq hlive.here] at hy
      obtain rfl := Option.some.inj (hz.symm.trans hy)
      exact hp
  | append_singleton es x ih =>
      have hbefore : es <+: es ++ [x] := List.prefix_append es [x]
      have hsome := isSome_of_ofOwner? hy
      have hlater : ((run (cs ++ es) b).world.session s).debugger.isSome = true := by
        rw [run_append]
        exact present_run (run cs b) es hsome
      obtain ⟨d₁, hlive₁⟩ := exists_live_of_present hb (es ++ [x]) hsome hlive
      rw [← List.append_assoc] at hlive ⊢
      obtain ⟨d₀, hlive₀, hadvances⟩ := exists_advances hb hlater hlive
      rw [debugger_eq hlive₁.here] at hy
      have hold : z.handle.id < (run (cs ++ es) b).world.nextNumber := by
        rw [hsame, run_append]
        exact Nat.lt_of_lt_of_le (hlive₁.orderly.below y (Debugger.mem_of_ofOwner? hy))
          (numbers_run es (run cs b))
      obtain ⟨z₀, hz₀, hzz⟩ := hadvances.ofOwner?_eq hlive₀.orderly hz hold
      have hsame₀ : z₀.handle = y.handle := hzz.trans hsame
      have hp₀ := ih (fun fs x hfs => hes fs x (hfs.trans hbefore))
        (fun fs i script line hfs => hline fs i script line (hfs.trans hbefore)) hlive₀ hz₀ hsame₀
      have hrun : run (cs ++ es ++ [x]) b = (run (cs ++ es) b).after x := run_append _ [x] b
      rw [hadvances.options, labelled_append_singleton, hrun]
      rw [hrun] at hadvances
      rw [← hsame₀] at hp₀ ⊢
      refine primed_advances hlive₀ (inStep_run hb _ hlive₀) hadvances (fst_labelled hb _) hz₀ hz hp₀
        (fun m hm hres => hes es x List.prefix_rfl m hm (hsame₀ ▸ hres)) ?_
      rintro i script line rfl hi hio hw hminds
      by_contra hbusy
      subst hi hio
      refine hline es i script line List.prefix_rfl rfl rfl ⟨?_, ?_, z₀, ?_, hbusy⟩
      · rw [isWaiting_eq hlive₀ rfl]
        exact hw
      · rw [debugger_eq hlive₀.here]
        exact hminds
      · rw [debugger_eq hlive₀.here]
        exact hz₀

/-- All answers that wait ask a thread to step into its script, and so will the answers to all scripts
that are on their way. -/
structure Bids (options : LaunchOptions) (ls : List (Message × Bool)) : Prop where
  answers : ∀ thread kind, (.request (.resume thread kind), true) ∈ ls → kind = .stepInto
  scripts : ∀ script thread root t, (.event (.scriptReady script thread root), t) ∈ ls →
    options.stopsAt script root = true

/-- What all answers bid they bid without the message that was taken. -/
theorem Bids.less {options : LaunchOptions} {l : Message × Bool} (h : Bids options (l :: ls)) :
    Bids options ls :=
  ⟨fun thread kind hm => h.answers thread kind (List.mem_cons_of_mem _ hm),
    fun script thread root t hm => h.scripts script thread root t (List.mem_cons_of_mem _ hm)⟩

/-- What all answers bid they bid with answers of that kind. -/
theorem Bids.more {options : LaunchOptions} (h : Bids options ls) {ms : List Message} (t : Bool)
    (hanswers : t = true → ∀ thread kind, .request (.resume thread kind) ∈ ms → kind = .stepInto)
    (hready : ∀ script thread root, .event (.scriptReady script thread root) ∈ ms →
      options.stopsAt script root = true) : Bids options (ls ++ ms.map (·, t)) := by
  refine ⟨fun thread kind hm => ?_, fun script thread root t' hm => ?_⟩
  · rcases List.mem_append.mp hm with hm | hm
    · exact h.answers thread kind hm
    · obtain ⟨m, hm, he⟩ := List.mem_map.mp hm
      obtain ⟨rfl, ht⟩ := Prod.mk.inj he
      exact hanswers ht thread kind hm
  · rcases List.mem_append.mp hm with hm | hm
    · exact h.scripts script thread root t' hm
    · obtain ⟨m, hm, he⟩ := List.mem_map.mp hm
      obtain ⟨rfl, -⟩ := Prod.mk.inj he
      exact hready script thread root hm

/-- Where the options ask to stop at every script, they ask for it at every visible one. -/
theorem stopsAt_of_isTracked {options : LaunchOptions} (hload : options.suspendOnScriptLoad = true)
    (hshows : d.showDynamicCode = options.showDynamicCode) {script : Script}
    (ht : d.isTracked script = true) (root : Bool) : options.stopsAt script root = true := by
  unfold Debugger.isTracked at ht
  unfold LaunchOptions.stopsAt
  rw [hload, ← hshows, Bool.true_and, Bool.or_comm d.showDynamicCode, ht, Bool.true_or]

/-- A step of a live session whose options ask to stop at every script leaves all answers asking for
it. -/
theorem bids_advances {d₀ : Debugger} {ls : List (Message × Bool)} (hlive : Live b.world s d₀)
    (hload : (b.world.session s).options.suspendOnScriptLoad = true)
    (hshows : d₀.showDynamicCode = (b.world.session s).options.showDynamicCode)
    (h : Advances s b d₀ x (b.after x) d) (hls : ls.map Prod.fst = b.world.mail s)
    (hbids : Bids (b.world.session s).options ls) :
    Bids (b.world.session s).options (relabel s b x ls) := by
  cases h with
  | posted rs hnone hd hmodel hmail =>
      rw [relabel_of_none hls hnone hmail]
      exact hbids.more false nofun fun script thread root hm => by simp at hm
  | called i c es hx hi hw hperforms hmodel hmail =>
      subst hx
      rw [relabel_of_none hls rfl hmail]
      refine hbids.more false nofun fun script thread root hm => ?_
      obtain ⟨e, he, heq⟩ := List.mem_map.mp hm
      obtain rfl := Message.event.inj heq
      exact stopsAt_of_isTracked hload hshows (hperforms.isTracked he) root
  | shown e hx hd hready hmail =>
      obtain ⟨t, kept, rfl, -, hrelabel⟩ := relabel_of_some [] hls hx hmail
        (List.append_nil _).symm
      rw [hrelabel, List.map_nil, List.append_nil]
      exact hbids.less
  | answered script thread handle root behind hx hd hid hmail hmail' =>
      rw [List.append_assoc] at hmail'
      obtain ⟨t, kept, rfl, -, hrelabel⟩ := relabel_of_some _ hls hx hmail hmail'
      have hstop := hbids.scripts script thread root t List.mem_cons_self
      rw [hrelabel]
      refine hbids.less.more _ (fun _ thread' kind hm => ?_) fun script' thread' root' hm => ?_
      · simp only [List.mem_append, List.mem_map, reduceCtorEq, and_false, exists_false,
          List.mem_singleton, Message.request.injEq, Request.resume.injEq, false_or] at hm
        rw [hm.2, loadResume, if_pos hstop]
      · simp at hm
  | obeyed r es behind hx hmail hobeys hmodel hmail' =>
      obtain ⟨t, kept, rfl, -, hrelabel⟩ := relabel_of_some _ hls hx hmail hmail'
      rw [hrelabel]
      refine hbids.less.more _ nofun fun script thread root hm => ?_
      obtain ⟨e, he, heq⟩ := List.mem_map.mp hm
      obtain rfl := Message.event.inj heq
      have hproper := hlive.proper r (hmail ▸ List.mem_cons_self)
      exact absurd he (hobeys.scriptReady_notMem hproper script thread root)

/-- Where the options ask to stop at every script, all answers ask for it. -/
theorem bids_run (hb : b.world = .start) (ds : List (Deed σ)) (hlive : Live (run ds b).world s d)
    (hload : ((run ds b).world.session s).options.suspendOnScriptLoad = true) :
    d.showDynamicCode = ((run ds b).world.session s).options.showDynamicCode
      ∧ Bids ((run ds b).world.session s).options (labelled s ds b []) := by
  induction ds using List.reverseRecOn generalizing d with
  | nil =>
      have halive := hlive.alive
      rw [run_nil, hb] at halive
      cases halive
  | append_singleton ds x ih =>
      have hrun : run (ds ++ [x]) b = (run ds b).after x := run_append ds [x] b
      obtain ⟨d₀, hlive₀, hadvances⟩ | ⟨-, hopened⟩ := advances_before hb ds x hlive
      · have hoptions := hadvances.options
        have hload₀ : ((run ds b).world.session s).options.suspendOnScriptLoad = true :=
          hoptions ▸ hload
        obtain ⟨hshows, hbids⟩ := ih hlive₀ hload₀
        refine ⟨hadvances.showDynamicCode.trans (hoptions ▸ hshows), ?_⟩
        rw [hoptions, labelled_append_singleton]
        exact bids_advances hlive₀ hload₀ hshows (hrun ▸ hadvances) (fst_labelled hb ds) hbids
      · have hnil : labelled s (ds ++ [x]) b [] = [] := by
          rw [← List.map_eq_nil_iff (f := Prod.fst), fst_labelled hb, hopened.mail]
        rw [hnil]
        exact ⟨hopened.shows, nofun, nofun⟩

end Runs

/-! ### Threads that are to stop -/

/-- A thread that enters a script is to stop at its first line. The options ask for it at every
script, or they ask for it at the first script and the thread is in no call; then nothing may be on
its way that was meant to let the thread go on from an earlier one. -/
def IsToStop (w : World) (s : Nat) (y : Execution) : Prop :=
  (w.session s).options.suspendOnScriptLoad = true
    ∨ (w.session s).options.suspendOnStartup = true ∧ y.stack = []
      ∧ ∀ m ∈ w.mail s, ¬m.Frees y.handle.id

section Entering

variable {d : Debugger} {i : Interpreter} {script : Script} {cs es : List (Deed σ)}
  {y z : Execution}

/-- A thread that is held up before a script in which it is to stop is primed. -/
theorem gated_of_held (hb : b.world = .start) (hcs : cs = ds ++ [.call i (.scriptStarted script)])
    (hlive : Live (run ds b).world i.session d) (hfree : (run ds b).isWaiting i = false)
    (ht : d.isTracked script = true)
    (hy : ((run cs b).world.debugger i.session).ofOwner? i.id = some y)
    (hstop : IsToStop (run ds b).world i.session y) :
    y.Gated ((run cs b).world.session i.session).options (labelled i.session cs b []) := by
  let w := (run ds b).world
  have hrun : run cs b = ((run ds b).perform i (.scriptStarted script)).2 := by
    rw [hcs, run_append]
    exact if_neg (by simp [hfree])
  obtain ⟨d', es, hperforms, hbecomes⟩ := performs_perform hlive.here hlive.listens hlive.orderly
    (c := .scriptStarted script) (by simp)
  rw [← hrun] at hbecomes
  have hmodel := hbecomes.tells.here.model
  have hmail := hlive.mail_becomes hbecomes
  have hoptions : ((run cs b).world.session i.session).options
      = (w.session i.session).options := (congrArg Session.options hmodel :)
  have hlabels : labelled i.session cs b []
      = labelled i.session ds b [] ++ (es.map Message.event).map (·, false) := by
    rw [hcs, labelled_append_singleton]
    refine relabel_of_none (fst_labelled hb ds) rfl ?_
    rw [hcs, run_append] at hmail
    exact hmail
  rw [debugger_eq hbecomes.debugger] at hy
  rw [hoptions, hlabels]
  cases hperforms with
  | aside c es hes hline hscript =>
      rw [hscript script rfl] at ht
      cases ht
  | moved c hc => exact hc.elim
  | held script' ht' answers ha =>
      let x := d.executionFor w.nextNumber i
      let x' : Execution := { x with waiting := some .load, pending := [] }
      have hself : ((d.meet w.nextNumber i).put x').ofOwner? i.id = some x' :=
        ofOwner?_put_self (Debugger.ofOwner?_meet d w.nextNumber i) rfl
      have hyx := Option.some.inj (hy.symm.trans hself)
      have hhandle : y.handle = x.handle := by rw [hyx]
      have hstack : y.stack = x.stack := by rw [hyx]
      have hwaits : y.waiting = some .load := by rw [hyx]
      -- A message with a label is one that waits.
      have hold : ∀ {l}, l ∈ labelled i.session ds b [] → l.1 ∈ w.mail i.session := by
        intro l hl
        have hfst := fst_labelled (s := i.session) hb ds
        exact hfst ▸ List.mem_map_of_mem hl
      have hnew : ∀ {script' handle root t}, (.event (.scriptReady script' handle root), t)
          ∈ ((.scriptReady script x.handle x.stack.isEmpty :: answers).map Message.event).map
            (·, false) → script' = script ∧ root = x.stack.isEmpty := by
        intro script' handle root t hm
        obtain ⟨m, hm, he⟩ := List.mem_map.mp hm
        obtain ⟨rfl, -⟩ := Prod.mk.inj he
        obtain ⟨e, he, heq⟩ := List.mem_map.mp hm
        obtain rfl := Message.event.inj heq
        rcases List.mem_cons.mp he with heq | he
        · cases heq
          exact ⟨rfl, rfl⟩
        · cases ha _ he
      refine ⟨hwaits, fun handle kind hm hid => ?_, fun script' handle root t hm hid => ?_⟩
      · have hl := (List.mem_append.mp hm).resolve_right (by simp)
        obtain hload | ⟨-, -, hnone⟩ := hstop
        · exact (bids_run hb ds hlive hload).2.answers _ kind hl
        · exact absurd hid (hnone _ (hold hl))
      · rcases List.mem_append.mp hm with hl | hl
        · obtain hload | ⟨-, -, hnone⟩ := hstop
          · exact (bids_run hb ds hlive hload).2.scripts script' handle root t hl
          · exact absurd hid (hnone _ (hold hl))
        · obtain ⟨rfl, rfl⟩ := hnew hl
          obtain hload | ⟨hstartup, hempty, -⟩ := hstop
          · exact stopsAt_of_isTracked hload (bids_run hb ds hlive hload).1 ht _
          · rw [LaunchOptions.stopsAt, hstartup, ← hstack, hempty]
            simp

/-- A thread that enters a script in which it is to stop waits at the first line that it reaches. It
may enter other scripts before. This is about every run of a session in which no front end fails and
that stays joined, and in which nothing resumes the thread but answers to scripts. -/
theorem waits_of_entered (hb : b.world = .start) (es : List (Deed σ))
    (hcs : cs = ds ++ [.call i (.scriptStarted script)]) (hfree : (run ds b).isWaiting i = false)
    (ht : ((run ds b).world.debugger i.session).isTracked script = true)
    (hy : ((run cs b).world.debugger i.session).ofOwner? i.id = some y)
    (hstop : IsToStop (run ds b).world i.session y)
    (hes : Undisturbed i.session y.handle cs es b)
    (hfirst : ∀ fs j script line, fs ++ [.call j (.line script line)] <+: es →
      j.session = i.session → j.id = i.id → ¬(run (cs ++ fs) b).Reaches j script line)
    (hl : ((run (cs ++ es) b).world.session i.session).alive = true)
    (ha : ((run (cs ++ es) b).world.session i.session).attached = true)
    (hlisten : ((run (cs ++ es) b).world.debugger i.session).attached = true)
    (hz : ((run (cs ++ es) b).world.debugger i.session).ofOwner? i.id = some z)
    (hsame : z.handle = y.handle) {script' : Script} {line : Nat}
    (hreach : (run (cs ++ es) b).Reaches i script' line) :
    ((run (cs ++ es) b).perform i (.line script' line)).2.isWaiting i = true := by
  let d := (run (cs ++ es) b).world.debugger i.session
  obtain ⟨hw, hminds, z', hz', hbusy⟩ := hreach
  obtain rfl := Option.some.inj (hz.symm.trans hz')
  have hlive : Live (run (cs ++ es) b).world i.session d :=
    live_of_listens ⟨World.start.reaction, hb⟩ _ hl ha (debugger_of_attached hlisten) hlisten
  have hfree' : d.isWaiting i.id = false := isWaiting_eq hlive rfl ▸ hw
  obtain ⟨d₁, hlive₁⟩ := exists_live_of_present hb es (isSome_of_ofOwner? hy) hlive
  -- The session was live when the thread entered the script.
  obtain ⟨d₀, hlive₀⟩ : ∃ d₀, Live (run ds b).world i.session d₀ := by
    rw [hcs] at hlive₁ hy
    obtain ⟨d₀, hlive₀, -⟩ | ⟨-, hopened⟩ := advances_before hb ds _ hlive₁
    · exact ⟨d₀, hlive₀⟩
    · rw [debugger_eq hopened.here] at hy
      have hmem := Debugger.mem_of_ofOwner? hy
      rw [hopened.executions] at hmem
      cases hmem
  rw [debugger_eq hlive₀.here] at ht
  have hgated := gated_of_held hb hcs hlive₀ hfree ht hy hstop
  obtain h | h := primed_run hb hy (.inl hgated) hes hfirst hlive hz hsame
  · rw [Debugger.isWaiting_eq hz, h.waits] at hfree'
    cases hfree'
  · -- A step into a script is complete at every line.
    obtain ⟨reason, hreason⟩ := Debugger.exists_stopAt d (run (cs ++ es) b).world.marks h.kind
      hbusy script' line
    have hknown : d.executionFor (run (cs ++ es) b).world.nextNumber i = z :=
      Debugger.executionFor_eq hz
    obtain ⟨x, hx, hline⟩ := ((stoppedFor_of_stopAt hlive.here hlive.listens hfree' hlive.orderly
      script' line).2 reason hminds (hknown ▸ hreason)).waits
    rw [isWaiting, Debugger.isWaiting_eq hx, hline]
    rfl

end Entering

/-- A thread enters its first script, where it is to stop. -/
def enterRoot : List (Deed VariableTable) :=
  [.launch ⟨⟨true, false, false⟩, 0, true, true, true⟩,
    .call (.idle 0 "main" 0) (.scriptStarted (.snippet 0 "main"))]

/-- It goes on, calls into another script, and is held up before that too. -/
def enterAnother : List (Deed VariableTable) :=
  let i : Interpreter := .idle 0 "main" 0
  [.deliver 0, .deliver 0, .call i (.push ⟨2, .snippet 0 "main", .file, none⟩),
    .call i (.scriptStarted (.snippet 1 "lib")), .deliver 0, .deliver 0, .deliver 0]

/-- It stops at its first line, although that is in the other script. -/
theorem waits_of_entered_enterAnother :
    (run (enterRoot ++ enterAnother) ∅).isWaiting (.idle 0 "main" 0) = false
      ∧ ((run (enterRoot ++ enterAnother) ∅).perform (.idle 0 "main" 0)
        (.line (.snippet 1 "lib") 1)).2.isWaiting (.idle 0 "main" 0) = true := by
  let i : Interpreter := .idle 0 "main" 0
  have hfree : (run (enterRoot ++ enterAnother) ∅).isWaiting i = false := by decide +kernel
  have hentered : (((run enterRoot ∅).world.debugger 0).ofOwner? 0).map
      (fun x => (x.handle, x.stack.isEmpty)) = some (⟨0, "main"⟩, true) := by decide +kernel
  obtain ⟨y, hy, hentered⟩ := Option.map_eq_some_iff.mp hentered
  obtain ⟨hyh, hyempty⟩ := Prod.mk.inj hentered
  have hlast : (((run (enterRoot ++ enterAnother) ∅).world.debugger 0).ofOwner? 0).map
      (fun x => (x.handle, x.stack.isEmpty)) = some (⟨0, "main"⟩, false) := by decide +kernel
  obtain ⟨z, hz, hlast⟩ := Option.map_eq_some_iff.mp hlast
  obtain ⟨hzh, hzbusy⟩ := Prod.mk.inj hlast
  -- Whatever resumes the thread is an answer.
  have hanswers : (enterAnother.inits.all fun fs =>
      (fs.getLast?.bind ((run (enterRoot ++ fs.dropLast) ∅).handed 0)).all fun m =>
        m.resumed? ≠ some 0
          || (labelled 0 (enterRoot ++ fs.dropLast) ∅ []).head?.map Prod.snd == some true) = true := by
    decide +kernel
  have hcs : enterRoot = [.launch ⟨⟨true, false, false⟩, 0, true, true, true⟩]
      ++ [.call i (.scriptStarted (.snippet 0 "main"))] := rfl
  refine ⟨hfree, waits_of_entered (b := ∅) rfl enterAnother hcs
    (by decide +kernel) (by decide +kernel) hy (.inr ⟨by decide +kernel, List.isEmpty_iff.mp hyempty, ?_⟩)
    (fun fs x hfs m hm hres => ?_) (fun fs j script line hfs => ?_) (by decide +kernel)
    (by decide +kernel) (by decide +kernel) hz (hzh.trans hyh.symm)
    ⟨hfree, by decide +kernel, z, hz, fun hnil => ?_⟩⟩
  · have hnil : ((run [.launch ⟨⟨true, false, false⟩, 0, true, true, true⟩]
        (∅ : Bridge VariableTable)).world.mail 0).isEmpty = true := by decide +kernel
    intro m hm
    change m ∈ World.mail _ 0 at hm
    rw [List.isEmpty_iff.mp hnil] at hm
    cases hm
  · have hchecked := List.all_eq_true.mp hanswers (fs ++ [x]) ((List.mem_inits _ _).mpr hfs)
    change handed 0 _ x = some m at hm
    rw [List.getLast?_concat, List.dropLast_concat, Option.bind_some, hm] at hchecked
    rw [hyh] at hres
    change (labelled 0 _ ∅ []).head?.map Prod.snd = some true
    simpa [hres] using hchecked
  · have hmem := hfs.subset (List.mem_append_right fs List.mem_cons_self)
    simp [enterAnother] at hmem
  · rw [hnil] at hzbusy
    cases hzbusy

end Bridge

end DebugBridge
