import DebugBridge.Interpreter.VariableTable
import DebugBridge.Proofs.Course
import DebugBridge.Proofs.Outline

/-!
# The course of a thread

A thread of the model follows the events that address it, one after the other, and takes no notice of
anything else: of what other threads do, of what users order or look at, of breakpoints that change.
Only the end of its session concerns every thread. So what a thread looks like after any history is
told by a small machine that reads the events of this thread alone.

An activation is told apart by its number. A frame that stays keeps the activation that it was made
for, which is the one that is reported again only if numbers tell activations apart.

## Main definitions

* `Portrait`: what a front end can tell of a thread, and `Portrait.follow`, what an event makes of it;
* `Occasion`: something that happens while a session is there, and what concerns a thread of it;
* `Chart`: the machine.

## Main results

* `charts_after`: one step of a session is one step of the machine of each thread;
* `follows_chart`: every thread goes its own course.
-/

namespace DebugBridge

/-! ### What is seen of a thread -/

/-- What a front end can tell of a thread: its state, why it was last suspended and what its frames
stand for. -/
structure Portrait where
  state : ThreadState
  reason : Option SuspendReason
  stack : List Activation
deriving DecidableEq, Repr

namespace Portrait

/-- The portrait of a thread that was just heard of. -/
def start : Portrait := ⟨.running, none, []⟩

/-- The portrait of a thread that is gone. -/
def terminate (p : Portrait) : Portrait :=
  { p with state := .terminated, stack := [] }

/-- What an event about a thread makes of its portrait. What is gone stays as it is. -/
def follow (options : LaunchOptions) (p : Portrait) (e : Event) : Portrait :=
  if p.state = .terminated then p
  else
    match e with
    | .threadTerminated _ => p.terminate
    | .suspended _ reason stack => ⟨.suspended, some reason, options.shownStack stack⟩
    | .resumed _ kind => { p with state := if kind.isStep then .stepping else .running }
    | .stackFrames _ stack => { p with stack := options.shownStack stack }
    | _ => p

/-- The portrait of a thread that is gone follows nothing. -/
theorem follow_of_terminated {options : LaunchOptions} {p : Portrait} (h : p.state = .terminated)
    (e : Event) : p.follow options e = p := by
  unfold follow
  exact if_pos h

/-- What is gone keeps no frames. -/
theorem bare_follow {options : LaunchOptions} {p : Portrait} {e : Event}
    (hp : p.state = .terminated → p.stack = []) (hgone : (p.follow options e).state = .terminated) :
    (p.follow options e).stack = [] := by
  by_cases h : p.state = .terminated
  · rw [follow_of_terminated h]
    exact hp h
  · unfold follow at hgone ⊢
    rw [if_neg h] at hgone ⊢
    cases e with
    | threadTerminated _ => rfl
    | suspended _ _ _ => cases hgone
    | resumed _ kind =>
        dsimp only at hgone
        split at hgone <;> cases hgone
    | _ => exact absurd hgone h

/-- What the frames stand for that a front end is shown. -/
def visible (p : Portrait) : List Activation :=
  match p.state with
  | .suspended | .stepping => p.stack
  | .running | .terminated => []

end Portrait

/-- The portrait of a thread. -/
def Thread.portrait (t : Thread) : Portrait :=
  ⟨t.state, t.reason, t.frames.map (·.activation)⟩

/-- The portrait of the thread of a session with a number. -/
def Session.portrait (x : Session) (id : Nat) : Option Portrait :=
  (threadIn x.threads id).map Thread.portrait

/-- The frames that are shown stand for what the portrait shows. -/
theorem Thread.visible_portrait (t : Thread) :
    t.visibleFrames.map (·.activation) = t.portrait.visible := by
  unfold visibleFrames Portrait.visible portrait
  cases t.state <;> rfl

/-- Activations that are told apart by their numbers. -/
def ToldApart (as : List Activation) : Prop :=
  ∀ a ∈ as, ∀ a' ∈ as, a.id = a'.id → a = a'

/-- Frames that stand for known activations with the numbers of a stack stand for the stack. -/
theorem Restacks.activations {as stack : List Activation} {old new : List FrameRef}
    (h : Restacks stack old new) (has : ToldApart as) (hstack : ∀ a ∈ stack, a ∈ as)
    (hold : ∀ f ∈ old, f.activation ∈ as) : new.map (·.activation) = stack := by
  have hnew : ∀ f ∈ new, f.activation ∈ as := fun f hf =>
    (h.known f hf).elim (hstack _) (hold f)
  have hids := h.ids
  clear h
  unfold activationIds at hids
  induction new generalizing stack with
  | nil =>
      cases stack with
      | nil => rfl
      | cons a stack => cases hids
  | cons f new ih =>
      cases stack with
      | nil => cases hids
      | cons a stack =>
          obtain ⟨hid, hids⟩ := List.cons.inj hids
          have hfa : f.activation = a :=
            has _ (hnew f List.mem_cons_self) _ (hstack a List.mem_cons_self) hid
          rw [List.map_cons, hfa, ih (fun a' ha' => hstack a' (List.mem_cons_of_mem _ ha'))
            (fun g hg => hnew g (List.mem_cons_of_mem _ hg)) hids]

/-! ### What happens to a session -/

/-- The activations that an event reports. -/
def Event.activations : Event → List Activation
  | .suspended _ _ stack | .stackFrames _ stack => stack
  | _ => []

/-- What is shown of a stack was reported. -/
theorem LaunchOptions.mem_of_shownStack {options : LaunchOptions} {stack : List Activation}
    {a : Activation} (h : a ∈ options.shownStack stack) : a ∈ stack := by
  unfold shownStack at h
  split at h
  · exact h
  · exact (List.mem_filter.mp h).1

/-- A thread whose frames stand for known activations follows an event as its portrait does. -/
theorem Event.Makes.portrait {options : LaunchOptions} {e : Event} {t t' : Thread}
    {as : List Activation} (h : e.Makes options t t') (has : ToldApart as)
    (he : ∀ a ∈ e.activations, a ∈ as) (ht : ∀ f ∈ t.frames, f.activation ∈ as) :
    t'.portrait = t.portrait.follow options e ∧ ∀ f ∈ t'.frames, f.activation ∈ as := by
  unfold Event.Makes at h
  unfold Portrait.follow
  by_cases hgone : t.isTerminated = true
  · rw [if_pos hgone] at h
    rw [if_pos (show t.portrait.state = _ from t.isTerminated_iff.mp hgone), h]
    exact ⟨rfl, ht⟩
  · rw [if_neg hgone] at h
    rw [if_neg (show t.portrait.state ≠ _ from fun hs => hgone (t.isTerminated_iff.mpr hs))]
    cases e with
    | suspended _ reason stack | stackFrames _ stack =>
        obtain ⟨frames, hframes, rfl⟩ := h
        have hstack : ∀ a ∈ options.shownStack stack, a ∈ as := fun a ha =>
          he a (LaunchOptions.mem_of_shownStack ha)
        refine ⟨?_, fun f hf => (hframes.known f hf).elim (hstack _) (ht f)⟩
        change _ = Portrait.mk _ _ (options.shownStack stack)
        rw [← hframes.activations has hstack ht]
        rfl
    | threadTerminated _ =>
        cases h
        exact ⟨rfl, List.forall_mem_nil _⟩
    | _ =>
        cases h
        exact ⟨rfl, ht⟩

namespace Bridge

open World

variable {σ : Type} [Inhabited σ] [Engine σ]

/-- Something that happens while a session is there: its model hears of an event, or somebody does
something else. -/
inductive Occasion (σ : Type) where
  | heard (e : Event)
  | done (d : Deed σ)

namespace Occasion

/-- What comes of it. -/
def after (s : Nat) (b : Bridge σ) : Occasion σ → Bridge σ
  | .heard e => (b.act (handleEvent s e)).2
  | .done d => b.after d

/-- It leaves a session where it is, and brings its model no events beside those that are heard. -/
def Leaves (s : Nat) : Occasion σ → Prop
  | .heard _ => True
  | .done d => d ≠ .dropSession s ∧ d ≠ .deliver s

/-- It ends a session: the interpreter has terminated, or the user leaves it. -/
def ends (s : Nat) : Occasion σ → Bool
  | .heard .engineTerminated => true
  | .done (.disconnect t) => t = s
  | _ => false

/-- It is an event about the thread with a number. -/
def addresses (id : Nat) : Occasion σ → Bool
  | .heard e => e.thread?.any fun handle => handle.id = id
  | .done _ => false

/-- It ends a session, or it is about a thread of it. -/
def concerns (s id : Nat) (x : Occasion σ) : Bool :=
  x.ends s || x.addresses id

/-- The activations that it reports. -/
def activations : Occasion σ → List Activation
  | .heard e => e.activations
  | .done _ => []

end Occasion

/-- What comes of one thing after the other. -/
def through (s : Nat) (xs : List (Occasion σ)) (b : Bridge σ) : Bridge σ :=
  xs.foldl (Occasion.after s) b

end Bridge

open Bridge

/-- What becomes of a thread: what it looks like, if it was heard of, and whether its session is
over. -/
structure Chart where
  portrait : Option Portrait
  closed : Bool
deriving DecidableEq, Repr

namespace Chart

variable {σ : Type}

/-- What happens to the thread with a number. When its session is over nothing happens any more. -/
def follow (options : LaunchOptions) (s id : Nat) (c : Chart) (x : Occasion σ) : Chart :=
  if c.closed then c
  else if x.ends s then ⟨c.portrait.map Portrait.terminate, true⟩
  else
    match x with
    | .heard e =>
      if x.addresses id then ⟨some ((c.portrait.getD .start).follow options e), false⟩ else c
    | .done _ => c

/-- What does not concern a thread leaves its chart as it is. -/
theorem follow_of_not_concerns {options : LaunchOptions} {s id : Nat} {c : Chart} {x : Occasion σ}
    (h : x.concerns s id = false) : c.follow options s id x = c := by
  obtain ⟨hends, haddresses⟩ := Bool.or_eq_false_iff.mp h
  unfold follow
  rw [hends]
  cases x with
  | heard e => simp [haddresses]
  | done d => simp

/-- The chart of a thread is drawn by what concerns it alone. -/
theorem foldl_filter_concerns (options : LaunchOptions) (s id : Nat) (c : Chart)
    (xs : List (Occasion σ)) :
    (xs.filter (·.concerns s id)).foldl (follow options s id) c
      = xs.foldl (follow options s id) c := by
  induction xs generalizing c with
  | nil => rfl
  | cons x xs ih =>
      rw [List.filter_cons]
      cases h : x.concerns s id with
      | true => exact ih _
      | false =>
          rw [List.foldl_cons, follow_of_not_concerns h]
          exact ih c

/-- What is gone keeps no frames. -/
def IsBare (c : Chart) : Prop :=
  ∀ p, c.portrait = some p → p.state = .terminated → p.stack = []

/-- The chart of a thread that is gone shows no frames, whatever happens next. -/
theorem isBare_follow {options : LaunchOptions} {s id : Nat} {c : Chart} (hc : c.IsBare)
    (x : Occasion σ) : (c.follow options s id x).IsBare := by
  unfold follow
  split
  · exact hc
  · split
    · intro p hp _
      obtain ⟨q, -, rfl⟩ := Option.map_eq_some_iff.mp hp
      rfl
    · cases x with
      | done d => exact hc
      | heard e =>
          dsimp only
          split
          · rintro p hp hgone
            cases hp
            refine Portrait.bare_follow (fun h => ?_) hgone
            cases hq : c.portrait with
            | none => rfl
            | some q => exact hc q hq (by rwa [hq] at h)
          · exact hc

/-- The chart of a thread that is gone shows no frames in the end. -/
theorem isBare_foldl (options : LaunchOptions) (s id : Nat) {c : Chart} (hc : c.IsBare)
    (xs : List (Occasion σ)) : (xs.foldl (follow options s id) c).IsBare := by
  induction xs generalizing c with
  | nil => exact hc
  | cons x xs ih => exact ih (isBare_follow hc x)

/-- What is gone is gone for good. -/
theorem follow_of_terminated {options : LaunchOptions} {s id : Nat} {c : Chart} (hc : c.IsBare)
    {p : Portrait} (hp : c.portrait = some p) (hgone : p.state = .terminated) (x : Occasion σ) :
    (c.follow options s id x).portrait = some p := by
  have hsame : p.terminate = p := by
    rw [Portrait.terminate, ← hgone, ← hc p hp hgone]
  unfold follow
  split
  · exact hp
  · split
    · rw [hp, Option.map_some, hsame]
    · cases x with
      | done d => exact hp
      | heard e =>
          dsimp only
          split
          · rw [hp, Option.getD_some, Portrait.follow_of_terminated hgone]
          · exact hp

/-- The portrait of a thread that is gone is final. -/
theorem foldl_of_terminated (options : LaunchOptions) (s id : Nat) {c : Chart} (hc : c.IsBare)
    {p : Portrait} (hp : c.portrait = some p) (hgone : p.state = .terminated)
    (xs : List (Occasion σ)) : (xs.foldl (follow options s id) c).portrait = some p := by
  induction xs generalizing c with
  | nil => exact hp
  | cons x xs ih => exact ih (isBare_follow hc x) (follow_of_terminated hc hp hgone x)

end Chart

/-! ### One step of a session -/

open World

variable {σ : Type} [Inhabited σ] [Engine σ] {s : Nat}

/-- What users do while a session goes on shows in no model. -/
theorem serves_model (s : Nat) : Serves (fun _ => True) (fun _ => True) fun w w' =>
    (w'.session s).model = (w.session s).model where
  refl _ := rfl
  trans h h' := h'.trans h
  beside h _ _ _ _ := by rw [World.session, h]; rfl
  onHeap _ _ _ := rfl
  asks h := (h.everywhere s).model
  posts := by
    rintro t w w' ⟨-, rs, -, h⟩
    by_cases hst : s = t
    · subst hst
      exact h.here.model
    · rw [h.elsewhere s hst]
  enter _ _ _ _ _ := rfl
  leave _ _ _ := rfl
  prune _ _ := rfl
  listen _ _ _ := rfl

/-- Nothing that is done shows in the model of a session, but for what opens it, what hands it a message
and what ends it. -/
theorem model_after_of_unopened (b : Bridge σ) {d : Deed σ}
    (hopen : ∀ setup, d = .launch setup → s ≠ b.world.sessions.size)
    (hdrop : d ≠ .dropSession s) (hdeliver : d ≠ .deliver s) (hleave : d ≠ .disconnect s) :
    ((b.after d).world.session s).model = (b.world.session s).model := by
  have hspares : Spares s b.world (b.after d).world →
      ((b.after d).world.session s).model = (b.world.session s).model := fun h =>
    (congrArg Session.model h.here :)
  cases d with
  | launch setup => exact hspares (spares_launch b setup (hopen setup rfl))
  | call i c =>
      change ((if b.isWaiting i then b else (b.perform i c).2).world.session s).model = _
      split
      · rfl
      · have htells := tells_perform b i c
        by_cases hi : s = i.session
        · subst hi
          exact htells.here.model
        · rw [htells.elsewhere s hi]
  | deliver t => exact hspares (spares_handOver (fun h => hdeliver (by rw [h])) b)
  | disconnect t =>
      refine hspares ?_
      have h := spares_disconnect (fun h => hleave (by rw [h]) : s ≠ t) b.world
      rwa [← world_act] at h
  | dropSession t =>
      refine hspares (spares_modifySession b.world (fun h => hdrop (by rw [h])) _)
  | _ => exact (serves_model s).manual b trivial (fun _ _ _ => trivial) fun _ _ => trivial

/-- The same holds of every session that is there. -/
theorem model_after (b : Bridge σ) (hs : s < b.world.sessions.size) {d : Deed σ}
    (hdrop : d ≠ .dropSession s) (hdeliver : d ≠ .deliver s) (hleave : d ≠ .disconnect s) :
    ((b.after d).world.session s).model = (b.world.session s).model :=
  model_after_of_unopened b (fun _ _ => Nat.ne_of_lt hs) hdrop hdeliver hleave

/-- What of a session stays as it is when its model hears of anything but its end. -/
def Session.standing (x : Session) : Session :=
  { x.model with process := none, scripts := .empty }

/-- An event that ends nothing leaves where a session stands. -/
theorem standing_handleEvent {w : World} (hl : (w.session s).alive = true)
    (ha : (w.session s).attached = true) {e : Event} (hend : e ≠ .engineTerminated) :
    ((worldAfter (handleEvent s e) w).session s).standing = (w.session s).standing := by
  cases heard_handleEvent s e w hl ha with
  | shown h => exact (congrArg Session.standing h.here :)
  | answered script thread root u handle kind _ _ hu _ hp =>
      have hposted : ((worldAfter (handleEvent s e) w).session s).standing
          = ((u.register s script).session s).standing :=
        (congrArg Session.standing hp.here.model :)
      rw [hposted, World.register, session_modifySession, if_pos rfl]
      exact (congrArg Session.standing hu.here :)
  | closed _ he => exact absurd he hend

/-- A chart of the thread of a session with a number. Its frames stand for known activations. -/
structure Charts (s id : Nat) (as : List Activation) (options : LaunchOptions) (w : World)
    (c : Chart) : Prop where
  calm : w.Calm
  alive : (w.session s).alive = true
  attached : (w.session s).attached = !c.closed
  terminated : (w.session s).terminated = c.closed
  options : (w.session s).options = options
  portrait : (w.session s).portrait id = c.portrait
  known : ∀ t, threadIn (w.session s).threads id = some t → ∀ f ∈ t.frames, f.activation ∈ as

section Step

variable {id : Nat} {as : List Activation} {options : LaunchOptions} {c : Chart}

/-- What does not show in a model does not show in a chart. -/
theorem Charts.of_model {w w' : World} (h : Charts s id as options w c)
    (hm : (w'.session s).model = (w.session s).model) (hr : w'.reaction = w.reaction) :
    Charts s id as options w' c := by
  have hthreads : (w'.session s).threads = (w.session s).threads := by
    rw [← Session.threads_model, hm, Session.threads_model]
  refine ⟨fun notes n => by rw [hr]; exact h.calm notes n,
    (congrArg Session.alive hm :).trans h.alive, (congrArg Session.attached hm :).trans h.attached,
    (congrArg Session.terminated hm :).trans h.terminated,
    (congrArg Session.options hm :).trans h.options, ?_, ?_⟩
  · rw [Session.portrait, hthreads]
    exact h.portrait
  · rw [hthreads]
    exact h.known

/-- When a session ends all of its threads do. -/
theorem threads_ended (x : Session) : x.ended.threads = x.threads.map Thread.terminate := by
  unfold Session.ended Session.threads
  cases x.process <;> rfl

/-- When all threads are gone, each is found by its number as before. -/
theorem threadIn_map_terminate (ts : List Thread) (id : Nat) :
    threadIn (ts.map Thread.terminate) id = (threadIn ts id).map Thread.terminate := by
  rw [threadIn, List.find?_map]
  rfl

/-- A session that ends takes all its threads with it. -/
theorem Charts.close {w : World} (h : Charts s id as options w c) (hover : c.closed = false) :
    Charts s id as options (worldAfter (endSession s) w)
      ⟨c.portrait.map Portrait.terminate, true⟩ := by
  let v := worldAfter (endSession s) w
  have hstill := still_endSession s w
  have hended : (w.close s).session s = (w.session s).ended := by
    rw [session_close_self, h.terminated, hover]
    rfl
  have hsame : ∀ {α : Type} (f : Session → α), (∀ x : Session, f x.unframed = f x) →
      f (v.session s) = f (w.session s).ended := fun f hf =>
    Session.eq_of_unframed f hf ((hstill.everywhere s).trans (congrArg Session.unframed hended))
  have hthreads : (v.session s).threads = (w.session s).threads.map Thread.terminate :=
    (hsame Session.threads fun _ => rfl).trans (threads_ended _)
  have hreaction : v.reaction = w.reaction :=
    (Still.reaction hstill).trans (covers_reaction.close w s)
  refine ⟨fun notes n => by rw [hreaction]; exact h.calm notes n,
    (hsame Session.alive fun _ => rfl).trans h.alive, hsame Session.attached (fun _ => rfl),
    hsame Session.terminated (fun _ => rfl), (hsame Session.options fun _ => rfl).trans h.options,
    ?_, ?_⟩
  · rw [Session.portrait, hthreads, threadIn_map_terminate, ← h.portrait, Session.portrait]
    cases threadIn (w.session s).threads id <;> rfl
  · intro t ht
    rw [hthreads, threadIn_map_terminate] at ht
    obtain ⟨t', -, rfl⟩ := Option.map_eq_some_iff.mp ht
    exact List.forall_mem_nil _

/-- The threads that an event makes look as their portraits tell. -/
theorem Renders.portrait {e : Event} {w w' : World} (h : Renders s e w w') (has : ToldApart as)
    (he : ∀ a ∈ e.activations, a ∈ as)
    (hk : ∀ t, threadIn (w.session s).threads id = some t → ∀ f ∈ t.frames, f.activation ∈ as) :
    ((w'.session s).portrait id
        = if e.thread?.any fun handle => handle.id = id then
            some ((((w.session s).portrait id).getD .start).follow (w.session s).options e)
          else (w.session s).portrait id)
      ∧ ∀ t, threadIn (w'.session s).threads id = some t → ∀ f ∈ t.frames, f.activation ∈ as := by
  unfold Renders at h
  cases hthread : e.thread? with
  | none =>
      rw [hthread] at h
      rw [Session.portrait, h]
      exact ⟨rfl, hk⟩
  | some handle =>
      rw [hthread] at h
      by_cases hid : handle.id = id
      · subst hid
        obtain ⟨t', ht', hmade⟩ := h.here
        have hold : ∀ f ∈ ((threadIn (w.session s).threads handle.id).getD (.start handle)).frames,
            f.activation ∈ as := by
          cases ht : threadIn (w.session s).threads handle.id with
          | none => exact List.forall_mem_nil _
          | some t => exact hk t ht
        obtain ⟨hfollow, hknown⟩ := hmade.portrait has he hold
        refine ⟨?_, fun t ht => ?_⟩
        · rw [Session.portrait, Session.portrait, ht', Option.map_some, hfollow]
          cases threadIn (w.session s).threads handle.id <;> simp [Portrait.start, Thread.portrait,
            Thread.start]
        · rw [ht'] at ht
          cases ht
          exact hknown
      · rw [Session.portrait, h.elsewhere id hid]
        refine ⟨by simp [hid, Session.portrait], hk⟩

/-- A session that hears of an event goes on with the charts of its threads. -/
theorem Charts.heard {b : Bridge σ} (h : Charts s id as options b.world c) (has : ToldApart as)
    (e : Event) (hact : ∀ a ∈ e.activations, a ∈ as) :
    Charts s id as options (Occasion.after s b (.heard e)).world
      (c.follow options s id (.heard e : Occasion σ)) := by
  have hafter : (Occasion.after s b (.heard e)).world = worldAfter (handleEvent s e) b.world :=
    world_act b _
  rw [hafter]
  unfold Chart.follow
  cases hover : c.closed with
  | true =>
      have hidle : worldAfter (handleEvent s e) b.world = b.world := by
        have hoff := h.attached
        rw [hover] at hoff
        rw [worldAfter, handleEvent, run_get_bind, if_neg (by simp [hoff])]
        rfl
      rw [hidle]
      exact h
  | false =>
      have hon : (b.world.session s).attached = true := by rw [h.attached, hover]; rfl
      by_cases hend : e = .engineTerminated
      · subst hend
        let u := b.world.trace "model" ("process " ++ Event.engineTerminated.text b.world.marks)
        have hrun : worldAfter (handleEvent s .engineTerminated) b.world
            = worldAfter (endSession s) u := by
          rw [worldAfter, handleEvent_eq hon]
          rfl
        have hu : Charts s id as options u c := h.of_model rfl rfl
        rw [hrun]
        exact hu.close hover
      · have hends : Occasion.ends s (.heard e : Occasion σ) = false := by
          cases e with
          | engineTerminated => exact absurd rfl hend
          | _ => rfl
        obtain ⟨_, w', hrun, hrenders⟩ := renders_handleEvent h.calm h.alive hon hend
        have hw' : worldAfter (handleEvent s e) b.world = w' := by rw [worldAfter, hrun]
        have hstanding := standing_handleEvent h.alive hon hend
        have hreaction : w'.reaction = b.world.reaction := by
          rw [← hw']
          exact covers_reaction.spans.handleEvent s trivial
            (fun he => absurd he hend) b.world
        rw [hw'] at hstanding ⊢
        rw [hends]
        simp only [Bool.false_eq_true, if_false]
        obtain ⟨hportrait, hknown⟩ := hrenders.portrait has hact h.known
        have hchart : (if Occasion.addresses id (.heard e : Occasion σ) then
            ⟨some ((c.portrait.getD .start).follow options e), false⟩ else c : Chart)
              = ⟨(w'.session s).portrait id, false⟩ := by
          rw [hportrait, h.portrait, h.options, ← hover]
          change (if e.thread?.any fun handle => handle.id = id then _ else c) = Chart.mk _ c.closed
          split <;> rfl
        rw [hchart]
        exact ⟨fun notes n => by rw [hreaction]; exact h.calm notes n,
          (congrArg Session.alive hstanding :).trans h.alive,
          (congrArg Session.attached hstanding :).trans hon,
          (congrArg Session.terminated hstanding :).trans (h.terminated.trans hover),
          (congrArg Session.options hstanding :).trans h.options, rfl, hknown⟩

/-- One thing that happens to a session is one step of the chart of each of its threads. -/
theorem charts_after {b : Bridge σ} (h : Charts s id as options b.world c) (has : ToldApart as)
    {x : Occasion σ} (hx : x.Leaves s) (hact : ∀ a ∈ x.activations, a ∈ as) :
    Charts s id as options (x.after s b).world (c.follow options s id x) := by
  cases x with
  | heard e => exact h.heard has e hact
  | done d =>
      obtain ⟨hdrop, hdeliver⟩ := hx
      have hreaction : (b.after d).world.reaction = b.world.reaction := reaction_run b [d]
      by_cases hleave : d = .disconnect s
      · subst hleave
        have hends : Occasion.ends s (.done (.disconnect s) : Occasion σ) = true := by
          simp [Occasion.ends]
        have hafter : (Occasion.after s b (.done (.disconnect s))).world
            = worldAfter (disconnect s) b.world := world_act b _
        unfold Chart.follow
        rw [hafter, hends]
        obtain ⟨hover, hrun⟩ | ⟨hon, u, ⟨-, rs, -, hu⟩, hrun⟩ := disconnect_cases s b.world
        · rw [h.terminated] at hover
          rw [hrun, hover]
          exact h
        · rw [h.terminated] at hon
          obtain ⟨rs', hpost⟩ := exists_posts_post u s .disconnect
          have hposts := hu.trans hpost
          rw [hrun, hon]
          exact (h.of_model hposts.here.model hposts.reaction).close hon
      · have hends : Occasion.ends s (.done d : Occasion σ) = false := by
          cases d with
          | disconnect t =>
              have hne : t ≠ s := fun ht => hleave (by rw [ht])
              simp [Occasion.ends, hne]
          | _ => rfl
        have hsame : c.follow options s id (.done d : Occasion σ) = c := by
          unfold Chart.follow
          rw [hends]
          simp
        rw [hsame]
        exact h.of_model (model_after b (lt_of_alive h.alive) hdrop hdeliver hleave) hreaction

/-- A chart is kept up through all that happens, as long as the session is left where it is. -/
theorem charts_through {b : Bridge σ} (h : Charts s id as options b.world c) (has : ToldApart as)
    (xs : List (Occasion σ)) (hxs : ∀ x ∈ xs, x.Leaves s)
    (hact : ∀ x ∈ xs, ∀ a ∈ x.activations, a ∈ as) :
    Charts s id as options (through s xs b).world (xs.foldl (Chart.follow options s id) c) := by
  induction xs generalizing b c with
  | nil => exact h
  | cons x xs ih =>
      exact ih (charts_after h has (hxs x List.mem_cons_self) (hact x List.mem_cons_self))
        (fun y hy => hxs y (List.mem_cons_of_mem _ hy)) fun y hy => hact y (List.mem_cons_of_mem _ hy)

/-- The frames that a front end asks for are those that the portrait of the thread shows. -/
theorem ends_stackFrames {w : World} {handle : Handle} {i : Nat}
    (hi : (w.session s).findThread? handle = some i) :
    Ends (stackFrames s i) w fun shown _ =>
      (w.session s).portrait handle.id = some ((w.session s).thread i).portrait
        ∧ shown.map (·.activation) = ((w.session s).thread i).portrait.visible := by
  have hthread : (w.session s).portrait handle.id = some ((w.session s).thread i).portrait := by
    rw [Session.portrait, threadIn_of_findIdx? hi, Option.map_some]
  have hshown := ((w.session s).thread i).visible_portrait
  unfold stackFrames
  refine Ends.bind (Ends.get ?_)
  dsimp only
  split
  · exact Ends.bind (Ends.change (Ends.pure ⟨hthread, hshown⟩))
  · exact Ends.pure ⟨hthread, hshown⟩

end Step

/-! ### Whole histories -/

/-- Every thread goes its own course. Whatever happens to a session that no event reached yet, as long
as no front end fails and nobody gives the session up: what a thread looks like is told by its chart,
and so it is the same if only what concerns the thread had happened. What is gone stays as it is. Asked
for frames, the session shows those of a thread that stands still or is between two steps, and of no
other. -/
theorem follows_chart {b : Bridge σ} (hc : b.world.Calm) (hl : (b.world.session s).alive = true)
    (ha : (b.world.session s).attached = true) (ht : (b.world.session s).terminated = false)
    (hn : (b.world.session s).threads = []) (before after : List (Occasion σ))
    (hxs : ∀ x ∈ before ++ after, x.Leaves s)
    (hnames : ToldApart ((before ++ after).flatMap Occasion.activations)) (handle : Handle) :
    let chart := fun xs : List (Occasion σ) =>
      xs.foldl (Chart.follow (b.world.session s).options s handle.id) ⟨none, false⟩
    let portrait := fun xs : List (Occasion σ) =>
      ((through s xs b).world.session s).portrait handle.id
    portrait (before ++ after) = (chart (before ++ after)).portrait
      ∧ portrait ((before ++ after).filter (·.concerns s handle.id)) = portrait (before ++ after)
      ∧ (∀ p, portrait before = some p → p.state = .terminated →
        portrait (before ++ after) = some p)
      ∧ ∀ i, ((through s (before ++ after) b).world.session s).findThread? handle = some i →
        Ends (stackFrames s i) (through s (before ++ after) b).world fun shown _ =>
          ∃ p, portrait (before ++ after) = some p ∧ shown.map (·.activation) = p.visible := by
  intro chart portrait
  have hstart : Charts s handle.id ((before ++ after).flatMap Occasion.activations)
      (b.world.session s).options b.world ⟨none, false⟩ :=
    ⟨hc, hl, ha, ht, rfl, by rw [Session.portrait, hn]; rfl, fun t h => by
      rw [hn] at h
      cases h⟩
  have hdrawn : ∀ xs : List (Occasion σ), (∀ x ∈ xs, x ∈ before ++ after) →
      portrait xs = (chart xs).portrait := fun xs hsub =>
    (charts_through hstart hnames xs (fun x hx => hxs x (hsub x hx)) fun x hx a ha =>
      List.mem_flatMap.mpr ⟨x, hsub x hx, ha⟩).portrait
  have hall := hdrawn (before ++ after) fun _ => id
  refine ⟨hall, ?_, fun p hp hgone => ?_, fun i hi => ?_⟩
  · rw [hdrawn _ fun x hx => (List.mem_filter.mp hx).1, hall]
    exact congrArg Chart.portrait (Chart.foldl_filter_concerns ..)
  · have hbare : (chart before).IsBare :=
      Chart.isBare_foldl _ s handle.id (fun q hq => by cases hq) before
    rw [hdrawn before fun x hx => List.mem_append_left after hx] at hp
    have hsplit : chart (before ++ after)
        = after.foldl (Chart.follow (b.world.session s).options s handle.id) (chart before) :=
      List.foldl_append
    rw [hall, hsplit]
    exact Chart.foldl_of_terminated _ s handle.id hbare hp hgone after
  · exact (ends_stackFrames hi).mono fun shown _ h => ⟨_, h⟩

/-- Two threads, each of which goes its own course, and the user looks on. -/
theorem follows_chart_twoThreads :
    let b : Bridge VariableTable := run [.launch ⟨.off, 0, true, true, true⟩] ∅
    let inner : Activation := ⟨1, ⟨0, "a", none, false⟩, .function, some "f"⟩
    let outer : Activation := ⟨0, ⟨0, "a", none, false⟩, .file, none⟩
    let before : List (Occasion VariableTable) :=
      [.heard (.suspended ⟨0, "main"⟩ .breakpoint [inner, outer]), .done (.order 0 0 .stepOver),
        .heard (.resumed ⟨0, "main"⟩ .stepOver), .heard (.suspended ⟨1, "other"⟩ .stepEnd [outer]),
        .heard (.threadTerminated ⟨0, "main"⟩)]
    let after : List (Occasion VariableTable) :=
      [.heard (.stackFrames ⟨0, "main"⟩ [outer]), .done (.readFrames 0 1),
        .done (.addBreakpoint 0 ⟨0, ⟨"a"⟩, 3⟩)]
    let x := (through 0 (before ++ after) b).world.session 0
    x.portrait 0 = some ⟨.terminated, some .breakpoint, []⟩
      ∧ x.portrait 1 = some ⟨.suspended, some .stepEnd, [outer]⟩ := by
  intro b inner outer before after x
  have hnames : ToldApart ((before ++ after).flatMap Occasion.activations) := by
    unfold ToldApart
    decide +kernel
  have hleaves : ∀ x ∈ before ++ after, x.Leaves 0 := by
    simp [before, after, Occasion.Leaves]
  have h := follows_chart (b := b) (s := 0) (fun _ _ => rfl) (by decide +kernel) (by decide +kernel)
    (by decide +kernel) (by decide +kernel) before after hleaves hnames
  exact ⟨(h ⟨0, "main"⟩).1.trans (by decide +kernel), (h ⟨1, "other"⟩).1.trans (by decide +kernel)⟩

end DebugBridge
