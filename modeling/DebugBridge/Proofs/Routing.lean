import DebugBridge.Proofs.Edits
import DebugBridge.Proofs.Occasions

/-!
# Changes of breakpoints on their way to the interpreters

Several sessions share a manager of breakpoints, and each of them passes a change on to its own interpreter,
for the script that it knows by the resource of the breakpoint. That is the one that it heard last to be
ready; or else it is taken from the frames that can be seen, in the order of the threads and innermost
first. So the answer depends on all that a session has heard of, and it does not depend on what other
subscribers come and go, for none of them is taken for another.

## Main definitions

* `Affair`, `Bridge.passAll`: encounters, and listeners that clients take back;
* `Bridge.Honest`: runs in which clients take back only what they were given;
* `Bridge.readyIn`: the scripts that a session heard to be ready;
* `knownScript?`: the script that a session knows by a resource.

## Main results

* `enrolled_passAll`, `briefed_passAll`: what a run leaves in order;
* `posted_edit`: what one session posts when a user edits a breakpoint;
* `relays_edits`: the same in terms of all that has happened.
-/

namespace DebugBridge

open World

/-- What may happen on a bridge. A client may take a listener back that it added to a manager, by the number
that it was given for it. -/
inductive Affair (σ : Type) where
  | meets (i : Encounter σ)
  | takesBack (m n : Nat)

/-! ### Scripts that are known -/

/-- The scripts of the frames that can be seen: those of threads that stand still or are between two steps,
in the order of the threads and innermost first. -/
def Session.scriptsInView (x : Session) : List Script :=
  ((x.threads.filter fun t => t.state = .suspended ∨ t.state = .stepping).flatMap Thread.frames).map
    (·.activation.script)

/-- The script that a session knows by a resource: of the scripts that it heard to be ready the last, or
else the first that is in view. -/
def knownScript? (ready : List Script) (x : Session) (r : Resource) : Option Script :=
  (ready.reverse.find? (·.isOf r)).or (x.scriptsInView.find? (·.isOf r))

/-- The frames that can be seen are those of threads that stand still or are between two steps. -/
theorem flatMap_visibleFrames (ts : List Thread) :
    ts.flatMap Thread.visibleFrames
      = (ts.filter fun t => t.state = .suspended ∨ t.state = .stepping).flatMap Thread.frames := by
  induction ts with
  | nil => rfl
  | cons t ts ih =>
      rw [List.flatMap_cons, ih]
      unfold Thread.visibleFrames
      cases ht : t.state <;> simp [ht]

/-- The script for a breakpoint is one that was ready, or else one that is in view. -/
theorem scriptFor?_eq (w : World) (s : Nat) (p : Breakpoint) :
    w.scriptFor? s p = ((w.session s).scripts.find? p.resource).or
      ((w.session s).scriptsInView.find? (·.isOf p.resource)) := by
  unfold scriptFor? Session.scriptsInView
  dsimp only
  rw [flatMap_visibleFrames]
  cases (w.session s).scripts.find? p.resource with
  | some script => rfl
  | none =>
      refine congrArg (List.find? · _) (funext fun script => ?_)
      unfold Script.isOf
      cases script.resource with
      | none => rfl
      | some resource => exact Resource.same_comm _ _

/-! ### What one session posts -/

namespace World

variable {s : Nat} {w : World}

/-- A session that is not attached or has terminated posts nothing, whoever is told of what. -/
theorem posted_tell (h : (w.session s).attached = false ∨ (w.session s).terminated = true)
    (p : Breakpoint) (c : BreakpointChange) (who : Subscriber) :
    (w.session s).Posted [] ((w.tell p c who).session s) := by
  by_cases hwho : who = .session s
  · subst hwho
    obtain ha | ht := h
    · obtain ⟨-, rs, -, hposts⟩ := postsSome_routeBreakpoint w s p c
      have hnone := hposts.here.idle ha
      subst hnone
      exact hposts.here
    · rw [tell, routeBreakpoint, if_pos ht]
      exact .refl _
  · rw [session_tell_of_ne w p c hwho]
    exact .refl _

/-- A session that is not attached, or over, is posted nothing when others are told of a breakpoint.
-/
theorem posted_tellAll (h : (w.session s).attached = false ∨ (w.session s).terminated = true)
    (p : Breakpoint) (c : BreakpointChange) (es : List (Nat × Subscriber)) :
    (w.session s).Posted [] ((w.tellAll p c es).session s) := by
  induction es generalizing w with
  | nil => exact .refl _
  | cons e es ih =>
      have htold := posted_tell h p c e.2
      have hlater : ((w.tell p c e.2).session s).attached = false
          ∨ ((w.tell p c e.2).session s).terminated = true :=
        h.imp htold.attached.trans (congrArg Session.terminated htold.model :).trans
      exact htold.trans (ih hlater)

/-- Only sessions that are held, attached and have not terminated post anything. -/
theorem posted_announce_of_not (m : Nat) (p : Breakpoint) (c : BreakpointChange)
    (h : (w.session s).alive = false ∨ (w.session s).attached = false ∨ (w.session s).terminated = true) :
    (w.session s).Posted [] ((w.announce m p c).session s) := by
  rw [announce_eq]
  obtain hl | h := h
  · have hne : ∀ e ∈ w.live m, e.2 ≠ .session s := by
      rintro ⟨k, who⟩ hmem rfl
      have halive : (w.session s).alive = true := (List.mem_filter.mp hmem).2
      rw [hl] at halive
      cases halive
    rw [session_tellAll_of_forall_ne p c _ hne]
    exact .refl _
  · exact posted_tellAll (w := w.prune m) h p c (w.live m)

/-- When a user edits a breakpoint, a session of the manager that is held, attached and has not terminated
posts what that means for the script that it knows, if it knows one. Nobody else posts anything. -/
theorem posted_edit (he : Enrolled w)
    (hsub : (w.session s).alive = true → (w.session s).terminated = false →
      (w.session s).subscription.isSome = true) (m : Nat) (x : Edit) :
    (w.session s).Posted
      (if (w.session s).alive = true ∧ (w.session s).attached = true
          ∧ (w.session s).terminated = false ∧ (w.session s).manager = m then
        match w.scriptFor? s x.breakpoint with
        | some script => w.requestsFor m x script
        | none => []
      else [])
      ((w.edit m x).session s) := by
  rw [edit_eq]
  cases hc : w.change? m x with
  | none =>
      have hnone : ∀ script, w.requestsFor m x script = [] := fun script => by
        rw [requestsFor_eq, hc]
      have hnothing : (match w.scriptFor? s x.breakpoint with
          | some script => w.requestsFor m x script
          | none => []) = [] := by
        split
        · exact hnone _
        · rfl
      dsimp only
      rw [hnothing, ite_self, session_edited]
      exact .refl _
  | some c =>
      let u := w.edited m x
      have hu : u.session s = w.session s := session_edited w m x s
      dsimp only
      split
      · next hall =>
          obtain ⟨hl, ha, ht, hm⟩ := hall
          obtain ⟨n, hn⟩ := Option.isSome_iff_exists.mp (hsub hl ht)
          have hposted := posted_announce u (enrolled_edited m x he) m x.breakpoint c
            (by rw [hu, hl]) (by rw [hu, ha]) (by rw [hu, hn])
          rw [hu, if_pos hm, routed_congr hu, routed, ht, if_neg Bool.false_ne_true] at hposted
          have hsame : (match w.scriptFor? s x.breakpoint with
              | some script => w.requestsFor m x script
              | none => []) = match w.scriptFor? s x.breakpoint with
              | some script => (modesOf c).map (.breakpoint script x.breakpoint ·)
              | none => [] := by
            cases w.scriptFor? s x.breakpoint with
            | none => rfl
            | some script =>
                dsimp only
                rw [requestsFor_eq, hc]
          rw [hsame]
          exact hposted
      · next hnot =>
          by_cases hm : (w.session s).manager = m
          · have hdeaf : (u.session s).alive = false ∨ (u.session s).attached = false
                ∨ (u.session s).terminated = true := by
              rw [hu]
              cases hl : (w.session s).alive <;> cases ha : (w.session s).attached <;>
                cases ht : (w.session s).terminated <;> simp_all
            have hposted := posted_announce_of_not m x.breakpoint c hdeaf
            rwa [hu] at hposted
          · have hne : ∀ e ∈ u.live m, e.2 ≠ .session s := by
              rintro ⟨k, who⟩ hmem rfl
              have hknown := ((enrolled_edited m x he).known m k s (List.mem_filter.mp hmem).1).1
              rw [hu] at hknown
              exact hm hknown
            rw [announce_eq, session_tellAll_of_forall_ne x.breakpoint c _ hne]
            change (w.session s).Posted [] (u.session s)
            rw [hu]
            exact .refl _

/-! ### Numbers of clients -/

/-- A number that a manager gave to a client. -/
structure Granted (m n : Nat) (w : World) : Prop where
  given : n < (w.manager m).nextSubscription
  foreign : ∀ t, (w.session t).manager = m → (w.session t).subscription ≠ some n

variable {m n : Nat} {w' : World}

/-- Where sessions have the subscriptions that they had, or fewer, numbers belong to whom they belonged. -/
theorem Granted.of_sessions (h : Granted m n w)
    (hs : ∀ t k, (w'.session t).subscription = some k →
      (w'.session t).manager = (w.session t).manager ∧ (w.session t).subscription = some k)
    (hnext : (w.manager m).nextSubscription ≤ (w'.manager m).nextSubscription) : Granted m n w' := by
  refine ⟨Nat.lt_of_lt_of_le h.given hnext, fun t hm hn => ?_⟩
  obtain ⟨hmanager, hold⟩ := hs t n hn
  exact h.foreign t (hmanager ▸ hm) hold

/-- A number that was given stays given when subscriptions are left as they are. -/
theorem Granted.of_aside (h : Granted m n w) (ha : Aside w w') : Granted m n w' := by
  refine h.of_sessions (fun t k hk => ⟨ha.manager t, (ha.subscription t).symm.trans hk⟩) ?_
  rw [World.manager, World.manager, ha.managers]

/-- A manager that counts no less gives no number twice. -/
theorem Granted.of_manager (h : Granted m n w) (m' : Nat) {f : BreakpointManager → BreakpointManager}
    (hf : ∀ manager, manager.nextSubscription ≤ (f manager).nextSubscription) :
    Granted m n (w.modifyManager m' f) := by
  refine h.of_sessions (fun t k hk => ⟨rfl, hk⟩) ?_
  rw [manager_modifyManager]
  split
  · next hm =>
      rw [← hm]
      exact hf _
  · exact Nat.le_refl _

/-- A number that was given stays given when a session is closed. -/
theorem Granted.close (h : Granted m n w) (t : Nat) : Granted m n (w.close t) := by
  have hdetach : ∀ {u : World}, Granted m n u →
      Granted m n (u.modifySession t fun session => { session with attached := false }) := fun hu =>
    hu.of_aside (aside_modifySession _ t _ (fun _ => id) (fun _ => rfl) fun _ => rfl)
  have hend : ∀ {u : World}, Granted m n u → Granted m n (u.modifySession t Session.ended) := by
    intro u hu
    refine hu.of_sessions (fun t' k hk => ?_) (Nat.le_refl _)
    rw [session_modifySession] at hk ⊢
    split at hk
    · cases hk
    · next hne =>
        rw [if_neg hne]
        exact ⟨rfl, hk⟩
  unfold World.close
  dsimp only
  split
  · exact hdetach h
  · split
    · exact hend (h.of_manager _ fun _ => Nat.le_refl _)
    · exact hend h

/-- A client takes back what it was given, and not the subscription of a session. -/
theorem Enrolled.takeBack (he : Enrolled w) (h : Granted m n w) :
    Enrolled (w.modifyManager m (·.unsubscribe n)) := by
  refine he.of_modifyManager List.filter_sublist rfl fun k t ha hm hk => ?_
  refine BreakpointManager.mem_unsubscribe.mpr ⟨hm ▸ he.told t k ha hk, ?_⟩
  rintro rfl
  exact h.foreign t hm hk

end World

namespace Bridge

variable {σ : Type} [Inhabited σ] [Engine σ] {s m n : Nat} {b : Bridge σ}

/-! ### Runs -/

/-- What comes of an affair. -/
def pass (b : Bridge σ) : Affair σ → Bridge σ
  | .meets i => b.meet i
  | .takesBack m n => b.onWorld (·.modifyManager m (·.unsubscribe n))

/-- What comes of several affairs, one after the other. -/
def passAll (b : Bridge σ) (xs : List (Affair σ)) : Bridge σ :=
  xs.foldl pass b

/-- The manager and the number that a client is given when it adds a listener. -/
def grants (b : Bridge σ) : Affair σ → Option (Nat × Nat)
  | .meets (.does (.listen m _)) => some (m, (b.world.manager m).nextSubscription)
  | _ => none

/-- Clients take back only what they were given, before or in the run. -/
def Honest (given : List (Nat × Nat)) : List (Affair σ) → Bridge σ → Prop
  | [], _ => True
  | x :: xs, b =>
    (∀ m n, x = .takesBack m n → (m, n) ∈ given)
      ∧ Honest (given ++ (b.grants x).toList) xs (b.pass x)

/-- Whatever is done, a number that was given stays given. -/
theorem covers_granted (m n : Nat) :
    Covers (fun _ => True) fun w w' => Granted m n w → Granted m n w' where
  refl _ := id
  trans h h' := h' ∘ h
  shared hs hm _ _ h := by
    refine h.of_sessions (fun t k hk => ?_) ?_
    · rw [session, hs] at hk ⊢
      exact ⟨rfl, hk⟩
    · rw [World.manager, World.manager, hm]
  asks h hg := hg.of_aside h.aside
  tells h hg := hg.of_aside h.aside
  shows h hg := hg.of_aside h.aside
  posts h hg := hg.of_aside h.aside
  take w s hg := hg.of_aside (aside_modifySession w s (fun session =>
    { session with mailbox := (w.session s).mailbox.take.2 })
    (fun _ => id) (fun _ => rfl) fun _ => rfl)
  register w s script hg := hg.of_aside (aside_modifySession w s
    (fun session => { session with scripts := session.scripts.insert script })
    (fun _ => id) (fun _ => rfl) fun _ => rfl)
  close w s hg := hg.close s
  drop w s hg := hg.of_aside (aside_dropSession w s)
  enter w m p _ _ hg := hg.of_manager m fun _ => Nat.le_refl _
  leave w m p hg := hg.of_manager m fun _ => Nat.le_refl _
  prune w m hg := hg.of_manager m fun _ => Nat.le_refl _
  listen w m' name hg := by
    let l : ClientListener := ⟨name, true, (w.manager m').nextSubscription⟩
    have hpushed : Granted m n { w with listeners := w.listeners.push l } := ⟨hg.given, hg.foreign⟩
    exact hpushed.of_manager m' fun _ => Nat.le_succ _

omit [Inhabited σ] [Engine σ] in
/-- A session that is opened gets a number of its own. -/
theorem granted_launch (b : Bridge σ) (setup : Setup) (h : Granted m n b.world) :
    Granted m n (b.launch setup).2.world := by
  have hopened : Granted m n (b.world.opened setup) := by
    refine ⟨Nat.lt_of_lt_of_le h.given ?_, fun t hm hn => ?_⟩
    · rw [World.opened, manager_modifyManager]
      split
      · next heq =>
          rw [← heq]
          exact Nat.le_succ _
      · exact Nat.le_refl _
    · rw [session_opened] at hm hn
      split at hm
      · next hnew =>
          rw [if_pos hnew] at hn
          obtain rfl : setup.manager = m := hm
          exact absurd h.given (Nat.not_lt_of_le (Nat.le_of_eq (Option.some.inj hn)))
      · next hold =>
          rw [if_neg hold] at hn
          exact h.foreign t hm hn
  have htold : ∀ j, Granted m n { b.world.opened setup with journal := j } := fun _ =>
    ⟨hopened.given, hopened.foreign⟩
  obtain ⟨j, h | h⟩ := world_launch b setup
  · rw [h]
    exact (htold j).of_aside (aside_joined _ _ setup)
  · rw [h]
    exact (htold j).of_aside (aside_dropSession _ _)

/-- A number that was given stays given in an encounter. -/
theorem granted_meet (b : Bridge σ) (i : Encounter σ) (h : Granted m n b.world) :
    Granted m n (b.meet i).world := by
  cases i with
  | does d =>
      refine (covers_granted m n).after b d (fun _ _ _ => trivial) (fun setup hd hg => ?_) h
      subst hd
      exact granted_launch b setup hg
  | befalls t x =>
      refine (covers_granted m n).spans.happens (fun w t f hf hg => ?_) b.world t x h
      refine hg.of_aside (aside_modifySession w t f (fun x => ?_) (fun x => ?_) fun x => ?_)
      · rw [hf]
        exact id
      · rw [hf]
      · rw [hf]

/-- What a client is given belongs to no session. -/
theorem granted_pass (he : Enrolled b.world) {given : List (Nat × Nat)}
    (hg : ∀ e ∈ given, Granted e.1 e.2 b.world) (x : Affair σ) :
    ∀ e ∈ given ++ (b.grants x).toList, Granted e.1 e.2 (b.pass x).world := by
  intro e hmem
  obtain hold | hnew := List.mem_append.mp hmem
  · cases x with
    | meets i => exact granted_meet b i (hg e hold)
    | takesBack m n => exact (hg e hold).of_manager m fun _ => Nat.le_refl _
  · unfold grants at hnew
    split at hnew
    · next m name =>
        obtain rfl := Option.some.inj (Option.mem_toList.mp hnew)
        refine ⟨?_, fun t hm hn => ?_⟩
        · change _ < ((b.world.addListener m name).2.manager m).nextSubscription
          rw [addListener, manager_modifyManager, if_pos rfl]
          exact Nat.lt_succ_self _
        · have hbound := he.bound t _ hn
          rw [show (b.world.session t).manager = m from hm] at hbound
          exact Nat.lt_irrefl _ hbound
    · cases hnew

/-- Sessions stay enrolled in an affair in which clients take back what they were given. -/
theorem enrolled_pass (he : Enrolled b.world) {x : Affair σ}
    (hx : ∀ m n, x = .takesBack m n → Granted m n b.world) : Enrolled (b.pass x).world := by
  cases x with
  | meets i => exact enrolled_meet b i he
  | takesBack m n => exact he.takeBack (hx m n rfl)

/-- Subscriptions are in order throughout an honest run. -/
theorem enrolled_passAll (he : Enrolled b.world) {given : List (Nat × Nat)}
    (hg : ∀ e ∈ given, Granted e.1 e.2 b.world) {xs : List (Affair σ)} (hxs : Honest given xs b) :
    Enrolled (b.passAll xs).world := by
  induction xs generalizing b given with
  | nil => exact he
  | cons x xs ih =>
      obtain ⟨hx, hxs⟩ := hxs
      exact ih (enrolled_pass he fun m n h => hg _ (hx m n h)) (granted_pass he hg x) hxs

/-! ### What a session has heard to be ready -/

/-- The script that an event makes the one of its resource: a session that is attached hears that it is
ready, and no front end breaks that off. -/
def learns (s : Nat) (e : Event) (u : World) : Option Script :=
  match e with
  | .scriptReady script thread root =>
    if (u.session s).attached then
      match handleEvent s (.scriptReady script thread root) u with
      | .ok _ _ => some script
      | .error _ _ => none
    else none
  | _ => none

/-- The script that a session hears to be ready in an affair. -/
def readies (s : Nat) (b : Bridge σ) : Affair σ → Option Script
  | .meets i => (b.hears s i).bind fun news => learns s news.1 news.2
  | .takesBack _ _ => none

omit [Inhabited σ] [Engine σ] in
/-- A script is heard to be ready in an encounter if the session hears of it and learns it. -/
theorem readies_meets (s : Nat) (b : Bridge σ) (i : Encounter σ) :
    b.readies s (.meets i) = (b.hears s i).bind fun news => learns s news.1 news.2 := rfl

/-- The scripts that a session hears to be ready in a run, in that order. -/
def readyIn (s : Nat) : List (Affair σ) → Bridge σ → List Script
  | [], _ => []
  | x :: xs, b => (b.readies s x).toList ++ readyIn s xs (b.pass x)

/-- A session that is not attached learns of no script. -/
theorem learns_of_unattached {u : World} (ha : (u.session s).attached = false) (e : Event) :
    learns s e u = none := by
  cases e with
  | scriptReady script thread root => rw [learns, ha, if_neg Bool.false_ne_true]
  | _ => rfl

/-- What is broken off is not learned. -/
theorem learns_eq_none {u : World} {e : Event}
    (h : ∀ script thread root, e = .scriptReady script thread root →
      ∃ failure v, handleEvent s e u = .error failure v) : learns s e u = none := by
  cases e with
  | scriptReady script thread root =>
      obtain ⟨failure, v, hrun⟩ := h script thread root rfl
      rw [learns, hrun, ite_self]
  | _ => rfl

/-- A session that is attached learns of a script that is ready, if nothing breaks that off. -/
theorem learns_scriptReady {u v : World} {script : Script} {thread : Handle} {root : Bool}
    (ha : (u.session s).attached = true)
    (hrun : handleEvent s (.scriptReady script thread root) u = .ok () v) :
    learns s (.scriptReady script thread root) u = some script := by
  rw [learns, hrun, if_pos ha]

end Bridge

/-- A session that is held and goes on: it has the scripts that it heard to be ready, and a subscription. -/
structure Session.Informed (ready : List Script) (x : Session) : Prop where
  scripts : x.alive = true → x.terminated = false →
    ∀ r, x.scripts.find? r = ready.reverse.find? (·.isOf r)
  subscribed : x.alive = true → x.terminated = false → x.subscription.isSome = true

namespace Session.Informed

variable {ready : List Script} {x y : Session}

/-- What does not show in a model does not change what it has heard. -/
theorem of_substance (h : x.Informed ready) (hsame : y.substance = x.substance)
    (halive : y.alive = true → x.alive = true) : y.Informed ready := by
  have hscripts : y.scripts = x.scripts := (congrArg Session.scripts hsame :)
  have hterminated : y.terminated = x.terminated := (congrArg Session.terminated hsame :)
  have hsubscription : y.subscription = x.subscription := (congrArg Session.subscription hsame :)
  refine ⟨fun hl ht => ?_, fun hl ht => ?_⟩
  · rw [hscripts]
    exact h.scripts (halive hl) (hterminated ▸ ht)
  · rw [hsubscription]
    exact h.subscribed (halive hl) (hterminated ▸ ht)

/-- Nor does what changes threads alone. -/
theorem of_shell (h : x.Informed ready) (hsame : y.shell = x.shell) : y.Informed ready := by
  have hscripts : y.scripts = x.scripts := (congrArg Session.scripts hsame :)
  have halive : y.alive = x.alive := (congrArg Session.alive hsame :)
  have hterminated : y.terminated = x.terminated := (congrArg Session.terminated hsame :)
  have hsubscription : y.subscription = x.subscription := (congrArg Session.subscription hsame :)
  refine ⟨?_, ?_⟩
  · rw [hscripts, halive, hterminated]
    exact h.scripts
  · rw [hsubscription, halive, hterminated]
    exact h.subscribed

/-- A session that was given up need not be informed. -/
theorem of_dropped (hl : x.alive = false) : x.Informed ready := by
  refine ⟨fun hl' => ?_, fun hl' => ?_⟩
  all_goals
    rw [hl] at hl'
    cases hl'

/-- A session that has ended need not be informed. -/
theorem of_terminated (ht : x.terminated = true) : x.Informed ready := by
  refine ⟨fun _ ht' => ?_, fun _ ht' => ?_⟩
  all_goals
    rw [ht] at ht'
    cases ht'

/-- The script that was ready last is the one that is found. -/
theorem insert (h : x.Informed ready) (script : Script) :
    ({ x with scripts := x.scripts.insert script } : Session).Informed (ready ++ [script]) := by
  refine ⟨fun hl ht r => ?_, h.subscribed⟩
  rw [Registry.find?_insert, h.scripts hl ht r, List.reverse_append, List.reverse_singleton,
    List.singleton_append, List.find?_cons]
  cases script.isOf r <;> rfl

end Session.Informed

namespace Bridge

variable {σ : Type} [Inhabited σ] [Engine σ] {s m n : Nat} {b : Bridge σ}

/-- To hear of an event is not to be given up. -/
theorem alive_handleEvent (e : Event) (w : World) :
    ((worldAfter (handleEvent s e) w).session s).alive = (w.session s).alive := by
  have hR : Steady fun w w' : World => (w'.session s).alive = (w.session s).alive :=
    ⟨fun _ => rfl, fun h h' => h'.trans h⟩
  refine keeps_handleEvent hR (fun h => (congrArg Session.alive h.here :)) (fun w script => ?_)
    (fun w r => ?_) (fun w => ?_) e w
  · rw [register, session_modifySession, if_pos rfl]
  · obtain ⟨rs, hp⟩ := exists_posts_post w s r
    exact (congrArg Session.alive hp.here.model :)
  · rw [session_close_self]
    split <;> rfl

/-- A session that hears that a script is ready has it then, and no other event changes its scripts. -/
theorem informed_handleEvent {ready : List Script} {u : World} (h : (u.session s).Informed ready)
    (ha : (u.session s).attached = true) (e : Event) :
    ((worldAfter (handleEvent s e) u).session s).Informed (ready ++ (learns s e u).toList) := by
  cases hl : (u.session s).alive with
  | false => exact .of_dropped ((alive_handleEvent e u).trans hl)
  | true =>
      cases heard_handleEvent s e u hl ha with
      | shown hshows _ hbroken =>
          have hlearns : learns s e u = none := learns_eq_none fun script thread root he =>
            (hbroken script thread root he).imp fun failure hrun => ⟨_, hrun⟩
          rw [hlearns, Option.toList_none, List.append_nil]
          exact h.of_shell hshows.here
      | answered script thread root v handle kind he hok hv _ hp =>
          subst he
          rw [learns_scriptReady ha hok, Option.toList_some]
          have hmodel := hp.here.model
          rw [register, session_modifySession, if_pos rfl] at hmodel
          exact ((h.of_shell hv.here).insert script).of_substance (Session.substance_of_model hmodel)
            ((congrArg Session.alive hmodel :).symm.trans ·)
      | closed v _ _ hclose =>
          have hterminated : ((worldAfter (handleEvent s e) u).session s).terminated
              = ((v.close s).session s).terminated := (congrArg Session.terminated (hclose.everywhere s) :)
          refine .of_terminated (hterminated.trans ?_)
          rw [session_close_self]
          split
          · next ht => exact ht
          · rfl

omit [Inhabited σ] [Engine σ] in
/-- Who does not listen hears of no script. -/
theorem readies_of_unattached {i : Encounter σ}
    (hhears : ∀ e u, b.hears s i = some (e, u) → (u.session s).attached = false) :
    b.readies s (.meets i) = none := by
  rw [readies_meets]
  cases hnews : b.hears s i with
  | none => rfl
  | some news =>
      rw [Option.bind_some]
      exact learns_of_unattached (hhears news.1 news.2 hnews) news.1

/-- What a session was told of scripts that are ready, on a bridge that may have opened it. -/
structure Briefed (s : Nat) (ready : List Script) (b : Bridge σ) : Prop where
  absent : b.world.sessions.size ≤ s → ready = []
  informed : (b.world.session s).Informed ready

/-- A session that is opened was told of nothing, and from then on it is told what it hears. -/
theorem briefed_meet {ready : List Script} (h : b.Briefed s ready) (i : Encounter σ) :
    (b.meet i).Briefed s (ready ++ (b.readies s (.meets i)).toList) := by
  have hgrown : (b.meet i).world.sessions.size ≤ s → b.world.sessions.size ≤ s :=
    Nat.le_trans (size_meet_le b i)
  have hdeaf : (∀ e u, b.hears s i = some (e, u) → (u.session s).attached = false) →
      ready ++ (b.readies s (.meets i)).toList = ready := fun hhears => by
    rw [readies_of_unattached hhears, Option.toList_none, List.append_nil]
  cases touches s b i with
  | spared hhears hsame halive =>
      rw [hdeaf hhears]
      exact ⟨fun hs => h.absent (hgrown hs), h.informed.of_substance hsame halive⟩
  | opened setup hi hs hnew =>
      subst hi
      have hkept := hdeaf fun e u hnews => by cases hnews
      rw [hkept, h.absent (Nat.le_of_eq hs.symm)]
      have hinformed : (b.world.newSession setup).Informed [] := ⟨fun _ _ _ => rfl, fun _ _ => rfl⟩
      exact ⟨fun _ => rfl, hinformed.of_substance hnew fun _ => rfl⟩
  | heard e u j hhears ha hu hafter =>
      have hthere : s < b.world.sessions.size := by
        by_contra hsize
        rw [session_of_le (Nat.not_lt.mp hsize)] at ha
        cases ha
      have hbefore : (u.session s).Informed ready :=
        h.informed.of_substance (Session.substance_of_model hu) ((congrArg Session.alive hu :).symm.trans ·)
      have hattached : (u.session s).attached = true := (congrArg Session.attached hu :).trans ha
      rw [readies_meets, hhears, Option.bind_some]
      refine ⟨fun hs => absurd (hgrown hs) (Nat.not_le_of_lt hthere), ?_⟩
      rw [hafter]
      exact informed_handleEvent hbefore hattached e
  | left u hhears _ hafter =>
      have hkept := hdeaf fun e u hnews => by
        rw [hhears] at hnews
        cases hnews
      rw [hkept]
      refine ⟨fun hs => h.absent (hgrown hs), .of_terminated ?_⟩
      rw [hafter]
      exact (shuts_endSession u).terminated

/-- A session is briefed after an affair, with the script that it heard to be ready. -/
theorem briefed_pass {ready : List Script} (h : b.Briefed s ready) (x : Affair σ) :
    (b.pass x).Briefed s (ready ++ (b.readies s x).toList) := by
  cases x with
  | meets i => exact briefed_meet h i
  | takesBack m n =>
      have hnone : ready ++ (b.readies s (.takesBack m n)).toList = ready := List.append_nil _
      rw [hnone]
      exact ⟨h.absent, h.informed⟩

/-- Throughout a run a session has what it heard to be ready, and its subscription. -/
theorem briefed_passAll {ready : List Script} (h : b.Briefed s ready) (xs : List (Affair σ)) :
    (b.passAll xs).Briefed s (ready ++ readyIn s xs b) := by
  induction xs generalizing b ready with
  | nil =>
      rw [readyIn, List.append_nil]
      exact h
  | cons x xs ih =>
      rw [readyIn, ← List.append_assoc]
      exact ih (briefed_pass h x)

/-- A change of a breakpoint reaches the interpreter of every session that shares the manager. Whatever
happened before, with any number of sessions, and as long as clients take back only listeners that they were
given: if a user adds, removes or switches a breakpoint and that changes something, every session of the
manager that is held, attached and has not terminated posts what it means, once: an addition, a removal, or
a removal and an addition. All of it is for the script that the session knows by the resource: the one that
it heard last to be ready, or else the first one in view. A session that knows none posts nothing, and nor
do other sessions. -/
theorem relays_edits (hb : b.Fresh) {xs : List (Affair σ)} (hxs : Honest [] xs b) (s m : Nat) (x : Edit) :
    let w := (b.passAll xs).world
    let y := w.session s
    y.Posted
      (if y.alive = true ∧ y.attached = true ∧ y.terminated = false ∧ y.manager = m then
        match knownScript? (readyIn s xs b) y x.breakpoint.resource with
        | some script => w.requestsFor m x script
        | none => []
      else [])
      ((w.edit m x).session s) := by
  obtain ⟨reaction, hstart⟩ := hb
  intro w y
  have hempty : b.world.session s = .absent := by
    rw [hstart]
    rfl
  have henrolled : Enrolled w := by
    refine enrolled_passAll ?_ (List.forall_mem_nil _) hxs
    rw [hstart]
    exact enrolled_of_start rfl rfl
  have hbriefed : b.Briefed s [] := by
    refine ⟨fun _ => rfl, ?_⟩
    rw [hempty]
    exact .of_dropped rfl
  have hinformed : y.Informed (readyIn s xs b) := (briefed_passAll hbriefed xs).informed
  have hposted := posted_edit henrolled hinformed.subscribed m x (s := s)
  by_cases hall : y.alive = true ∧ y.attached = true ∧ y.terminated = false ∧ y.manager = m
  · have hscript : w.scriptFor? s x.breakpoint
        = knownScript? (readyIn s xs b) y x.breakpoint.resource := by
      rw [scriptFor?_eq, hinformed.scripts hall.1 hall.2.2.1]
      rfl
    rw [if_pos hall, hscript] at hposted
    rw [if_pos hall]
    exact hposted
  · rw [if_neg hall] at hposted
    rw [if_neg hall]
    exact hposted

/-- Two sessions share a manager with a listener that its client took back. One was told twice that the
script of a path is ready, and goes on with the second one; the other sees a frame of the first one. -/
theorem relays_edits_shared :
    let script (number : Nat) := Script.ofFile number "src/main.rs"
    let p : Breakpoint := ⟨0, ⟨"src//./main.rs"⟩, 3⟩
    let xs : List (Affair VariableTable) :=
      [.meets (.does (.launch ⟨.off, 0, true, true, true⟩)),
        .meets (.does (.launch ⟨.off, 0, true, true, true⟩)),
        .meets (.does (.listen 0 "view")),
        .meets (.befalls 0 (.heard (.scriptReady (script 0) ⟨0, "main"⟩ true))),
        .meets (.befalls 0 (.heard (.scriptReady (script 1) ⟨0, "main"⟩ true))),
        .meets (.befalls 1 (.heard (.suspended ⟨1, "main"⟩ .breakpoint
          [⟨0, script 0, .file, none⟩]))),
        .takesBack 0 2]
    let w := ((∅ : Bridge VariableTable).passAll xs).world
    (w.session 0).Posted [.breakpoint (script 1) p .add] ((w.edit 0 (.add p)).session 0)
      ∧ (w.session 1).Posted [.breakpoint (script 0) p .add] ((w.edit 0 (.add p)).session 1) := by
  intro script p xs w
  have hfresh : (∅ : Bridge VariableTable).Fresh := ⟨_, rfl⟩
  have hhonest : Honest [] xs (∅ : Bridge VariableTable) := by
    refine ⟨nofun, nofun, nofun, nofun, nofun, nofun, fun m n h => ?_, trivial⟩
    cases h
    decide +kernel
  have hposted : ∀ s rs, (if (w.session s).alive = true ∧ (w.session s).attached = true
      ∧ (w.session s).terminated = false ∧ (w.session s).manager = 0 then
        match knownScript? (readyIn s xs ∅) (w.session s) p.resource with
        | some script => w.requestsFor 0 (.add p) script
        | none => []
      else []) = rs → (w.session s).Posted rs ((w.edit 0 (.add p)).session s) := by
    rintro s rs rfl
    exact relays_edits hfresh hhonest s 0 (.add p)
  exact ⟨hposted 0 _ (by decide +kernel), hposted 1 _ (by decide +kernel)⟩

end Bridge

end DebugBridge
