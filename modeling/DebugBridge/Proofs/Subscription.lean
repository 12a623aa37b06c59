import DebugBridge.Bridge.Launch
import DebugBridge.Proofs.Display

/-!
# Subscriptions with breakpoint managers

A session subscribes when it starts and unsubscribes when it ends. In between its manager tells it
of every change of a breakpoint exactly once, whatever other sessions and listeners come and go, for
every subscription has a number of its own.

## Main definitions

* `World.Aside`: a step that leaves all subscriptions as they are;
* `World.Enrolled`: every session that is alive has its subscription;
* `World.routed`: the requests by which a session passes a change on.

## Main results

* `enrolled_push`, `enrolled_close`, `enrolled_prune`: what keeps `Enrolled`;
* `posted_announce`: a session that is told of a change passes it on once.
-/

namespace DebugBridge

namespace BreakpointManager

variable {m : BreakpointManager} {who : Subscriber} {number : Nat} {e : Nat × Subscriber}

/-! ### Numbers of subscribers -/

/-- Who subscribes comes to the subscribers, under the next number. -/
@[simp] theorem mem_subscribe : e ∈ (m.subscribe who).subscribers
    ↔ e ∈ m.subscribers ∨ e = (m.nextSubscription, who) := by
  simp [subscribe]

/-- Who leaves is a subscriber no more, and all others are. -/
@[simp] theorem mem_unsubscribe : e ∈ (m.unsubscribe number).subscribers
    ↔ e ∈ m.subscribers ∧ e.1 ≠ number := by
  simp [unsubscribe]

/-- A new subscriber has a number that nobody has. -/
theorem nodup_subscribe (hm : (m.subscribers.map (·.1)).Nodup)
    (hb : ∀ e ∈ m.subscribers, e.1 < m.nextSubscription) :
    ((m.subscribe who).subscribers.map (·.1)).Nodup := by
  have hnew : m.nextSubscription ∉ m.subscribers.map (·.1) := fun h => by
    obtain ⟨e, he, heq⟩ := List.mem_map.mp h
    exact Nat.ne_of_lt (hb e he) heq
  have hmap : (m.subscribe who).subscribers.map (·.1)
      = m.subscribers.map (·.1) ++ [m.nextSubscription] := by
    simp [subscribe]
  rw [hmap, List.nodup_append]
  refine ⟨hm, by simp, fun n hn k hk => ?_⟩
  rintro rfl
  exact hnew (List.mem_singleton.mp hk ▸ hn)

/-- The next number stays above all that are given. -/
theorem lt_of_mem_subscribe (hb : ∀ e ∈ m.subscribers, e.1 < m.nextSubscription)
    (he : e ∈ (m.subscribe who).subscribers) : e.1 < (m.subscribe who).nextSubscription := by
  obtain he | rfl := mem_subscribe.mp he
  · exact Nat.lt_succ_of_lt (hb e he)
  · exact Nat.lt_succ_self _

end BreakpointManager

namespace World

/-! ### Who is subscribed -/

/-- A step that leaves the subscriptions as they are. A session may be given up. -/
structure Aside (w w' : World) : Prop where
  alive : ∀ s, (w'.session s).alive = true → (w.session s).alive = true
  manager : ∀ s, (w'.session s).manager = (w.session s).manager
  subscription : ∀ s, (w'.session s).subscription = (w.session s).subscription
  managers : w'.managers = w.managers

/-- Every session that is alive has its subscription, and nobody else has one under its number. -/
structure Enrolled (w : World) : Prop where
  numbered : ∀ m, ((w.manager m).subscribers.map (·.1)).Nodup
  below : ∀ m, ∀ e ∈ (w.manager m).subscribers, e.1 < (w.manager m).nextSubscription
  bound : ∀ s n, (w.session s).subscription = some n →
    n < (w.manager (w.session s).manager).nextSubscription
  distinct : ∀ s t n, (w.session s).manager = (w.session t).manager →
    (w.session s).subscription = some n → (w.session t).subscription = some n → s = t
  known : ∀ m n s, (n, .session s) ∈ (w.manager m).subscribers →
    (w.session s).manager = m ∧ (w.session s).subscription = some n
  told : ∀ s n, (w.session s).alive = true → (w.session s).subscription = some n →
    (n, .session s) ∈ (w.manager (w.session s).manager).subscribers

/-- Steps that leave subscriptions as they are hold of a sequence. -/
theorem steady_aside : Steady Aside where
  refl _ := ⟨fun _ => id, fun _ => rfl, fun _ => rfl, rfl⟩
  trans h h' :=
    ⟨fun s ha => h.alive s (h'.alive s ha), fun s => (h'.manager s).trans (h.manager s),
      fun s => (h'.subscription s).trans (h.subscription s), h'.managers.trans h.managers⟩

/-- What changes sessions in other respects only leaves their subscriptions as they are. -/
theorem Aside.of_sessions {w w' : World} (hm : w'.managers = w.managers)
    (hs : ∀ s, (w'.session s).alive = (w.session s).alive
      ∧ (w'.session s).manager = (w.session s).manager
      ∧ (w'.session s).subscription = (w.session s).subscription) : Aside w w' :=
  ⟨fun s => (hs s).1 ▸ id, fun s => (hs s).2.1, fun s => (hs s).2.2, hm⟩

/-- A step that is still leaves subscriptions as they are. -/
theorem Still.aside {w w' : World} (h : Still w w') : Aside w w' :=
  .of_sessions h.managers fun s =>
    ⟨(congrArg Session.alive (h.everywhere s) :), (congrArg Session.manager (h.everywhere s) :),
      (congrArg Session.subscription (h.everywhere s) :)⟩

/-- Subscriptions belong to the models. -/
theorem Aside.of_models {w w' : World} (hm : w'.managers = w.managers)
    (hs : ∀ s, (w'.session s).model = (w.session s).model) : Aside w w' :=
  .of_sessions hm fun s =>
    ⟨(congrArg Session.alive (hs s) :), (congrArg Session.manager (hs s) :),
      (congrArg Session.subscription (hs s) :)⟩

/-- What users ask for leaves subscriptions as they are. -/
theorem Asks.aside {w w' : World} (h : Asks w w') : Aside w w' :=
  .of_models h.managers fun s => (h.everywhere s).model

/-- A step of an interpreter side leaves subscriptions as they are. -/
theorem Tells.aside {s : Nat} {w w' : World} (h : Tells s w w') : Aside w w' :=
  .of_models h.managers fun _ => model_of_tells h

/-- A step that changes what is shown leaves subscriptions as they are. -/
theorem Shows.aside {s : Nat} {ts : List Script} {w w' : World} (h : Shows s ts w w') :
    Aside w w' := by
  refine .of_sessions h.managers fun t => ?_
  by_cases ht : t = s
  · subst ht
    have hs := h.here
    exact ⟨(congrArg Session.alive hs :), (congrArg Session.manager hs :),
      (congrArg Session.subscription hs :)⟩
  · have hs := h.elsewhere t ht
    exact ⟨(congrArg Session.alive hs :), (congrArg Session.manager hs :),
      (congrArg Session.subscription hs :)⟩

/-- Requests that come to a session leave subscriptions as they are. -/
theorem Posts.aside {s : Nat} {rs : List Request} {w w' : World} (h : Posts s rs w w') :
    Aside w w' :=
  .of_models h.managers fun _ => model_of_posts h

/-- A change of a session that leaves its subscription as it is. -/
theorem aside_modifySession (w : World) (s : Nat) (f : Session → Session)
    (ha : ∀ x, (f x).alive = true → x.alive = true) (hm : ∀ x, (f x).manager = x.manager)
    (hn : ∀ x, (f x).subscription = x.subscription) : Aside w (w.modifySession s f) := by
  refine ⟨fun t => ?_, fun t => ?_, fun t => ?_, rfl⟩
  all_goals
    rw [session_modifySession]
    split
    · next h =>
        subst h
        first | exact ha _ | exact hm _ | exact hn _
    · first | exact id | rfl

/-- Sessions stay enrolled when subscriptions are left as they are. -/
theorem Aside.enrolled {w w' : World} (h : Aside w w') (he : Enrolled w) : Enrolled w' := by
  have hm : ∀ m, w'.manager m = w.manager m := fun m => by rw [World.manager, World.manager, h.managers]
  constructor
  · intro m
    rw [hm]
    exact he.numbered m
  · intro m
    rw [hm]
    exact he.below m
  · intro s n
    rw [hm, h.manager, h.subscription]
    exact he.bound s n
  · intro s t n
    rw [h.manager, h.manager, h.subscription, h.subscription]
    exact he.distinct s t n
  · intro m n s
    rw [hm, h.manager, h.subscription]
    exact he.known m n s
  · intro s n ha
    rw [hm, h.manager, h.subscription]
    exact he.told s n (h.alive s ha)

/-- What changes no session and no manager leaves the subscriptions in order. -/
theorem Enrolled.congr {w w' : World} (he : Enrolled w) (hs : w'.sessions = w.sessions)
    (hm : w'.managers = w.managers) : Enrolled w' := by
  have h : ∀ s, w'.session s = w.session s := fun s => by rw [session, session, hs]
  refine Aside.enrolled (.of_sessions hm fun s => ?_) he
  rw [h]
  exact ⟨rfl, rfl, rfl⟩

/-! ### Sessions that start and end -/

/-- Before the first session nobody is subscribed. -/
theorem enrolled_of_start {w : World} (hm : w.managers = ∅) (hs : w.sessions = ∅) :
    Enrolled w := by
  have hms : ∀ m, w.manager m = default := fun m => by rw [manager, hm]; rfl
  have hss : ∀ s, w.session s = .absent := fun s => by rw [session, hs]; rfl
  constructor
  · intro m
    rw [hms]
    exact List.nodup_nil
  · intro m e he
    rw [hms] at he
    exact absurd he List.not_mem_nil
  · intro s n h
    rw [hss] at h
    exact absurd h (by simp [Session.absent])
  · intro s t n _ h
    rw [hss] at h
    exact absurd h (by simp [Session.absent])
  · intro m n s h
    rw [hms] at h
    exact absurd h List.not_mem_nil
  · intro s n h
    rw [hss] at h
    exact absurd h (by simp [Session.absent])

/-- A manager is changed under its number and under no other. -/
theorem manager_modifyManager (w : World) (m m' : Nat)
    (f : BreakpointManager → BreakpointManager) :
    (w.modifyManager m f).manager m' = if m = m' then f (w.manager m) else w.manager m' :=
  Arena.get_modify w.managers m m' f

/-- What all managers have, and the one that is changed still has, all of them have afterwards. -/
theorem forall_manager_modifyManager {w : World} {m : Nat}
    {f : BreakpointManager → BreakpointManager} {P : Nat → BreakpointManager → Prop}
    (h : ∀ m', P m' (w.manager m')) (hf : P m (f (w.manager m))) (m' : Nat) :
    P m' ((w.modifyManager m f).manager m') := by
  rw [manager_modifyManager]
  split
  · next heq => exact heq ▸ hf
  · exact h m'

/-- Whoever subscribes at a manager comes after those that have subscribed there. -/
theorem mem_subscribers_subscribe {w : World} {m m' : Nat} {who : Subscriber}
    {e : Nat × Subscriber} :
    e ∈ ((w.modifyManager m (·.subscribe who)).manager m').subscribers
      ↔ e ∈ (w.manager m').subscribers ∨ m = m' ∧ e = ((w.manager m).nextSubscription, who) := by
  rw [manager_modifyManager]
  split
  · next h =>
      subst h
      simp
  · next h => simp [h]

/-- The number of the next subscription does not go back when somebody subscribes. -/
theorem le_nextSubscription_subscribe (w : World) (m : Nat) (who : Subscriber) (m' : Nat) :
    (w.manager m').nextSubscription
      ≤ ((w.modifyManager m (·.subscribe who)).manager m').nextSubscription :=
  forall_manager_modifyManager (P := fun m' x => (w.manager m').nextSubscription ≤ x.nextSubscription)
    (fun _ => Nat.le_refl _) (Nat.le_succ _) m'

/-- Managers that keep some of their subscribers, among them all sessions that are alive. Sessions
stay as they are, or they end and nobody tells them any more. -/
theorem Enrolled.of_kept {w w' : World} (he : Enrolled w)
    (hs : ∀ s, w'.session s = w.session s ∨ (w'.session s).subscription = none
      ∧ ∀ m n, (n, .session s) ∉ (w'.manager m).subscribers)
    (hsub : ∀ m, (w'.manager m).subscribers.Sublist (w.manager m).subscribers)
    (hnext : ∀ m, (w'.manager m).nextSubscription = (w.manager m).nextSubscription)
    (hkept : ∀ m n s, w'.session s = w.session s → (w.session s).alive = true →
      (n, .session s) ∈ (w.manager m).subscribers → (n, .session s) ∈ (w'.manager m).subscribers) :
    Enrolled w' := by
  -- Whoever is subscribed afterwards is as before.
  have hsame : ∀ {s n}, (w'.session s).subscription = some n → w'.session s = w.session s :=
    fun {s n} hn => (hs s).resolve_right fun h => by simp [h.1] at hn
  constructor
  · intro m
    exact (he.numbered m).sublist ((hsub m).map _)
  · intro m e hm
    rw [hnext]
    exact he.below m e ((hsub m).subset hm)
  · intro s n hn
    have h := hsame hn
    rw [h] at hn ⊢
    rw [hnext]
    exact he.bound s n hn
  · intro s t n hm hn hn'
    have h := hsame hn
    have h' := hsame hn'
    rw [h] at hn
    rw [h'] at hn'
    rw [h, h'] at hm
    exact he.distinct s t n hm hn hn'
  · intro m n s hm
    rw [(hs s).resolve_right fun h => h.2 m n hm]
    exact he.known m n s ((hsub m).subset hm)
  · intro s n ha hn
    have h := hsame hn
    rw [h] at ha hn ⊢
    exact hkept _ n s h ha (he.told s n ha hn)

/-- A manager may forget whoever is not a session that is alive. -/
theorem Enrolled.of_modifyManager {w : World} {m : Nat} {f : BreakpointManager → BreakpointManager}
    (he : Enrolled w) (hsub : (f (w.manager m)).subscribers.Sublist (w.manager m).subscribers)
    (hnext : (f (w.manager m)).nextSubscription = (w.manager m).nextSubscription)
    (hkept : ∀ n s, (w.session s).alive = true → (w.session s).manager = m →
      (w.session s).subscription = some n → (n, .session s) ∈ (f (w.manager m)).subscribers) :
    Enrolled (w.modifyManager m f) := by
  refine he.of_kept (fun _ => .inl rfl)
    (forall_manager_modifyManager
      (P := fun m' x => x.subscribers.Sublist (w.manager m').subscribers) (fun _ => .refl _) hsub)
    (forall_manager_modifyManager
      (P := fun m' x => x.nextSubscription = (w.manager m').nextSubscription) (fun _ => rfl) hnext)
    fun m' n s _ ha hmem => ?_
  obtain ⟨hm, hn⟩ := he.known m' n s hmem
  exact forall_manager_modifyManager
    (P := fun m' x => (w.session s).manager = m' → (n, .session s) ∈ x.subscribers)
    (fun m' hm => hm ▸ he.told s n ha hn) (fun hm => hkept n s ha hm hn) m' hm

/-- A session that ends loses its own subscription and no other. -/
theorem Enrolled.leave {w : World} {s number : Nat} (he : Enrolled w)
    (hn : (w.session s).subscription = some number) :
    Enrolled ((w.modifyManager (w.session s).manager (·.unsubscribe number)).modifySession s
      Session.ended) := by
  let u := w.modifyManager (w.session s).manager (·.unsubscribe number)
  have hs : ∀ t, (u.modifySession s Session.ended).session t
      = if s = t then (w.session s).ended else w.session t := fun t =>
    session_modifySession u s t _
  have hsub : ∀ m, (u.manager m).subscribers.Sublist (w.manager m).subscribers :=
    forall_manager_modifyManager
      (P := fun m x => x.subscribers.Sublist (w.manager m).subscribers)
      (fun _ => .refl _) List.filter_sublist
  have hnext : ∀ m, (u.manager m).nextSubscription = (w.manager m).nextSubscription :=
    forall_manager_modifyManager
      (P := fun m x => x.nextSubscription = (w.manager m).nextSubscription) (fun _ => rfl) rfl
  -- What is left of the subscriptions of sessions belongs to the others.
  have hleft : ∀ m n, (n, .session s) ∉ (u.manager m).subscribers := by
    intro m n hm
    obtain ⟨rfl, hn'⟩ := he.known m n s ((hsub m).subset hm)
    rw [manager_modifyManager, if_pos rfl, BreakpointManager.mem_unsubscribe] at hm
    rw [hn] at hn'
    exact hm.2 (Option.some.inj hn').symm
  refine he.of_kept (fun t => ?_) hsub hnext fun m n t ht _ hm => ?_
  · rw [hs]
    split
    · next h => exact .inr ⟨rfl, h ▸ hleft⟩
    · exact .inl rfl
  · obtain ⟨hmanager, hn'⟩ := he.known m n t hm
    change (n, Subscriber.session t) ∈ (u.manager m).subscribers
    rw [manager_modifyManager]
    split
    · next heq =>
        subst heq
        refine BreakpointManager.mem_unsubscribe.mpr ⟨hm, ?_⟩
        rintro rfl
        -- The number is that of the session that ends, which would be as before.
        obtain rfl := he.distinct s t n hmanager.symm hn hn'
        rw [hs, if_pos rfl] at ht
        rw [← ht] at hn
        exact absurd hn (by simp [Session.ended])
    · exact hm

/-- Sessions stay enrolled when one is closed, whose subscription ends. -/
theorem enrolled_close (w : World) (s : Nat) (he : Enrolled w) : Enrolled (w.close s) := by
  unfold close
  dsimp only
  split
  · have h : Aside w (w.modifySession s fun session => { session with attached := false }) :=
      aside_modifySession w s _ (fun _ => id) (fun _ => rfl) fun _ => rfl
    exact h.enrolled he
  · split
    · next number hn => exact he.leave hn
    · next hn =>
        have h : Aside w (w.modifySession s Session.ended) := by
          refine .of_sessions rfl fun t => ?_
          rw [session_modifySession]
          split
          · next hst =>
              subst hst
              exact ⟨rfl, rfl, hn.symm⟩
          · exact ⟨rfl, rfl, rfl⟩
        exact h.enrolled he

/-- A session that starts subscribes under a new number. -/
theorem enrolled_push (w : World) (he : Enrolled w) (x : Session)
    (hx : x.subscription = some (w.manager x.manager).nextSubscription) :
    Enrolled (modifyManager { w with sessions := w.sessions.push x } x.manager
      (·.subscribe (.session w.sessions.size))) := by
  let new := w.sessions.size
  let v : World := { w with sessions := w.sessions.push x }
  let u := v.modifyManager x.manager (·.subscribe (.session new))
  have hs : ∀ t, u.session t = if t = new then x else w.session t := Arena.get_push w.sessions x
  have habsent : (w.session new).subscription = none := by
    simp [new, session, Arena.get, Arena.size, default, Session.absent]
  have hmem : ∀ m e, e ∈ (u.manager m).subscribers ↔ e ∈ (w.manager m).subscribers
      ∨ x.manager = m ∧ e = ((w.manager x.manager).nextSubscription, .session new) :=
    fun _ _ => mem_subscribers_subscribe (w := v)
  -- Whoever has a number is the new session and has the new number, or had its number before.
  have hcases : ∀ t n, (u.session t).subscription = some n →
      (t = new ∧ u.session t = x ∧ n = (w.manager x.manager).nextSubscription)
        ∨ (u.session t = w.session t ∧ (w.session t).subscription = some n) := by
    intro t n hn
    rw [hs] at hn ⊢
    split at hn
    · next ht => exact .inl ⟨ht, if_pos ht, Option.some.inj (hn.symm.trans hx)⟩
    · next ht => exact .inr ⟨if_neg ht, hn⟩
  -- A session that was there before has an older number at the manager of the new one.
  have hold : ∀ t n, (w.session t).manager = x.manager → (w.session t).subscription = some n →
      n ≠ (w.manager x.manager).nextSubscription := fun t n hm hn =>
    Nat.ne_of_lt (hm ▸ he.bound t n hn)
  change Enrolled u
  refine ⟨fun m => ?numbered, fun m e hm => ?below, fun t n hn => ?bound,
    fun t t' n hm hn hn' => ?distinct, fun m n t hm => ?known, fun t n ha hn => ?told⟩
  case numbered =>
    exact forall_manager_modifyManager (w := v) (f := (·.subscribe (.session new)))
      (P := fun _ x => (x.subscribers.map (·.1)).Nodup) he.numbered
      (BreakpointManager.nodup_subscribe (he.numbered _) (he.below _)) m
  case below =>
    exact forall_manager_modifyManager (w := v) (f := (·.subscribe (.session new)))
      (P := fun _ x => ∀ e ∈ x.subscribers, e.1 < x.nextSubscription) he.below
      (fun _ => BreakpointManager.lt_of_mem_subscribe (he.below _)) m e hm
  case bound =>
    obtain ⟨-, ht, rfl⟩ | ⟨ht, hn⟩ := hcases t n hn
    · rw [ht, manager_modifyManager, if_pos rfl]
      exact Nat.lt_succ_self _
    · rw [ht]
      exact Nat.lt_of_lt_of_le (he.bound t n hn) (le_nextSubscription_subscribe v _ _ _)
  case distinct =>
    obtain ⟨rfl, ht, rfl⟩ | ⟨ht, hn⟩ := hcases t n hn
    · obtain ⟨rfl, -, -⟩ | ⟨ht', hn'⟩ := hcases t' _ hn'
      · rfl
      · rw [ht, ht'] at hm
        exact absurd rfl (hold t' _ hm.symm hn')
    · obtain ⟨rfl, ht', rfl⟩ | ⟨ht', hn'⟩ := hcases t' n hn'
      · rw [ht, ht'] at hm
        exact absurd rfl (hold t _ hm hn)
      · rw [ht, ht'] at hm
        exact he.distinct t t' n hm hn hn'
  case known =>
    rw [hs]
    obtain hm | ⟨rfl, heq⟩ := (hmem m _).mp hm
    · have hk := he.known m n t hm
      have ht : t ≠ new := by
        rintro rfl
        simp [habsent] at hk
      rw [if_neg ht]
      exact hk
    · simp only [Prod.mk.injEq, Subscriber.session.injEq] at heq
      rw [if_pos heq.2, heq.1]
      exact ⟨rfl, hx⟩
  case told =>
    obtain ⟨rfl, ht, rfl⟩ | ⟨ht, hn⟩ := hcases t n hn
    · exact (hmem _ _).mpr (.inr ⟨by rw [ht], rfl⟩)
    · rw [ht] at ha ⊢
      exact (hmem _ _).mpr (.inl (he.told t n ha hn))

/-! ### Changes of breakpoints -/

/-- The requests by which a session passes a change of a breakpoint on. -/
def routed (w : World) (s : Nat) (b : Breakpoint) (c : BreakpointChange) : List Request :=
  if (w.session s).terminated then []
  else
    match w.scriptFor? s b with
    | some script => (modesOf c).map (.breakpoint script b ·)
    | none => []

/-- A session that is attached passes a change of a breakpoint on by requests. -/
theorem posts_routeBreakpoint (w : World) (s : Nat) (b : Breakpoint) (c : BreakpointChange)
    (hl : (w.session s).alive = true) (ha : (w.session s).attached = true) :
    Posts s (w.routed s b c) w (w.routeBreakpoint s b c) := by
  unfold routed routeBreakpoint
  split
  · exact .refl s w
  · cases w.scriptFor? s b with
    | some script => exact posts_foldl s _ (modesOf c) w hl ha
    | none => exact ⟨.refl _, fun _ _ => rfl, rfl, rfl, Nat.le_refl _⟩

/-- Whatever its state, a session only adds to its own mailbox when it is told of a change. -/
theorem postsSome_routeBreakpoint (w : World) (s : Nat) (b : Breakpoint)
    (c : BreakpointChange) : PostsSome s w (w.routeBreakpoint s b c) := by
  have h := steady_postsSome s
  have hmodes : ∀ (script : Script) (modes : List BreakpointMode) (w : World), PostsSome s w
      (modes.foldl (fun w mode => w.post s (.breakpoint script b mode)) w) := by
    intro script modes
    induction modes with
    | nil => exact h.refl
    | cons mode modes ih =>
        intro w
        have hsent : (Request.breakpoint script b mode).IsSent := trivial
        exact h.trans (postsSome_post s hsent w) (ih _)
  unfold routeBreakpoint
  split
  · exact h.refl w
  · split
    · exact hmodes _ _ w
    · exact ⟨mild_trace w _ _, [], List.forall_mem_nil _, .refl _, fun _ _ => rfl, rfl, rfl,
        Nat.le_refl _⟩

/-- A subscriber that is told of a breakpoint leaves subscriptions as they are. -/
theorem aside_tell (w : World) (b : Breakpoint) (c : BreakpointChange) (who : Subscriber) :
    Aside w (w.tell b c who) := by
  cases who with
  | session s =>
      obtain ⟨-, rs, -, h⟩ := postsSome_routeBreakpoint w s b c
      exact h.aside
  | client l => exact .of_sessions rfl fun _ => ⟨rfl, rfl, rfl⟩

/-- What one subscriber is told does not show in the sessions of the others. -/
theorem session_tell_of_ne (w : World) (b : Breakpoint) (c : BreakpointChange) {who : Subscriber}
    {s : Nat} (h : who ≠ .session s) : (w.tell b c who).session s = w.session s := by
  cases who with
  | session t =>
      obtain ⟨-, rs, -, hposts⟩ := postsSome_routeBreakpoint w t b c
      exact hposts.elsewhere s fun hst => h (hst ▸ rfl)
  | client l => rfl

/-- Tells one subscriber after the other. -/
def tellAll (w : World) (b : Breakpoint) (c : BreakpointChange) (es : List (Nat × Subscriber)) :
    World :=
  es.foldl (fun w e => w.tell b c e.2) w

/-- Subscribers that are told of a breakpoint leave subscriptions as they are. -/
theorem aside_tellAll (b : Breakpoint) (c : BreakpointChange) (es : List (Nat × Subscriber))
    (w : World) : Aside w (w.tellAll b c es) := by
  induction es generalizing w with
  | nil => exact steady_aside.refl w
  | cons e es ih => exact steady_aside.trans (aside_tell w b c e.2) (ih _)

/-- A session that is no subscriber is told of no breakpoint. -/
theorem session_tellAll_of_forall_ne (b : Breakpoint) (c : BreakpointChange) {s : Nat}
    (es : List (Nat × Subscriber)) (h : ∀ e ∈ es, e.2 ≠ .session s) (w : World) :
    (w.tellAll b c es).session s = w.session s := by
  induction es generalizing w with
  | nil => rfl
  | cons e es ih =>
      have hrest := ih (fun e' he' => h e' (List.mem_cons_of_mem _ he')) (w.tell b c e.2)
      exact hrest.trans (session_tell_of_ne w b c (h e List.mem_cons_self))

/-- Numbers that were given out stay given out when subscribers are told of a breakpoint. -/
theorem numbers_tellAll (b : Breakpoint) (c : BreakpointChange) (es : List (Nat × Subscriber))
    (w : World) : w.nextNumber ≤ (w.tellAll b c es).nextNumber := by
  induction es generalizing w with
  | nil => exact Nat.le_refl _
  | cons e es ih =>
      refine Nat.le_trans ?_ (ih (w.tell b c e.2))
      cases e.2 with
      | session s =>
          obtain ⟨-, rs, -, h⟩ := postsSome_routeBreakpoint w s b c
          exact h.numbers
      | client l => exact Nat.le_refl _

/-- Which script a breakpoint belongs to is seen from the session alone. -/
theorem routed_congr {w w' : World} {s : Nat} (h : w'.session s = w.session s) (b : Breakpoint)
    (c : BreakpointChange) : w'.routed s b c = w.routed s b c := by
  simp only [routed, scriptFor?, h]

/-- A session that is alive has one subscription at its manager. -/
theorem Enrolled.exists_append {w : World} (he : Enrolled w) {s n : Nat}
    (hl : (w.session s).alive = true) (hn : (w.session s).subscription = some n) :
    ∃ before after, (w.manager (w.session s).manager).subscribers
        = before ++ (n, .session s) :: after
      ∧ (∀ e ∈ before, e.2 ≠ .session s) ∧ ∀ e ∈ after, e.2 ≠ .session s := by
  obtain ⟨before, after, h⟩ := List.append_of_mem (he.told s n hl hn)
  have hnodup := he.numbered (w.session s).manager
  -- Another entry of the session would have the same number.
  have hown : ∀ e ∈ (w.manager (w.session s).manager).subscribers, e.2 = .session s → e.1 = n := by
    rintro ⟨k, who⟩ hmem rfl
    have hk := (he.known _ k s hmem).2
    rw [hn] at hk
    exact (Option.some.inj hk).symm
  rw [h] at hnodup hown
  simp only [List.map_append, List.map_cons, List.nodup_append, List.nodup_cons] at hnodup
  refine ⟨before, after, h, fun e hmem heq => ?_, fun e hmem heq => ?_⟩
  · have hk := hown e (List.mem_append_left _ hmem) heq
    exact hnodup.2.2 e.1 (List.mem_map_of_mem hmem) n List.mem_cons_self hk
  · have hk := hown e (List.mem_append_right _ (List.mem_cons_of_mem _ hmem)) heq
    exact hnodup.2.1.1 (hk ▸ List.mem_map_of_mem hmem)

/-- The subscribers of a manager that are still held. -/
def live (w : World) (m : Nat) : List (Nat × Subscriber) :=
  (w.manager m).subscribers.filter fun e => w.isLive e.2

/-- A manager whose subscribers are those that are still held. -/
def prune (w : World) (m : Nat) : World :=
  w.modifyManager m fun manager => { manager with subscribers := w.live m }

/-- To announce a change is to tell those subscribers that are still held. -/
theorem announce_eq (w : World) (m : Nat) (b : Breakpoint) (c : BreakpointChange) :
    w.announce m b c = (w.prune m).tellAll b c (w.live m) :=
  rfl

/-- A manager forgets only those whom nobody holds. -/
theorem enrolled_prune (w : World) (m : Nat) (he : Enrolled w) : Enrolled (w.prune m) :=
  he.of_modifyManager List.filter_sublist rfl fun n s ha hm hn =>
    List.mem_filter.mpr ⟨hm ▸ he.told s n ha hn, ha⟩

/-- Subscribers that are dropped leave the breakpoints. -/
theorem breakpoints_prune (w : World) (m m' : Nat) :
    ((w.prune m).manager m').breakpoints = (w.manager m').breakpoints :=
  forall_manager_modifyManager (P := fun m' x => x.breakpoints = (w.manager m').breakpoints)
    (fun _ => rfl) rfl m'

/-- Breakpoints are announced and not changed. -/
theorem breakpoints_announce (w : World) (m m' : Nat) (b : Breakpoint) (c : BreakpointChange) :
    ((w.announce m b c).manager m').breakpoints = (w.manager m').breakpoints := by
  have hs := (aside_tellAll b c (w.live m) (w.prune m)).managers
  have h : (w.announce m b c).manager m' = (w.prune m).manager m' := by
    rw [announce_eq, manager, manager, hs]
  rw [h, breakpoints_prune]

/-- A session that is alive is told of a change at its manager once, and of no other. -/
theorem posted_announce (w : World) (he : Enrolled w) {s n : Nat} (m : Nat) (b : Breakpoint)
    (c : BreakpointChange) (hl : (w.session s).alive = true) (ha : (w.session s).attached = true)
    (hn : (w.session s).subscription = some n) :
    (w.session s).Posted (if (w.session s).manager = m then w.routed s b c else [])
      ((w.announce m b c).session s) := by
  split
  · next hm =>
      subst hm
      obtain ⟨before, after, hsub, hbefore, hafter⟩ := he.exists_append hl hn
      have hlive : w.live (w.session s).manager
          = before.filter (fun e => w.isLive e.2)
            ++ (n, .session s) :: after.filter fun e => w.isLive e.2 := by
        have hself : w.isLive (.session s) = true := hl
        rw [live, hsub, List.filter_append, List.filter_cons, if_pos hself]
      let u := (w.prune (w.session s).manager).tellAll b c (before.filter fun e => w.isLive e.2)
      have hu : u.session s = w.session s :=
        session_tellAll_of_forall_ne b c _
          (fun e he => hbefore e (List.mem_filter.mp he).1) (w.prune (w.session s).manager)
      have htold := posts_routeBreakpoint u s b c (by rw [hu, hl]) (by rw [hu, ha])
      have hrun : w.announce (w.session s).manager b c
          = (u.routeBreakpoint s b c).tellAll b c (after.filter fun e => w.isLive e.2) := by
        rw [announce_eq, hlive, tellAll, List.foldl_append]
        rfl
      rw [hrun, session_tellAll_of_forall_ne b c _
        fun e he => hafter e (List.mem_filter.mp he).1]
      rw [← hu, ← routed_congr hu]
      exact htold.here
  · next hm =>
      have hne : ∀ e ∈ w.live m, e.2 ≠ .session s := by
        rintro ⟨k, who⟩ hmem rfl
        exact hm (he.known m k s (List.mem_filter.mp hmem).1).1
      rw [announce_eq, session_tellAll_of_forall_ne b c _ hne]
      exact .refl _

/-! ### What users change -/

/-- A manager whose breakpoints are changed keeps its subscribers. -/
theorem enrolled_modifyBreakpoints (w : World) (he : Enrolled w) (m : Nat)
    (f : List Breakpoint → List Breakpoint) :
    Enrolled (w.modifyManager m fun manager =>
      { manager with breakpoints := f manager.breakpoints }) :=
  he.of_modifyManager (.refl _) rfl fun n s ha hm hn => hm ▸ he.told s n ha hn

/-- A listener of a client is a subscriber like any other. -/
theorem enrolled_addListener (w : World) (he : Enrolled w) (m : Nat) (name : String) :
    Enrolled (w.addListener m name).2 := by
  let who := Subscriber.client w.listeners.size
  let v : World := { w with listeners := w.listeners.push ⟨name, true, (w.manager m).nextSubscription⟩ }
  let u := v.modifyManager m (·.subscribe who)
  have hmem : ∀ m' e, e ∈ (u.manager m').subscribers ↔ e ∈ (w.manager m').subscribers
      ∨ m = m' ∧ e = ((w.manager m).nextSubscription, who) :=
    fun _ _ => mem_subscribers_subscribe (w := v)
  change Enrolled u
  refine ⟨?numbered, ?below, fun s n hn => ?bound, he.distinct, fun m' n s h => ?known,
    fun s n ha hn => ?told⟩
  case numbered =>
    exact forall_manager_modifyManager (w := v) (f := (·.subscribe who))
      (P := fun _ x => (x.subscribers.map (·.1)).Nodup) he.numbered
      (BreakpointManager.nodup_subscribe (he.numbered m) (he.below m))
  case below =>
    exact forall_manager_modifyManager (w := v) (f := (·.subscribe who))
      (P := fun _ x => ∀ e ∈ x.subscribers, e.1 < x.nextSubscription) he.below
      fun _ => BreakpointManager.lt_of_mem_subscribe (he.below m)
  case bound =>
    exact Nat.lt_of_lt_of_le (he.bound s n hn) (le_nextSubscription_subscribe v _ _ _)
  case known =>
    obtain h | ⟨-, heq⟩ := (hmem m' _).mp h
    · exact he.known m' n s h
    · exact absurd (congrArg Prod.snd heq) (by simp [who])
  case told => exact (hmem _ _).mpr (.inl (he.told s n ha hn))

/-- A listener that is added changes no breakpoint. -/
theorem breakpoints_addListener (w : World) (m : Nat) (name : String) (m' : Nat) :
    ((w.addListener m name).2.manager m').breakpoints = (w.manager m').breakpoints :=
  forall_manager_modifyManager
    (w := { w with listeners := w.listeners.push ⟨name, true, (w.manager m).nextSubscription⟩ })
    (P := fun m' x => x.breakpoints = (w.manager m').breakpoints) (fun _ => rfl) rfl m'

end World

end DebugBridge
