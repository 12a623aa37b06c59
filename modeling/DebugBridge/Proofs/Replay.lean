import DebugBridge.Proofs.News

/-!
# What a listener can tell of a manager

A listener is told what is added, removed and switched, one thing after the other, and it never sees the
breakpoints as a whole. That is enough for it: one that was there before the first breakpoint, and writes
down what it is told, has the breakpoints of the manager at any time, in their order and with their flags.
A flag may change while its breakpoint is not registered. Nobody is told of that, and there is no need to,
for the flag is told when the breakpoint is added again.

Everybody who stays is told the same, all of it and in the same order, whoever else comes, goes or is
forgotten in between.

## Main definitions

* `Errand`, `World.errands`: what is done with a manager;
* `World.newsIn`, `World.tellingsIn`: what there is to tell in a run, and what is told;
* `World.Stays`, `World.Lost`, `World.Void`: subscribers that stay, that are given up, and numbers that were
  taken back.

## Main results

* `subscribers_errand`: what an errand does to subscriptions;
* `registered_errands`: the news of a run tell all that changed;
* `tellingsIn_of_stays`, `not_told_of_lost`, `not_told_of_void`: who is told in a run;
* `replica_eq_registered`: who writes down what it is told knows all.
-/

namespace DebugBridge

/-! ### Errands -/

/-- What is done with a manager. A client adds a listener of its own or a session, and takes a subscription
back by its number; and listeners and sessions are given up. -/
inductive Errand where
  | edit (x : Edit)
  | listen (name : String)
  | enroll (s : Nat)
  | takeBack (n : Nat)
  | dropListener (k : Nat)
  | dropSession (s : Nat)

/-- Who is given up. -/
def Errand.drops : Errand → Option Subscriber
  | .dropListener k => some (.client k)
  | .dropSession s => some (.session s)
  | _ => none

/-- Everybody has a number of its own, and so has every breakpoint. -/
structure BreakpointManager.Ordered (manager : BreakpointManager) : Prop where
  numbered : (manager.subscribers.map Prod.fst).Nodup
  below : ∀ e ∈ manager.subscribers, e.1 < manager.nextSubscription
  distinct : (manager.breakpoints.map (·.id)).Nodup

namespace World

variable {w : World} {m n : Nat} {e : Errand} {who : Subscriber}

/-- What comes of an errand. -/
def errand (m : Nat) (w : World) : Errand → World
  | .edit x => w.edit m x
  | .listen name => (w.addListener m name).2
  | .enroll s => w.modifyManager m (·.subscribe (.session s))
  | .takeBack n => w.modifyManager m (·.unsubscribe n)
  | .dropListener k => w.dropListener k
  | .dropSession s => w.dropSession s

/-- What comes of several errands, one after the other. -/
def errands (m : Nat) (w : World) (es : List Errand) : World :=
  es.foldl (errand m) w

/-- What there is to tell of an errand. -/
def newsAt (w : World) (m : Nat) : Errand → Option News
  | .edit x => w.newsOf m x
  | _ => none

/-- What subscribers are told of an errand. -/
def tellingsAt (w : World) (m : Nat) : Errand → List Telling
  | .edit x => w.tellingsOf m x
  | _ => []

/-- What there is to tell of errands, in that order. -/
def newsIn (m : Nat) (w : World) : List Errand → List News
  | [] => []
  | e :: es => (w.newsAt m e).toList ++ newsIn m (w.errand m e) es

/-- What subscribers are told of errands, in that order. -/
def tellingsIn (m : Nat) (w : World) : List Errand → List Telling
  | [] => []
  | e :: es => w.tellingsAt m e ++ tellingsIn m (w.errand m e) es

/-- Errands in two parts are done one part after the other. -/
theorem errands_append (m : Nat) (w : World) (es es' : List Errand) :
    errands m w (es ++ es') = errands m (errands m w es) es' :=
  List.foldl_append

/-- The news of errands in two parts is that of one part and then of the other. -/
theorem newsIn_append (m : Nat) (w : World) (es es' : List Errand) :
    newsIn m w (es ++ es') = newsIn m w es ++ newsIn m (errands m w es) es' := by
  induction es generalizing w with
  | nil => rfl
  | cons e es ih => rw [List.cons_append, newsIn, ih, newsIn, List.append_assoc]; rfl

/-- What subscribers are told of errands in two parts is told part by part. -/
theorem tellingsIn_append (m : Nat) (w : World) (es es' : List Errand) :
    tellingsIn m w (es ++ es') = tellingsIn m w es ++ tellingsIn m (errands m w es) es' := by
  induction es generalizing w with
  | nil => rfl
  | cons e es ih => rw [List.cons_append, tellingsIn, ih, tellingsIn, List.append_assoc]; rfl

/-- Who is told of an errand: everybody who is held, under the number of the subscription. -/
theorem tellingsAt_eq (w : World) (m : Nat) (e : Errand) : w.tellingsAt m e
    = (w.newsAt m e).toList.flatMap fun y => (w.live m).map fun e => ⟨e.1, e.2, y⟩ := by
  cases e with
  | edit x => exact tellingsOf_eq w m x
  | _ => rfl

/-- The manager after an errand. -/
theorem manager_errand (w : World) (m : Nat) (e : Errand) : (w.errand m e).manager m = match e with
    | .edit x => (w.edit m x).manager m
    | .listen _ => (w.manager m).subscribe (.client w.listeners.size)
    | .enroll s => (w.manager m).subscribe (.session s)
    | .takeBack n => (w.manager m).unsubscribe n
    | .dropListener _ | .dropSession _ => w.manager m := by
  cases e with
  | listen name => exact (manager_modifyManager _ m m _).trans (if_pos rfl)
  | enroll s => exact (manager_modifyManager _ m m _).trans (if_pos rfl)
  | takeBack n => exact (manager_modifyManager _ m m _).trans (if_pos rfl)
  | _ => rfl

/-- What there is to know changes as the news says. -/
theorem registered_errand (w : World) (m : Nat) (e : Errand) :
    (w.errand m e).registered m = (w.newsAt m e).toList.foldl News.record (w.registered m) := by
  cases e with
  | edit x => exact registered_edit w m x
  | _ =>
      rw [registered, manager_errand]
      rfl

/-- Who writes down the news of a run, from what there was to know before it, knows all after it. -/
theorem registered_errands (w : World) (m : Nat) (es : List Errand) :
    (errands m w es).registered m = (newsIn m w es).foldl News.record (w.registered m) := by
  induction es generalizing w with
  | nil => rfl
  | cons e es ih =>
      rw [newsIn, List.foldl_append, ← registered_errand]
      exact ih (w.errand m e)

/-! ### Who is subscribed -/

/-- An errand lets the last one in, under the next number, or else it sends some away at most. Whoever is
held is sent away only by its number. -/
theorem subscribers_errand (w : World) (m : Nat) (e : Errand) :
    let before := w.manager m
    let after := (w.errand m e).manager m
    (∃ who, after.subscribers = before.subscribers ++ [(before.nextSubscription, who)]
        ∧ after.nextSubscription = before.nextSubscription + 1)
      ∨ after.subscribers.Sublist before.subscribers ∧ after.nextSubscription = before.nextSubscription
        ∧ ∀ n who, (n, who) ∈ before.subscribers → w.isLive who = true → e ≠ .takeBack n →
          (n, who) ∈ after.subscribers := by
  intro before after
  have hafter := manager_errand w m e
  cases e with
  | edit x =>
      have hedited : after = _ := manager_edit w m x
      rw [hedited]
      refine .inr ⟨?_, rfl, fun n who hmem hlive _ => ?_⟩
      · dsimp only
        split
        · exact List.filter_sublist
        · exact .refl _
      · dsimp only
        split
        · exact List.mem_filter.mpr ⟨hmem, hlive⟩
        · exact hmem
  | listen name =>
      have hlistens : after = before.subscribe (.client w.listeners.size) := hafter
      exact .inl ⟨.client w.listeners.size, by rw [hlistens]; rfl, by rw [hlistens]; rfl⟩
  | enroll s =>
      have henrolls : after = before.subscribe (.session s) := hafter
      exact .inl ⟨.session s, by rw [henrolls]; rfl, by rw [henrolls]; rfl⟩
  | takeBack k =>
      have htaken : after = before.unsubscribe k := hafter
      rw [htaken]
      refine .inr ⟨List.filter_sublist, rfl, fun n who hmem _ hne => ?_⟩
      refine List.mem_filter.mpr ⟨hmem, decide_eq_true fun hnk => hne ?_⟩
      rw [← hnk]
  | dropListener k => exact .inr ⟨.refl _, rfl, fun n who hmem _ _ => hmem⟩
  | dropSession s => exact .inr ⟨.refl _, rfl, fun n who hmem _ _ => hmem⟩

/-- An edit changes the breakpoints of its manager, and no other errand does. -/
theorem breakpoints_errand (w : World) (m : Nat) (e : Errand) : ((w.errand m e).manager m).breakpoints
    = match e with
      | .edit x => x.onto (w.manager m).breakpoints
      | _ => (w.manager m).breakpoints := by
  rw [manager_errand]
  cases e with
  | edit x => exact congrArg BreakpointManager.breakpoints (manager_edit w m x)
  | _ => rfl

/-- Numbers are given once, to subscribers and to breakpoints. -/
theorem ordered_errand (h : (w.manager m).Ordered) (e : Errand) : ((w.errand m e).manager m).Ordered := by
  have hdistinct : (((w.errand m e).manager m).breakpoints.map (·.id)).Nodup := by
    rw [breakpoints_errand]
    cases e with
    | edit x => exact x.nodup_onto h.distinct
    | _ => exact h.distinct
  obtain ⟨who, hsub, hnext⟩ | ⟨hsub, hnext, -⟩ := subscribers_errand w m e
  · refine ⟨?_, ?_, hdistinct⟩
    · rw [hsub, List.map_append, List.nodup_append]
      refine ⟨h.numbered, List.pairwise_singleton _ _, fun k hk k' hk' heq => ?_⟩
      obtain ⟨entry, hentry, rfl⟩ := List.mem_map.mp hk
      obtain rfl := List.mem_singleton.mp hk'
      exact absurd heq (Nat.ne_of_lt (h.below entry hentry))
    · intro entry hentry
      rw [hsub, List.mem_append] at hentry
      rw [hnext]
      obtain hold | hnew := hentry
      · exact Nat.lt_succ_of_lt (h.below entry hold)
      · rw [List.mem_singleton.mp hnew]
        exact Nat.lt_succ_self _
  · refine ⟨h.numbered.sublist (hsub.map _), fun entry hentry => ?_, hdistinct⟩
    rw [hnext]
    exact h.below entry (hsub.subset hentry)

/-- Everybody and every breakpoint of a manager has its own number after any errands. -/
theorem ordered_errands (h : (w.manager m).Ordered) (es : List Errand) :
    ((errands m w es).manager m).Ordered := by
  induction es generalizing w with
  | nil => exact h
  | cons e es ih => exact ih (ordered_errand h e)

/-! ### Those who stay -/

/-- Somebody is subscribed under a number, and held. -/
structure Stays (m n : Nat) (who : Subscriber) (w : World) : Prop where
  subscribed : (n, who) ∈ (w.manager m).subscribers
  held : w.isLive who = true

/-- Who is not given up by an errand is held after it. -/
theorem isLive_errand (h : w.isLive who = true) (m : Nat) (hdrops : e.drops ≠ some who) :
    (w.errand m e).isLive who = true := by
  cases e with
  | edit x => exact (isLive_edit w m x who).trans h
  | listen name =>
      cases who with
      | session s => exact h
      | client k =>
          change ((w.listeners.push _).get k).held = true
          rw [Arena.get_push]
          split
          · rfl
          · exact h
  | enroll s => cases who <;> exact h
  | takeBack n => cases who <;> exact h
  | dropListener k' =>
      cases who with
      | session s => exact h
      | client k =>
          change ((w.listeners.modify k' _).get k).held = true
          rw [Arena.get_modify, if_neg fun hk => hdrops (by rw [hk]; rfl)]
          exact h
  | dropSession s' =>
      cases who with
      | session s =>
          change ((w.dropSession s').session s).alive = true
          rw [dropSession, session_modifySession, if_neg fun hs => hdrops (by rw [hs]; rfl)]
          exact h
      | client k => exact h

/-- Who is not given up and whose number is not taken back stays. -/
theorem stays_errand (h : w.Stays m n who) (hback : e ≠ .takeBack n) (hdrops : e.drops ≠ some who) :
    (w.errand m e).Stays m n who := by
  refine ⟨?_, isLive_errand h.held m hdrops⟩
  obtain ⟨last, hsub, -⟩ | ⟨-, -, hkept⟩ := subscribers_errand w m e
  · rw [hsub]
    exact List.mem_append_left _ h.subscribed
  · exact hkept n who h.subscribed h.held hback

end World

/-- One entry of a list has a number if all have numbers of their own. -/
theorem filter_fst_eq_singleton {α : Type} {es : List (Nat × α)} (h : (es.map Prod.fst).Nodup) {n : Nat}
    {a : α} (hmem : (n, a) ∈ es) : es.filter (·.1 = n) = [(n, a)] := by
  induction es with
  | nil => cases hmem
  | cons e es ih =>
      obtain ⟨hnew, hrest⟩ := List.nodup_cons.mp h
      obtain rfl | hlater := List.mem_cons.mp hmem
      · have hnone : es.filter (·.1 = n) = [] := by
          refine List.filter_eq_nil_iff.mpr fun e' he' => ?_
          rw [decide_eq_true_iff]
          intro hfst
          have hin : e'.1 ∈ es.map Prod.fst := List.mem_map_of_mem he'
          rw [hfst] at hin
          exact hnew hin
        rw [List.filter_cons_of_pos (by simp), hnone]
      · have hne : e.1 ≠ n := by
          intro hfst
          rw [hfst] at hnew
          exact hnew (List.mem_map_of_mem (f := Prod.fst) hlater)
        rw [List.filter_cons_of_neg (by simpa using hne), ih hrest hlater]

namespace World

variable {w : World} {m n : Nat} {e : Errand} {who : Subscriber}

/-- Who stays is told what there is to tell, once. -/
theorem tellingsAt_of_stays (ho : (w.manager m).Ordered) (h : w.Stays m n who) (e : Errand) :
    (w.tellingsAt m e).filter (·.number = n) = (w.newsAt m e).toList.map (⟨n, who, ·⟩) := by
  rw [tellingsAt_eq]
  cases w.newsAt m e with
  | none => rfl
  | some y =>
      have hlive : (w.live m).filter (·.1 = n) = [(n, who)] := by
        refine filter_fst_eq_singleton ?_ (List.mem_filter.mpr ⟨h.subscribed, h.held⟩)
        exact ho.numbered.sublist (List.filter_sublist.map _)
      rw [Option.toList_some, List.flatMap_singleton, List.filter_map, List.map_singleton]
      exact congrArg (List.map _) hlive

/-- Who stays throughout a run is told all its news, in their order. -/
theorem tellingsIn_of_stays {es : List Errand} (ho : (w.manager m).Ordered) (h : w.Stays m n who)
    (hes : ∀ e ∈ es, e ≠ .takeBack n ∧ e.drops ≠ some who) :
    (tellingsIn m w es).filter (·.number = n) = (newsIn m w es).map (⟨n, who, ·⟩) := by
  induction es generalizing w with
  | nil => rfl
  | cons e es ih =>
      obtain ⟨⟨hback, hdrops⟩, hlater⟩ := List.forall_mem_cons.mp hes
      rw [tellingsIn, newsIn, List.filter_append, List.map_append, tellingsAt_of_stays ho h,
        ih (ordered_errand ho e) (stays_errand h hback hdrops) hlater]

/-! ### Those who are gone -/

/-- Nobody will hold a subscriber again. -/
def Lost (w : World) : Subscriber → Prop
  | .session s => (w.session s).alive = false
  | .client k => k < w.listeners.size ∧ (w.listeners.get k).held = false

/-- A subscriber that nobody will hold is not held. -/
theorem isLive_of_lost (h : w.Lost who) : w.isLive who = false := by
  cases who with
  | session s => exact h
  | client k => exact h.2

/-- Who is given up is lost. -/
theorem lost_of_drops (w : World) (m : Nat) (h : e.drops = some who) : (w.errand m e).Lost who := by
  cases e with
  | dropListener k =>
      obtain rfl : .client k = who := Option.some.inj h
      refine ⟨Arena.lt_size_modify w.listeners k _, ?_⟩
      change ((w.listeners.modify k _).get k).held = false
      rw [Arena.get_modify, if_pos rfl]
  | dropSession s =>
      obtain rfl : .session s = who := Option.some.inj h
      change ((w.dropSession s).session s).alive = false
      rw [dropSession, session_modifySession, if_pos rfl]
  | _ => cases h

/-- A subscriber that nobody will hold stays so. -/
theorem lost_errand (h : w.Lost who) (m : Nat) (e : Errand) : (w.errand m e).Lost who := by
  cases e with
  | edit x =>
      cases who with
      | session s => exact (isLive_edit w m x (.session s)).trans h
      | client k =>
          change k < (w.edit m x).listeners.size ∧ ((w.edit m x).listeners.get k).held = false
          rw [listeners_edit]
          exact h
  | listen name =>
      cases who with
      | session s => exact h
      | client k =>
          change k < (w.listeners.push _).size ∧ ((w.listeners.push _).get k).held = false
          rw [Arena.size_push, Arena.get_push, if_neg (Nat.ne_of_lt h.1)]
          exact ⟨Nat.lt_succ_of_lt h.1, h.2⟩
  | enroll s => cases who <;> exact h
  | takeBack n => cases who <;> exact h
  | dropListener k' =>
      cases who with
      | session s => exact h
      | client k =>
          refine ⟨Nat.lt_of_lt_of_le h.1 (Arena.size_le_modify w.listeners k' _), ?_⟩
          change ((w.listeners.modify k' _).get k).held = false
          rw [Arena.get_modify]
          split
          · rfl
          · exact h.2
  | dropSession s' =>
      cases who with
      | session s =>
          change ((w.dropSession s').session s).alive = false
          rw [dropSession, session_modifySession]
          split
          · rfl
          · exact h
      | client k => exact h

/-- Where no one of a kind is among those who are told, and errands keep it so, none is told in a run. -/
theorem not_told_of_kept {P : World → Prop} {Q : Nat × Subscriber → Prop}
    (hkept : ∀ {w}, P w → ∀ e, P (w.errand m e)) (hfree : ∀ {w}, P w → ∀ entry ∈ w.live m, ¬Q entry)
    (h : P w) (es : List Errand) : ∀ t ∈ tellingsIn m w es, ¬Q (t.number, t.who) := by
  induction es generalizing w with
  | nil => exact fun t ht => absurd ht List.not_mem_nil
  | cons e es ih =>
      intro t ht
      rw [tellingsIn, List.mem_append, tellingsAt_eq] at ht
      obtain hnow | hlater := ht
      · obtain ⟨y, -, hy⟩ := List.mem_flatMap.mp hnow
        obtain ⟨entry, hentry, rfl⟩ := List.mem_map.mp hy
        exact hfree h entry hentry
      · exact ih (hkept h e) t hlater

/-- Who is lost is told nothing any more. -/
theorem not_told_of_lost (h : w.Lost who) (m : Nat) (es : List Errand) :
    ∀ t ∈ tellingsIn m w es, t.who ≠ who := by
  refine not_told_of_kept (P := (·.Lost who)) (Q := (·.2 = who)) (fun hu e => lost_errand hu m e) ?_ h es
  rintro u hu entry hentry rfl
  have hheld := (List.mem_filter.mp hentry).2
  rw [isLive_of_lost hu] at hheld
  cases hheld

/-- A number that was given and is nobody's any more. -/
structure Void (m n : Nat) (w : World) : Prop where
  given : n < (w.manager m).nextSubscription
  free : ∀ entry ∈ (w.manager m).subscribers, entry.1 ≠ n

/-- A number that is taken back is void. -/
theorem void_takeBack (h : n < (w.manager m).nextSubscription) : (w.errand m (.takeBack n)).Void m n := by
  have hafter := manager_errand w m (.takeBack n)
  refine ⟨by rw [hafter]; exact h, fun entry hentry => ?_⟩
  rw [hafter] at hentry
  exact of_decide_eq_true (List.mem_filter.mp hentry).2

/-- A number that is nobody's any more is nobody's after an errand. -/
theorem void_errand (h : w.Void m n) (e : Errand) : (w.errand m e).Void m n := by
  obtain ⟨last, hsub, hnext⟩ | ⟨hsub, hnext, -⟩ := subscribers_errand w m e
  · refine ⟨by rw [hnext]; exact Nat.lt_succ_of_lt h.given, fun entry hentry => ?_⟩
    rw [hsub, List.mem_append] at hentry
    obtain hold | hnew := hentry
    · exact h.free entry hold
    · rw [List.mem_singleton.mp hnew]
      exact Nat.ne_of_gt h.given
  · exact ⟨by rw [hnext]; exact h.given, fun entry hentry => h.free entry (hsub.subset hentry)⟩

/-- Nobody is told anything under a number that is void. -/
theorem not_told_of_void (h : w.Void m n) (es : List Errand) :
    ∀ t ∈ tellingsIn m w es, t.number ≠ n :=
  not_told_of_kept (P := (·.Void m n)) (Q := (·.1 = n)) void_errand
    (fun hu entry hentry => hu.free entry (List.mem_filter.mp hentry).1) h es

/-! ### Replicas -/

/-- Without edits there is no news, and nobody is told anything. -/
theorem newsIn_of_unedited {es : List Errand} (hes : ∀ x, .edit x ∉ es) (w : World) :
    newsIn m w es = [] ∧ tellingsIn m w es = [] := by
  induction es generalizing w with
  | nil => exact ⟨rfl, rfl⟩
  | cons e es ih =>
      have hnone : w.newsAt m e = none := by
        cases e with
        | edit x => exact absurd List.mem_cons_self (hes x)
        | _ => rfl
      obtain ⟨hnews, htellings⟩ := ih (fun x hx => hes x (List.mem_cons_of_mem _ hx)) (w.errand m e)
      rw [newsIn, tellingsIn, tellingsAt_eq, hnone, hnews, htellings]
      exact ⟨rfl, rfl⟩

/-- Who writes down what it is told knows all there is to know. At a new manager, let somebody subscribe
before the first edit and stay, whatever else is done with the manager then. If it adds, takes out and turns
over as it is told, it has after every step the breakpoints of the manager, in the same order and with the
same flags. No breakpoint is there twice. Whoever else comes and goes, all who stay are told all news from
then on, once and in order; who is given up is told nothing after that, and nobody is told anything under a
number that was taken back. What clients are told of an edit is what is noted. -/
theorem replica_eq_registered (hnew : w.manager m = default) {us vs : List Errand}
    (hus : ∀ x, .edit x ∉ us) (hstays : (errands m w us).Stays m n who)
    (hvs : ∀ e ∈ vs, e ≠ .takeBack n ∧ e.drops ≠ some who) :
    let es := us ++ vs
    let v := errands m w es
    (((tellingsIn m w es).filter (·.number = n)).map Telling.news).foldl News.record []
        = (v.manager m).breakpoints.map (fun p => (p, v.marks.isEnabled p))
      ∧ ((v.manager m).breakpoints.map (·.id)).Nodup
      ∧ (∀ k other before after, es = before ++ after → (errands m w before).Stays m k other →
        (∀ e ∈ after, e ≠ .takeBack k ∧ e.drops ≠ some other) →
        (tellingsIn m (errands m w before) after).filter (·.number = k)
          = (newsIn m (errands m w before) after).map (⟨k, other, ·⟩))
      ∧ (∀ before e after, es = before ++ e :: after →
        let u := errands m w (before ++ [e])
        (∀ gone, e.drops = some gone → ∀ t ∈ tellingsIn m u after, t.who ≠ gone)
          ∧ ∀ k, e = .takeBack k → k < ((errands m w before).manager m).nextSubscription →
            ∀ t ∈ tellingsIn m u after, t.number ≠ k)
      ∧ ∀ x, (v.edit m x).journal.notes.toList
          = v.journal.notes.toList ++ (v.tellingsOf m x).flatMap v.notesFor := by
  intro es v
  have hordered : ∀ es', ((errands m w es').manager m).Ordered := by
    refine ordered_errands ?_
    rw [hnew]
    exact ⟨List.nodup_nil, List.forall_mem_nil _, List.nodup_nil⟩
  refine ⟨?_, (hordered es).distinct, fun k other before after _ hk hafter => ?_,
    fun before e after _ => ?_, fun x => notes_edit v m x⟩
  · have htold : ((tellingsIn m w es).filter (·.number = n)).map Telling.news = newsIn m w es := by
      obtain ⟨hnews, htellings⟩ := newsIn_of_unedited (m := m) hus w
      rw [tellingsIn_append, newsIn_append, hnews, htellings, List.nil_append, List.nil_append,
        tellingsIn_of_stays (hordered us) hstays hvs, List.map_map]
      exact List.map_id _
    have hnothing : w.registered m = [] := by
      rw [registered, hnew]
      rfl
    rw [htold, ← hnothing]
    exact (registered_errands w m es).symm
  · exact tellingsIn_of_stays (hordered before) hk hafter
  · intro u
    have hlast : u = (errands m w before).errand m e := errands_append m w before [e]
    rw [hlast]
    refine ⟨fun gone hgone => not_told_of_lost (lost_of_drops _ m hgone) m after, ?_⟩
    rintro k rfl hk
    exact not_told_of_void (void_takeBack hk) after

/-- One listener is given up, and another one knows all: a breakpoint was disabled before it was added, and
another one was switched while it was not registered. -/
theorem replica_eq_registered_twoListeners :
    let p : Breakpoint := ⟨0, ⟨"/ws/main.js"⟩, 4⟩
    let q : Breakpoint := ⟨1, ⟨"/ws/main.js"⟩, 7⟩
    let us : List Errand := [.listen "early", .listen "view"]
    let vs : List Errand :=
      [.edit (.enable q false), .edit (.add p), .edit (.add p), .dropListener 0, .edit (.add q),
        .edit (.enable p false), .edit (.remove p), .edit (.enable p true), .edit (.add p)]
    (((tellingsIn 0 World.start (us ++ vs)).filter (·.number = 1)).map Telling.news).foldl News.record []
        = [(q, false), (p, true)]
      ∧ ∀ t ∈ tellingsIn 0 (errands 0 World.start (us ++ vs.take 4)) (vs.drop 4),
        t.who ≠ .client 0 := by
  intro p q us vs
  have hnew : World.start.manager 0 = default := rfl
  have hus : ∀ x, Errand.edit x ∉ us := fun x => by simp [us]
  have hstays : (errands 0 World.start us).Stays 0 1 (.client 1) := ⟨by decide +kernel, by decide +kernel⟩
  have hvs : ∀ e ∈ vs, e ≠ .takeBack 1 ∧ e.drops ≠ some (.client 1) := by simp [vs, Errand.drops]
  obtain ⟨hreplica, -, -, hgone, -⟩ := replica_eq_registered hnew hus hstays hvs
  refine ⟨hreplica.trans (by decide +kernel), ?_⟩
  exact (hgone (us ++ vs.take 3) (.dropListener 0) (vs.drop 4) rfl).1 (.client 0) rfl

end World

end DebugBridge
