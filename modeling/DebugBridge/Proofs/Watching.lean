import Mathlib.Data.List.Infix
import DebugBridge.Interpreter.VariableTable
import DebugBridge.Proofs.Attendance
import DebugBridge.Proofs.Farewell

/-!
# Results of watch expressions

A request to evaluate an expression arrives at a thread, the thread serves it and tells the result,
and the model hands the result to the listener that asked. Each of these happens once for each
request, and nothing overtakes anything. So what the listeners of a session got so far, followed by
what the model has still to hear of, is what the threads of the session evaluated.

Whatever a debugger is asked for, its threads serve it while they are held up, in the order in which
it arrived. Here both halves are put together.

## Main definitions

* `Journal.results`: the results that listeners got;
* `Bridge.resultsOf`: those that they got from one session in a run;
* `Bridge.IsSensible`: a run in which expressions are evaluated in frames of known threads;
* `Bridge.ServesInOrder`: what arrived, what was served and what was told fit together.

## Main results

* `spans_results`: only an event with a result tells a listener of one;
* `resultsOf_run`: the listeners of a session get what its threads evaluated in a run;
* `serves_in_order`: requests are served once and in order, and listeners are told once and in order.
-/

namespace DebugBridge

open World

/-! ### Results -/

/-- The listener that a notification gives a result to, with the result. -/
def Note.result? : Note → Option (String × WatchResult)
  | .watch listener result _ => some (listener, result)
  | _ => none

/-- The results that listeners got, oldest first. -/
def Journal.results (j : Journal) : List (String × WatchResult) :=
  j.notes.toList.filterMap Note.result?

/-- The listener that an event has a result for, with the result. -/
def Event.result? : Event → Option (String × WatchResult)
  | .evaluated expression frame result listener =>
    some (listener, .of expression result (.frame frame))
  | _ => none

/-- Whether a request asks for the value of an expression. -/
def Request.IsWatch : Request → Prop
  | .evaluate _ _ _ _ => True
  | _ => False

/-- The frame in which a message asks for a value, if it does. -/
def Message.watched? : Message → Option FrameRef
  | .request (.evaluate _ frame _ _) => some frame
  | _ => none

/-- Something plain that is noted gives no listener a result. -/
theorem Note.IsPlain.result? {n : Note} (h : n.IsPlain) : n.result? = none := by
  cases n with
  | watch => exact absurd h id
  | _ => rfl

/-- Plain notifications give no results. -/
theorem World.Mild.results {w w' : World} (h : Mild w w') :
    w'.journal.results = w.journal.results := by
  obtain ⟨ns, hns, hplain⟩ := h.notes
  have hnone : ns.filterMap Note.result? = [] :=
    List.filterMap_eq_nil_iff.mpr fun n hn => (hplain n hn).result?
  rw [Journal.results, hns, List.filterMap_append, hnone, List.append_nil]
  rfl

namespace Service

variable {σ : Type} [Inhabited σ] [Engine σ]

/-- The listener that a service has a result for, with what the engine made of the expression. -/
def result? (s : Nat) (v : Service σ) : Option (String × WatchResult) :=
  match v.request with
  | .evaluate expression frame _ listener =>
    some (listener, .of expression (v.state.evaluate s frame expression).1 (.frame frame))
  | _ => none

/-- A thread that evaluates an expression tells the result, and no other answer has one. -/
theorem results_answer (s : Nat) (v : Service σ) :
    (v.answer s).filterMap Event.result? = (v.result? s).toList := by
  have hlisting : ∀ (b : Bridge σ) frame, (b.listing s frame).filterMap Event.result? = [] := by
    intro b frame
    unfold Bridge.listing
    split <;> rfl
  obtain ⟨b, x, r⟩ := v
  cases r with
  | getVariables frame => exact hlisting b frame
  | setVariable context binding name expression =>
      unfold answer Bridge.answer
      dsimp only
      split
      · rfl
      · exact hlisting _ _
  | _ => rfl

/-- What threads told has the results of what they evaluated, in order. -/
theorem results_answers (s : Nat) (vs : List (Service σ)) :
    (vs.flatMap (answer s)).filterMap Event.result? = vs.filterMap (result? s) := by
  induction vs with
  | nil => rfl
  | cons v vs ih =>
      rw [List.flatMap_cons, List.filterMap_append, ih, results_answer, List.filterMap_cons]
      cases v.result? s <;> rfl

end Service

/-! ### Who tells listeners -/

namespace Bridge

variable {σ : Type} [Inhabited σ] [Engine σ] {s : Nat} {b b' : Bridge σ} {ds : List (Deed σ)}
  {x : Deed σ} {as : List (Handle × Request)} {vs : List (Service σ)} {es : List Event}

omit [Inhabited σ] [Engine σ] in
/-- The end of a session gives no listener a result. -/
theorem results_endSession (s : Nat) (w : World) :
    (worldAfter (endSession s) w).journal.results = w.journal.results := by
  have hclose : (w.close s).journal = w.journal := by
    unfold close
    dsimp only
    split
    · rfl
    · split <;> rfl
  rw [worldAfter_endSession]
  split
  · simp [Journal.results, note, Journal.note, hclose, Note.result?, Note.farewell]
  · rw [hclose]

/-- Whatever is done, listeners get results by events that have one, and by nothing else. -/
theorem spans_results : Spans (fun _ => True) (fun e => e.result? = none) (fun _ => True)
    fun w w' => w'.journal.results = w.journal.results where
  refl _ := rfl
  trans h h' := h'.trans h
  beside _ _ _ _ h := h.results
  onHeap _ _ _ := rfl
  asks h := h.mild.results
  depicts h := h.mild.results
  posts h := h.1.results
  register _ _ _ := rfl
  fill frame reported _ := by
    have hR : Steady fun w w' : World => w'.journal.results = w.journal.results :=
      ⟨fun _ => rfl, fun h h' => h'.trans h⟩
    refine keeps_withInHand hR (fun _ _ => rfl) frame ?_
    refine Keeps.bind hR (Keeps.get hR) fun w => Keeps.bind hR (fun _ => rfl) fun merged => ?_
    exact Keeps.bind hR (Keeps.change fun _ => rfl) fun _ w =>
      (plain_frameChanged frame _ w).mild.results
  result _ _ _ _ h := by cases h
  enter _ _ _ _ _ := rfl
  leave _ _ _ := rfl
  prune _ _ := rfl
  listen _ _ _ := rfl
  tells h := h.mild.results
  take _ _ := rfl
  part w s := (mild_post w s .disconnect).results
  finish s w := results_endSession s w
  drop _ _ := rfl

/-- Listeners get results only when an event is handed over that has one. -/
theorem results_after (b : Bridge σ) (x : Deed σ)
    (hx : ∀ s e, b.handed s x = some (.event e) → e.result? = none) :
    (b.after x).world.journal.results = b.world.journal.results := by
  refine spans_results.after b x (fun _ _ _ => trivial) hx (fun _ _ => trivial) fun setup h => ?_
  subst h
  exact (mild_launch b setup).results

omit [Inhabited σ] [Engine σ] in
/-- A model that knows a thread hands a result to the listener that asked for it, once. -/
theorem results_handleEvent {w : World} {e : Event} {r : String × WatchResult}
    (he : e.result? = some r) (ha : (w.session s).attached = true)
    (ht : (w.session s).threads ≠ []) :
    (worldAfter (handleEvent s e) w).journal.results = w.journal.results ++ [r] := by
  cases e with
  | evaluated expression frame result listener =>
      obtain rfl := Option.some.inj he
      let u := w.trace "model"
        ("process " ++ (Event.evaluated expression frame result listener).text w.marks)
      have hthreads : (u.session s).threads.isEmpty = false := by
        rw [List.isEmpty_eq_false_iff]
        exact ht
      let deliver := withInHand frame (deliverResult listener (.of expression result (.frame frame)))
      have hrun : handleEvent s (.evaluated expression frame result listener) w = deliver u := by
        rw [handleEvent_eq ha]
        change (if (u.session s).threads.isEmpty then (pure () : Act Unit) else deliver) u = deliver u
        rw [hthreads]
        rfl
      have hgot : (worldAfter deliver u).journal.results
            = (u.journal.notes.push
              (.watch listener (.of expression result (.frame frame)) _)).toList.filterMap
                Note.result? := rfl
      rw [worldAfter, hrun]
      refine hgot.trans ?_
      rw [Array.toList_push, List.filterMap_append]
      rfl
  | _ => cases he

/-- A session that knows a thread and is handed a result hands it on. -/
theorem results_deliver {e : Event} {r : String × WatchResult}
    (hm : b.handed s (.deliver s) = some (.event e)) (he : e.result? = some r)
    (ha : (b.world.session s).attached = true) (ht : (b.world.session s).threads ≠ []) :
    (b.after (.deliver s)).world.journal.results = b.world.journal.results ++ [r] := by
  have htaken : (b.take s).1 = some (.event e) := (if_pos rfl).symm.trans hm
  let b₁ := (b.take s).2
  let u := b₁.trace "dispatcher" ("route " ++ (Message.event e).text b₁.world.marks)
  have htakes : Takes s b.world u.world := (takes_take b).of_sessions rfl rfl rfl rfl rfl rfl
  have hrun : b.after (.deliver s) = u.deliverEvent s e := by
    have hpair : b.take s = (some (.event e), b₁) := Prod.ext htaken rfl
    change b.handOver s = _
    rw [handOver, hpair]
    rfl
  have ha' : (u.world.session s).attached = true := by rw [htakes.here]; exact ha
  have ht' : (u.world.session s).threads ≠ [] := by rw [htakes.here]; exact ht
  rw [hrun, (mild_deliverEvent u s e).results, results_handleEvent he ha' ht']
  rfl

/-- The results that listeners got from a session in a run, oldest first: those that they got when
the session was handed a message. -/
def resultsOf (s : Nat) : List (Deed σ) → Bridge σ → List (String × WatchResult)
  | [], _ => []
  | x :: ds, b =>
    let before := b.world.journal.results.length
    (if (b.handed s x).isSome then (b.after x).world.journal.results.drop before else [])
      ++ resultsOf s ds (b.after x)

/-- The results of a run in two parts are those of one part and then of the other. -/
theorem resultsOf_append (ds es : List (Deed σ)) (b : Bridge σ) :
    resultsOf s (ds ++ es) b = resultsOf s ds b ++ resultsOf s es (run ds b) := by
  induction ds generalizing b with
  | nil => rfl
  | cons x ds ih => rw [List.cons_append, resultsOf, resultsOf, ih, List.append_assoc, run_cons]

/-- Who is handed nothing gives no results. -/
theorem resultsOf_eq_nil (h : handled s ds b = []) : resultsOf s ds b = [] := by
  induction ds generalizing b with
  | nil => rfl
  | cons x ds ih =>
      obtain ⟨hnone, hrest⟩ := List.append_eq_nil_iff.mp h
      rw [resultsOf, ih hrest, Option.toList_eq_nil_iff.mp hnone]
      rfl

/-- Where a session is not handed a result, listeners get none from it. -/
theorem resultsOf_append_singleton (h : ∀ e, (run ds b).handed s x = some (.event e) → e.result? = none) :
    resultsOf s (ds ++ [x]) b = resultsOf s ds b := by
  rw [resultsOf_append, resultsOf, resultsOf, List.append_nil]
  cases hm : (run ds b).handed s x with
  | none => exact List.append_nil _
  | some m =>
      have hx : x = .deliver s := eq_deliver_of_handed hm
      have hsame : ((run ds b).after x).world.journal.results = (run ds b).world.journal.results := by
        refine results_after _ x fun t e ht => ?_
        have hst : x = .deliver t := eq_deliver_of_handed ht
        obtain rfl : s = t := Deed.deliver.inj (hx.symm.trans hst)
        exact h e ht
      rw [hsame, Option.isSome_some, if_pos rfl, List.drop_length, List.append_nil]

/-- A session that is handed a result hands it on to the listener that asked for it. -/
theorem resultsOf_append_deliver {e : Event} {r : String × WatchResult}
    (hm : (run ds b).handed s x = some (.event e)) (he : e.result? = some r)
    (ha : ((run ds b).world.session s).attached = true)
    (ht : ((run ds b).world.session s).threads ≠ []) :
    resultsOf s (ds ++ [x]) b = resultsOf s ds b ++ [r] := by
  obtain rfl : x = .deliver s := eq_deliver_of_handed hm
  rw [resultsOf_append, resultsOf, resultsOf, List.append_nil, hm, results_deliver hm he ha ht,
    Option.isSome_some, if_pos rfl, List.drop_left]

/-! ### Threads that a model knows -/

omit [Inhabited σ] [Engine σ] in
/-- A session whose model is the same has as many threads as before. -/
theorem length_threads_of_model {w w' : World} (h : (w'.session s).model = (w.session s).model) :
    (w.session s).threads.length ≤ (w'.session s).threads.length :=
  Nat.le_of_eq (by rw [← Session.threads_model (w.session s), ← h, Session.threads_model])

omit [Inhabited σ] [Engine σ] in
/-- To change something else of a session leaves all threads there. -/
theorem length_threads_modifySession (w : World) (t : Nat) (f : Session → Session)
    (hf : (f (w.session t)).threads = (w.session t).threads) :
    (w.session s).threads.length ≤ ((w.modifySession t f).session s).threads.length := by
  rw [session_modifySession]
  split
  · next h => exact Nat.le_of_eq (by rw [hf, h])
  · exact Nat.le_refl _

omit [Inhabited σ] [Engine σ] in
/-- The threads of a session that ends are terminated, and still there. -/
theorem length_threads_endSession (t : Nat) (w : World) :
    (w.session s).threads.length ≤ ((worldAfter (endSession t) w).session s).threads.length := by
  rw [(still_endSession t w).threads s]
  by_cases hst : s = t
  · subst hst
    rw [session_close_self]
    split
    · exact Nat.le_refl _
    · unfold Session.ended Session.threads
      cases (w.session s).process with
      | none => exact Nat.le_refl _
      | some p => exact Nat.le_of_eq (List.length_map ..).symm
  · exact Nat.le_of_eq (by rw [session_close_of_ne w hst])

/-- A model forgets no thread. -/
theorem spans_threads (s : Nat) : Spans (fun _ => True) (fun _ => True) (fun _ => True)
    fun w w' => (w.session s).threads.length ≤ (w'.session s).threads.length where
  refl _ := Nat.le_refl _
  trans := Nat.le_trans
  beside hs _ _ _ _ := Nat.le_of_eq (by rw [session, session, hs])
  onHeap _ _ _ := Nat.le_refl _
  asks h := length_threads_of_model (h.everywhere s).model
  depicts h := h.threads s
  posts := fun ⟨_, _, _, h⟩ => length_threads_of_model (model_of_posts h)
  register w t script := length_threads_modifySession w t _ rfl
  fill frame reported _ w := Nat.le_of_eq (congrArg List.length
    ((still_withInHand frame (keeps_setVariables frame reported) w).threads s)).symm
  result _ frame _ listener _ w := Nat.le_of_eq (congrArg List.length
    ((still_withInHand frame (keeps_deliverResult listener _) w).threads s)).symm
  enter _ _ _ _ _ := Nat.le_refl _
  leave _ _ _ := Nat.le_refl _
  prune _ _ := Nat.le_refl _
  listen _ _ _ := Nat.le_refl _
  tells h := length_threads_of_model (model_of_tells h)
  take w t := length_threads_modifySession w t _ rfl
  part w t := by
    obtain ⟨rs, h⟩ := exists_posts_post w t .disconnect
    exact length_threads_of_model (model_of_posts h)
  finish t w := length_threads_endSession t w
  drop w t := length_threads_modifySession w t _ rfl

/-- A session that knows a thread knows one later. -/
theorem threads_after_ne_nil (hj : Joined b.world s) (h : (b.world.session s).threads ≠ []) :
    ((b.after x).world.session s).threads ≠ [] := by
  have hle := (spans_threads s).after b x (fun _ _ _ => trivial) (fun _ _ _ => trivial)
    (fun _ _ => trivial) fun setup hx => ?_
  · rw [← List.length_pos_iff] at h ⊢
    exact Nat.lt_of_lt_of_le h hle
  · subst hx
    have hne : s ≠ b.world.sessions.size := Nat.ne_of_lt (lt_of_alive hj.alive)
    exact Nat.le_of_eq (congrArg (fun y => y.threads.length) (spares_launch b setup hne).here :).symm

/-! ### Runs of a session -/

/-- A run in which a session is handed requests to evaluate expressions in frames of threads that it
knows, and in no others. -/
def IsSensible (s : Nat) (ds : List (Deed σ)) (b : Bridge σ) : Prop :=
  ∀ ds' x, ds' ++ [x] <+: ds → ∀ expression frame thread listener,
    (run ds' b).handed s x = some (.request (.evaluate expression frame thread listener)) →
      ∃ t ∈ ((run ds' b).world.session s).threads, t.handle = frame.handle

/-- The results among what a debugger told are those of its answers. -/
theorem results_of_told (h : es.filter Event.isAnswer = vs.flatMap (Service.answer s)) :
    es.filterMap Event.result? = vs.filterMap (Service.result? s) := by
  have hanswers : (es.filter Event.isAnswer).filterMap Event.result? = es.filterMap Event.result? := by
    rw [List.filterMap_filter]
    refine List.filterMap_congr fun e _ => ?_
    cases e <;> rfl
  rw [← hanswers, h, Service.results_answers]

/-- Results come from threads that were asked for them. -/
theorem Accounted.exists_watch {w : World} {d : Debugger} (h : Accounted s as vs es w d)
    {r : String × WatchResult} (hr : r ∈ es.filterMap Event.result?) : ∃ e ∈ as, e.2.IsWatch := by
  rw [results_of_told h.told] at hr
  obtain ⟨v, hv, hresult⟩ := List.mem_filterMap.mp hr
  have hserved : v.request ∈ served v.thread.handle vs :=
    List.mem_map_of_mem (List.mem_filter.mpr ⟨hv, by simp⟩)
  obtain ⟨e, he, heq⟩ := List.mem_map.mp ((h.ledger.prefixed v.thread.handle).subset hserved)
  refine ⟨e, (List.mem_filter.mp he).1, ?_⟩
  rw [heq]
  unfold Service.result? at hresult
  split at hresult
  · next hreq => exact hreq ▸ trivial
  · cases hresult

/-- What a session is asked to evaluate in a run, and in which frames, it is asked in every part of
the run. -/
theorem IsSensible.before (h : IsSensible s (ds ++ [x]) b) : IsSensible s ds b :=
  fun ds' y hy => h ds' y (hy.trans (List.prefix_append ds [x]))

/-- A session knows the threads that were asked to evaluate an expression. -/
theorem threads_of_watch (hb : b.Fresh) (ds : List (Deed σ)) (hj : Joined (run ds b).world s)
    (hs : IsSensible s ds b) :
    ∀ e ∈ arrivedIn s ds b, e.2.IsWatch → ((run ds b).world.session s).threads ≠ [] := by
  refine joined_induction hb (J := fun ds => IsSensible s ds b →
    ∀ e ∈ arrivedIn s ds b, e.2.IsWatch → ((run ds b).world.session s).threads ≠ [])
    (fun ds setup d hsize _ _ e he _ => ?_) (fun ds x hbefore ih _ hs e he hwatch => ?_) ds hj hs
  · subst hsize
    rw [arrivedIn_launch] at he
    cases he
  · rw [run_append]
    refine threads_after_ne_nil hbefore ?_
    rw [arrivedIn_append_singleton] at he
    rcases List.mem_append.mp he with he | he
    · exact ih hs.before e he hwatch
    · have hm := handed_of_mem_arriving he
      obtain ⟨handle, r⟩ := e
      cases r with
      | evaluate expression frame thread listener =>
          obtain ⟨t, ht, -⟩ := hs ds x List.prefix_rfl expression frame thread listener hm
          exact List.ne_nil_of_mem ht
      | _ => exact absurd hwatch id

/-- What a debugger tells in a run, and the session is not handed yet, is on its way. -/
theorem result_mem_told {e : Event} {r : String × WatchResult}
    (hm : (run ds b).handed s x = some (.event e)) (hr : e.result? = some r) :
    r ∈ (told s ds b).filterMap Event.result? := by
  obtain ⟨rest, hqueue⟩ := queue_of_take (take_of_handed hm)
  have hwaits : e ∈ eventsOf ((run ds b).world.mail s) := by
    rw [World.mail, hqueue]
    exact List.mem_cons_self
  refine List.mem_filterMap.mpr ⟨e, ?_, hr⟩
  rw [told, eventsOf_append]
  exact List.mem_append_right _ hwaits

/-- Listeners get by a deed the result that the session is handed by it, if it is handed one. -/
theorem resultsOf_append_handed (ha : ((run ds b).world.session s).attached = true)
    (hknown : ∀ e r, (run ds b).handed s x = some (.event e) → e.result? = some r →
      ((run ds b).world.session s).threads ≠ []) :
    resultsOf s (ds ++ [x]) b = resultsOf s ds b
      ++ (eventsOf ((run ds b).handed s x).toList).filterMap Event.result? := by
  by_cases hresult : ∃ e r, (run ds b).handed s x = some (.event e) ∧ e.result? = some r
  · obtain ⟨e, r, hm, hr⟩ := hresult
    rw [resultsOf_append_deliver hm hr ha (hknown e r hm hr), hm]
    have hone : [e].filterMap Event.result? = [r] := List.filterMap_cons_some hr
    exact congrArg _ hone.symm
  · have hnone : ∀ e, (run ds b).handed s x = some (.event e) → e.result? = none := by
      intro e hm
      rw [Option.eq_none_iff_forall_not_mem]
      exact fun r hr => hresult ⟨e, r, hm, hr⟩
    have hsilent : (eventsOf ((run ds b).handed s x).toList).filterMap Event.result? = [] := by
      refine List.filterMap_eq_nil_iff.mpr fun e he => hnone e ?_
      exact Option.mem_toList.mp (mem_eventsOf.mp he)
    rw [resultsOf_append_singleton hnone, hsilent, List.append_nil]

/-- The listeners of a session get the results that the session is handed, each of them once and in
their order. -/
theorem resultsOf_eq_handled (hb : b.Fresh) (ds : List (Deed σ)) (hj : Joined (run ds b).world s)
    (hs : IsSensible s ds b) :
    resultsOf s ds b = (eventsOf (handled s ds b)).filterMap Event.result? := by
  refine joined_induction hb (J := fun ds => IsSensible s ds b →
    resultsOf s ds b = (eventsOf (handled s ds b)).filterMap Event.result?)
    (fun ds setup d hsize _ _ => ?_) (fun ds x hbefore ih _ hs => ?_) ds hj hs
  · subst hsize
    have hnone := handled_launch ds setup b
    rw [resultsOf_eq_nil hnone, hnone]
    rfl
  · have hknown : ∀ e r, (run ds b).handed s x = some (.event e) → e.result? = some r →
        ((run ds b).world.session s).threads ≠ [] := by
      -- Whoever tells a result was asked for it, and whoever is asked for one is known.
      intro e r hm hr
      obtain ⟨b₀, showDynamicCode, hstart, hattends⟩ := attends_run hb ds hbefore
      obtain ⟨d, hd⟩ := accounted_attends hstart hattends
      obtain ⟨e', he', hwatch⟩ := hd.exists_watch (result_mem_told hm hr)
      exact threads_of_watch hb ds hbefore hs.before e' he' hwatch
    rw [resultsOf_append_handed hbefore.attached hknown, ih hs.before, handled_append_singleton,
      eventsOf_append, List.filterMap_append]

/-- The listeners of a session got what its threads evaluated, each result once and in the order of
the evaluations, but for what the model has still to hear of. -/
theorem resultsOf_run (hb : b.Fresh) (hj : Joined (run ds b).world s) (hs : IsSensible s ds b) :
    resultsOf s ds b ++ (eventsOf ((run ds b).world.mail s)).filterMap Event.result?
      = (servedIn s ds b).filterMap (Service.result? s) := by
  obtain ⟨b₀, showDynamicCode, hstart, hattends⟩ := attends_run hb ds hj
  obtain ⟨d, hd⟩ := accounted_attends hstart hattends
  rw [← results_of_told hd.told, resultsOf_eq_handled hb ds hj hs, told, eventsOf_append,
    List.filterMap_append]

/-- Threads serve what they are asked for once and in order. A thread that waits puts nothing off: all
that arrived before it was held up, or since, it has served. What a thread served is the beginning of
what arrived at it, and what it puts off is the rest. It serves while it is held up, and only then.
What is told in answer is what was answered, in the order in which it was served: the stack, once for
each request for that, and the value of each expression once, in the frame and for the listener that
the request names. -/
structure ServesInOrder (s : Nat) (as : List (Handle × Request)) (vs : List (Service σ))
    (es : List Event) (w : World) (d : Debugger) : Prop where
  here : (w.session s).debugger = some d
  idle : ∀ x ∈ d.executions, x.waiting.isSome = true → x.pending = []
  balance : ∀ x ∈ d.executions, arrived x.handle as = served x.handle vs ++ x.pending
  prefixed : ∀ thread, served thread vs <+: arrived thread as
  held : ∀ v ∈ vs, v.IsHeld s
  told : es.filter Event.isAnswer = vs.flatMap (Service.answer s)
  stack : ∀ v ∈ vs, ∀ thread, v.request = .getStackFrames thread →
    v.answer s = [.stackFrames v.thread.handle v.thread.stack]
  value : ∀ v ∈ vs, ∀ expression frame thread listener,
    v.request = .evaluate expression frame thread listener → v.answer s
      = [.evaluated expression frame (v.state.evaluate s frame expression).1 listener]

/-- A debugger whose accounts are in order serves in order. -/
theorem Accounted.servesInOrder {w : World} {d : Debugger} (h : Accounted s as vs es w d) :
    ServesInOrder s as vs es w d where
  here := h.here
  idle := h.idle
  balance := h.ledger.balance
  prefixed := h.ledger.prefixed
  held := h.held
  told := h.told
  stack v _ thread hr := by
    rw [Service.answer, hr]
    rfl
  value v _ expression frame thread listener hr := by
    rw [Service.answer, hr]
    rfl

/-- Threads serve what they are asked for once and in order, in every history of a debugger, and so
they do in every run of a session: with what arrived at its threads in the run, what they served and
what was told of it.

In every run of a session each listener got one result for each expression that a thread evaluated
for it, in the order of these, but for what the model has still to hear of. Whoever is handed no
result tells no listener. -/
theorem serves_in_order (s : Nat) :
    (∀ ⦃as vs es⦄ ⦃b b' : Bridge σ⦄ ⦃showDynamicCode attached : Bool⦄,
      (b.world.session s).debugger = some (.start showDynamicCode attached) →
      Attends s as vs es b b' → ∃ d, ServesInOrder s as vs es b'.world d)
    ∧ (∀ ⦃ds⦄ ⦃b : Bridge σ⦄, b.Fresh → Joined (run ds b).world s →
        (∃ d, ServesInOrder s (arrivedIn s ds b) (servedIn s ds b) (told s ds b)
          (run ds b).world d)
        ∧ (IsSensible s ds b →
          resultsOf s ds b ++ (eventsOf ((run ds b).world.mail s)).filterMap Event.result?
            = (servedIn s ds b).filterMap (Service.result? s)))
    ∧ ∀ (b : Bridge σ) (x : Deed σ),
        (∀ t e, b.handed t x = some (.event e) → e.result? = none) →
          (b.after x).world.journal.results = b.world.journal.results := by
  refine ⟨fun as vs es b b' showDynamicCode attached hstart h => ?_,
    fun ds b hb hj => ⟨?_, resultsOf_run hb hj⟩, results_after⟩
  · obtain ⟨d, hd⟩ := accounted_attends hstart h
    exact ⟨d, hd.servesInOrder⟩
  · obtain ⟨b₀, showDynamicCode, hstart, hattends⟩ := attends_run hb ds hj
    obtain ⟨d, hd⟩ := accounted_attends hstart hattends
    exact ⟨d, hd.servesInOrder⟩

/-- A thread is asked for two values, for the first while it runs and for the second when it has
stopped. -/
def watchTwice : List (Deed VariableTable) :=
  let i : Interpreter := .idle 0 "main" 0
  let a : Activation := ⟨1, .snippet 0 "main", .file, none⟩
  let f : FrameRef := ⟨0, 0, ⟨0, "main"⟩, a⟩
  [.launch ⟨⟨false, false, false⟩, 0, true, true, true⟩, .call i (.push a), .call i .threadStarted,
    .deliver 0, .watch "1" (.frame f) "early", .deliver 0, .order 0 0 .suspend, .deliver 0,
    .call i (.line (.snippet 0 "main") 3), .watch "2" (.frame f) "late",
    .deliver 0, .deliver 0, .deliver 0, .deliver 0]

/-- Both are evaluated, the first one first, and each listener gets its result. Opening the session
gives no result to anybody. -/
theorem serves_in_order_watchTwice :
    resultsOf 0 watchTwice ∅ = (servedIn 0 watchTwice ∅).filterMap (Service.result? 0)
      ∧ (resultsOf 0 watchTwice ∅).map Prod.fst = ["early", "late"]
      ∧ (∃ (b₀ : Bridge VariableTable) (d : Debugger),
        Attends 0 (arrivedIn 0 watchTwice ∅) (servedIn 0 watchTwice ∅) (told 0 watchTwice ∅) b₀
            (run watchTwice ∅)
          ∧ ServesInOrder 0 (arrivedIn 0 watchTwice ∅) (servedIn 0 watchTwice ∅)
            (told 0 watchTwice ∅) (run watchTwice ∅).world d)
      ∧ ∀ setup, ((∅ : Bridge VariableTable).after (.launch setup)).world.journal.results
        = (∅ : Bridge VariableTable).world.journal.results := by
  have hsensible : (watchTwice.inits.all fun ds =>
      (ds.getLast?.bind ((run ds.dropLast ∅).handed 0)).all fun m =>
        m.watched?.all fun frame =>
          ((run ds.dropLast ∅).world.session 0).threads.any fun t => t.handle = frame.handle)
        = true := by
    decide +kernel
  have hlisteners : (resultsOf 0 watchTwice ∅).map Prod.fst = ["early", "late"] := by decide +kernel
  have hmail : ((run watchTwice ∅).world.mail 0).isEmpty = true := by decide +kernel
  have hfresh : (∅ : Bridge VariableTable).Fresh := ⟨World.start.reaction, rfl⟩
  have hjoined : Joined (run watchTwice ∅).world 0 :=
    ⟨by decide +kernel, by decide +kernel, by decide +kernel⟩
  obtain ⟨hhistory, hruns, hsilent⟩ := @serves_in_order VariableTable _ _ 0
  obtain ⟨-, hresults⟩ := hruns hfresh hjoined
  have hall := hresults fun ds x hds expression frame thread listener hm => by
    have hchecked := List.all_eq_true.mp hsensible (ds ++ [x]) ((List.mem_inits _ _).mpr hds)
    rw [List.getLast?_concat, List.dropLast_concat, Option.bind_some] at hchecked
    rw [hm] at hchecked
    simpa [Message.watched?] using hchecked
  rw [List.isEmpty_iff.mp hmail, eventsOf, List.filterMap_nil, List.filterMap_nil,
    List.append_nil] at hall
  obtain ⟨b₀, showDynamicCode, hstart, hattends⟩ := attends_run hfresh watchTwice hjoined
  obtain ⟨d, hserves⟩ := hhistory hstart hattends
  refine ⟨hall, hlisteners, ⟨b₀, d, hattends, hserves⟩, fun setup => ?_⟩
  exact hsilent ∅ (.launch setup) fun t e hm =>
    absurd (hm : none = some (Message.event e)) (Option.some_ne_none _).symm

end Bridge

end DebugBridge
