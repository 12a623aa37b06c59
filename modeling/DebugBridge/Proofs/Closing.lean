import DebugBridge.Proofs.Draining
import DebugBridge.Proofs.Farewell

/-!
# How a session closes

A user ends a session by asking the interpreter to terminate, or by leaving it to go on alone, or
both, in any order. From then on the session is doomed: something is on its way that will close the
side that is still open. Messages are handed over in the order in which they came, and nothing else
takes one away. So when none is left, both sides are closed.

## Main definitions

* `World.Doomed`: a session that will be over on both sides when no message is left;
* `Bridge.Released`: a session that is over, and in which no thread is held up.

## Main results

* `doomed_stirs`: a session stays doomed, whatever happens, unless it is given up;
* `released_pump`: a session that was asked to end is over on both sides once it was pumped, and
  stays so.
-/

namespace DebugBridge

namespace World

variable {s : Nat} {w w' u : World}

/-- A session whose model is closed. -/
structure IsClosed (w : World) (s : Nat) : Prop where
  attached : (w.session s).attached = false
  terminated : (w.session s).terminated = true

/-- A session whose model goes on. -/
structure IsRunning (w : World) (s : Nat) : Prop where
  attached : (w.session s).attached = true
  terminated : (w.session s).terminated = false

/-- A session that will be over on both sides when no message is left. What will close a side that
is still open is on its way. -/
inductive Doomed (w : World) (s : Nat) : Prop where
  /-- The debugger is asked to end the interpreter. -/
  | asked (hd : IsAttended w s) (hr : IsRunning w s) (hm : .request .terminate ∈ w.mail s)
  /-- The model is told that the interpreter has ended. -/
  | ended (hd : IsDeserted w s) (hr : IsRunning w s) (hm : .event .engineTerminated ∈ w.mail s)
  /-- The debugger is told that the session is over. -/
  | left (hd : IsAttended w s) (hc : IsClosed w s) (hm : .request .disconnect ∈ w.mail s)
  /-- Both sides are closed. -/
  | closed (hd : IsDeserted w s) (hc : IsClosed w s)

/-- Whether a session is closed depends on two of its flags alone. -/
theorem IsClosed.congr (h : IsClosed w s) (ha : (w'.session s).attached = (w.session s).attached)
    (ht : (w'.session s).terminated = (w.session s).terminated) : IsClosed w' s :=
  ⟨ha.trans h.attached, ht.trans h.terminated⟩

/-- Whether a session is running depends on two of its flags alone. -/
theorem IsRunning.congr (h : IsRunning w s)
    (ha : (w'.session s).attached = (w.session s).attached)
    (ht : (w'.session s).terminated = (w.session s).terminated) : IsRunning w' s :=
  ⟨ha.trans h.attached, ht.trans h.terminated⟩

/-- A closed session stays closed when something is told. -/
theorem IsClosed.tells (h : IsClosed w s) (ht : Tells s w w') : IsClosed w' s :=
  h.congr (congrArg Session.attached ht.here.model :) (congrArg Session.terminated ht.here.model :)

/-- A running session stays running when something is told. -/
theorem IsRunning.tells (h : IsRunning w s) (ht : Tells s w w') : IsRunning w' s :=
  h.congr (congrArg Session.attached ht.here.model :) (congrArg Session.terminated ht.here.model :)

/-- What waits goes on to wait when more comes. -/
theorem Doomed.congr (h : Doomed w s) {ms : List Message} (hm : w'.mail s = w.mail s ++ ms)
    (ha : (w'.session s).attached = (w.session s).attached)
    (ht : (w'.session s).terminated = (w.session s).terminated)
    (hd : (w'.session s).debugger = (w.session s).debugger) (hn : w.nextNumber ≤ w'.nextNumber) :
    Doomed w' s := by
  have hmem : ∀ {m}, m ∈ w.mail s → m ∈ w'.mail s := fun h => hm ▸ List.mem_append_left ms h
  cases h with
  | asked hl hr h => exact .asked (hl.congr hd hn) (hr.congr ha ht) (hmem h)
  | ended hs hr h => exact .ended (hs.congr hd) (hr.congr ha ht) (hmem h)
  | left hl hc h => exact .left (hl.congr hd hn) (hc.congr ha ht) (hmem h)
  | closed hs hc => exact .closed (hs.congr hd) (hc.congr ha ht)

/-- What is handed over closes no side, if it is not what will close one. -/
theorem Doomed.takes (h : Doomed w s) (hu : Takes s w u) {m : Message}
    (hmail : w.mail s = m :: u.mail s)
    (hterm : IsAttended w s → m ≠ .request .terminate ∧ m ≠ .request .disconnect)
    (hend : IsRunning w s → m ≠ .event .engineTerminated) : Doomed u s := by
  have hmem : ∀ {m'}, m ≠ m' → m' ∈ w.mail s → m' ∈ u.mail s := by
    intro m' hne h
    rw [hmail] at h
    exact (List.mem_cons.mp h).resolve_left (Ne.symm hne)
  have ha : (u.session s).attached = (w.session s).attached := by rw [hu.here]
  have ht : (u.session s).terminated = (w.session s).terminated := by rw [hu.here]
  have hd : (u.session s).debugger = (w.session s).debugger := by rw [hu.here]
  have hn := Nat.le_of_eq hu.numbers.symm
  cases h with
  | asked hl hr h => exact .asked (hl.congr hd hn) (hr.congr ha ht) (hmem (hterm hl).1 h)
  | ended hs hr h => exact .ended (hs.congr hd) (hr.congr ha ht) (hmem (hend hr) h)
  | left hl hc h => exact .left (hl.congr hd hn) (hc.congr ha ht) (hmem (hterm hl).2 h)
  | closed hs hc => exact .closed (hs.congr hd) (hc.congr ha ht)

/-- The debugger of a doomed session may leave, if the model has heard of it or will. -/
theorem Doomed.deserts (h : Doomed w s) (hd : IsAttended w s) (hd' : IsDeserted w' s)
    (ha : (w'.session s).attached = (w.session s).attached)
    (ht : (w'.session s).terminated = (w.session s).terminated)
    (hm : IsRunning w s → .event .engineTerminated ∈ w'.mail s) : Doomed w' s := by
  cases h with
  | asked _ hr _ => exact .ended hd' (hr.congr ha ht) (hm hr)
  | ended hgone _ _ => exact (hd.not_deserted hgone).elim
  | left _ hc _ => exact .closed hd' (hc.congr ha ht)
  | closed hgone _ => exact (hd.not_deserted hgone).elim

/-- The debugger of a doomed session may speak, as long as it stays. -/
theorem Doomed.tells (h : Doomed w s) (ht : Tells s w w') {ms : List Message}
    (hm : w'.mail s = w.mail s ++ ms) (hstay : IsAttended w s → IsAttended w' s) :
    Doomed w' s := by
  have hmem : ∀ {m}, m ∈ w.mail s → m ∈ w'.mail s := fun h => hm ▸ List.mem_append_left _ h
  cases h with
  | asked hd hr h => exact .asked (hstay hd) (hr.tells ht) (hmem h)
  | ended hd hr h => exact .ended (hd.tells ht) (hr.tells ht) (hmem h)
  | left hd hc h => exact .left (hstay hd) (hc.tells ht) (hmem h)
  | closed hd hc => exact .closed (hd.tells ht) (hc.tells ht)

/-- A doomed session is over when no message is left. -/
theorem Doomed.over_of_mail (h : Doomed w s) (hm : w.mail s = []) :
    IsDeserted w s ∧ IsClosed w s := by
  cases h with
  | asked _ _ h => exact absurd (hm ▸ h) List.not_mem_nil
  | ended _ _ h => exact absurd (hm ▸ h) List.not_mem_nil
  | left _ _ h => exact absurd (hm ▸ h) List.not_mem_nil
  | closed hd hc => exact ⟨hd, hc⟩

end World

namespace Bridge

open World

variable {σ : Type} [Inhabited σ] [Engine σ] {s : Nat} {b b' : Bridge σ} {x : Deed σ}
  {news : List Event}

/-- A doomed session whose debugger takes a request stays doomed. -/
theorem doomed_obeyed {r : Request} {u : Bridge σ} (hc : Candid b.world s news)
    (h : Doomed b.world s) (hm : b.handed s x = some (.request r))
    (hu : Takes s b.world u.world) : Doomed (u.receive s r).world s := by
  obtain ⟨hcu, hmail⟩ := hc.takes hu (take_of_handed hm)
  have hdebugger : (u.world.session s).debugger = (b.world.session s).debugger := by rw [hu.here]
  have hsent := hc.sent r (by rw [hmail]; exact List.mem_cons_self)
  have htells := tells_receive u r (s := s)
  have hmodel : (u.world.session s).model = (b.world.session s).model := by
    rw [hu.here]
    rfl
  have hattached : ((u.receive s r).world.session s).attached = (b.world.session s).attached :=
    (congrArg Session.attached (htells.here.model.trans hmodel) :)
  have hterminated :
      ((u.receive s r).world.session s).terminated = (b.world.session s).terminated :=
    (congrArg Session.terminated (htells.here.model.trans hmodel) :)
  obtain hl | hsil := hcu.spoke
  · have hhere : IsAttended b.world s :=
      hl.listens.congr hdebugger.symm (Nat.le_of_eq hu.numbers)
    obtain ⟨d, hd, hlistens⟩ := hl.listens
    obtain ⟨hne, d', es, hb, hl', -⟩ | ⟨-, hlv⟩ | ⟨rfl, hlv⟩ :=
      tends_receive hd hlistens (hsent.imp id And.left)
    · have hdoomed := h.takes hu hmail
        (fun _ => ⟨fun he => hne.1 (Message.request.inj he), fun he => hne.2 (Message.request.inj he)⟩)
        fun _ => nofun
      exact hdoomed.tells hb.tells (hcu.inOrder.mail_gains hb.mailbox)
        fun _ => ⟨d', hb.debugger, hl'⟩
    · refine h.deserts hhere hlv.left hattached hterminated fun _ => ?_
      rw [hcu.inOrder.mail_gains hlv.said]
      exact List.mem_append_right _ List.mem_cons_self
    -- Nobody who is still attached asks a debugger to leave.
    · refine h.deserts hhere hlv.left hattached hterminated fun hr => ?_
      obtain hsent | ⟨-, hgone⟩ := hsent
      · exact hsent.elim
      · rw [hr.attached] at hgone
        cases hgone
  · have hgone : ∀ {w}, (w.session s).debugger = (u.world.session s).debugger →
        ¬ IsAttended w s := fun hd h => h.not_deserted (hsil.left.congr hd)
    have hdoomed := h.takes hu hmail (fun hl => absurd hl (hgone hdebugger.symm)) fun _ => nofun
    obtain ⟨ms, hg, -⟩ := htells.here.mailbox
    exact hdoomed.tells htells (hcu.inOrder.mail_gains hg) fun hl => absurd hl (hgone rfl)

omit [Inhabited σ] [Engine σ] in
/-- Who leaves a debugger that listens dooms the session. -/
theorem doomed_left {u w' : World} (hc : Candid b.world s news) (hd : IsAttended b.world s)
    (ha : (b.world.session s).attached = true) (hu : Sends s b.world u)
    (hshuts : Shuts s (u.post s .disconnect) w') : Doomed w' s := by
  obtain ⟨hcu, -⟩ := hc.sends hu
  obtain ⟨-, hmail⟩ := hcu.parts hshuts
  obtain ⟨rs, hposts⟩ := exists_posts_post u s .disconnect
  have hdebugger : (w'.session s).debugger = (b.world.session s).debugger :=
    hshuts.debugger.trans (hposts.here.debugger.trans hu.here.debugger)
  have hnumbers : b.world.nextNumber ≤ w'.nextNumber :=
    Nat.le_trans hu.numbers (Nat.le_trans hposts.numbers hshuts.numbers)
  refine .left (hd.congr hdebugger hnumbers) ⟨hshuts.attached, hshuts.terminated⟩ ?_
  rw [hmail, if_pos (hu.here.attached.trans ha)]
  exact List.mem_append_right _ List.mem_cons_self

/-- A session stays doomed, whatever happens. -/
theorem doomed_stirs (hc : Candid b.world s news)
    (hheard : ∀ e, .event e ∈ b.world.mail s → e ∈ news) (h : Doomed b.world s)
    (hs : Stirs s b x b') : Doomed b'.world s := by
  cases hs with
  | sent _ hsends =>
      obtain ⟨-, rs, hmail⟩ := hc.sends hsends
      exact h.congr hmail hsends.here.attached hsends.here.terminated hsends.here.debugger
        hsends.numbers
  | heard e u hm hu he hsends =>
      obtain ⟨hcu, hmail⟩ := hc.takes hu (take_of_handed hm)
      obtain ⟨-, rs, hmail'⟩ := hcu.sends hsends
      have hdoomed := h.takes hu hmail (fun _ => by simp)
        fun hr heq => he hr.attached (Message.event.inj heq)
      exact hdoomed.congr hmail' hsends.here.attached hsends.here.terminated hsends.here.debugger
        hsends.numbers
  | ended u hm hu ha hshuts =>
      obtain ⟨-, hmail⟩ := hc.takes hu (take_of_handed hm)
      have hclosed : IsClosed b'.world s := ⟨hshuts.attached, hshuts.terminated⟩
      cases h with
      | asked hd _ _ =>
          -- A debugger that listens told of no end.
          have hlistening := hc.spoke.resolve_right fun hsil => hd.not_deserted hsil.left
          exact absurd (hheard _ (by rw [hmail]; exact List.mem_cons_self)) hlistening.unended
      | ended hd _ _ => exact .closed (hd.congr (hshuts.debugger.trans (by rw [hu.here]))) hclosed
      | left _ hc' _ => exact absurd ha (by rw [hc'.attached]; exact Bool.false_ne_true)
      | closed _ hc' => exact absurd ha (by rw [hc'.attached]; exact Bool.false_ne_true)
  | called i c hx hi hw hrun =>
      subst hi
      rw [hrun]
      have htells := tells_perform b i c
      have hgone : IsDeserted b.world i.session → Doomed (b.perform i c).2.world i.session := by
        intro hd
        obtain ⟨ms, hg, -⟩ := htells.here.mailbox
        exact h.tells htells (hc.inOrder.mail_gains hg) fun hl => (hl.not_deserted hd).elim
      obtain hl | hsil := hc.spoke
      · obtain ⟨d, hd, hlistens⟩ := hl.listens
        have hwait : d.isWaiting i.id = false := by
          rw [← hw, isWaiting, debugger_eq hd]
        obtain ⟨d', es, hb, hl', -⟩ | hlv := tends_perform hd hlistens hwait c
        · exact h.tells hb.tells (hc.inOrder.mail_gains hb.mailbox) fun _ => ⟨d', hb.debugger, hl'⟩
        · refine h.deserts hl.listens hlv.left (congrArg Session.attached htells.here.model :)
            (congrArg Session.terminated htells.here.model :) fun _ => ?_
          rw [hc.inOrder.mail_gains hlv.said]
          exact List.mem_append_right _ List.mem_cons_self
      · exact hgone hsil.left
  | obeyed r u hm hu hrun =>
      rw [hrun]
      exact doomed_obeyed hc h hm hu
  | left u hx ht hu hshuts =>
      obtain ⟨rs, hposts⟩ := exists_posts_post u s .disconnect
      have hdebugger : (b'.world.session s).debugger = (b.world.session s).debugger :=
        hshuts.debugger.trans (hposts.here.debugger.trans hu.here.debugger)
      cases h with
      | asked hd hr _ => exact doomed_left hc hd hr.attached hu hshuts
      | ended hd _ _ => exact .closed (hd.congr hdebugger) ⟨hshuts.attached, hshuts.terminated⟩
      | left _ hc' _ => exact absurd ht (by rw [hc'.terminated]; exact Bool.noConfusion)
      | closed _ hc' => exact absurd ht (by rw [hc'.terminated]; exact Bool.noConfusion)

/-- A session stays doomed in every run in which nobody gives it up. -/
theorem doomed_run {ds : List (Deed σ)} (hc : Candid (run ds b).world s (told s ds b))
    (h : Doomed (run ds b).world s) (es : List (Deed σ)) (hkeep : ∀ x ∈ es, x ≠ .dropSession s) :
    Candid (run (ds ++ es) b).world s (told s (ds ++ es) b)
      ∧ Doomed (run (ds ++ es) b).world s := by
  induction es using List.reverseRecOn with
  | nil =>
      rw [List.append_nil]
      exact ⟨hc, h⟩
  | append_singleton es x ih =>
      obtain ⟨hc', h'⟩ := ih fun x hx => hkeep x (List.mem_append_left _ hx)
      have hx : x ≠ .dropSession s := hkeep x (List.mem_append_right _ List.mem_cons_self)
      have hstirs := stirs_after (run (ds ++ es) b) hc'.inOrder x hx
      obtain ⟨ms, hmail, hcandid⟩ := candid_stirs hc' hstirs
      have hheard : ∀ e, .event e ∈ (run (ds ++ es) b).world.mail s → e ∈ told s (ds ++ es) b :=
        fun e he => mem_eventsOf.mpr (List.mem_append_right _ he)
      have hdoomed := doomed_stirs hc' hheard h' hstirs
      rw [← List.append_assoc, told_append_singleton hmail, run_append]
      exact ⟨hcandid, hdoomed⟩

/-! ### Sessions that a user ends -/

/-- A user asks an interpreter to terminate, or leaves it. -/
def Ends (s : Nat) (x : Deed σ) : Prop :=
  x = .orderTarget s .terminate ∨ x = .disconnect s

/-- A session whose interpreter is asked to terminate will be over. -/
theorem doomed_terminate {d : Debugger} (hlive : Live b.world s d)
    (hc : Candid b.world s news) : Doomed (b.after (.orderTarget s .terminate)).world s := by
  have hrun : (b.after (.orderTarget s .terminate)).world = b.world.post s .terminate :=
    world_act b (commandTarget s .terminate)
  have hposts := posts_post b.world s .terminate hlive.alive hlive.attached
  rw [hrun]
  have hmodel := hposts.here.model
  refine .asked ⟨d, hposts.here.debugger.trans hlive.here, hlive.listens, hlive.running,
    hlive.orderly.mono hposts.numbers⟩
    ⟨hposts.here.attached.trans hlive.attached,
      (congrArg Session.terminated hmodel :).trans hlive.terminated⟩ ?_
  rw [hc.inOrder.mail_gains hposts.here.mailbox]
  exact List.mem_append_right _ List.mem_cons_self

/-- A session that a user ends is doomed. -/
theorem doomed_ends (hb : b.Fresh) {ds : List (Deed σ)} (hj : Joined (run ds b).world s)
    (hx : Ends s x) : Candid (run (ds ++ [x]) b).world s (told s (ds ++ [x]) b)
      ∧ Doomed (run (ds ++ [x]) b).world s := by
  have hc := candid_run hb ds hj
  have hkeep : x ≠ .dropSession s := by
    rintro rfl
    obtain h | h := hx <;> cases h
  obtain ⟨d, hlive⟩ | hending := live_or_ending_run hb ds hj
  · obtain ⟨ms, hmail, hcandid⟩ := candid_stirs hc (stirs_after (run ds b) hc.inOrder x hkeep)
    rw [told_append_singleton hmail, run_append]
    refine ⟨hcandid, ?_⟩
    obtain rfl | rfl := hx
    · exact doomed_terminate hlive hc
    · obtain ⟨u, hu, hshuts⟩ := shuts_disconnect (run ds b) hlive.terminated
      exact doomed_left hc ⟨d, hlive.here, hlive.listens, hlive.running, hlive.orderly⟩
        hlive.attached hu hshuts
  · refine doomed_run hc (.ended hending.left ⟨hending.attached, hending.terminated⟩ hending.told)
      [x] fun y hy => ?_
    rw [List.mem_singleton.mp hy]
    exact hkeep

/-- A session that released its interpreter. Both sides are closed, the front end was told so once,
nothing is on its way, and no thread is held up. -/
structure Released (s : Nat) (b : Bridge σ) : Prop where
  closed : IsClosed b.world s
  debugger : ∃ d, (b.world.session s).debugger = some d ∧ d.attached = false ∧ d.terminated = true
  farewells : b.world.farewells s = if (b.world.session s).observed then 1 else 0
  queue : (b.world.session s).mailbox.queue = []
  free : ∀ i : Interpreter, i.session = s → b.isWaiting i = false

omit [Inhabited σ] [Engine σ] in
/-- A session that is over on both sides has released its interpreter. -/
theorem released_of_over (h : Over b.world s) : Released s b := by
  have hd := debugger_of_isSome h.present
  have hgone := h.left _ hd
  refine ⟨⟨h.attached, h.terminated⟩, ⟨_, hd, hgone.attached, hgone.terminated⟩, h.farewells,
    h.queue, fun i hi => ?_⟩
  rw [isWaiting, hi]
  exact hgone.isWaiting_eq_false i.id

/-- Once nothing is on its way, a session that is doomed is over. -/
theorem over_of_doomed (hb : b.Fresh) {ds : List (Deed σ)}
    (hc : Candid (run ds b).world s (told s ds b)) (h : Doomed (run ds b).world s)
    (hq : ((run ds b).world.session s).mailbox.queue = []) : Over (run ds b).world s := by
  have hmail : (run ds b).world.mail s = [] := by
    rw [mail, hq]
    rfl
  obtain ⟨hgone, hclosed⟩ := h.over_of_mail hmail
  have hbidden := bidden_run hb ds (s := s)
  refine ⟨hclosed.attached, hclosed.terminated, ?_, hc.inOrder.present, hgone, hq⟩
  cases ho : ((run ds b).world.session s).observed with
  | true => exact hbidden.ended hc.inOrder.alive hclosed.terminated ho
  | false => exact hbidden.unobserved ho

/-- A user who asks an interpreter to terminate, or leaves it, gets rid of the session. Once it was
pumped, both sides are closed, the front end was told so once, and no thread is held up, now or
later. The last event that the debugger told says that the interpreter has ended, if it ever told
that. -/
theorem released_pump (hb : b.Fresh) (ds : List (Deed σ)) (hj : Joined (run ds b).world s)
    (hx : Ends s x) (es : List (Deed σ)) (hes : ∀ y ∈ es, y ≠ .dropSession s)
    (hids : ((run (ds ++ x :: es) b).interpreters.map Interpreter.id).Nodup) :
    ∃ ps, ((run (ds ++ x :: es) b).pump s).2 = run (ds ++ x :: es ++ ps) b
      ∧ EndsLast (told s (ds ++ x :: es ++ ps) b)
      ∧ ∀ fs, Released s (run (ds ++ x :: es ++ ps ++ fs) b)
        ∧ told s (ds ++ x :: es ++ ps ++ fs) b = told s (ds ++ x :: es ++ ps) b := by
  have hsplit : ds ++ x :: es = ds ++ [x] ++ es := by simp
  obtain ⟨hc₁, hdoomed₁⟩ := doomed_ends hb hj hx
  obtain ⟨hc₂, hdoomed₂⟩ := doomed_run hc₁ hdoomed₁ es hes
  rw [← hsplit] at hc₂ hdoomed₂
  obtain ⟨ps, hturns, hps⟩ := leads_pump (run (ds ++ x :: es) b) s
  rw [← run_append] at hps
  have hkeep : ∀ y ∈ ps, y ≠ .dropSession s := by
    rintro y hy rfl
    exact hturns _ hy
  obtain ⟨hc, hdoomed⟩ := doomed_run hc₂ hdoomed₂ ps hkeep
  have hover : Over (run (ds ++ x :: es ++ ps) b).world s := by
    refine over_of_doomed hb hc hdoomed ?_
    rw [← hps]
    exact queue_pump _ hc₂.inOrder hids
  have hlast : EndsLast (told s (ds ++ x :: es ++ ps) b) := by
    obtain hl | hsil := hc.spoke
    · exact (hl.listens.not_deserted hover.left).elim
    · exact hsil.last
  refine ⟨ps, hps, hlast, fun fs => ⟨?_, told_of_over hover fs⟩⟩
  rw [run_append]
  exact released_of_over (over_run _ hover fs)

/-- A bridge with a thread. -/
def oneThread : Bridge VariableTable :=
  ((∅ : Bridge VariableTable).spawn 0 "main").2

/-- A thread waits before a script. -/
def startHeld : List (Deed VariableTable) :=
  [.launch ⟨.off, 0, true, true, true⟩,
    .call (.idle 0 "main" 0) (.scriptStarted ⟨0, "a", some ⟨"a"⟩, false⟩)]

/-- A user asks the interpreter to terminate and leaves at once. -/
theorem released_pump_startHeld :
    (run startHeld oneThread).isWaiting (.idle 0 "main" 0) = true
      ∧ ∃ ps, ((run (startHeld ++ [.orderTarget 0 .terminate, .disconnect 0]) oneThread).pump 0).2
          = run (startHeld ++ [.orderTarget 0 .terminate, .disconnect 0] ++ ps) oneThread
        ∧ Released 0
            (run (startHeld ++ [.orderTarget 0 .terminate, .disconnect 0] ++ ps) oneThread) := by
  have hfresh : oneThread.Fresh := ⟨_, rfl⟩
  have hj : Joined (run startHeld oneThread).world 0 :=
    ⟨by decide +kernel, by decide +kernel, by decide +kernel⟩
  obtain ⟨ps, hps, -, hreleased⟩ := released_pump hfresh startHeld hj
    (.inl rfl : Ends 0 (.orderTarget 0 .terminate)) [.disconnect 0]
    (fun y hy => by rw [List.mem_singleton.mp hy]; nofun) (by decide +kernel)
  have h := (hreleased []).1
  rw [List.append_nil] at h
  exact ⟨by decide +kernel, ps, hps, h⟩

end Bridge

end DebugBridge
