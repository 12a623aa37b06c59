import DebugBridge.Proofs.Attendance
import DebugBridge.Proofs.Pace
import DebugBridge.Proofs.Promises

/-!
# Sessions at the pace of a thread

The debugger of a session listens to one thread. What is on its way in the session is then what
users asked for, and behind that what the debugger told. Calls tell more. What is handed over first
is what users asked for. It makes of the pace of the thread what this foretells, or the debugger
leaves.

## Main definitions

* `Request.IsFor`: a request for the thread that a debugger knows, or for none;
* `World.Tracks`: a session at the pace of a thread, with what is on its way there;
* `Bridge.Heeds`: what becomes of a session whose debugger takes a request;
* `Bridge.Reached`: a bridge to which a run leads that touches no breakpoint.

## Main results

* `tracks_perform`: a call that a thread makes, and whether the thread stops in it;
* `tracks_handOver`: a request that is handed over;
* `Reached.advances`, `Reached.isDeserted`: what a deed is for a session on such a bridge.
-/

namespace DebugBridge

open World

/-! ### Requests for one thread -/

/-- Whether a request is for a thread that a debugger knows, or for no thread. -/
def Request.IsFor (r : Request) (i : Interpreter) (d : Debugger) : Prop :=
  match r with
  | .resume (some handle) _ | .suspend (some handle) =>
    ∃ x, d.ofOwner? i.id = some x ∧ x.handle.id = handle.id
  | .terminate | .disconnect | .removeAllBreakpoints => True
  | _ => False

/-- A request is for the thread of an interpreter as long as its debugger names it alike. -/
theorem Request.IsFor.mono {r : Request} {i : Interpreter} {d d' : Debugger} (h : r.IsFor i d)
    (hk : Debugger.KeepsHandle i d d') : r.IsFor i d' := by
  have hmono : ∀ handle : Handle, (∃ x, d.ofOwner? i.id = some x ∧ x.handle.id = handle.id) →
      ∃ x, d'.ofOwner? i.id = some x ∧ x.handle.id = handle.id := by
    rintro handle ⟨x, hx, hid⟩
    obtain ⟨y, hy, hh⟩ := hk x hx
    exact ⟨y, hy, hh ▸ hid⟩
  cases r with
  | resume thread kind =>
      cases thread with
      | none => exact h
      | some handle => exact hmono handle h
  | suspend thread =>
      cases thread with
      | none => exact h
      | some handle => exact hmono handle h
  | _ => exact h

namespace World

/-- What users asked for, and behind it what their model has still to hear. -/
def Bears (w : World) (i : Interpreter) (d : Debugger) (orders : List Request) : Prop :=
  ∃ (rs : List Request) (es : List Event),
    w.mail i.session = rs.map .request ++ es.map .event ∧ rs.map Request.nameless = orders
      ∧ (∀ r ∈ rs, r.IsFor i d) ∧ ∀ e ∈ es, e.IsNews

/-- A session whose debugger listens to one thread, where a pace says what matters of it. -/
structure Paces (w : World) (i : Interpreter) (p : Pace) (d : Debugger) : Prop where
  here : (w.session i.session).debugger = some d
  paced : d.Paced i p w.nextNumber w.marks

/-- Nothing is on its way in such a session but what users asked for and news. -/
structure Tracks (w : World) (i : Interpreter) (p : Pace) (d : Debugger) : Prop
    extends Paces w i p d where
  fair : p.Fair
  bears : w.Bears i d p.orders

variable {i : Interpreter} {p p' : Pace} {d d' : Debugger} {w w' : World} {orders : List Request}

/-- News that is told comes behind what users asked for. -/
theorem Bears.told (h : w.Bears i d orders) (hk : Debugger.KeepsHandle i d d')
    {es : List Event} (hmail : w'.mail i.session = w.mail i.session ++ es.map .event)
    (hes : ∀ e ∈ es, e.IsNews) : w'.Bears i d' orders := by
  obtain ⟨rs, news, hm, horders, hrs, hnews⟩ := h
  refine ⟨rs, news ++ es, ?_, horders, fun r hr => (hrs r hr).mono hk, fun e he => ?_⟩
  · rw [hmail, hm, List.map_append, List.append_assoc]
  · exact (List.mem_append.mp he).elim (hnews e) (hes e)

/-- What users asked for is on its way. -/
theorem Bears.orders_eq_nil (h : w.Bears i d orders)
    (hclear : ∀ r, .request r ∉ w.mail i.session) : orders = [] := by
  obtain ⟨rs, news, hmail, horders, -⟩ := h
  cases rs with
  | nil => exact horders.symm
  | cons r rs =>
      refine absurd ?_ (hclear r)
      rw [hmail]
      exact List.mem_append_left _ List.mem_cons_self

/-- Users asked for nothing if nothing is on its way. -/
theorem Bears.orders_of_mail_nil (h : w.Bears i d orders) (hmail : w.mail i.session = []) :
    orders = [] :=
  h.orders_eq_nil fun r hr => by
    rw [hmail] at hr
    cases hr

/-- A session that takes leave leaves what is on its way there. -/
theorem Tracks.shuts (h : w.Tracks i p d) (hs : Bridge.Shuts i.session w w')
    (hm : w'.marks = w.marks) :
    w'.Tracks i p d := by
  obtain ⟨rs, news, hmail, hcarried⟩ := h.bears
  refine ⟨⟨hs.debugger.trans h.here, ?_⟩, h.fair, rs, news, ?_, hcarried⟩
  · rw [hm]
    exact h.paced.mono hs.numbers
  · rw [← hmail, mail, mail, hs.mailbox]

end World

namespace Bridge

variable {σ : Type} [Inhabited σ] [Engine σ] {i : Interpreter} {p : Pace} {d : Debugger}
  {b : Bridge σ} {c : Call}

/-- What a call of a thread that does not wait makes of a debugger that listens, and goes on to. -/
theorem listens_perform (h : b.world.Paces i p d) (hw : p.self.waiting = none)
    (hend : c ≠ .engineFinished) :
    ∃ d' es, d.Performs b.world.marks b.world.nextNumber i c d' es
      ∧ Becomes i.session d' es b.world (b.perform i c).2.world
      ∧ d'.Listens (b.perform i c).2.world.nextNumber := by
  have hwait : d.isWaiting i.id = false := by
    rw [h.paced.isWaiting, hw]
    rfl
  have hlistens := h.paced.listens
  obtain ⟨d', es, hperforms, hbecomes⟩ :=
    performs_perform h.here hlistens.attached hlistens.orderly hend
  obtain ⟨d₁, hworks⟩ := works_perform h.here hlistens.attached hwait hend
  obtain rfl := Option.some.inj (hworks.debugger.symm.trans hbecomes.debugger)
  exact ⟨d₁, es, hperforms, hbecomes, hworks.alike.attached.trans hlistens.attached,
    hworks.alike.terminated.trans hlistens.running, hworks.orderly hlistens.orderly⟩

/-- A thread that does not wait goes on in a call as its pace tells. -/
theorem tracks_perform (h : b.world.Tracks i p d) (hin : b.world.InOrder i.session)
    (hw : p.self.waiting = none) (hc : c.GoesOn) :
    ∃ d' es, (b.perform i c).2.world.Tracks i (p.call c) d' ∧ Debugger.KeepsHandle i d d'
      ∧ d.Performs b.world.marks b.world.nextNumber i c d' es
      ∧ Becomes i.session d' es b.world (b.perform i c).2.world
      ∧ es.findSome? Event.reason? = p.stopIn c := by
  have hend : c ≠ .engineFinished := by
    rintro rfl
    exact hc
  obtain ⟨d₁, es, hperforms, hbecomes, hl⟩ := listens_perform h.toPaces hw hend
  obtain ⟨hproceeds, hreason⟩ := h.paced.performs hc hperforms hl (marks_perform h.here c)
  exact ⟨d₁, es, ⟨⟨hbecomes.debugger, hproceeds.paced⟩, h.fair.call hw c,
    h.bears.told hproceeds.keeps (hin.mail_gains hbecomes.mailbox) hproceeds.news⟩,
    hproceeds.keeps, hperforms, hbecomes, hreason⟩

/-! ### Requests that a debugger is handed -/

omit [Inhabited σ] [Engine σ] in
/-- Nothing is handed over where nothing is on its way. -/
theorem handed_of_mail_nil {s : Nat} (h : b.world.mail s = []) :
    b.handed s (.deliver s) = none := by
  rw [handed_deliver, h]
  rfl

/-- What is told of a request that a debugger took: nothing, and its thread is in the same step as
before, or that the thread goes on. -/
inductive Echoes (p p' : Pace) (d : Debugger) (o : Nat) : List Event → Prop where
  | silent (hw : p'.self.waiting = p.self.waiting)
      (hk : p'.self.resumeKind = p.self.resumeKind) : Echoes p p' d o []
  | resumed (x : Execution) (kind : ResumeKind) (hx : d.ofOwner? o = some x)
      (hk : p'.self.resumeKind.isStep = kind.isStep) : Echoes p p' d o [.resumed x.handle kind]

/-- What becomes of a session whose debugger takes a request and goes on to listen. -/
structure Heeds (i : Interpreter) (p p' : Pace) (d d' : Debugger) (es : List Event) (u w' : World) :
    Prop where
  becomes : Becomes i.session d' es u w'
  paced : d'.Paced i p' w'.nextNumber w'.marks
  keeps : Debugger.KeepsHandle i d d'
  known : Debugger.KeepsHandle i d' d
  echoes : Echoes p p' d i.id es

/-- A debugger that listens obeys a request that does not bid it leave, and listens on. -/
theorem listens_receive {u : Bridge σ} {s : Nat} {r : Request}
    (hd : (u.world.session s).debugger = some d) (hl : d.Listens u.world.nextNumber)
    (hsent : r.IsSent) (hend : r ≠ .terminate) (hleave : r ≠ .disconnect) :
    ∃ d' es, d.Obeys u.world.marks r d' es
      ∧ Becomes s d' es u.world (u.receive s r).world
      ∧ d'.Listens (u.receive s r).world.nextNumber := by
  obtain ⟨d', es, hobeys, hbecomes⟩ | ⟨hgone, -⟩ :=
    obeys_receive hd hl.attached hl.running hl.orderly r
  · obtain ⟨-, d₁, es₁, hbecomes₁, hl₁, -⟩ | ⟨h, -⟩ | ⟨h, -⟩ := tends_receive hd hl (.inl hsent)
    · obtain rfl := Option.some.inj (hbecomes₁.debugger.symm.trans hbecomes.debugger)
      exact ⟨d₁, es, hobeys, hbecomes, hl₁⟩
    · exact absurd h hend
    · exact absurd h hleave
  · exact absurd hgone (not_or.mpr ⟨hend, hleave⟩)

/-- A thread that waits goes on when it is asked to, and says so. -/
theorem heeds_resume {u : Bridge σ} {x : Execution} {handle : Handle} {kind : ResumeKind}
    (p' : Pace) (hd : (u.world.session i.session).debugger = some d)
    (hpaced : d.Paced i p u.world.nextNumber u.world.marks) (hx : d.ofOwner? i.id = some x)
    (hid : x.handle.id = handle.id) (hwait : x.waiting.isSome = true)
    (hgist : (x.resume p.marks kind).gist = p'.self) (hshows : p'.dynamic = p.dynamic)
    (hm : p'.marks = p.marks) :
    ∃ d' es, Heeds i p p' d d' es u.world
      (u.receive i.session (.resume (some handle) kind)).world := by
  have hmarks := marks_receive u i.session (.resume (some handle) kind)
  obtain ⟨d', es, hobeys, hbecomes, hl'⟩ := listens_receive hd hpaced.listens
    (r := .resume (some handle) kind) trivial nofun nofun
  have hgist' : (x.resume u.world.marks kind).gist = p'.self := by
    rw [hpaced.marks]
    exact hgist
  obtain ⟨hpaced', hx', hes⟩ :=
    hpaced.resumes hx hid hobeys hl' hgist' hshows (hpaced.marks.trans hm.symm)
  rw [if_pos hwait] at hes
  subst hes
  refine ⟨d', _, hbecomes, hmarks.symm ▸ hpaced', fun y hy => ?_, fun y hy => ?_,
    .resumed x _ hx ?_⟩
  · obtain rfl := Option.some.inj (hy.symm.trans hx)
    exact ⟨_, hx', Execution.handle_resume _ _ _⟩
  · obtain rfl := Option.some.inj (hy.symm.trans hx')
    exact ⟨x, hx, (Execution.handle_resume _ _ _).symm⟩
  · rw [← hgist']
    exact Execution.isStep_gist _

/-- A debugger heeds a request that is for its thread, or it leaves. -/
theorem heeds_receive {u : Bridge σ} {r : Request}
    (hd : (u.world.session i.session).debugger = some d)
    (hpaced : d.Paced i p u.world.nextNumber u.world.marks) (hr : r.IsFor i d)
    (hstands : r.resumes = true → p.self.waiting = some .line) :
    (∃ p' d' es, p.heed r.nameless = some p'
        ∧ Heeds i p p' d d' es u.world (u.receive i.session r).world)
      ∨ p.heed r.nameless = none ∧ IsDeserted (u.receive i.session r).world i.session := by
  have hl := hpaced.listens
  have hmarks := marks_receive u i.session r
  cases r with
  | resume thread kind =>
      cases thread with
      | none => exact hr.elim
      | some handle =>
          obtain ⟨x, hx, hid⟩ := hr
          let p' : Pace := { p with self := (p.self.resume p.marks kind).gist }
          have hgist : (x.resume p.marks kind).gist = p'.self := by
            rw [← x.gist_resume, hpaced.gist_eq hx]
          have hwait : x.waiting.isSome = true := by
            rw [← x.waiting_gist, hpaced.gist_eq hx, hstands rfl]
            rfl
          obtain ⟨d', es, hheeds⟩ := heeds_resume p' hd hpaced hx hid hwait hgist rfl rfl
          exact .inl ⟨p', d', es, rfl, hheeds⟩
  | suspend thread =>
      cases thread with
      | none => exact hr.elim
      | some handle =>
          obtain ⟨x, hx, hid⟩ := hr
          obtain ⟨d', es, hobeys, hbecomes, hl'⟩ := listens_receive hd hl
            (r := .suspend (some handle)) trivial nofun nofun
          obtain ⟨hpaced', ⟨y, hy, hh⟩, rfl⟩ := hpaced.nudges hx hid hobeys hl'
          refine .inl ⟨_, d', [], rfl, hbecomes, hmarks.symm ▸ hpaced', fun z hz => ?_,
            fun z hz => ?_, .silent rfl rfl⟩
          · obtain rfl := Option.some.inj (hz.symm.trans hx)
            exact ⟨y, hy, hh⟩
          · obtain rfl := Option.some.inj (hz.symm.trans hy)
            exact ⟨x, hx, hh.symm⟩
  | removeAllBreakpoints =>
      let v := u.trace "runtime" ("process " ++ Request.removeAllBreakpoints.text u.world.marks)
      have hrun : u.receive i.session .removeAllBreakpoints
          = v.obey i.session .removeAllBreakpoints := by
        rw [receive, debugger_eq hd, if_neg (by simp [hl.running])]
      have htrace : Becomes i.session d [] u.world v.world := becomes_trace hd _ _
      have hclear := htrace.trans
        (becomes_modifyDebugger htrace.debugger (fun d => { d with table := [] })
          (d.yields_table []))
      have hsame : { d with table := [] } = d := by rw [← hpaced.blank]
      rw [hsame, List.append_nil] at hclear
      refine .inl ⟨p, d, [], rfl, hrun ▸ hclear, hmarks.symm ▸ hpaced.mono ?_,
        fun y hy => ⟨y, hy, rfl⟩, fun y hy => ⟨y, hy, rfl⟩, .silent rfl rfl⟩
      rw [hrun]
      exact hclear.tells.numbers
  | terminate =>
      obtain ⟨⟨h, -⟩, -⟩ | ⟨-, h⟩ | ⟨h, -⟩ := tends_receive hd hl (r := .terminate) (.inl trivial)
      · exact absurd rfl h
      · exact .inr ⟨rfl, h.left⟩
      · cases h
  | disconnect =>
      obtain ⟨⟨-, h⟩, -⟩ | ⟨h, -⟩ | ⟨-, h⟩ := tends_receive hd hl (.inr rfl)
      · exact absurd rfl h
      · cases h
      · exact .inr ⟨rfl, h.left⟩
  | _ => exact hr.elim

/-- A debugger that was asked for something hears of what was asked for first. -/
theorem tracks_handOver (h : b.world.Tracks i p d) (hin : b.world.InOrder i.session)
    (ho : p.orders ≠ []) :
    (∃ p' d' es u, p.deliver = some p' ∧ Takes i.session b.world u
        ∧ (∃ r, b.world.mail i.session = .request r :: u.mail i.session)
        ∧ Heeds i p p' d d' es u (b.after (.deliver i.session)).world
        ∧ (b.after (.deliver i.session)).world.Tracks i p' d')
      ∨ p.deliver = none ∧ IsDeserted (b.after (.deliver i.session)).world i.session := by
  obtain ⟨rs, news, hmail, horders, hrs, hnews⟩ := h.bears
  cases rs with
  | nil => exact absurd horders.symm ho
  | cons r rest =>
      have hm := handed_of_mail rfl hmail
      have hrun := after_of_handed_request hm hin.present
      have hu := takes_presented (s := i.session) b r
      obtain ⟨hinU, hmailU⟩ := hin.takes hu (take_of_handed hm)
      have hrest : (b.presented i.session r).world.mail i.session
          = rest.map .request ++ news.map .event := (List.cons.inj (hmailU.symm.trans hmail)).2
      have hpresent : ((b.presented i.session r).world.session i.session).debugger = some d := by
        rw [hu.here]
        exact h.here
      have hstands : r.resumes = true → p.self.waiting = some .line := fun hres => by
        refine h.fair.standing r.nameless (horders ▸ List.mem_cons_self) ?_
        cases r with
        | resume thread kind => cases thread <;> rfl
        | _ => cases hres
      let p₀ : Pace := { p with orders := rest.map Request.nameless }
      have hdeliver : p.deliver = p₀.heed r.nameless := by
        rw [Pace.deliver, ← horders]
        rfl
      have hpaced : d.Paced i p₀ (b.presented i.session r).world.nextNumber
          (b.presented i.session r).world.marks := by
        rw [hu.numbers, hu.marks]
        exact h.paced.reorder _
      obtain ⟨p', d', es, hheed, hheeds⟩ | ⟨hheed, hgone⟩ :=
        heeds_receive hpresent hpaced (hrs r List.mem_cons_self) hstands
      · rw [← hrun] at hheeds
        refine .inl ⟨p', d', es, _, hdeliver.trans hheed, hu, ⟨r, hmailU⟩,
          ⟨hheeds.becomes, hheeds.paced, hheeds.keeps, hheeds.known, ?_⟩,
          ⟨hheeds.becomes.debugger, hheeds.paced⟩, h.fair.deliver (hdeliver.trans hheed), rest,
          news ++ es, ?_, ?_,
          fun r' hr' => (hrs r' (List.mem_cons_of_mem _ hr')).mono hheeds.keeps, fun e he => ?_⟩
        · cases hheeds.echoes with
          | silent hw hk => exact .silent hw hk
          | resumed x kind hx hk => exact .resumed x kind hx hk
        · rw [hinU.mail_gains hheeds.becomes.mailbox, hrest, List.map_append, List.append_assoc]
        · exact (Pace.orders_heed hheed).symm
        · refine (List.mem_append.mp he).elim (hnews e) fun he => ?_
          cases hheeds.echoes with
          | silent hw hk => cases he
          | resumed x kind hx hk =>
              obtain rfl := List.mem_singleton.mp he
              trivial
      · exact .inr ⟨hdeliver.trans hheed, hrun ▸ hgone⟩

/-! ### Bridges that a calm run leads to -/

/-- A bridge on which a session is held, and to which a run leads in which no front end fails and
nobody touches breakpoints. -/
structure Reached (s : Nat) (b : Bridge σ) : Prop where
  run : ∃ (b₀ : Bridge σ) (ds : List (Deed σ)), b₀.world = .start
    ∧ (∀ x ∈ ds, x.point? = none) ∧ Bridge.run ds b₀ = b
  candid : ∃ news, Candid b.world s news

namespace Reached

variable {s : Nat} {d' : Debugger} {x : Deed σ}

/-- A deed that neither fails nor ends the session leads on. -/
theorem after (h : Reached s b) (hpoint : x.point? = none) (hkeep : x ≠ .dropSession s) :
    Reached s (b.after x) := by
  obtain ⟨b₀, ds, hstart, hds, rfl⟩ := h.run
  obtain ⟨news, hcandid⟩ := h.candid
  obtain ⟨ms, -, hcandid'⟩ := candid_stirs hcandid (stirs_after _ hcandid.inOrder x hkeep)
  refine ⟨⟨b₀, ds ++ [x], hstart, fun y hy => ?_, run_append ds [x] b₀⟩, _, hcandid'⟩
  rcases List.mem_append.mp hy with hy | hy
  · exact hds y hy
  · exact List.mem_singleton.mp hy ▸ hpoint

/-- What waits for a session that was reached is in order. -/
theorem inOrder (h : Reached s b) : b.world.InOrder s := by
  obtain ⟨news, hcandid⟩ := h.candid
  exact hcandid.inOrder

/-- A session that was reached is alive if both sides are attached. -/
theorem live (h : Reached s b) (ha : (b.world.session s).attached = true)
    (hd : (b.world.session s).debugger = some d) (hl : d.attached = true) : Live b.world s d := by
  have halive := h.inOrder.alive
  obtain ⟨b₀, ds, hstart, -, rfl⟩ := h.run
  exact live_of_listens ⟨World.start.reaction, hstart⟩ ds halive ha hd hl

/-- A session that was reached is in step with its debugger. -/
theorem inStep (h : Reached s b) (hlive : Live b.world s d) : InStep b.world s d := by
  obtain ⟨b₀, ds, hstart, -, rfl⟩ := h.run
  exact inStep_run hstart ds hlive

/-- A session that was reached advances with each deed, as long as it is alive. -/
theorem advances (h : Reached s b) (hlive : Live b.world s d)
    (hlive' : Live (b.after x).world s d') : Advances s b d x (b.after x) d' := by
  obtain ⟨b₀, ds, hstart, -, rfl⟩ := h.run
  have hrun : (Bridge.run ds b₀).after x = Bridge.run (ds ++ [x]) b₀ := (run_append ds [x] b₀).symm
  rw [hrun] at hlive' ⊢
  obtain ⟨d₁, hlive₁, hadvances⟩ := exists_advances hstart hlive.debugger hlive'
  obtain rfl := Live.unique hlive₁ hlive
  exact hadvances

/-- There are no breakpoints. -/
theorem breakpoints (h : Reached s b) : b.world.breakpoints s = [] := by
  obtain ⟨b₀, ds, hstart, hds, rfl⟩ := h.run
  have hnone : ∀ x ∈ ds, ∀ p, Deed.point? x = some p → False := fun x hx p hp => by
    rw [hds x hx] at hp
    cases hp
  refine List.eq_nil_iff_forall_not_mem.mpr fun p hp => ?_
  exact (registered_run (K := fun _ => False) ⟨World.start.reaction, hstart⟩ ds hnone _).1 p hp

/-- A debugger that is gone stays gone. -/
theorem isDeserted (h : Reached s b) (hkeep : x ≠ .dropSession s) (hg : IsDeserted b.world s) :
    IsDeserted (b.after x).world s := by
  cases stirs_after b h.inOrder x hkeep with
  | sent hm hs => exact hg.congr hs.here.debugger
  | heard e u hm hu he hs =>
      refine IsDeserted.congr (w := b.world) hg (hs.here.debugger.trans ?_)
      rw [hu.here]
  | ended u hm hu ha hs =>
      refine IsDeserted.congr (w := b.world) hg (hs.debugger.trans ?_)
      rw [hu.here]
  | called i c hx hi hw hrun =>
      subst hi
      rw [hrun]
      exact hg.tells (tells_perform b i c)
  | obeyed r u hm hu hrun =>
      have hgone : IsDeserted u.world s := hg.congr (by rw [hu.here])
      rw [hrun]
      exact hgone.tells (tells_receive u r)
  | left u hx ht hu hs =>
      have hpost : ((u.post s .disconnect).session s).debugger = (u.session s).debugger := by
        obtain ⟨rs, hposts⟩ := exists_posts_post u s .disconnect
        exact hposts.here.debugger
      exact hg.congr (hs.debugger.trans (hpost.trans hu.here.debugger))

end Reached

end Bridge

end DebugBridge
