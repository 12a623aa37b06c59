import DebugBridge.Proofs.Loading

/-!
# Threads that are not answered

A front end may fail while its session hears that a script is ready. The answer is broken off then,
and nothing else answers the thread that waits before the script: it is stuck until somebody asks it
to go on. With nothing on its way that is the only reason for which a thread still waits there.

## Main definitions

* `Bridge.isHeldUp`: a thread waits before a script;
* `Bridge.Unanswered`: the answer to a thread is broken off, and nobody resumes the thread;
* `Bridge.Stranded`: a thread was held up in the course of a run, and was not answered since.

## Main result

* `isHeldUp_iff_stranded`: with nothing on its way, a thread waits before a script exactly if it is
  stranded.
-/

namespace DebugBridge

/-- The execution of a thread that is forgotten is not found any more. -/
theorem Debugger.ofOwner?_erase_self (d : Debugger) (o : Nat) :
    (d.erase o).ofOwner? o = none := by
  simp [ofOwner?, erase]

namespace World

variable {s o : Nat} {d d' : Debugger}

/-! ### How a thread comes to wait before a script -/

/-- What is done for a thread that enters no script does not hold it up before one. -/
theorem Live.works_not_held {w w' : World} (h : Live w s d) (hw : Works s o [] w d w' d')
    (hd : ∀ y, d.ofOwner? o = some y → y.waiting ≠ some .load) :
    ∀ y, d'.ofOwner? o = some y → y.waiting ≠ some .load := by
  refine h.works_induction (P := fun _ d => ∀ y, d.ofOwner? o = some y → y.waiting ≠ some .load)
    hw hd fun {u v e e'} hlive hnot hr y hy => ?_
  cases hr with
  | opened name hnew _ _ =>
      rw [Debugger.ofOwner?_insert, hnew] at hy
      obtain rfl : Execution.start o ⟨u.nextNumber, name⟩ = y := by simpa [Execution.start] using hy
      intro hload
      cases hload
  | said x x' es hx ho hs _ =>
      have hfound : e.ofOwner? o = some x := ho ▸ hlive.orderly.keyed x hx
      rw [ofOwner?_put_self hfound hs.owner] at hy
      obtain rfl := Option.some.inj hy
      cases hs with
      | moved _ _ hw' => simp [hw']
      | putOff pending => exact hnot x hfound
      | held script root _ hmem => cases hmem
      | stopped => simp
      | released _ kind _ hw' => simp [hw']
  | told _ _ _ _ _ _ => exact hnot y hy
  | quiet _ _ _ => exact hnot y hy
  | gone x hx ho _ =>
      rw [Debugger.ofOwner?_erase_self] at hy
      cases hy

end World

namespace Bridge

open World

variable {σ : Type} [Inhabited σ] [Engine σ] {s : Nat} {d d' : Debugger} {b b' : Bridge σ}
  {x : Deed σ}

/-- A thread that makes another call than to run a script is not held up before one. -/
theorem not_held_perform {i : Interpreter} {c : Call} (hlive : Live b.world i.session d)
    (hw : d.isWaiting i.id = false) (hc : ∀ script, c ≠ .scriptStarted script)
    (hlive' : Live (b.perform i c).2.world i.session d') :
    ∀ y, d'.ofOwner? i.id = some y → y.waiting ≠ some .load := by
  have hfree : ∀ y, d.ofOwner? i.id = some y → y.waiting ≠ some .load := by
    intro y hy
    rw [Debugger.isWaiting_eq_false hw hy]
    nofun
  by_cases hend : c = .engineFinished
  · subst hend
    have hleft := ((leaves_finishEngine hlive.here hlive.listens).left d' hlive'.here).attached
    rw [hlive'.listens] at hleft
    cases hleft
  · by_cases hpush : ∃ a, c = .push a
    · obtain ⟨a, rfl⟩ := hpush
      obtain ⟨d₁, hopen, hx, hgo, -⟩ := @works_executionOf [] d b.world i hlive.here
      let z : Execution :=
        { (b.world.executionOf i).1 with stack := a :: (b.world.executionOf i).1.stack }
      have hput := becomes_putExecution hopen.debugger
        (hopen.alike.attached.trans hlive.listens) z
      obtain rfl := hlive'.eq_of_debugger hput.debugger
      intro y hy
      have hfound : (d₁.put z).ofOwner? i.id = some z := ofOwner?_put_self hx rfl
      rw [hfound] at hy
      obtain rfl := Option.some.inj hy
      have hnone : (b.world.executionOf i).1.waiting = none := hgo hw
      simp [z, hnone]
    · have hnone : c.scripts = [] := by
        cases c with
        | scriptStarted script => exact absurd rfl (hc script)
        | push a => exact absurd ⟨a, rfl⟩ hpush
        | _ => rfl
      obtain ⟨d₁, hworks⟩ := works_perform hlive.here hlive.listens hw hend
      obtain rfl := Live.unique hlive' (hlive.works hworks)
      rw [hnone] at hworks
      exact hlive.works_not_held hworks hfree

omit [Inhabited σ] [Engine σ] in
/-- A request that is obeyed holds nobody up at the start of a script. -/
theorem held_of_obeyed {u : World} {r : Request} (hlive : Live u s d) (hlive' : Live b'.world s d')
    (hend : r ≠ .terminate) {o : Nat} {y : Execution} (hy : d'.ofOwner? o = some y)
    (hw : y.waiting = some .load) (h : Obeyed s d r u b'.world) :
    ∃ z, d.ofOwner? o = some z ∧ z.waiting = some .load := by
  cases h with
  | resumed handle kind z hr hz hreports =>
      obtain rfl := Live.unique hlive' (hlive.reports hreports)
      by_cases ho : o = z.owner
      · subst ho
        have hfound := hlive.orderly.keyed z (Debugger.mem_of_ofHandle? hz)
        rw [ofOwner?_put_self hfound (Execution.owner_resume _ _ _)] at hy
        obtain rfl := Option.some.inj hy
        rw [Execution.waiting_resume] at hw
        cases hw
      · rw [hreports.ofOwner?_of_ne ho] at hy
        exact ⟨y, hy, hw⟩
  | served o' d₁ hr hz hworks hstation =>
      obtain rfl := Live.unique hlive' (hlive.works hworks)
      have hsame := hstation o
      rw [hy] at hsame
      obtain ⟨z, hz, hzy⟩ := Option.map_eq_some_iff.mp hsame.symm
      exact ⟨z, hz, (congrArg Prod.snd hzy).trans hw⟩
  | nudged thread hr f hf hbecomes =>
      obtain rfl := hlive'.eq_of_debugger hbecomes.debugger
      rw [Debugger.ofOwner?_map d (Execution.owner_of_asks hf)] at hy
      obtain ⟨z, hz, rfl⟩ := Option.map_eq_some_iff.mp hy
      exact ⟨z, hz, (Execution.same_of_asks hf z).2.2.1.symm.trans hw⟩
  | noted script point mode hr hbecomes =>
      obtain rfl := hlive'.eq_of_debugger hbecomes.debugger
      exact ⟨y, hy, hw⟩
  | left hr => exact absurd hr hend

/-- A thread that waits before a script waited there before a step, or was held up by it. -/
theorem Goes.held (h : Goes s b d x b' d') (hlive : Live b.world s d) (hlive' : Live b'.world s d')
    {o : Nat} {y : Execution} (hy : d'.ofOwner? o = some y) (hw : y.waiting = some .load) :
    (∃ z, d.ofOwner? o = some z ∧ z.waiting = some .load)
      ∨ ∃ i script, x = .call i (.scriptStarted script) ∧ i.id = o ∧ i.session = s
        ∧ b.isWaiting i = false := by
  cases h with
  | asked _ _ _ hd => exact .inl ⟨y, hd ▸ hy, hw⟩
  | changed _ _ _ hd => exact .inl ⟨y, hd ▸ hy, hw⟩
  | shown _ _ _ _ hd => exact .inl ⟨y, hd ▸ hy, hw⟩
  | answered _ _ _ _ _ _ _ _ _ hd => exact .inl ⟨y, hd ▸ hy, hw⟩
  | called i c hx hi hwait hrun hworks hb =>
      subst hi
      by_cases ho : o = i.id
      · subst ho
        by_cases hc : ∃ script, c = .scriptStarted script
        · obtain ⟨script, rfl⟩ := hc
          exact .inr ⟨i, script, hx, rfl, rfl, hwait⟩
        · rw [isWaiting_eq hlive rfl] at hwait
          rw [hrun] at hlive'
          exact absurd hw
            (not_held_perform hlive hwait (fun script he => hc ⟨script, he⟩) hlive' y hy)
      · rw [hworks.ofOwner?_of_ne ho] at hy
        exact .inl ⟨y, hy, hw⟩
  | obeyed r u hx hu hliveU hmail hr hend hobeyed hb =>
      exact .inl (held_of_obeyed hliveU hlive' hend hy hw hobeyed)

/-! ### Debuggers stay -/

omit [Inhabited σ] [Engine σ] in
/-- A debugger is there as long as nothing but the model changes. -/
theorem present_of_outer {w w' : World} (h : (w'.session s).outer = (w.session s).outer) :
    (w.session s).debugger.isSome = true → (w'.session s).debugger.isSome = true :=
  have hd : (w'.session s).debugger = (w.session s).debugger := (congrArg Session.debugger h :)
  hd ▸ id

/-- A session that has a debugger keeps one. -/
theorem covers_present (s : Nat) : Covers (fun _ => True) fun w w' =>
    (w.session s).debugger.isSome = true → (w'.session s).debugger.isSome = true where
  refl _ := id
  trans h h' hd := h' (h hd)
  shared hs _ _ _ := by
    refine present_of_outer ?_
    rw [session, session, hs]
  asks h := (h.everywhere s).debugger ▸ id
  tells {t _ _} h := by
    by_cases hst : s = t
    · subst hst
      exact h.here.present ▸ id
    · rw [h.elsewhere s hst]
      exact id
  shows {t _ _ _} h := by
    by_cases hst : s = t
    · subst hst
      exact present_of_outer (outer_of_shell h.here)
    · exact present_of_outer (outer_of_unframed (h.elsewhere s hst))
  posts {t _ _ _} h := by
    by_cases hst : s = t
    · subst hst
      exact h.here.debugger ▸ id
    · rw [h.elsewhere s hst]
      exact id
  take w t := by
    rw [session_modifySession]
    split
    · next hst => subst hst; exact id
    · exact id
  register w t script := present_of_outer (outer_register w t script)
  close w t := by
    by_cases hst : s = t
    · subst hst
      rw [session_close_self]
      split <;> exact id
    · rw [session_close_of_ne w hst]
      exact id
  drop w t := by
    rw [dropSession, session_modifySession]
    split
    · next hst => subst hst; exact id
    · exact id
  enter _ _ _ _ _ := id
  leave _ _ _ := id
  prune _ _ := id
  listen _ _ _ := id

/-- A session that has a debugger has one after any run. -/
theorem present_run (b : Bridge σ) (ds : List (Deed σ))
    (h : (b.world.session s).debugger.isSome = true) :
    ((run ds b).world.session s).debugger.isSome = true := by
  refine run_induction (P := fun b => (b.world.session s).debugger.isSome = true) h
    (fun b x hd => ?_) ds
  refine (covers_present s).after b x (fun _ _ _ => trivial) (fun setup hx => ?_) hd
  subst hx
  have hne : s ≠ b.world.sessions.size := by
    rintro rfl
    simp [session, Arena.get, Arena.size, default, Session.absent] at hd
  exact present_of_outer (outer_of_unframed (spares_launch b setup hne).here)

/-! ### Threads that are held up -/

/-- A thread waits before a script. -/
def isHeldUp (b : Bridge σ) (i : Interpreter) : Prop :=
  ∃ y, (b.world.debugger i.session).ofOwner? i.id = some y ∧ y.waiting = some .load

/-- A session hears in some step that a script is ready, but a front end fails and the answer to the
thread is broken off. No request to resume the thread is handed over either. -/
structure Unanswered (s : Nat) (script : Script) (thread : Handle) (ds : List (Deed σ))
    (b : Bridge σ) : Prop where
  broken : ∃ es es' root failure w, ds = es ++ .deliver s :: es'
    ∧ (run es b).handed s (.deliver s) = some (.event (.scriptReady script thread root))
    ∧ handleEvent s (.scriptReady script thread root)
      ((run es b).offered s (.event (.scriptReady script thread root))).world = .error failure w
  waiting : ∀ m ∈ handled s ds b, m.resumed? ≠ some thread.id

/-- A thread was held up before a script in some step of a run, and it was not answered since. -/
def Stranded (i : Interpreter) (ds : List (Deed σ)) (b : Bridge σ) : Prop :=
  ∃ cs es j script y, ds = cs ++ [.call j (.scriptStarted script)] ++ es
    ∧ j.id = i.id ∧ j.session = i.session ∧ (run cs b).isWaiting i = false
    ∧ ((run (cs ++ [.call j (.scriptStarted script)]) b).world.debugger i.session).ofOwner? i.id
      = some y
    ∧ y.waiting = some .load
    ∧ Unanswered i.session script y.handle es (run (cs ++ [.call j (.scriptStarted script)]) b)

/-- When a session hears that a script is ready, a front end breaks that off, or the thread before
the script is answered. -/
theorem Goes.broken_or_answered {script : Script} {thread : Handle} {root : Bool}
    (hx : b.handed s x = some (.event (.scriptReady script thread root)))
    (h : Goes s b d x b' d') :
    b.readied? s x = none ∨ ∃ m ∈ b'.world.mail s, m.resumed? = some thread.id := by
  have hhead : ∀ {m ms}, b.world.mail s = m :: ms →
      m = .event (.scriptReady script thread root) := by
    intro m ms hmail
    obtain rfl := eq_deliver_of_handed hx
    rw [handed_deliver, hmail] at hx
    exact Option.some.inj hx
  cases h with
  | asked rs hnone => rw [hnone] at hx; cases hx
  | changed p c hp => rw [handed_of_point? hp] at hx; cases hx
  | called i c hcall => subst hcall; cases hx
  | shown e u j _ _ _ _ _ hready => exact .inl hready
  | answered script' thread' root' u v handle kind j _ _ _ _ hmail _ _ _ hid _ hmail' _ =>
      obtain ⟨rfl, rfl, rfl⟩ : script' = script ∧ thread' = thread ∧ root' = root := by
        simpa using hhead hmail
      refine .inr ⟨.request (.resume (some handle) kind), ?_, congrArg some hid⟩
      rw [hmail']
      simp [answers]
  | obeyed r u _ _ _ hmail => cases hhead hmail

omit [Inhabited σ] [Engine σ] in
/-- News of a script fails to make that ready only if a front end fails at it. -/
theorem exists_error_of_readied? {script : Script} {thread : Handle} {root : Bool}
    (hx : b.handed s x = some (.event (.scriptReady script thread root)))
    (h : b.readied? s x = none) : ∃ failure w, handleEvent s (.scriptReady script thread root)
      (b.offered s (.event (.scriptReady script thread root))).world = .error failure w := by
  cases hrun : handleEvent s (.scriptReady script thread root)
    (b.offered s (.event (.scriptReady script thread root))).world with
  | ok _ w => rw [readied?_of_ok hx hrun] at h; cases h
  | error failure w => exact ⟨failure, w, rfl⟩

section Waiting

variable {i : Interpreter} {ds cs es : List (Deed σ)}

/-- A thread that waits before a script is held up there since it made a call to run one. -/
theorem exists_call_of_held (hb : b.Fresh) (hlive : Live (run ds b).world s d) {o : Nat}
    {y : Execution} (hy : d.ofOwner? o = some y) (hw : y.waiting = some .load) :
    ∃ cs es i script, ds = cs ++ [.call i (.scriptStarted script)] ++ es ∧ i.id = o
      ∧ i.session = s ∧ (run cs b).isWaiting i = false
      ∧ ∀ fs, fs <+: es →
        (run (cs ++ [.call i (.scriptStarted script)] ++ fs) b).isWaiting i = true := by
  let J : List (Deed σ) → Debugger → Prop := fun ds d => ∀ y, d.ofOwner? o = some y →
    y.waiting = some .load → ∃ cs es i script,
      ds = cs ++ [.call i (.scriptStarted script)] ++ es ∧ i.id = o ∧ i.session = s
      ∧ (run cs b).isWaiting i = false ∧ ∀ fs, fs <+: es →
        (run (cs ++ [.call i (.scriptStarted script)] ++ fs) b).isWaiting i = true
  have hJ : J ds d := by
    refine live_induction hb (J := J) (fun ds x d hopened y hy hw => ?_)
      (fun ds x d d' hlive hJ hgoes hlive' y hy hw => ?_) ds hlive
    · rw [Debugger.ofOwner?, hopened.executions] at hy
      cases hy
    · have hwaits : ∀ i : Interpreter, i.id = o → i.session = s →
          (run (ds ++ [x]) b).isWaiting i = true := by
        rintro i rfl hi
        rw [isWaiting_eq hlive' hi, Debugger.isWaiting_eq hy, hw]
        rfl
      obtain ⟨z, hz, hwz⟩ | ⟨i, script, rfl, hi, his, hfree⟩ := hgoes.held hlive hlive' hy hw
      · obtain ⟨cs, es, i, script, rfl, hi, his, hfree, hpast⟩ := hJ z hz hwz
        refine ⟨cs, es ++ [x], i, script, by simp, hi, his, hfree, fun fs hfs => ?_⟩
        obtain rfl | hfs := List.prefix_concat_iff.mp hfs
        · rw [← List.append_assoc]
          exact hwaits i hi his
        · exact hpast fs hfs
      · refine ⟨ds, [], i, script, by simp, hi, his, hfree, fun fs hfs => ?_⟩
        obtain rfl := List.prefix_nil.mp hfs
        rw [List.append_nil]
        exact hwaits i hi his
  exact hJ y hy hw

/-- What waits to be delivered is handed over before nothing is on its way any more. -/
theorem mem_handled_of_mem_mail {y : Execution} (hb : b.Fresh) (hi : i.session = s)
    (hlive : Live (run ds b).world s d)
    (hy : (d.ofOwner? i.id).map Execution.station = some y.station)
    (hw : ∀ fs, fs <+: es → (run (ds ++ fs) b).isWaiting i = true)
    (hlive' : Live (run (ds ++ es) b).world s d') (hnone : (run (ds ++ es) b).world.mail s = [])
    {m : Message} (hm : m ∈ (run ds b).world.mail s) : m ∈ handled s es (run ds b) := by
  obtain ⟨-, -, ms, hms⟩ := handled_run hb hi hlive hy hw hlive'
  rw [hnone, List.append_nil] at hms
  exact hms ▸ List.mem_append_left ms hm

/-- With nothing on its way, a thread that waits before a script was not answered. -/
theorem stranded_of_held (hb : b.Fresh) (hlive : Live (run ds b).world i.session d)
    (hq : ((run ds b).world.session i.session).mailbox.queue = []) (h : (run ds b).isHeldUp i) :
    Stranded i ds b := by
  obtain ⟨y, hy, hw⟩ := h
  rw [debugger_eq hlive.here] at hy
  obtain ⟨cs, es, j, script, rfl, hj, hjs, hfree, hpast⟩ := exists_call_of_held hb hlive hy hw
  let call : List (Deed σ) := cs ++ [.call j (.scriptStarted script)]
  have hnone : (run (call ++ es) b).world.mail i.session = [] := by
    rw [mail, hq]
    rfl
  obtain ⟨d₀, z, root, behind, hlive₀, hz, hmail⟩ :=
    exists_live_call hb rfl hfree hpast (hjs ▸ hlive)
  rw [hjs] at hlive₀ hmail
  rw [hj] at hz
  have hstation : (d₀.ofOwner? j.id).map Execution.station = some z.station := by
    rw [hj, hz]
    rfl
  obtain ⟨hstay, hnot, ms, hms⟩ := handled_run hb hjs hlive₀ hstation hpast hlive
  have hstill : z.waiting = some .load := by
    rw [hj, hy] at hstay
    exact (congrArg Prod.snd (Option.some.inj hstay)).symm.trans hw
  -- All that was on its way is handed over, and with it the news that the script is ready.
  rw [hnone, List.append_nil, hmail, List.append_assoc] at hms
  obtain ⟨fs, fs', rfl, -, hhanded⟩ := exists_deliver_of_handled hms.symm
  have hlong : fs ++ [.deliver i.session] <+: fs ++ .deliver i.session :: fs' :=
    (List.prefix_append_right_inj fs).mpr (List.prefix_append [_] fs')
  obtain ⟨d₂, hlive₂⟩ := exists_live_of_isPrefix hb hjs hpast hlive hlong
  have hbroken : (run fs (run call b)).readied? i.session (.deliver i.session) = none := by
    obtain ⟨d₁, hlive₁, hgoes⟩ := exists_goes hb hjs (hpast fs (List.prefix_append _ _))
      (List.append_assoc call fs _ ▸ hlive₂)
    rw [run_append] at hlive₁
    obtain hbroken | ⟨m, hm, hres⟩ := (run_append call fs b ▸ hgoes).broken_or_answered hhanded
    · exact hbroken
    -- A request to resume the thread would have been handed over by now.
    · have hsplit : fs ++ .deliver i.session :: fs' = fs ++ [.deliver i.session] ++ fs' := by simp
      obtain ⟨hstay₂, -⟩ := handled_run hb hjs hlive₀ hstation
        (fun gs hgs => hpast gs (hgs.trans hlong)) hlive₂
      rw [hsplit] at hpast hlive hnot hnone
      rw [← List.append_assoc] at hlive hnone
      rw [List.append_assoc] at hm
      have hmem := mem_handled_of_mem_mail hb hjs hlive₂ hstay₂
        (fun gs hgs => List.append_assoc call _ gs ▸
          hpast _ ((List.prefix_append_right_inj _).mpr hgs)) hlive hnone hm
      rw [run_append] at hmem
      refine absurd hres (hnot m ?_)
      rw [handled_append]
      exact List.mem_append_right _ hmem
  refine ⟨cs, fs ++ .deliver i.session :: fs', j, script, z, rfl, hj, hjs, ?_, ?_, hstill, ?_, hnot⟩
  · rw [isWaiting, ← hj, ← hjs]
    exact hfree
  · rw [debugger_eq hlive₀.here]
    exact hz
  · obtain ⟨failure, w, hrun⟩ := exists_error_of_readied? hhanded hbroken
    exact ⟨fs, fs', root, failure, w, rfl, hhanded, hrun⟩

/-- A thread that waits stays where it is as long as nobody asks it to go on. -/
theorem station_run (hb : b.Fresh) {o : Nat} {y : Execution}
    (hy : ((run cs b).world.debugger s).ofOwner? o = some y) (hw : y.waiting.isSome = true)
    (hnot : ∀ m ∈ handled s es (run cs b), m.resumed? ≠ some y.handle.id)
    (hlive : Live (run (cs ++ es) b).world s d) :
    (d.ofOwner? o).map Execution.station = some y.station := by
  induction es using List.reverseRecOn generalizing d with
  | nil =>
      rw [List.append_nil] at hlive
      rw [debugger_eq hlive.here] at hy
      rw [hy]
      rfl
  | append_singleton es x ih =>
      rw [handled_append_singleton] at hnot
      rw [← List.append_assoc] at hlive
      obtain ⟨d₀, hlive₀, hgoes⟩ | ⟨⟨setup, rfl, hsize⟩, -⟩ := live_before hb (cs ++ es) x hlive
      · have hstay := ih (fun m hm => hnot m (List.mem_append_left _ hm)) hlive₀
        obtain ⟨z, hz, hzy⟩ := Option.map_eq_some_iff.mp hstay
        have hhandle : z.handle = y.handle := congrArg Prod.fst hzy
        have hwz : z.waiting.isSome = true := (congrArg (·.2.isSome) hzy).trans hw
        obtain ⟨hstay, -⟩ | ⟨⟨m, hm, hres⟩, -⟩ := hgoes.stays_or_goes hlive₀ hlive hz hwz
        · exact hzy ▸ hstay
        · rw [run_append] at hm
          refine absurd (hhandle ▸ hres) (hnot m (List.mem_append_right _ ?_))
          exact Option.mem_toList.mpr hm
      -- A session with a debugger is not opened again.
      · have hpresent : ((run cs b).world.session s).debugger.isSome = true := by
          cases hd : ((run cs b).world.session s).debugger with
          | some d => rfl
          | none =>
              rw [World.debugger, hd] at hy
              cases hy
        have hlater := present_run (run cs b) es hpresent
        rw [← run_append, hsize] at hlater
        simp [session, Arena.get, Arena.size, default, Session.absent] at hlater

/-- A thread that is stranded is held up. -/
theorem isHeldUp_of_stranded (hb : b.Fresh) (hlive : Live (run ds b).world i.session d)
    (h : Stranded i ds b) : (run ds b).isHeldUp i := by
  obtain ⟨cs, es, j, script, y, rfl, -, -, -, hy, hw, hanswer⟩ := h
  have hstay := station_run hb hy (by rw [hw]; rfl) hanswer.waiting hlive
  obtain ⟨z, hz, hzy⟩ := Option.map_eq_some_iff.mp hstay
  refine ⟨z, ?_, (congrArg Prod.snd hzy).trans hw⟩
  rw [debugger_eq hlive.here]
  exact hz

end Waiting

/-- With nothing on its way, a thread of a session still waits before a script exactly if it is
stranded: a front end failed while the session heard of the script, and nobody asked the thread to go
on. This is about every run of a session that is attached, whatever front ends do. -/
theorem isHeldUp_iff_stranded (hb : b.Fresh) (ds : List (Deed σ)) (i : Interpreter)
    (hl : ((run ds b).world.session i.session).alive = true)
    (ha : ((run ds b).world.session i.session).attached = true)
    (hd : ((run ds b).world.session i.session).debugger = some d)
    (hq : ((run ds b).world.session i.session).mailbox.queue = []) :
    (run ds b).isHeldUp i ↔ Stranded i ds b := by
  have hlive := live_of_queue_eq_nil hb ds hl ha hd hq
  exact ⟨stranded_of_held hb hlive hq, isHeldUp_of_stranded hb hlive⟩

/-- A front end that fails when it is told of a process. -/
def failOnProcess : Bridge VariableTable :=
  { (∅ : Bridge VariableTable) with
    world := { World.start with
      reaction := fun _ note =>
        match note with
        | .model _ (.created .process) _ => some "no process"
        | _ => none } }

/-- A session hears of its first script. -/
def startUnheard : List (Deed VariableTable) :=
  [.launch ⟨.off, 0, true, true, true⟩,
    .call (.idle 0 "main" 0) (.scriptStarted ⟨0, "a", some ⟨"a"⟩, false⟩), .deliver 0]

/-- The thread before the script is stranded. -/
theorem isHeldUp_iff_startUnheard :
    (run startUnheard failOnProcess).isHeldUp (.idle 0 "main" 0)
      ∧ Stranded (.idle 0 "main" 0) startUnheard failOnProcess := by
  have hwaits : ((((run startUnheard failOnProcess).world.debugger 0).ofOwner? 0).map (·.waiting))
      = some (some .load) := by
    decide +kernel
  obtain ⟨y, hy, hw⟩ := Option.map_eq_some_iff.mp hwaits
  have hheld : (run startUnheard failOnProcess).isHeldUp (.idle 0 "main" 0) := ⟨y, hy, hw⟩
  have hfresh : failOnProcess.Fresh := ⟨_, rfl⟩
  exact ⟨hheld, (isHeldUp_iff_stranded hfresh startUnheard (.idle 0 "main" 0) (by decide +kernel)
    (by decide +kernel) (debugger_of_isSome (by decide +kernel)) (by decide +kernel)).mp hheld⟩

end Bridge

end DebugBridge
