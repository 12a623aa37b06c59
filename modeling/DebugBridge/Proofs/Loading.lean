import DebugBridge.Proofs.Outline
import DebugBridge.Proofs.Promises

/-!
# Threads before a script

A thread that is about to run a script waits until it is asked to go on. The model is told, sends all
breakpoints of the script, and then asks the thread to go on. Messages are handed over in the order in
which they came, so all is well as long as the thread goes on because of this answer. But any request
to resume the thread lets it go on, whoever asked for it and when.

## Main definitions

* `Message.resumed?`: the thread that a request resumes;
* `Bridge.handled`: the messages that are handed over in a run;
* `Bridge.Prepared`: a thread goes on when its script is known and all its breakpoints are set;
* `Bridge.Unhurried`: no request to resume the thread is ahead of the answer.

## Main results

* `handled_run`: messages are handed over in order, and a thread waits until one of them resumes it;
* `prepared_iff_run`: a thread goes on in time exactly if no request is ahead of the answer.
-/

namespace DebugBridge

/-- The number of the thread that a message lets go on, if it is a request to resume one. -/
def Message.resumed? : Message → Option Nat
  | .request (.resume (some thread) _) => some thread.id
  | _ => none

/-- What has nothing of a kind ends before the first that is of that kind. -/
theorem isPrefix_of_append_cons {α : Type} {P : α → Prop} {as bs cs ds : List α} {b : α}
    (has : ∀ x ∈ as, ¬P x) (hb : P b) (h : as ++ cs = bs ++ b :: ds) : as <+: bs := by
  obtain ⟨es, rfl, -⟩ | ⟨es, rfl, hes⟩ := List.append_eq_append_iff.mp h
  · exact List.prefix_append as es
  · cases es with
    | nil => simp
    | cons e es =>
        obtain ⟨rfl, -⟩ := List.cons.inj hes
        exact absurd hb (has b (by simp))

namespace Bridge

open World

variable {σ : Type} [Inhabited σ] [Engine σ] {s : Nat} {d d' : Debugger} {b b' : Bridge σ}
  {x : Deed σ}

/-! ### What is handed over -/

/-- The messages of a session that are handed over in a run, oldest first. -/
def handled (s : Nat) : List (Deed σ) → Bridge σ → List Message
  | [], _ => []
  | x :: ds, b => (b.handed s x).toList ++ handled s ds (b.after x)

/-- What is handed over in two parts of a run is handed over in one part and then in the other. -/
theorem handled_append (ds es : List (Deed σ)) (b : Bridge σ) :
    handled s (ds ++ es) b = handled s ds b ++ handled s es (run ds b) := by
  induction ds generalizing b with
  | nil => rfl
  | cons x ds ih => rw [List.cons_append, handled, handled, ih, List.append_assoc, run_cons]

/-- A deed hands over one message more, or none. -/
theorem handled_append_singleton (ds : List (Deed σ)) (x : Deed σ) (b : Bridge σ) :
    handled s (ds ++ [x]) b = handled s ds b ++ ((run ds b).handed s x).toList := by
  rw [handled_append, handled, handled, List.append_nil]

/-- Each message that is handled is handed over by some deed. -/
theorem exists_deliver_of_handled {ds : List (Deed σ)} {ms ms' : List Message} {m : Message}
    (h : handled s ds b = ms ++ m :: ms') :
    ∃ es es', ds = es ++ .deliver s :: es' ∧ handled s es b = ms
      ∧ (run es b).handed s (.deliver s) = some m := by
  induction ds generalizing b ms with
  | nil => exact absurd h.symm (by simp [handled])
  | cons x ds ih =>
      rw [handled] at h
      cases hx : b.handed s x with
      | none =>
          rw [hx] at h
          obtain ⟨es, es', rfl, hes, hm⟩ := ih h
          refine ⟨x :: es, es', rfl, ?_, hm⟩
          rw [handled, hx]
          exact hes
      | some m₀ =>
          rw [hx] at h
          cases ms with
          | nil =>
              obtain ⟨rfl, -⟩ := List.cons.inj h
              obtain rfl := eq_deliver_of_handed hx
              exact ⟨[], ds, rfl, rfl, hx⟩
          | cons m₁ ms =>
              obtain ⟨rfl, hrest⟩ := List.cons.inj h
              obtain ⟨es, es', rfl, hes, hm⟩ := ih hrest
              refine ⟨x :: es, es', rfl, ?_, hm⟩
              rw [handled, hx, hes]
              rfl

/-- What is handed over behind some messages is handed over by one deed. -/
theorem eq_of_handled_eq {es es' fs fs' : List (Deed σ)} {ms : List Message}
    (h : es ++ .deliver s :: es' = fs ++ .deliver s :: fs') (hes : handled s es b = ms)
    (hfs : handled s fs b = ms) (hsome : (run es b).handed s (.deliver s) ≠ none)
    (hsome' : (run fs b).handed s (.deliver s) ≠ none) : es = fs := by
  have hnone : ∀ {ds gs : List (Deed σ)}, handled s ds b = ms →
      handled s (ds ++ .deliver s :: gs) b = ms → (run ds b).handed s (.deliver s) = none := by
    intro ds gs hds hgs
    rw [handled_append, hds, handled, List.append_right_eq_self, List.append_eq_nil_iff] at hgs
    exact Option.toList_eq_nil_iff.mp hgs.1
  obtain ⟨gs, rfl, hgs⟩ | ⟨gs, rfl, hgs⟩ := List.append_eq_append_iff.mp h
  · cases gs with
    | nil => simp
    | cons g gs =>
        obtain ⟨rfl, -⟩ := List.cons.inj hgs
        exact absurd (hnone hes hfs) hsome
  · cases gs with
    | nil => simp
    | cons g gs =>
        obtain ⟨rfl, -⟩ := List.cons.inj hgs
        exact absurd (hnone hfs hes) hsome'

omit [Inhabited σ] [Engine σ] in
/-- A request that a debugger obeyed made it tell some events, unless it ended the interpreter. -/
theorem becomes_of_obeyed {u : World} {r : Request} (hlive' : Live b'.world s d')
    (hend : r ≠ .terminate) (h : Obeyed s d r u b'.world) :
    ∃ es, Becomes s d' es u b'.world := by
  have hsame : ∀ {d₁ es}, Becomes s d₁ es u b'.world → ∃ es, Becomes s d' es u b'.world := by
    intro d₁ es hb
    obtain rfl := hlive'.eq_of_debugger hb.debugger
    exact ⟨es, hb⟩
  cases h with
  | resumed handle kind y hr hy hreports =>
      obtain ⟨es, hb⟩ := hreports.becomes
      exact hsame hb
  | served o d₁ hr hy hworks hstation =>
      obtain ⟨es, hb⟩ := hworks.becomes
      exact hsame hb
  | nudged thread hr f hf hb => exact hsame hb
  | noted script point mode hr hb => exact hsame hb
  | left hr => exact absurd hr hend

/-- In a step of a live session the oldest message is taken out at most, and others come behind. -/
theorem Goes.mail (h : Goes s b d x b' d') (hlive : Live b.world s d)
    (hlive' : Live b'.world s d') :
    ∃ ms, b.world.mail s ++ ms = (b.handed s x).toList ++ b'.world.mail s := by
  have hhead : x = .deliver s → b.handed s x = (b.world.mail s).head? := by
    rintro rfl
    exact handed_deliver b s
  cases h with
  | asked rs hnone hr hd hmodel hmail hb hn =>
      refine ⟨rs.map .request, ?_⟩
      rw [hnone, hmail]
      rfl
  | changed p c hp hd hmodel hmail hb hn =>
      refine ⟨(b.world.routed s p c).map .request, ?_⟩
      rw [handed_of_point? hp, hmail]
      rfl
  | called i c hx hi hw hrun hworks hb =>
      obtain ⟨es, hbecomes⟩ := hworks.becomes
      refine ⟨es.map .event, ?_⟩
      rw [hx, hlive.mail_becomes hbecomes]
      rfl
  | shown e u j hx hd hu hliveU hmail hready hrun hshows hend hbroken hb =>
      refine ⟨[], ?_⟩
      rw [hhead hx, hmail, mail_of_outer (outer_of_shell hshows.here), List.append_nil]
      rfl
  | answered script thread root u v handle kind j hx hd hu hliveU hmail hready hrun hv hid hposts
      hmail' hb =>
      refine ⟨(v.answers s script handle kind).map .request, ?_⟩
      rw [hhead hx, hmail, hmail']
      rfl
  | obeyed r u hx hu hliveU hmail hr hend hobeyed hb =>
      obtain ⟨es, hbecomes⟩ := becomes_of_obeyed hlive' hend hobeyed
      refine ⟨es.map .event, ?_⟩
      rw [hhead hx, hmail, hliveU.mail_becomes hbecomes]
      rfl

/-! ### Who waits -/

omit [Inhabited σ] [Engine σ] in
/-- Whether a thread waits is known to a debugger that is alive. -/
theorem isWaiting_eq (hlive : Live b.world s d) {i : Interpreter} (hi : i.session = s) :
    b.isWaiting i = d.isWaiting i.id := by
  rw [isWaiting, hi, debugger_eq hlive.here]

omit [Inhabited σ] [Engine σ] in
/-- A request lets a thread go on that waits, if it is one to resume it, and otherwise the thread
stays where it is. -/
theorem stays_or_goes_of_obeyed {u : World} {r : Request} {o : Nat} {y : Execution}
    (hlive : Live u s d) (hlive' : Live b'.world s d') (hend : r ≠ .terminate)
    (hy : d.ofOwner? o = some y) (h : Obeyed s d r u b'.world) :
    ((d'.ofOwner? o).map Execution.station = some y.station
        ∧ Message.resumed? (.request r) ≠ some y.handle.id)
      ∨ Message.resumed? (.request r) = some y.handle.id ∧ d'.isWaiting o = false := by
  have hmem := Debugger.mem_of_ofOwner? hy
  cases h with
  | resumed handle kind z hr hz hreports =>
      subst hr
      obtain rfl := Live.unique hlive' (hlive.reports hreports)
      have hzmem := Debugger.mem_of_ofHandle? hz
      have hzid : z.handle.id = handle.id := by simpa using List.find?_some hz
      by_cases ho : z.owner = o
      · right
        obtain rfl := hlive.orderly.eq_of_ofOwner? hy hzmem ho
        constructor
        · exact congrArg some hzid.symm
        · rw [Debugger.isWaiting_eq (ofOwner?_put_self hy (Execution.owner_resume _ _ _)),
            Execution.waiting_resume]
          rfl
      · left
        constructor
        · rw [hreports.ofOwner?_of_ne (Ne.symm ho), hy]
          rfl
        · intro hid
          refine ho ((hlive.orderly.distinct z hzmem y hmem (hzid.trans (Option.some.inj hid))).trans ?_)
          exact Debugger.owner_of_ofOwner? hy
  | served o' d₁ hr hz hworks hstation =>
      obtain rfl := Live.unique hlive' (hlive.works hworks)
      left
      constructor
      · rw [hstation, hy]
        rfl
      · intro hid
        unfold Message.resumed? at hid
        split at hid
        · next handle kind heq =>
            cases heq
            have hnone := hz handle kind rfl
            rw [hlive.orderly.ofHandle?_eq hmem (Option.some.inj hid).symm] at hnone
            cases hnone
        · cases hid
  | nudged thread hr f hf hbecomes =>
      subst hr
      obtain rfl := hlive'.eq_of_debugger hbecomes.debugger
      left
      refine ⟨?_, nofun⟩
      rw [Debugger.ofOwner?_map d (Execution.owner_of_asks hf), hy]
      obtain hz | hz := hf y <;> rw [Option.map_some, hz] <;> rfl
  | noted script point mode hr hbecomes =>
      subst hr
      obtain rfl := hlive'.eq_of_debugger hbecomes.debugger
      left
      refine ⟨?_, nofun⟩
      have hsame : Debugger.ofOwner? { d with table := d.table.update script point mode } o
          = d.ofOwner? o := rfl
      rw [hsame, hy]
      rfl
  | left hr => exact absurd hr hend

/-- In a step of a live session a thread that waits stays where it is, or a request to resume it is
handed over and it goes on. -/
theorem Goes.stays_or_goes (h : Goes s b d x b' d') (hlive : Live b.world s d)
    (hlive' : Live b'.world s d') {o : Nat} {y : Execution} (hy : d.ofOwner? o = some y)
    (hw : y.waiting.isSome = true) :
    ((d'.ofOwner? o).map Execution.station = some y.station
        ∧ ∀ m, b.handed s x = some m → m.resumed? ≠ some y.handle.id)
      ∨ (∃ m, b.handed s x = some m ∧ m.resumed? = some y.handle.id) ∧ d'.isWaiting o = false := by
  have hsame : (d.ofOwner? o).map Execution.station = some y.station := by
    rw [hy]
    rfl
  cases h with
  | asked rs hnone hr hd hmodel hmail hb hn =>
      subst hd
      exact .inl ⟨hsame, fun m hm => by rw [hnone] at hm; cases hm⟩
  | changed p c hp hd hmodel hmail hb hn =>
      subst hd
      exact .inl ⟨hsame, fun m hm => by rw [handed_of_point? hp] at hm; cases hm⟩
  | called i c hx hi hwait hrun hworks hb =>
      subst hx
      left
      refine ⟨?_, fun m hm => nomatch hm⟩
      have hne : o ≠ i.id := by
        rintro rfl
        rw [isWaiting_eq hlive hi, Debugger.isWaiting_eq hy, hw] at hwait
        cases hwait
      rw [hworks.ofOwner?_of_ne hne]
      exact hsame
  | shown e u j hx hd hu hliveU hmail hready hrun hshows hend hbroken hb =>
      subst hd
      refine .inl ⟨hsame, fun m hm => ?_⟩
      rw [handed_of_mail hx hmail] at hm
      obtain rfl := Option.some.inj hm
      nofun
  | answered script thread root u v handle kind j hx hd hu hliveU hmail hready hrun hv hid hposts
      hmail' hb =>
      subst hd
      refine .inl ⟨hsame, fun m hm => ?_⟩
      rw [handed_of_mail hx hmail] at hm
      obtain rfl := Option.some.inj hm
      nofun
  | obeyed r u hx hu hliveU hmail hr hend hobeyed hb =>
      have hhanded := handed_of_mail hx hmail
      obtain ⟨hstay, hnot⟩ | ⟨hres, hgone⟩ :=
        stays_or_goes_of_obeyed hliveU hlive' hend hy hobeyed
      · refine .inl ⟨hstay, fun m hm => ?_⟩
        rw [hhanded] at hm
        obtain rfl := Option.some.inj hm
        exact hnot
      · exact .inr ⟨⟨_, hhanded, hres⟩, hgone⟩

/-! ### Runs in which a thread waits -/

section Waiting

variable {i : Interpreter} {y : Execution} {ds es : List (Deed σ)}

/-- A session in which somebody waits was live before a step if it is live after it. -/
theorem exists_goes (hb : b.Fresh) (hi : i.session = s) (hw : (run ds b).isWaiting i = true)
    (hlive : Live (run (ds ++ [x]) b).world s d') :
    ∃ d, Live (run ds b).world s d ∧ Goes s (run ds b) d x (run (ds ++ [x]) b) d' := by
  obtain hbefore | ⟨⟨setup, -, hs⟩, -⟩ := live_before hb ds x hlive
  · exact hbefore
  · have hnone : ((run ds b).world.session s).debugger = none := by
      rw [hs]
      simp [session, Arena.get, Arena.size, default, Session.absent]
    rw [isWaiting, hi, debugger, hnone] at hw
    cases hw

/-- As long as somebody waits, a session that is live in the end is live. -/
theorem exists_live_of_isPrefix (hb : b.Fresh) (hi : i.session = s)
    (hw : ∀ fs, fs <+: es → (run (ds ++ fs) b).isWaiting i = true)
    (hlive : Live (run (ds ++ es) b).world s d) {fs : List (Deed σ)} (hfs : fs <+: es) :
    ∃ d, Live (run (ds ++ fs) b).world s d := by
  induction es using List.reverseRecOn generalizing d with
  | nil =>
      obtain rfl := List.prefix_nil.mp hfs
      exact ⟨d, hlive⟩
  | append_singleton es x ih =>
      obtain rfl | hfs := List.prefix_concat_iff.mp hfs
      · exact ⟨d, hlive⟩
      · have hbefore : es <+: es ++ [x] := List.prefix_append es [x]
        rw [← List.append_assoc] at hlive
        obtain ⟨d₁, hlive₁, -⟩ := exists_goes hb hi (hw es hbefore) hlive
        exact ih (fun gs hgs => hw gs (hgs.trans hbefore)) hlive₁ hfs

/-- A thread that waits stays where it is, and is not asked to go on. Meanwhile messages are handed
over in the order in which they came. -/
theorem handled_run (hb : b.Fresh) (hi : i.session = s)
    (hlive : Live (run ds b).world s d) (hy : (d.ofOwner? i.id).map Execution.station = some y.station)
    (hw : ∀ fs, fs <+: es → (run (ds ++ fs) b).isWaiting i = true)
    (hlive' : Live (run (ds ++ es) b).world s d') :
    (d'.ofOwner? i.id).map Execution.station = some y.station
      ∧ (∀ m ∈ handled s es (run ds b), m.resumed? ≠ some y.handle.id)
      ∧ ∃ ms, (run ds b).world.mail s ++ ms
        = handled s es (run ds b) ++ (run (ds ++ es) b).world.mail s := by
  induction es using List.reverseRecOn generalizing d' with
  | nil =>
      rw [List.append_nil] at hlive' ⊢
      obtain rfl := Live.unique hlive hlive'
      exact ⟨hy, List.forall_mem_nil _, [], List.append_nil _⟩
  | append_singleton es x ih =>
      have hbefore : es <+: es ++ [x] := List.prefix_append es [x]
      have hend := hw (es ++ [x]) List.prefix_rfl
      rw [← List.append_assoc] at hlive' hend ⊢
      obtain ⟨d₁, hlive₁, hgoes⟩ := exists_goes hb hi (hw es hbefore) hlive'
      obtain ⟨hstation, hnone, ms, hms⟩ := ih (fun gs hgs => hw gs (hgs.trans hbefore)) hlive₁
      obtain ⟨z, hz, hzy⟩ := Option.map_eq_some_iff.mp hstation
      have hhandle : z.handle = y.handle := congrArg Prod.fst hzy
      have hwz : z.waiting.isSome = true := by
        rw [← Debugger.isWaiting_eq hz, ← isWaiting_eq hlive₁ hi]
        exact hw es hbefore
      obtain ⟨hstay, hnot⟩ | ⟨-, hgone⟩ := hgoes.stays_or_goes hlive₁ hlive' hz hwz
      · obtain ⟨ms', hms'⟩ := hgoes.mail hlive₁ hlive'
        have hrun : run es (run ds b) = run (ds ++ es) b := (run_append ds es b).symm
        rw [handled_append_singleton, hrun]
        refine ⟨hzy ▸ hstay, fun m hm => ?_, ms ++ ms', ?_⟩
        · rcases List.mem_append.mp hm with hm | hm
          · exact hnone m hm
          · exact hhandle ▸ hnot m (Option.mem_toList.mp hm)
        · rw [← List.append_assoc, hms, List.append_assoc, hms']
          exact (List.append_assoc _ _ _).symm
      · rw [isWaiting_eq hlive' hi, hgone] at hend
        cases hend

/-- What lets a thread go on in the end is a request to resume it, the first that is handed over. -/
theorem handled_run_of_leaves (hb : b.Fresh) (hi : i.session = s)
    (hlive : Live (run ds b).world s d) (hy : (d.ofOwner? i.id).map Execution.station = some y.station)
    (hw : ∀ fs, fs <+: es → (run (ds ++ fs) b).isWaiting i = true)
    (hlive' : Live (run (ds ++ es ++ [x]) b).world s d')
    (hleft : (run (ds ++ es ++ [x]) b).isWaiting i = false) :
    (∀ m ∈ handled s es (run ds b), m.resumed? ≠ some y.handle.id)
      ∧ ∃ m ms ms', m.resumed? = some y.handle.id
        ∧ (run ds b).world.mail s ++ ms = handled s es (run ds b) ++ m :: ms' := by
  have hlast := hw es List.prefix_rfl
  obtain ⟨d₁, hlive₁, hgoes⟩ := exists_goes hb hi hlast hlive'
  obtain ⟨hstation, hnone, ms, hms⟩ := handled_run hb hi hlive hy hw hlive₁
  obtain ⟨z, hz, hzy⟩ := Option.map_eq_some_iff.mp hstation
  have hhandle : z.handle = y.handle := congrArg Prod.fst hzy
  rw [isWaiting_eq hlive₁ hi, Debugger.isWaiting_eq hz] at hlast
  rw [isWaiting_eq hlive' hi] at hleft
  obtain ⟨hstay, -⟩ | ⟨⟨m, hm, hres⟩, -⟩ := hgoes.stays_or_goes hlive₁ hlive' hz hlast
  · obtain ⟨z', hz', hzz⟩ := Option.map_eq_some_iff.mp hstay
    have hwaiting : z'.waiting = z.waiting := congrArg Prod.snd hzz
    rw [Debugger.isWaiting_eq hz', hwaiting, hlast] at hleft
    cases hleft
  · obtain ⟨ms', hms'⟩ := hgoes.mail hlive₁ hlive'
    rw [hm] at hms'
    refine ⟨hnone, m, ms ++ ms', (run (ds ++ es ++ [x]) b).world.mail s, hhandle ▸ hres, ?_⟩
    rw [← List.append_assoc, hms, List.append_assoc, hms']
    rfl

/-- A thread that is held up before a script says so behind all that waits. -/
theorem exists_mail_call (hlive : Live b.world s d) (hi : i.session = s)
    (hw : b.isWaiting i = false) {script : Script} (hx : x = .call i (.scriptStarted script))
    (hw' : (b.after x).isWaiting i = true) (hlive' : Live (b.after x).world s d') :
    ∃ y root ms, d'.ofOwner? i.id = some y ∧ (b.after x).world.mail s
      = b.world.mail s ++ .event (.scriptReady script y.handle root) :: ms := by
  subst hi
  have hrun : b.after x = b.startScript i script := by
    rw [hx, after, hw]
    rfl
  rw [hrun] at hw' hlive' ⊢
  have hfree : d.isWaiting i.id = false := isWaiting_eq hlive rfl ▸ hw
  cases hs : d.isTracked script with
  | true =>
      obtain ⟨u, d₁, d₂, y, root, hsaid, htold, hserve, hy, -⟩ :=
        works_holdScript hlive.here hlive.listens hfree hs
      have hliveU := hlive.works hsaid
      obtain rfl := Live.unique hlive' (hliveU.works hserve)
      obtain ⟨es, hes⟩ := hserve.becomes
      refine ⟨y, root, es.map .event, hy, ?_⟩
      rw [hliveU.mail_becomes hes, hlive.mail_becomes htold, List.append_assoc]
      rfl
  | false =>
      have hsame : b.startScript i script = b := by
        unfold startScript
        rw [debugger_eq hlive.here, if_neg (by simp [hs])]
      rw [hsame, hw] at hw'
      cases hw'

/-- A session in which a thread is held up before a script, and that is live while the thread waits,
was live when the thread was held up. -/
theorem exists_live_call (hb : b.Fresh) {script : Script} {cs : List (Deed σ)}
    (hcs : cs = ds ++ [.call i (.scriptStarted script)]) (hfree : (run ds b).isWaiting i = false)
    (hw : ∀ fs, fs <+: es → (run (cs ++ fs) b).isWaiting i = true)
    (hlive : Live (run (cs ++ es) b).world i.session d') :
    ∃ d y root ms, Live (run cs b).world i.session d ∧ d.ofOwner? i.id = some y
      ∧ (run cs b).world.mail i.session = (run ds b).world.mail i.session
        ++ .event (.scriptReady script y.handle root) :: ms := by
  obtain ⟨d₁, hlive₁⟩ := exists_live_of_isPrefix hb rfl hw hlive List.nil_prefix
  have hwaits := hw [] List.nil_prefix
  rw [List.append_nil] at hlive₁ hwaits
  subst hcs
  obtain ⟨d₀, hlive₀, -⟩ | ⟨⟨setup, hsetup, -⟩, -⟩ := live_before hb ds _ hlive₁
  · rw [run_append] at hlive₁ hwaits ⊢
    obtain ⟨y, root, ms, hy, hmail⟩ := exists_mail_call hlive₀ rfl hfree rfl hwaits hlive₁
    exact ⟨d₁, y, root, ms, hlive₁, hy, hmail⟩
  · cases hsetup

end Waiting

/-! ### What is answered -/

/-- Where no front end fails, a script that is ready is answered behind all that waits: by its
breakpoints, and then by a request to resume the thread that waits before it. -/
theorem Goes.mail_answered (hc : b.world.Calm) {script : Script} {thread : Handle} {root : Bool}
    {behind : List Message}
    (hmail : b.world.mail s = .event (.scriptReady script thread root) :: behind)
    (h : Goes s b d (.deliver s) b' d') :
    ∃ m, m.resumed? = some thread.id ∧ b'.world.mail s
      = behind ++ (((b.world.breakpoints s).filter fun p => script.isOf p.resource).map fun p =>
          .request (.breakpoint script p .add)) ++ [m] := by
  have hhanded : b.handed s (.deliver s) = some (.event (.scriptReady script thread root)) :=
    handed_of_mail rfl hmail
  cases h with
  | asked rs hnone hr hd hmodel hmail' hb hn =>
      rw [hhanded] at hnone
      cases hnone
  | changed p c hp => cases hp
  | called i c hx => cases hx
  | shown e u j hx hd hu hliveU hmail' hready hrun hshows hend hbroken hb =>
      rw [hmail] at hmail'
      obtain ⟨heq, -⟩ := List.cons.inj hmail'
      obtain rfl := (Message.event.inj heq).symm
      have hcalm : u.Calm := by
        intro notes n
        rw [hu.reaction]
        exact hc notes n
      obtain ⟨_, w, hok, -⟩ := ends_handleEvent hcalm hliveU.alive hliveU.attached hend
      obtain ⟨failure, w', herror⟩ := hbroken script thread root rfl
      rw [hok] at herror
      cases herror
  | answered script' thread' root' u v handle kind j hx hd hu hliveU hmail' hready hrun hv hid
      hposts hafter hb =>
      rw [hmail] at hmail'
      obtain ⟨heq, rfl⟩ := List.cons.inj hmail'
      cases heq
      have hbefore : v.breakpoints s = b.world.breakpoints s :=
        (breakpoints_of_outer hv.managers (outer_of_shell hv.here)).trans (breakpoints_of_takes hu)
      refine ⟨.request (.resume (some handle) kind), congrArg some hid, ?_⟩
      rw [hafter, answers, breakpointsIn_eq, hbefore, List.map_append, List.map_map,
        ← List.append_assoc]
      rfl
  | obeyed r u hx hu hliveU hmail' =>
      rw [hmail] at hmail'
      cases hmail'

/-! ### Threads that go on in time -/

/-- At some moment of a run a session hears that a script is ready, behind all messages that were
ahead. All breakpoints of the script that are registered at that moment are set in the rest of the
run, behind the messages that wait then. -/
def Prepared (s : Nat) (script : Script) (thread : Handle) (ahead : List Message)
    (ds : List (Deed σ)) (b : Bridge σ) : Prop :=
  ∃ es es' root, ds = es ++ .deliver s :: es' ∧ handled s es b = ahead
    ∧ (run es b).handed s (.deliver s) = some (.event (.scriptReady script thread root))
    ∧ ∀ p ∈ (run es b).world.breakpoints s, script.isOf p.resource = true →
      .request (.breakpoint script p .add) ∈ (handled s es' (run (es ++ [.deliver s]) b)).drop
        ((run es b).world.mail s).tail.length

/-- No request to resume a thread is among the messages that were ahead, and if there are
breakpoints of its script, none waits either when the session hears of the script. -/
structure Unhurried (s : Nat) (script : Script) (thread : Handle) (ahead : List Message)
    (ds : List (Deed σ)) (b : Bridge σ) : Prop where
  waiting : ∀ m ∈ ahead, m.resumed? ≠ some thread.id
  posted : ∀ es es', ds = es ++ .deliver s :: es' → handled s es b = ahead →
    (∃ p ∈ (run es b).world.breakpoints s, script.isOf p.resource = true) →
      ∀ m ∈ ((run es b).world.mail s).tail, m.resumed? ≠ some thread.id

/-- In a run from the start no front end fails. -/
theorem calm_run (hb : b.world = .start) (ds : List (Deed σ)) : (run ds b).world.Calm := by
  intro notes n
  rw [reaction_run, hb]
  rfl

section Leaving

variable {i : Interpreter} {script : Script} {y : Execution} {root : Bool}
  {ds es es' : List (Deed σ)} {ahead behind : List Message}

/-- Behind all messages that were ahead a session hears that a script is ready. From then on all that
was posted meanwhile is handed over, then the breakpoints of the script, and then a request to resume
the thread that waits, unless the thread goes on sooner. -/
theorem exists_handled_of_heard (hb : b.world = .start) (hi : i.session = s)
    (hlive : Live (run ds b).world s d) (hy : (d.ofOwner? i.id).map Execution.station = some y.station)
    (hmail : (run ds b).world.mail s = ahead ++ .event (.scriptReady script y.handle root) :: behind)
    (hw : ∀ fs, fs <+: es ++ .deliver s :: es' → (run (ds ++ fs) b).isWaiting i = true)
    (hlive' : Live (run (ds ++ (es ++ .deliver s :: es') ++ [x]) b).world s d')
    (hleft : (run (ds ++ (es ++ .deliver s :: es') ++ [x]) b).isWaiting i = false)
    (hes : handled s es (run ds b) = ahead) :
    (run es (run ds b)).handed s (.deliver s)
        = some (.event (.scriptReady script y.handle root))
      ∧ (∀ m ∈ handled s es' (run (es ++ [.deliver s]) (run ds b)), m.resumed? ≠ some y.handle.id)
      ∧ ∃ m ms ms', m.resumed? = some y.handle.id
        ∧ ((run es (run ds b)).world.mail s).tail
          ++ ((((run es (run ds b)).world.breakpoints s).filter fun p => script.isOf p.resource).map
            fun p => .request (.breakpoint script p .add)) ++ ms
          = handled s es' (run (es ++ [.deliver s]) (run ds b)) ++ m :: ms' := by
  rw [← run_append, ← run_append, ← List.append_assoc]
  have hfresh : b.Fresh := ⟨World.start.reaction, hb⟩
  obtain ⟨d₃, hlive₃, -⟩ := exists_goes hfresh hi (hw _ List.prefix_rfl) hlive'
  have hsplit : es ++ .deliver s :: es' = es ++ [.deliver s] ++ es' := by simp
  rw [hsplit] at hw hlive' hleft hlive₃
  have hshort : es <+: es ++ [.deliver s] ++ es' :=
    (List.prefix_append es [.deliver s]).trans (List.prefix_append _ es')
  have hlong : es ++ [.deliver s] <+: es ++ [.deliver s] ++ es' := List.prefix_append _ es'
  have hwaits : ∀ {gs}, gs <+: es ++ [.deliver s] ++ es' →
      ∀ fs, fs <+: gs → (run (ds ++ fs) b).isWaiting i = true :=
    fun hgs fs hfs => hw fs (hfs.trans hgs)
  obtain ⟨d₂, hlive₂⟩ := exists_live_of_isPrefix hfresh hi hw hlive₃ hlong
  obtain ⟨hy₂, -, -⟩ := handled_run hfresh hi hlive hy (hwaits hlong) hlive₂
  rw [← List.append_assoc] at hlive₂
  obtain ⟨d₁, hlive₁, hgoes⟩ := exists_goes hfresh hi (hw es hshort) hlive₂
  obtain ⟨-, -, ms, hms⟩ := handled_run hfresh hi hlive hy (hwaits hshort) hlive₁
  have hready : (run (ds ++ es) b).world.mail s
      = .event (.scriptReady script y.handle root) :: (behind ++ ms) := by
    rw [hes, hmail, List.append_assoc] at hms
    exact (List.append_cancel_left hms).symm
  obtain ⟨m, -, hanswered⟩ := hgoes.mail_answered (calm_run hb _) hready
  have hassoc : ∀ fs, ds ++ (es ++ [.deliver s] ++ fs) = ds ++ es ++ [.deliver s] ++ fs := by simp
  rw [hassoc] at hlive' hleft
  obtain ⟨hnone, m', ms₂, ms', hres, hfifo⟩ := handled_run_of_leaves hfresh hi hlive₂ hy₂
    (fun fs hfs => hassoc fs ▸ hw _ ((List.prefix_append_right_inj _).mpr hfs)) hlive' hleft
  constructor
  · exact handed_of_mail rfl hready
  · refine ⟨hnone, m', [m] ++ ms₂, ms', hres, ?_⟩
    rw [hanswered] at hfifo
    rw [hready, List.tail_cons, ← hfifo, ← List.append_assoc _ [m]]

/-- A thread that leaves a script with all breakpoints set was hurried on by nobody. -/
theorem unhurried_of_prepared (hb : b.world = .start) (hi : i.session = s)
    (hlive : Live (run ds b).world s d) (hy : (d.ofOwner? i.id).map Execution.station = some y.station)
    (hmail : (run ds b).world.mail s = ahead ++ .event (.scriptReady script y.handle root) :: behind)
    (hw : ∀ fs, fs <+: es → (run (ds ++ fs) b).isWaiting i = true)
    (hlive' : Live (run (ds ++ es ++ [x]) b).world s d')
    (hleft : (run (ds ++ es ++ [x]) b).isWaiting i = false)
    (h : Prepared s script y.handle ahead es (run ds b)) :
    Unhurried s script y.handle ahead es (run ds b) := by
  obtain ⟨fs, fs', root', hes, hfs, hhanded, hplaced⟩ := h
  obtain ⟨hnone, -⟩ :=
    handled_run_of_leaves ⟨World.start.reaction, hb⟩ hi hlive hy hw hlive' hleft
  constructor
  · intro m hm
    refine hnone m ?_
    rw [hes, handled_append, hfs]
    exact List.mem_append_left _ hm
  · rintro gs gs' rfl hgs ⟨p, hp, hof⟩ m hm
    obtain ⟨hhanded', hnone', m', ns, ns', -, horder⟩ :=
      exists_handled_of_heard hb hi hlive hy hmail hw hlive' hleft hgs
    obtain rfl := eq_of_handled_eq hes hgs hfs (by simp [hhanded']) (by simp [hhanded])
    obtain rfl := (List.cons.inj (List.append_cancel_left hes)).2
    -- A breakpoint that is set stands behind all that was posted, which was handed over by then.
    have hlong : ((run gs (run ds b)).world.mail s).tail.length
        ≤ (handled s gs' (run (gs ++ [.deliver s]) (run ds b))).length := by
      have hpos := List.length_pos_of_mem (hplaced p hp hof)
      rw [List.length_drop] at hpos
      omega
    have hstart : ((run gs (run ds b)).world.mail s).tail
        <+: handled s gs' (run (gs ++ [.deliver s]) (run ds b)) := by
      refine List.prefix_of_prefix_length_le ?_ ⟨_, horder.symm⟩ hlong
      rw [List.append_assoc]
      exact List.prefix_append _ _
    exact hnone' m (hstart.subset hm)

/-- A thread that nobody hurries on leaves its script with all breakpoints set. -/
theorem prepared_of_unhurried (hb : b.world = .start) (hi : i.session = s)
    (hlive : Live (run ds b).world s d) (hy : (d.ofOwner? i.id).map Execution.station = some y.station)
    (hmail : (run ds b).world.mail s = ahead ++ .event (.scriptReady script y.handle root) :: behind)
    (hw : ∀ fs, fs <+: es → (run (ds ++ fs) b).isWaiting i = true)
    (hlive' : Live (run (ds ++ es ++ [x]) b).world s d')
    (hleft : (run (ds ++ es ++ [x]) b).isWaiting i = false)
    (h : Unhurried s script y.handle ahead es (run ds b)) :
    Prepared s script y.handle ahead es (run ds b) := by
  obtain ⟨hwaiting, hposted⟩ := h
  obtain ⟨-, m, ms, ms', hres, hfifo⟩ :=
    handled_run_of_leaves ⟨World.start.reaction, hb⟩ hi hlive hy hw hlive' hleft
  have hnone : ∀ n ∈ ahead ++ [.event (.scriptReady script y.handle root)],
      n.resumed? ≠ some y.handle.id := by
    intro n hn
    rcases List.mem_append.mp hn with hn | hn
    · exact hwaiting n hn
    · obtain rfl := List.mem_singleton.mp hn
      nofun
  have hqueue : ahead ++ [.event (.scriptReady script y.handle root)] ++ (behind ++ ms)
      = handled s es (run ds b) ++ m :: ms' := by
    rw [← hfifo, hmail]
    simp
  obtain ⟨rest, hrest⟩ := isPrefix_of_append_cons hnone hres hqueue
  rw [List.append_assoc] at hrest
  obtain ⟨fs, fs', rfl, hfs, -⟩ := exists_deliver_of_handled hrest.symm
  obtain ⟨hhanded, -, m', ns, ns', hres', horder⟩ :=
    exists_handled_of_heard hb hi hlive hy hmail hw hlive' hleft hfs
  refine ⟨fs, fs', root, rfl, hfs, hhanded, fun p hp hof => ?_⟩
  have hnone' : ∀ n ∈ ((run fs (run ds b)).world.mail s).tail
      ++ (((run fs (run ds b)).world.breakpoints s).filter fun p => script.isOf p.resource).map
        (fun p => .request (.breakpoint script p .add)), n.resumed? ≠ some y.handle.id := by
    intro n hn
    rcases List.mem_append.mp hn with hn | hn
    · exact hposted fs fs' rfl hfs ⟨p, hp, hof⟩ n hn
    · obtain ⟨q, -, rfl⟩ := List.mem_map.mp hn
      nofun
  obtain ⟨later, hlater⟩ := isPrefix_of_append_cons hnone' hres' horder
  rw [← hlater, List.append_assoc, List.drop_left]
  exact List.mem_append_left _ (List.mem_map_of_mem (List.mem_filter.mpr ⟨hp, hof⟩))

end Leaving

/-- A thread that is held up before a script goes on when the script is known and its breakpoints are
set, exactly if no request to resume it is ahead of the answer. This is about every run of a session
in which no front end fails and that stays joined until the thread goes on. -/
theorem prepared_iff_run (hb : b.world = .start) {ds cs : List (Deed σ)} (es : List (Deed σ))
    (x : Deed σ) {i : Interpreter} {script : Script} {y : Execution}
    (hcs : cs = ds ++ [.call i (.scriptStarted script)])
    (hfree : (run ds b).isWaiting i = false)
    (hy : ((run cs b).world.debugger i.session).ofOwner? i.id = some y)
    (hw : ∀ fs, fs <+: es → (run (cs ++ fs) b).isWaiting i = true)
    (hleft : (run (cs ++ es ++ [x]) b).isWaiting i = false)
    (hl : ((run (cs ++ es ++ [x]) b).world.session i.session).alive = true)
    (ha : ((run (cs ++ es ++ [x]) b).world.session i.session).attached = true)
    (hd : ((run (cs ++ es ++ [x]) b).world.session i.session).debugger = some d)
    (hlisten : d.attached = true) :
    Prepared i.session script y.handle ((run ds b).world.mail i.session) es (run cs b)
      ↔ Unhurried i.session script y.handle ((run ds b).world.mail i.session) es (run cs b) := by
  have hfresh : b.Fresh := ⟨World.start.reaction, hb⟩
  have hlive' := live_of_listens hfresh _ hl ha hd hlisten
  obtain ⟨d₀, hlive₀, -⟩ := exists_goes hfresh rfl (hw es List.prefix_rfl) hlive'
  obtain ⟨d₁, y', root, behind, hlive, hy', hmail⟩ := exists_live_call hfresh hcs hfree hw hlive₀
  rw [debugger_eq hlive.here] at hy
  obtain rfl := Option.some.inj (hy.symm.trans hy')
  have hstation : (d₁.ofOwner? i.id).map Execution.station = some y.station := by
    rw [hy]
    rfl
  constructor
  · exact unhurried_of_prepared hb rfl hlive hstation hmail hw hlive' hleft
  · exact prepared_of_unhurried hb rfl hlive hstation hmail hw hlive' hleft

/-- A thread that runs is asked to go on, and then it is held up before a script with a breakpoint. -/
def resumeThenStart : List (Deed VariableTable) :=
  let i : Interpreter := .idle 0 "main" 0
  [.launch ⟨.off, 0, true, true, true⟩, .addBreakpoint 0 ⟨0, ⟨"a"⟩, 3⟩, .call i .threadStarted,
    .deliver 0, .order 0 0 .resume, .call i (.scriptStarted ⟨0, "a", some ⟨"a"⟩, false⟩)]

/-- It goes on before its session hears of the script. -/
theorem prepared_iff_resumeThenStart :
    (run resumeThenStart ∅).isWaiting (.idle 0 "main" 0) = true
      ∧ (run (resumeThenStart ++ [.deliver 0]) ∅).isWaiting (.idle 0 "main" 0) = false
      ∧ ¬Prepared 0 ⟨0, "a", some ⟨"a"⟩, false⟩ ⟨0, "main"⟩
        ((run resumeThenStart.dropLast ∅).world.mail 0) [] (run resumeThenStart ∅) := by
  have hwaits : (run resumeThenStart ∅).isWaiting (.idle 0 "main" 0) = true := by decide +kernel
  have hleft : (run (resumeThenStart ++ [.deliver 0]) ∅).isWaiting (.idle 0 "main" 0) = false := by
    decide +kernel
  refine ⟨hwaits, hleft, fun h => ?_⟩
  have hcall : resumeThenStart = resumeThenStart.dropLast
      ++ [.call (.idle 0 "main" 0) (.scriptStarted ⟨0, "a", some ⟨"a"⟩, false⟩)] := rfl
  have hhandle : (((run resumeThenStart ∅).world.debugger 0).ofOwner? 0).map (·.handle)
      = some ⟨0, "main"⟩ := by
    decide +kernel
  obtain ⟨y, hy, hyh⟩ := Option.map_eq_some_iff.mp hhandle
  have hiff := prepared_iff_run (b := ∅) rfl [] (.deliver 0) hcall (by decide +kernel) hy
    (fun fs hfs => by rw [List.prefix_nil.mp hfs]; exact hwaits) hleft (by decide +kernel)
    (by decide +kernel) (debugger_of_isSome (by decide +kernel)) (by decide +kernel)
  have hresumed : ((run resumeThenStart.dropLast ∅).world.mail 0).map (·.resumed?) = [some 0] := by
    decide +kernel
  rw [hyh] at hiff
  obtain ⟨m, hm, hres⟩ := List.mem_map.mp (hresumed ▸ List.mem_cons_self : some 0 ∈ _)
  exact (hiff.mp h).waiting m hm hres

end Bridge

end DebugBridge
