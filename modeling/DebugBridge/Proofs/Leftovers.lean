import DebugBridge.Proofs.Promises

/-!
# Breakpoints that stay behind

When a script is reported ready, all its breakpoints are sent to the interpreter, whether it has them
already or not. It may well have them: a script can be reported ready again, and a frame can tell
where a breakpoint belongs before any script is ready. Whoever is removed later is taken out of the
table once, so a breakpoint that the interpreter had by then stays behind.

A script gets no breakpoints but those of its own resource. This is so because everybody who names a
script has it from the calls of interpreter threads: the stacks of threads, the events that wait, the
frames of the model and the registry.

## Main definitions

* `World.Sourced`: all scripts are known from calls;
* `Bridge.Placed`: a script gets breakpoints of its own resource only.

## Main results

* `onlyRegistered_iff_run`: when the interpreter has registered breakpoints only.
-/

namespace DebugBridge

/-! ### Where scripts come from -/

/-- The scripts that a thread may enter by a deed. -/
def Deed.scripts {σ : Type} : Deed σ → List Script
  | .call _ c => c.scripts
  | _ => []

/-- A quiet event names no scripts. -/
theorem Event.scripts_of_isQuiet {e : Event} (h : e.IsQuiet) : e.scripts = [] := by
  cases e with
  | engineStarted => rfl
  | frameVariables => rfl
  | evaluated => rfl
  | _ => cases h

namespace Execution

variable {ts : List Script} {x x' : Execution} {script : Script}

/-- What an execution tells of is on its stack, or may be entered. -/
theorem Says.mem_scripts {es : List Event} (h : x.Says ts x' es) {e : Event} (he : e ∈ es)
    (hs : script ∈ e.scripts) : script ∈ x.stack.map Activation.script ∨ script ∈ ts := by
  cases h with
  | moved => cases he
  | putOff => cases he
  | held script' root hw hmem =>
      obtain rfl := List.mem_singleton.mp he
      obtain rfl := List.mem_singleton.mp hs
      exact .inr hmem
  | stopped reason hw =>
      obtain rfl := List.mem_singleton.mp he
      exact .inl hs
  | released =>
      obtain rfl := List.mem_singleton.mp he
      cases hs

/-- A call on the stack of a thread after it spoke was there before, or is that of a script it
entered. -/
theorem Says.mem_stack {es : List Event} (h : x.Says ts x' es) {a : Activation}
    (ha : a ∈ x'.stack) : a ∈ x.stack ∨ a.script ∈ ts := by
  cases h with
  | moved _ _ _ _ _ hstack => exact hstack a ha
  | released _ _ _ _ _ _ hstack => exact .inl (hstack ▸ ha)
  | _ => exact .inl ha

/-- The scripts of an event that a thread speaks of itself are on its stack. -/
theorem Mentions.mem_scripts {e : Event} (h : x.Mentions e) (hs : script ∈ e.scripts) :
    script ∈ x.stack.map Activation.script := by
  cases h with
  | created => cases hs
  | frames => exact hs

end Execution

namespace World

/-- All scripts that threads, events and frames of a session name have a property. -/
structure Sourced (T : Script → Prop) (w : World) (s : Nat) (d : Debugger) : Prop where
  entered : ∀ x ∈ d.executions, ∀ a ∈ x.stack, T a.script
  events : ∀ e, .event e ∈ w.mail s → ∀ script ∈ e.scripts, T script
  frames : ∀ script ∈ (w.session s).frameScripts, T script

variable {T : Script → Prop} {s o : Nat} {ts : List Script} {d d' : Debugger} {w w' : World}

/-- The scripts that frames name are a matter of the model. -/
theorem frameScripts_of_model {x x' : Session} (h : x'.model = x.model) :
    x'.frameScripts = x.frameScripts := by
  rw [Session.frameScripts, ← Session.threads_model, h, Session.threads_model]
  rfl

/-- Requests that come to a mailbox name no new script. -/
theorem Sourced.requests (h : Sourced T w s d) {rs : List Request}
    (hmodel : (w'.session s).model = (w.session s).model)
    (hmail : w'.mail s = w.mail s ++ rs.map .request) : Sourced T w' s d := by
  refine ⟨h.entered, fun e he => h.events e ?_, fun script hs => h.frames script ?_⟩
  · rw [hmail] at he
    refine (List.mem_append.mp he).resolve_right fun he => ?_
    obtain ⟨r, -, hr⟩ := List.mem_map.mp he
    cases hr
  · rwa [frameScripts_of_model hmodel] at hs

/-- A debugger that changes tells of scripts that are known. -/
theorem Sourced.becomes (h : Sourced T w s d) (hlive : Live w s d) {es : List Event}
    (hb : Becomes s d' es w w') (hstacks : ∀ x ∈ d'.executions, ∀ a ∈ x.stack, T a.script)
    (hes : ∀ e ∈ es, ∀ script ∈ e.scripts, T script) : Sourced T w' s d' := by
  refine ⟨hstacks, fun e he => ?_, fun script hs => h.frames script ?_⟩
  · rw [hlive.mail_becomes hb] at he
    rcases List.mem_append.mp he with he | he
    · exact h.events e he
    · obtain ⟨e', he', heq⟩ := List.mem_map.mp he
      cases heq
      exact hes e he'
  · rwa [frameScripts_of_model hb.tells.here.model] at hs

/-- A report names only scripts that threads entered. -/
theorem Sourced.reports (h : Sourced T w s d) (hts : ∀ t ∈ ts, T t) (hlive : Live w s d)
    (hr : Reports s o ts w d w' d') : Sourced T w' s d' := by
  have hmap : ∀ x ∈ d.executions, ∀ script ∈ x.stack.map Activation.script, T script := by
    intro x hx script hs
    obtain ⟨a, ha, rfl⟩ := List.mem_map.mp hs
    exact h.entered x hx a ha
  cases hr with
  | opened name hnew hn hb =>
      refine h.becomes hlive hb (fun x hx => ?_) (List.forall_mem_nil _)
      rcases List.mem_append.mp hx with hx | hx
      · exact h.entered x hx
      · obtain rfl := List.mem_singleton.mp hx
        exact List.forall_mem_nil _
  | said x x' es hx ho hs hb =>
      refine h.becomes hlive hb (fun y hy a ha => ?_) fun e he script hscript => ?_
      · obtain ⟨hy, -⟩ | ⟨rfl, -⟩ := Debugger.mem_put hy
        · exact h.entered y hy a ha
        · exact (hs.mem_stack ha).elim (h.entered x hx a) (hts a.script)
      · exact (hs.mem_scripts he hscript).elim (hmap x hx script) (hts script)
  | told x e hx ho he hb =>
      refine h.becomes hlive hb h.entered fun e' he' script hs => ?_
      obtain rfl := List.mem_singleton.mp he'
      exact hmap x hx script (he.mem_scripts hs)
  | quiet es hq hb =>
      refine h.becomes hlive hb h.entered fun e he script hs => ?_
      rw [Event.scripts_of_isQuiet (hq e he)] at hs
      cases hs
  | gone x hx ho hb =>
      refine h.becomes hlive hb (fun y hy => h.entered y (List.mem_filter.mp hy).1) fun e he => ?_
      obtain rfl := List.mem_singleton.mp he
      exact List.forall_mem_nil _

/-- Work of a debugger names only scripts that threads entered. -/
theorem Sourced.works (h : Sourced T w s d) (hts : ∀ t ∈ ts, T t) (hlive : Live w s d)
    (hw : Works s o ts w d w' d') : Sourced T w' s d' :=
  hlive.works_induction (P := fun w d => Sourced T w s d) hw h fun hlive h hr =>
    h.reports hts hlive hr

/-- A message that was taken was the oldest one. -/
theorem Sourced.takes {u : World} {m : Message} (h : Sourced T w s d) (hu : Takes s w u)
    (hmail : w.mail s = m :: u.mail s) : Sourced T u s d := by
  refine ⟨h.entered, fun e he => h.events e ?_, fun script hs => h.frames script ?_⟩
  · rw [hmail]
    exact List.mem_cons_of_mem _ he
  · rwa [hu.here] at hs

/-- An event that is heard brings the frames that it told of. -/
theorem Sourced.shows (h : Sourced T w s d) (hts : ∀ t ∈ ts, T t) (hs : Shows s ts w w') :
    Sourced T w' s d := by
  refine ⟨h.entered, fun e he => h.events e ?_, fun script hmem => ?_⟩
  · rwa [mail_of_outer (outer_of_shell hs.here)] at he
  · exact (hs.frames script hmem).elim (h.frames script) (hts script)

/-- A breakpoint is routed to the registered script of its resource, or to that of a frame. -/
theorem scriptFor?_cases {w : World} {p : Breakpoint} {script : Script}
    (h : w.scriptFor? s p = some script) :
    (w.session s).scripts.find? p.resource = some script
      ∨ script ∈ (w.session s).frameScripts ∧ script.isOf p.resource = true := by
  unfold scriptFor? at h
  dsimp only at h
  split at h
  · next t hfind => exact .inl (hfind.trans h)
  · obtain ⟨f, hf, rfl⟩ := List.mem_map.mp (List.mem_of_find?_eq_some h)
    obtain ⟨t, ht, hvisible⟩ := List.mem_flatMap.mp hf
    refine .inr ⟨mem_frameScripts.mpr ⟨t, ht, f, ?_, rfl⟩, ?_⟩
    · unfold Thread.visibleFrames at hvisible
      split at hvisible
      · exact hvisible
      · exact hvisible
      · cases hvisible
      · cases hvisible
    · have hof := List.find?_some h
      unfold Script.isOf
      cases hr : f.activation.script.resource with
      | none => simp [hr] at hof
      | some resource => simpa [hr, Resource.same_comm] using hof

/-- An enabled breakpoint is registered at a line of a resource. -/
def StopsAt (w : World) (s : Nat) (r : Resource) (line : Nat) : Prop :=
  ∃ p ∈ w.breakpoints s, p.resource.same r = true ∧ w.marks.isEnabled p = true ∧ p.line = line

end World

namespace Bridge

open World

variable {σ : Type} [Inhabited σ] [Engine σ] {T : Script → Prop} {s : Nat} {d d' : Debugger}
  {b b' : Bridge σ} {x : Deed σ}

/-- A step of a live session names scripts that were known, or those of its call. -/
theorem sourced_goes (hx : ∀ t ∈ x.scripts, T t) (hs : Sourced T b.world s d)
    (hlive : Live b.world s d) (hlive' : Live b'.world s d') (h : Goes s b d x b' d') :
    Sourced T b'.world s d' := by
  cases h with
  | asked rs hnone hr hd hmodel hmail hb hn =>
      subst hd
      exact hs.requests hmodel hmail
  | changed p c hp hd hmodel hmail hb hn =>
      subst hd
      exact hs.requests hmodel hmail
  | called i c hcall hi hw hrun hworks hb =>
      subst hcall
      exact hs.works hx hlive hworks
  | shown e u j hx hd hu hliveU hmail hready hrun hshows hend hbroken hb =>
      subst hd
      refine (hs.takes hu hmail).shows (hs.events e ?_) hshows
      rw [hmail]
      exact List.mem_cons_self
  | answered script thread root u v handle kind j hx hd hu hliveU hmail hready hrun hv hid hposts
      hmail' hb =>
      subst hd
      have hshown : Sourced T v s d' := (hs.takes hu hmail).shows (List.forall_mem_nil _) hv
      have hmodel : ((v.register s script).session s).frameScripts = (v.session s).frameScripts := by
        rw [register, session_modifySession, if_pos rfl]
        rfl
      refine ⟨hshown.entered, fun e he => ?_, fun script' hs' => hshown.frames script' ?_⟩
      · rw [hmail'] at he
        refine (hs.takes hu hmail).events e ((List.mem_append.mp he).resolve_right fun he => ?_)
        obtain ⟨r, -, hr⟩ := List.mem_map.mp he
        cases hr
      · rwa [frameScripts_of_model hposts.here.model, hmodel] at hs'
  | obeyed r u hx hu hliveU hmail hr hend hobeyed hb =>
      have hbefore : Sourced T u.world s d := hs.takes hu hmail
      cases hobeyed with
      | resumed handle kind y hr hy hreports =>
          obtain rfl := Live.unique hlive' (hliveU.reports hreports)
          exact hbefore.reports (List.forall_mem_nil _) hliveU hreports
      | served o d₁ hr hx hworks hstation =>
          obtain rfl := Live.unique hlive' (hliveU.works hworks)
          exact hbefore.works (List.forall_mem_nil _) hliveU hworks
      | nudged thread hr f hf hbecomes =>
          obtain rfl := hlive'.eq_of_debugger hbecomes.debugger
          refine hbefore.becomes hliveU hbecomes (fun y hy a ha => ?_) (List.forall_mem_nil _)
          obtain ⟨z, hz, rfl⟩ := List.mem_map.mp hy
          obtain ⟨-, -, -, hstack⟩ := Execution.same_of_asks hf z
          exact hbefore.entered z hz a (hstack ▸ ha)
      | noted script point mode hr hbecomes =>
          obtain rfl := hlive'.eq_of_debugger hbecomes.debugger
          exact hbefore.becomes hliveU hbecomes hbefore.entered (List.forall_mem_nil _)
      | left hr => exact absurd hr hend

/-! ### Breakpoints of one resource -/

omit [Inhabited σ] [Engine σ] in
/-- A script is reported ready by an event that waited. -/
theorem exists_mem_mail_of_readied? {script : Script}
    (h : b.readied? s x = some script) :
    ∃ thread root, .event (.scriptReady script thread root) ∈ b.world.mail s := by
  unfold readied? at h
  split at h
  · next script' thread root hhanded =>
      have hmem := hhanded
      rw [eq_deliver_of_handed hhanded, handed_deliver] at hmem
      dsimp only at h
      split at h
      · obtain rfl := Option.some.inj h
        exact ⟨thread, root, List.mem_of_mem_head? hmem⟩
      · cases h
  · cases h

/-- A script gets no breakpoints but those of its own resource. -/
structure Placed (T : Script → Prop) (s : Nat) (ds : List (Deed σ)) (b : Bridge σ) : Prop where
  ready : ∀ r script, ((run ds b).world.session s).scripts.find? r = some script →
    T script ∧ script.isOf r = true
  promised : ∀ t, T t → ∀ p ∈ (run ds b).world.promised s t, t.isOf p.resource = true
  past : ∀ r script old, ((run ds b).world.session s).scripts.find? r = some script →
    recollect s r ds b = some (script, old) → ∀ p ∈ old, script.isOf p.resource = true

variable {ds : List (Deed σ)}

/-- Breakpoints are placed in their own resource after a step of the session. -/
theorem Placed.step (hT : ∀ t t', T t → T t' → t.id = t'.id → t = t') (h : Placed T s ds b)
    (hs : Sourced T (run ds b).world s d)
    (hstep : Refits s (run ds b) x (run (ds ++ [x]) b)) : Placed T s (ds ++ [x]) b := by
  cases hstep with
  | kept hready hr hb hp =>
      have hrecall := recollect_of_readied?_eq_none hready
      refine ⟨fun r script hfind => h.ready r script (hr ▸ hfind), fun t ht p hmem => ?_,
        fun r script old hfind hlast => h.past r script old (hr ▸ hfind) (hrecall r ▸ hlast)⟩
      exact h.promised t ht p (hp t ▸ hmem)
  | changed p c hpoint hr hb hp =>
      have hrecall := recollect_of_readied?_eq_none (readied?_of_handed_eq_none
        (handed_of_point? (b := run ds b) (s := s) hpoint))
      refine ⟨fun r script hfind => h.ready r script (hr ▸ hfind), fun t ht q hmem => ?_,
        fun r script old hfind hlast => h.past r script old (hr ▸ hfind) (hrecall r ▸ hlast)⟩
      rw [hp] at hmem
      split at hmem
      · next hroute =>
          obtain ⟨script, hscript, hid⟩ := (Option.any_eq_true _ _).mp hroute
          have hsource : T script ∧ script.isOf p.resource = true := by
            obtain hfind | ⟨hframe, hof⟩ := scriptFor?_cases hscript
            · exact h.ready p.resource script hfind
            · exact ⟨hs.frames script hframe, hof⟩
          obtain rfl := hT script t hsource.1 ht (by simpa using hid)
          obtain hmem | rfl := mem_foldl_apply hmem
          · exact h.promised script ht q hmem
          · exact hsource.2
      · exact h.promised t ht q hmem
  | answered t hready hr hb hp =>
      have hrecall := recollect_of_readied?_eq_some hready
      obtain ⟨thread, root, hmail⟩ := exists_mem_mail_of_readied? hready
      have ht : T t := hs.events _ hmail t List.mem_cons_self
      refine ⟨fun r script hfind => ?_, fun t' ht' q hmem => ?_, fun r script old hfind hlast => ?_⟩
      · rw [hr, Registry.find?_insert] at hfind
        split at hfind
        · next hof =>
            obtain rfl := Option.some.inj hfind
            exact ⟨ht, hof⟩
        · exact h.ready r script hfind
      · rw [hp] at hmem
        split at hmem
        · next hid =>
            obtain rfl := hT t t' ht ht' hid
            rcases List.mem_append.mp hmem with hmem | hmem
            · exact h.promised t ht q hmem
            · exact (List.mem_filter.mp hmem).2
        · exact h.promised t' ht' q hmem
      · rw [hr, Registry.find?_insert] at hfind
        rw [hrecall] at hlast
        split at hfind
        · next hof =>
            rw [if_pos hof] at hlast
            obtain rfl := Option.some.inj hfind
            obtain rfl : (run ds b).world.promised s t = old := (Prod.mk.inj (Option.some.inj hlast)).2
            exact h.promised t ht
        · next hof =>
            rw [if_neg hof] at hlast
            exact h.past r script old hfind hlast

/-- In any run breakpoints are placed in their own resource, if scripts are told apart by their
numbers. -/
theorem placed_run (hb : b.Fresh) (hT : ∀ t t', T t → T t' → t.id = t'.id → t = t')
    (ds : List (Deed σ)) (hds : ∀ x ∈ ds, ∀ t ∈ x.scripts, T t)
    (hlive : Live (run ds b).world s d) : Placed T s ds b := by
  refine (live_induction hb (J := fun ds d => (∀ x ∈ ds, ∀ t ∈ x.scripts, T t) →
    Sourced T (run ds b).world s d ∧ Placed T s ds b) (fun ds x d hopened _ => ?_)
    (fun ds x d d' hlive ih hgoes hlive' hds => ?_) ds hlive hds).2
  · have hthreads : ((run (ds ++ [x]) b).world.session s).threads = [] := by
      rw [Session.threads, hopened.process]
    refine ⟨⟨?_, fun e he => ?_, fun script hs => ?_⟩, fun r script hfind => ?_, fun t _ p hp => ?_,
      fun r script old hfind => ?_⟩
    · rw [hopened.executions]
      exact List.forall_mem_nil _
    · rw [hopened.mail] at he
      cases he
    · rw [Session.frameScripts, hthreads] at hs
      cases hs
    · rw [hopened.scripts] at hfind
      cases hfind
    · rw [World.promised, hopened.mail, debugger_eq hopened.here, hopened.table] at hp
      cases hp
    · rw [hopened.scripts] at hfind
      cases hfind
  · obtain ⟨hs, hplaced⟩ := ih fun y hy => hds y (List.mem_append_left _ hy)
    have hx := hds x (List.mem_append_right _ List.mem_cons_self)
    exact ⟨sourced_goes hx hs hlive hlive' hgoes,
      hplaced.step hT hs (refits_goes hlive hlive' hgoes)⟩

/-! ### What stays behind -/

/-- The scripts that threads may enter in a run. -/
def scriptsIn (ds : List (Deed σ)) : List Script :=
  ds.flatMap Deed.scripts

/-- Whenever nothing is on its way, the interpreter has for a script what it was to have when the
script was last reported ready, and what is registered now. -/
theorem mem_table_iff_run (hb : b.Fresh) (ds : List (Deed σ))
    (hpoints : ∀ p ∈ points ds, ∀ q ∈ points ds, p.id = q.id → p = q)
    (hscripts : ∀ t ∈ scriptsIn ds, ∀ t' ∈ scriptsIn ds, t.id = t'.id → t = t')
    (hlive : Live (run ds b).world s d)
    (hq : ((run ds b).world.session s).mailbox.queue = []) {r : Resource} {script : Script}
    (hready : ((run ds b).world.session s).scripts.find? r = some script) :
    ∃ old, recollect s r ds b = some (script, old) ∧ ∀ p, p ∈ d.table.find script ↔
      p ∈ old ∨ p ∈ (run ds b).world.breakpoints s ∧ p.resource.same r = true := by
  have hds : ∀ x ∈ ds, ∀ p, x.point? = some p → p ∈ points ds := fun x hx p hp => mem_points hx hp
  have hK : ∀ p q, p ∈ points ds → q ∈ points ds → p.id = q.id → p = q := fun p q hp hq =>
    hpoints p hp q hq
  have htallied : Tallied (· ∈ points ds) s ds b := tallied_run hb hK ds hds hlive
  have hplaced : Placed (· ∈ scriptsIn ds) s ds b :=
    placed_run hb (fun t t' ht ht' => hscripts t ht t' ht') ds
      (fun x hx t ht => List.mem_flatMap.mpr ⟨x, hx, ht⟩) hlive
  have hregistered := (registered_run hb ds hds ((run ds b).world.session s).manager).1
  have hpromised : (run ds b).world.promised s script = d.table.find script := by
    rw [World.promised, mail, hq, debugger_eq hlive.here]
    rfl
  obtain ⟨old, hlast, hpast⟩ := htallied.latest r script hready
  obtain ⟨hsource, hof⟩ := hplaced.ready r script hready
  have hsame : ∀ p : Breakpoint, script.isOf p.resource = true → p.resource.same r = true := by
    intro p hp
    unfold Script.isOf at hp hof
    obtain ⟨resource, hresource, hpr⟩ := (Option.any_eq_true _ _).mp hp
    rw [hresource, Option.any_some] at hof
    rwa [← Resource.same_congr hof, Resource.same_comm, Resource.same_comm] at hpr
  have hcounted := htallied.counted r script old hready hlast
  refine ⟨old, hlast, fun p => ⟨fun hp => ?_, ?_⟩⟩
  · rw [← hpromised] at hp
    have hpr := hsame p (hplaced.promised script hsource p hp)
    have hpK := htallied.known script p hp
    have hpos : 0 < tally p.id ((run ds b).world.promised s script) := tally_pos.mpr ⟨p, hp, rfl⟩
    rw [hcounted p hpK hpr] at hpos
    obtain hold | hnow : 0 < tally p.id old ∨ 0 < tally p.id ((run ds b).world.breakpoints s) := by
      omega
    · obtain ⟨q, hq, hid⟩ := tally_pos.mp hold
      exact .inl (hK q p (hpast q hq) hpK hid ▸ hq)
    · obtain ⟨q, hq, hid⟩ := tally_pos.mp hnow
      exact .inr ⟨hK q p (hregistered q hq) hpK hid ▸ hq, hpr⟩
  · intro h
    have hin : p ∈ points ds ∧ p.resource.same r = true ∧ 0 < tally p.id old
        + tally p.id ((run ds b).world.breakpoints s) := by
      obtain hp | ⟨hp, hpr⟩ := h
      · have hpos : 0 < tally p.id old := tally_pos.mpr ⟨p, hp, rfl⟩
        exact ⟨hpast p hp, hsame p (hplaced.past r script old hready hlast p hp), by omega⟩
      · have hpos : 0 < tally p.id ((run ds b).world.breakpoints s) := tally_pos.mpr ⟨p, hp, rfl⟩
        exact ⟨hregistered p hp, hpr, by omega⟩
    obtain ⟨hpK, hpr, hpos⟩ := hin
    rw [← hcounted p hpK hpr] at hpos
    obtain ⟨q, hq, hid⟩ := tally_pos.mp hpos
    rw [← hpromised, ← hK q p (htallied.known script q hq) hpK hid]
    exact hq

/-- Whenever nothing is on its way, the interpreter has registered breakpoints only, exactly if all
that its script was to have before it was last reported ready are still registered. It would stop
at enabled registered breakpoints only, exactly if this holds of the lines of those. -/
theorem onlyRegistered_iff_run (hb : b.Fresh) (ds : List (Deed σ))
    (hpoints : ∀ p ∈ points ds, ∀ q ∈ points ds, p.id = q.id → p = q)
    (hscripts : ∀ t ∈ scriptsIn ds, ∀ t' ∈ scriptsIn ds, t.id = t'.id → t = t')
    (hl : ((run ds b).world.session s).alive = true)
    (ha : ((run ds b).world.session s).attached = true)
    (hd : ((run ds b).world.session s).debugger = some d)
    (hq : ((run ds b).world.session s).mailbox.queue = []) {r : Resource} {script : Script}
    (hready : ((run ds b).world.session s).scripts.find? r = some script) :
    ∃ old, recollect s r ds b = some (script, old)
      ∧ ((∀ p ∈ d.table.find script, p ∈ (run ds b).world.breakpoints s)
        ↔ ∀ q ∈ old, q ∈ (run ds b).world.breakpoints s)
      ∧ ((∀ line, d.table.isActive (run ds b).world.marks script line = true →
          (run ds b).world.StopsAt s r line)
        ↔ ∀ q ∈ old, (run ds b).world.marks.isEnabled q = true →
          (run ds b).world.StopsAt s r q.line) := by
  have hlive := live_of_queue_eq_nil hb ds hl ha hd hq
  obtain ⟨old, hlast, hmem⟩ := mem_table_iff_run hb ds hpoints hscripts hlive hq hready
  refine ⟨old, hlast, ⟨fun h q hq => ?_, fun h p hp => ?_⟩, fun h q hq hon => ?_,
    fun h line hline => ?_⟩
  · exact h q ((hmem q).mpr (.inl hq))
  · exact ((hmem p).mp hp).elim (h p) And.left
  · exact h q.line (BreakpointTable.isActive_iff.mpr ⟨q, (hmem q).mpr (.inl hq), hon, rfl⟩)
  · obtain ⟨p, hp, hon, rfl⟩ := BreakpointTable.isActive_iff.mp hline
    obtain hold | ⟨hnow, hsame⟩ := (hmem p).mp hp
    · exact h p hold hon
    · exact ⟨p, hnow, hsame, hon, rfl⟩

/-- A script is started once more after a breakpoint was sent, and then the breakpoint is removed. -/
def startAgainThenRemove : List (Deed VariableTable) :=
  let i : Interpreter := .idle 0 "main" 0
  let script : Script := ⟨0, "a", some ⟨"a"⟩, false⟩
  let p : Breakpoint := ⟨0, ⟨"a"⟩, 3⟩
  [.launch ⟨.off, 0, true, true, true⟩, .addBreakpoint 0 p, .call i (.scriptStarted script),
    .deliver 0, .deliver 0, .deliver 0, .deliver 0, .call i (.scriptStarted script), .deliver 0,
    .deliver 0, .deliver 0, .deliver 0, .removeBreakpoint 0 p, .deliver 0]

/-- The interpreter has the breakpoint still, and would stop at it. -/
theorem onlyRegistered_iff_startAgainThenRemove :
    (run startAgainThenRemove ∅).world.breakpoints 0 = []
      ∧ (¬∀ p ∈ ((run startAgainThenRemove ∅).world.debugger 0).table.find
            ⟨0, "a", some ⟨"a"⟩, false⟩, p ∈ (run startAgainThenRemove ∅).world.breakpoints 0)
      ∧ ((run startAgainThenRemove ∅).world.debugger 0).table.isActive
          (run startAgainThenRemove ∅).world.marks ⟨0, "a", some ⟨"a"⟩, false⟩ 3 = true := by
  have hnone : (run startAgainThenRemove ∅).world.breakpoints 0 = [] :=
    List.isEmpty_iff.mp (by decide +kernel)
  have hpast : recollect 0 ⟨"a"⟩ startAgainThenRemove ∅
      = some (⟨0, "a", some ⟨"a"⟩, false⟩, [⟨0, ⟨"a"⟩, 3⟩]) := by
    decide +kernel
  have hready : ((run startAgainThenRemove ∅).world.session 0).scripts.find? ⟨"a"⟩
      = some ⟨0, "a", some ⟨"a"⟩, false⟩ := by
    decide +kernel
  refine ⟨hnone, fun h => ?_, by decide +kernel⟩
  obtain ⟨old, hlast, hkept, -⟩ := onlyRegistered_iff_run (b := ∅) (s := 0)
    ⟨World.start.reaction, rfl⟩ startAgainThenRemove (by decide +kernel) (by decide +kernel)
    (by decide +kernel) (by decide +kernel) (debugger_of_isSome (by decide +kernel))
    (List.isEmpty_iff.mp (by decide +kernel)) hready
  obtain rfl := (Prod.mk.inj (Option.some.inj (hpast.symm.trans hlast))).2
  have hmem := hkept.mp h _ List.mem_cons_self
  rw [hnone] at hmem
  cases hmem

end Bridge

end DebugBridge
