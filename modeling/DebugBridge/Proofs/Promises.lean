import Mathlib.Data.List.Nodup
import DebugBridge.Interpreter.VariableTable
import DebugBridge.Proofs.Lifetime

/-!
# Breakpoints on their way

The breakpoints of a session are kept three times: by its manager, by the registry of its scripts,
which tells where they belong, and by the table of its interpreter. Changes reach the table late, one
request after the other. So what follows the manager at every moment is not the table, but what the
table will be once all requests that wait were taken.

A breakpoint is promised to a script when a change of it is routed there, and when the script is
reported ready. From then on every change of the manager changes by one how often it is promised.
What was promised before that, no change takes back.

## Main definitions

* `World.promised`: what the interpreter will have for a script;
* `Bridge.recollect`: what was promised to the script of a resource before it was reported ready;
* `Bridge.Tallied`: how often a breakpoint is promised.

## Main results

* `registered_run`: managers hold breakpoints of users, each once;
* `tallied_run`: a breakpoint is promised once for the manager, and as often as it was before its
  script was reported ready;
* `inForce_run`: the interpreter has all registered breakpoints when nothing is on its way.
-/

namespace DebugBridge

/-! ### Scripts of a resource -/

/-- Whether a script is of a resource. -/
def Script.isOf (script : Script) (r : Resource) : Bool :=
  script.resource.any fun resource => r.same resource

/-- Two resources are the same if they have the same components. -/
theorem Resource.same_iff {r r' : Resource} : r.same r' = true ↔ r.components = r'.components := by
  simp [Resource.same]

/-- The same resource is the same as others. -/
theorem Resource.same_congr {r r' : Resource} (h : r.same r' = true) (other : Resource) :
    other.same r = other.same r' := by
  rw [Resource.same_iff] at h
  rw [Resource.same, Resource.same, h]

/-- It does not matter which of two resources is compared with the other. -/
theorem Resource.same_comm (r r' : Resource) : r.same r' = r'.same r := by
  rw [Bool.eq_iff_iff, Resource.same_iff, Resource.same_iff]
  exact eq_comm

/-- A script is of a resource if it is of the same one. -/
theorem Script.isOf_congr {script : Script} {r r' : Resource} (h : r.same r' = true) :
    script.isOf r = script.isOf r' := by
  unfold Script.isOf
  congr 1
  funext resource
  rw [Resource.same_comm, Resource.same_congr h, Resource.same_comm]

namespace Registry

/-- A resource has the script of any path that names it. -/
theorem find?_congr (reg : Registry) {r r' : Resource} (h : r.same r' = true) :
    reg.find? r = reg.find? r' := by
  rw [find?, find?]
  congr 2
  funext e
  exact Resource.same_congr h e.1

/-- A script that is recorded is found by its resource, and all others as before. -/
theorem find?_insert (reg : Registry) (script : Script) (r : Resource) :
    (reg.insert script).find? r = if script.isOf r then some script else reg.find? r := by
  unfold insert Script.isOf
  cases script.resource with
  | none => rfl
  | some resource =>
      by_cases hr : r.same resource = true
      · have hhead : resource.same r = true := by rwa [Resource.same_comm]
        simp [find?, hr, hhead]
      · have hhead : resource.same r = false := by
          rw [Resource.same_comm]
          exact Bool.eq_false_iff.mpr hr
        have hrest : ((reg.entries.filter fun e => !e.1.same resource).find? fun e => e.1.same r)
            = reg.entries.find? fun e => e.1.same r := by
          rw [List.find?_filter]
          congr 1
          funext e
          by_cases he : e.1.same r = true
          · have hother : e.1.same resource = false := by
              rw [← Resource.same_congr he resource, Resource.same_comm] at hhead
              exact hhead
            simp [he, hother]
          · simp [he]
        simp [find?, hr, hhead, hrest]

end Registry

/-! ### Tables -/

/-- What is left of the breakpoints of a script after one is added or removed. -/
def BreakpointMode.apply (mode : BreakpointMode) (p : Breakpoint) (ps : List Breakpoint) :
    List Breakpoint :=
  match mode with
  | .add => ps ++ [p]
  | .remove => ps.eraseP fun q => q.id = p.id

namespace BreakpointTable

/-- A table without an entry has all others. -/
theorem lookup_filter_ne (table : BreakpointTable) (i j : Nat) :
    (table.filter fun e => e.1 ≠ i).lookup j = if i = j then none else table.lookup j := by
  induction table with
  | nil => simp
  | cons e table ih =>
      obtain ⟨k, ps⟩ := e
      by_cases hk : k = i
      · rw [List.filter_cons_of_neg (by simpa using hk), ih, List.lookup_cons]
        by_cases hij : i = j
        · rw [if_pos hij, if_pos hij]
        · have hjk : (j == k) = false := beq_eq_false_iff_ne.mpr fun h => hij (hk ▸ h.symm)
          rw [if_neg hij, if_neg hij, hjk]
      · rw [List.filter_cons_of_pos (by simpa using hk), List.lookup_cons, List.lookup_cons, ih]
        by_cases hjk : j = k
        · have hij : i ≠ j := fun h => hk (h.trans hjk).symm
          rw [if_neg hij, if_neg hij]
        · have hbeq : (j == k) = false := beq_eq_false_iff_ne.mpr hjk
          rw [hbeq]

/-- A script finds what was put for it, and all others find what they found. -/
theorem find_put (table : BreakpointTable) (script t : Script) (ps : List Breakpoint) :
    (table.put script ps).find t = if script.id = t.id then ps else table.find t := by
  rw [find, find, put, List.lookup_cons, lookup_filter_ne]
  by_cases h : script.id = t.id
  · have hbeq : (t.id == script.id) = true := beq_iff_eq.mpr h.symm
    rw [hbeq, if_pos h, if_pos h]
    rfl
  · have hbeq : (t.id == script.id) = false := beq_eq_false_iff_ne.mpr (Ne.symm h)
    rw [hbeq, if_neg h, if_neg h]

/-- A change for a script shows in the breakpoints of that script alone. -/
theorem find_update (table : BreakpointTable) (script t : Script) (p : Breakpoint)
    (mode : BreakpointMode) :
    (table.update script p mode).find t
      = if script.id = t.id then mode.apply p (table.find t) else table.find t := by
  have hsame : script.id = t.id → table.find script = table.find t := by
    intro h
    rw [find, find, h]
  cases mode with
  | add =>
      rw [update, add, find_put]
      split
      · next h => rw [hsame h]; rfl
      · rfl
  | remove =>
      rw [update, remove, find_put]
      split
      · next h => rw [hsame h]; rfl
      · rfl

/-- A line of a script is active if an enabled breakpoint of the script lies there. -/
theorem isActive_iff {table : BreakpointTable} {m : Marks} {script : Script} {line : Nat} :
    table.isActive m script line = true
      ↔ ∃ p ∈ table.find script, m.isEnabled p = true ∧ p.line = line := by
  simp [isActive, and_comm]

end BreakpointTable

/-! ### Promises -/

/-- What a message makes of the breakpoints of a script. -/
def promise (t : Script) (ps : List Breakpoint) : Message → List Breakpoint
  | .request (.breakpoint script p mode) => if script.id = t.id then mode.apply p ps else ps
  | _ => ps

/-- The breakpoints that the interpreter will have for a script once it took all requests that
wait. -/
def World.promised (w : World) (s : Nat) (t : Script) : List Breakpoint :=
  (w.mail s).foldl (promise t) ((w.debugger s).table.find t)

/-- Events promise nothing. -/
theorem foldl_promise_event (t : Script) (es : List Event) (ps : List Breakpoint) :
    (es.map Message.event).foldl (promise t) ps = ps := by
  induction es with
  | nil => rfl
  | cons e es ih => exact ih

/-- Orders promise nothing. -/
theorem foldl_promise_order (t : Script) (rs : List Request) (hr : ∀ r ∈ rs, r.IsOrder)
    (ps : List Breakpoint) : (rs.map Message.request).foldl (promise t) ps = ps := by
  induction rs with
  | nil => rfl
  | cons r rs ih =>
      have hhead : promise t ps (.request r) = ps := by
        have horder := hr r List.mem_cons_self
        cases r with
        | breakpoint => cases horder
        | _ => rfl
      rw [List.map_cons, List.foldl_cons, hhead]
      exact ih fun r' hr' => hr r' (List.mem_cons_of_mem _ hr')

/-- All breakpoints of a list are promised to one script. -/
theorem foldl_promise_add (t script : Script) (qs ps : List Breakpoint) :
    ((qs.map (Request.breakpoint script · .add)).map Message.request).foldl (promise t) ps
      = if script.id = t.id then ps ++ qs else ps := by
  induction qs generalizing ps with
  | nil => simp
  | cons q qs ih =>
      rw [List.map_cons, List.map_cons, List.foldl_cons, ih]
      by_cases h : script.id = t.id
      · simp [promise, BreakpointMode.apply, h]
      · simp [promise, h]

namespace World

variable {s : Nat} {d : Debugger} {w w' : World}

/-- What is added to the messages that wait is taken last. -/
theorem promised_append {d' : Debugger} {ms : List Message}
    (hd : (w.session s).debugger = some d) (hd' : (w'.session s).debugger = some d')
    (htable : d'.table = d.table) (hmail : w'.mail s = w.mail s ++ ms) (t : Script) :
    w'.promised s t = ms.foldl (promise t) (w.promised s t) := by
  rw [promised, promised, debugger_eq hd, debugger_eq hd', htable, hmail, List.foldl_append]

/-- A message that does not concern a script can be left out. -/
theorem promised_of_takes {u : World} {m : Message} (hu : Takes s w u)
    (hmail : w.mail s = m :: u.mail s) {t : Script}
    (hm : ∀ ps, promise t ps m = ps) : u.promised s t = w.promised s t := by
  have hd : u.debugger s = w.debugger s := by rw [debugger, debugger, hu.here]
  rw [promised, promised, hmail, List.foldl_cons, hm, hd]

/-- The breakpoints of a session that lie in a script. -/
theorem breakpointsIn_eq (w : World) (s : Nat) (script : Script) :
    w.breakpointsIn s script = (w.breakpoints s).filter fun p => script.isOf p.resource := by
  unfold breakpointsIn Script.isOf
  cases script.resource with
  | none => simp
  | some resource => rfl

end World

/-! ### Registered breakpoints -/

namespace World

/-- Managers get no breakpoints but those with a property, and each once. -/
structure Registers (P : Breakpoint → Prop) (w w' : World) : Prop where
  old : ∀ m p, p ∈ (w'.manager m).breakpoints → p ∈ (w.manager m).breakpoints ∨ P p
  once : ∀ m, ((w.manager m).breakpoints.map Breakpoint.id).Nodup →
    ((w'.manager m).breakpoints.map Breakpoint.id).Nodup

variable {P : Breakpoint → Prop} {w w' : World}

/-- Managers that have the breakpoints that they had registered none. -/
theorem Registers.of_breakpoints
    (h : ∀ m, (w'.manager m).breakpoints = (w.manager m).breakpoints) : Registers P w w' :=
  ⟨fun m _ hp => .inl (h m ▸ hp), fun m hn => h m ▸ hn⟩

/-- Managers that are left as they are registered none. -/
theorem Registers.of_managers (h : w'.managers = w.managers) : Registers P w w' :=
  .of_breakpoints fun m => by rw [manager, manager, h]

/-- Steps in which managers register breakpoints hold of a sequence. -/
theorem steady_registers : Steady (Registers P) where
  refl _ := .of_managers rfl
  trans h h' :=
    ⟨fun m p hp => (h'.old m p hp).elim (h.old m p) .inr, fun m hn => h'.once m (h.once m hn)⟩

/-- A manager registers a breakpoint that it does not have. -/
theorem registers_enter (w : World) (m : Nat) (p : Breakpoint) (hnew : (w.manager m).has p = false)
    (hp : P p) : Registers P w (w.modifyManager m fun manager =>
      { manager with breakpoints := manager.breakpoints ++ [p] }) := by
  refine ⟨fun m' q hq => ?_, fun m' hn => ?_⟩
  · rw [Bridge.breakpoints_modifyManager w m (· ++ [p]) m'] at hq
    split at hq
    · next hm =>
        subst hm
        rcases List.mem_append.mp hq with hq | hq
        · exact .inl hq
        · obtain rfl := List.mem_singleton.mp hq
          exact .inr hp
    · exact .inl hq
  · rw [Bridge.breakpoints_modifyManager w m (· ++ [p]) m']
    split
    · next hm =>
        subst hm
        rw [List.map_append, List.nodup_append]
        refine ⟨hn, List.pairwise_singleton _ _, ?_⟩
        rintro i hi j hj rfl
        obtain ⟨q, hq, hqi⟩ := List.mem_map.mp hi
        have hhas := (BreakpointManager.has_iff (w.manager m) p).mpr
          ⟨q, hq, hqi.trans (List.mem_singleton.mp hj)⟩
        rw [hnew] at hhas
        cases hhas
    · exact hn

/-- A breakpoint that is taken away is registered no more, and all others are. -/
theorem registers_leave (w : World) (m : Nat) (p : Breakpoint) :
    Registers P w (w.modifyManager m fun manager =>
      { manager with breakpoints := manager.breakpoints.filter fun q => q.id ≠ p.id }) := by
  let w' := w.modifyManager m fun manager =>
    { manager with breakpoints := manager.breakpoints.filter fun q => q.id ≠ p.id }
  have hsub : ∀ m', (w'.manager m').breakpoints.Sublist (w.manager m').breakpoints := by
    intro m'
    rw [Bridge.breakpoints_modifyManager w m (List.filter fun q => q.id ≠ p.id) m']
    split
    · next hm => exact hm ▸ List.filter_sublist
    · exact List.Sublist.refl _
  exact ⟨fun m' q hq => .inl ((hsub m').subset hq), fun m' hn => hn.sublist ((hsub m').map _)⟩

end World

namespace Bridge

open World

variable {σ : Type} [Inhabited σ] [Engine σ] {s : Nat} {d d' : Debugger}

/-- Whatever is done, managers get no breakpoints but those that users add. -/
theorem covers_registers {P : Breakpoint → Prop} : Covers P (Registers P) where
  toSteady := steady_registers
  shared _ hm _ _ := .of_managers hm
  asks h := .of_managers h.managers
  tells h := .of_managers h.managers
  shows h := .of_managers h.managers
  posts h := .of_managers h.managers
  take _ _ := .of_managers rfl
  register _ _ _ := .of_managers rfl
  close w s := .of_breakpoints (breakpoints_close w s)
  drop _ _ := .of_managers rfl
  enter := registers_enter
  leave := registers_leave
  prune w m := .of_breakpoints (breakpoints_prune w m)
  listen w m name := .of_breakpoints (breakpoints_addListener w m name)

/-- Managers hold breakpoints that somebody added, and each once. -/
theorem registered_run {K : Breakpoint → Prop} {b : Bridge σ} (hb : b.Fresh) (ds : List (Deed σ))
    (hK : ∀ x ∈ ds, ∀ p, x.point? = some p → K p) (m : Nat) :
    (∀ p ∈ ((run ds b).world.manager m).breakpoints, K p)
      ∧ (((run ds b).world.manager m).breakpoints.map Breakpoint.id).Nodup := by
  induction ds using List.reverseRecOn with
  | nil =>
      obtain ⟨reaction, hb⟩ := hb
      rw [run_nil, hb]
      exact ⟨nofun, List.nodup_nil⟩
  | append_singleton ds x ih =>
      obtain ⟨hold, honce⟩ := ih fun y hy => hK y (List.mem_append_left _ hy)
      have hx := hK x (List.mem_append_right _ List.mem_cons_self)
      have hregisters : Registers K (run ds b).world ((run ds b).after x).world := by
        refine covers_registers.after (run ds b) x (fun m p he => ?_) fun setup he => ?_
        · subst he
          exact hx p rfl
        · subst he
          exact .of_breakpoints
            (spares_launch (run ds b) setup (Nat.succ_ne_self (run ds b).world.sessions.size)).breakpoints
      rw [run_append]
      exact ⟨fun p hp => (hregisters.old m p hp).elim (hold p) id, hregisters.once m honce⟩

/-! ### What a step does to promises -/

/-- What a step of a session does to its breakpoints on all sides. -/
inductive Refits (s : Nat) (b : Bridge σ) (x : Deed σ) (b' : Bridge σ) : Prop where
  /-- All stay. -/
  | kept (hready : b.readied? s x = none)
      (hr : (b'.world.session s).scripts = (b.world.session s).scripts)
      (hb : b'.world.breakpoints s = b.world.breakpoints s)
      (hp : ∀ t, b'.world.promised s t = b.world.promised s t)
  /-- A user changes a breakpoint, which is routed. -/
  | changed (p : Breakpoint) (c : BreakpointChange) (hx : x.point? = some p)
      (hr : (b'.world.session s).scripts = (b.world.session s).scripts)
      (hb : c.Rewrites p (b.world.breakpoints s) (b'.world.breakpoints s))
      (hp : ∀ t, b'.world.promised s t
        = if (b.world.scriptFor? s p).any fun script => script.id = t.id
          then (modesOf c).foldl (fun ps mode => mode.apply p ps) (b.world.promised s t)
          else b.world.promised s t)
  /-- A script is reported ready, and all breakpoints that lie in it are sent. -/
  | answered (script : Script) (hready : b.readied? s x = some script)
      (hr : (b'.world.session s).scripts = (b.world.session s).scripts.insert script)
      (hb : b'.world.breakpoints s = b.world.breakpoints s)
      (hp : ∀ t, b'.world.promised s t
        = if script.id = t.id
          then b.world.promised s t
            ++ (b.world.breakpoints s).filter fun p => script.isOf p.resource
          else b.world.promised s t)

/-- What is routed is promised to the script of the breakpoint. -/
theorem foldl_promise_routed (w : World) (hover : (w.session s).terminated = false)
    (p : Breakpoint) (c : BreakpointChange) (t : Script) (ps : List Breakpoint) :
    ((w.routed s p c).map Message.request).foldl (promise t) ps
      = if (w.scriptFor? s p).any fun script => script.id = t.id
        then (modesOf c).foldl (fun ps mode => mode.apply p ps) ps else ps := by
  unfold routed
  rw [hover]
  cases w.scriptFor? s p with
  | none => rfl
  | some script =>
      simp only [Bool.false_eq_true, if_false, Option.any_some, decide_eq_true_eq, List.map_map,
        List.foldl_map]
      by_cases h : script.id = t.id
      · simp [promise, h]
      · simp [promise, h]

omit [Inhabited σ] [Engine σ] in
/-- Who is handed nothing makes no script ready. -/
theorem readied?_of_handed_eq_none {b : Bridge σ} {x : Deed σ} (h : b.handed s x = none) :
    b.readied? s x = none :=
  readied?_of_ne fun script thread root he => by rw [h] at he; cases he

omit [Inhabited σ] [Engine σ] in
/-- A debugger that obeys a request has its breakpoints as they were promised. -/
theorem refits_obeyed {b b' : Bridge σ} {x : Deed σ} {r : Request} {u : World}
    (hready : b.readied? s x = none) (hlive : Live b.world s d) (hlive' : Live b'.world s d')
    (hu : Takes s b.world u) (hliveU : Live u s d) (hmail : b.world.mail s = .request r :: u.mail s)
    (hend : r ≠ .terminate) (hb : b'.world.breakpoints s = b.world.breakpoints s)
    (h : Obeyed s d r u b'.world) : Refits s b x b' := by
  have hscripts : (u.session s).scripts = (b.world.session s).scripts := by rw [hu.here]
  -- Whatever is not about a breakpoint leaves the table and all promises as they are.
  have hkept : ∀ {es : List Event}, (∀ t ps, promise t ps (.request r) = ps) →
      Becomes s d' es u b'.world → d'.table = d.table → Refits s b x b' := by
    intro es hr hbecomes htable
    refine .kept hready ?_ hb fun t => ?_
    · exact (congrArg Session.scripts hbecomes.tells.here.model :).trans hscripts
    · rw [promised_append hliveU.here hlive'.here htable (hliveU.mail_becomes hbecomes),
        foldl_promise_event, promised_of_takes hu hmail (hr t)]
  cases h with
  | resumed handle kind y hr hy hreports =>
      obtain ⟨es, hbecomes⟩ := hreports.becomes
      obtain rfl := Live.unique hlive' (hliveU.reports hreports)
      exact hkept (fun _ _ => by rw [hr]; rfl) hbecomes rfl
  | served o d₁ hr hx hworks hstation =>
      obtain ⟨es, hbecomes⟩ := hworks.becomes
      obtain rfl := Live.unique hlive' (hliveU.works hworks)
      refine hkept (fun t ps => ?_) hbecomes hworks.alike.table
      cases r with
      | breakpoint script point mode => exact absurd rfl (hr script point mode)
      | _ => rfl
  | nudged thread hr f hf hbecomes =>
      obtain rfl := hlive'.eq_of_debugger hbecomes.debugger
      exact hkept (fun _ _ => by rw [hr]; rfl) hbecomes rfl
  | noted script point mode hr hbecomes =>
      subst hr
      refine .kept hready ?_ hb fun t => ?_
      · exact (congrArg Session.scripts hbecomes.tells.here.model :).trans hscripts
      · have hmail' := hliveU.mail_becomes hbecomes
        rw [List.map_nil, List.append_nil] at hmail'
        rw [promised, promised, hmail, hmail', debugger_eq hbecomes.debugger, debugger_eq hlive.here,
          List.foldl_cons, BreakpointTable.find_update]
        rfl
  | left hr => exact absurd hr hend

/-- Every step of a live session does one of three things to its breakpoints. -/
theorem refits_goes {b b' : Bridge σ} {x : Deed σ} (hlive : Live b.world s d)
    (hlive' : Live b'.world s d') (h : Goes s b d x b' d') : Refits s b x b' := by
  cases h with
  | asked rs hnone hr hd hmodel hmail hb hn =>
      subst hd
      refine .kept (readied?_of_handed_eq_none hnone) (congrArg Session.scripts hmodel :) hb
        fun t => ?_
      rw [promised_append hlive.here hlive'.here rfl hmail, foldl_promise_order t rs hr]
  | changed p c hp hd hmodel hmail hb hn =>
      subst hd
      refine .changed p c hp (congrArg Session.scripts hmodel :) hb fun t => ?_
      rw [promised_append hlive.here hlive'.here rfl hmail,
        foldl_promise_routed b.world hlive.terminated]
  | called i c hx hi hw hrun hworks hb =>
      obtain ⟨es, hbecomes⟩ := hworks.becomes
      have hnone : b.handed s x = none := by
        rw [hx]
        rfl
      refine .kept (readied?_of_handed_eq_none hnone)
        (congrArg Session.scripts hbecomes.tells.here.model :) hb fun t => ?_
      rw [promised_append hlive.here hlive'.here hworks.alike.table (hlive.mail_becomes hbecomes),
        foldl_promise_event]
  | shown e u j hx hd hu hliveU hmail hready hrun hshows hend hbroken hb =>
      subst hd
      have hscripts : (u.session s).scripts = (b.world.session s).scripts := by rw [hu.here]
      have hmail' : b'.world.mail s = u.mail s ++ [] := by
        rw [mail_of_outer (outer_of_shell hshows.here), List.append_nil]
      refine .kept hready ((congrArg Session.scripts hshows.here :).trans hscripts) hb fun t => ?_
      rw [promised_append hliveU.here hlive'.here rfl hmail']
      exact promised_of_takes hu hmail fun _ => rfl
  | answered script thread root u v handle kind j hx hd hu hliveU hmail hready hrun hv hid hposts
      hmail' hb =>
      subst hd
      have hscripts : (v.session s).scripts = (b.world.session s).scripts := by
        have hsame : (v.session s).scripts = (u.session s).scripts :=
          (congrArg Session.scripts hv.here :)
        rw [hsame, hu.here]
      have hbefore : v.breakpoints s = b.world.breakpoints s :=
        (breakpoints_of_outer hv.managers (outer_of_shell hv.here)).trans (breakpoints_of_takes hu)
      have hinsert : ((v.register s script).session s).scripts
          = (v.session s).scripts.insert script := by
        rw [register, session_modifySession, if_pos rfl]
      refine .answered script hready ?_ hb fun t => ?_
      · have hsame : (b'.world.session s).scripts = ((v.register s script).session s).scripts :=
          (congrArg Session.scripts hposts.here.model :)
        rw [hsame, hinsert, hscripts]
      · rw [promised_append hliveU.here hlive'.here rfl hmail', answers, List.map_append,
          List.foldl_append, foldl_promise_add, promised_of_takes hu hmail fun _ => rfl,
          breakpointsIn_eq, hbefore]
        rfl
  | obeyed r u hx hu hliveU hmail hr hend hobeyed hb =>
      refine refits_obeyed (readied?_of_ne fun script thread root he => ?_) hlive hlive' hu hliveU
        hmail hend hb hobeyed
      rw [hx, handed_deliver, hmail] at he
      cases he

end Bridge

/-! ### How often a breakpoint is promised -/

/-- How often a number occurs among breakpoints. -/
def tally (i : Nat) (ps : List Breakpoint) : Nat :=
  (ps.map Breakpoint.id).count i

section Tally

variable {i : Nat} {p : Breakpoint} {ps qs : List Breakpoint}

/-- Breakpoints of two lists are counted in both. -/
theorem tally_append : tally i (ps ++ qs) = tally i ps + tally i qs := by
  rw [tally, List.map_append, List.count_append]
  rfl

/-- A number occurs if a breakpoint has it. -/
theorem tally_pos : 0 < tally i ps ↔ ∃ q ∈ ps, q.id = i := by
  rw [tally, List.count_pos_iff, List.mem_map]

/-- A number does not occur if no breakpoint has it. -/
theorem tally_eq_zero : tally i ps = 0 ↔ ∀ q ∈ ps, q.id ≠ i := by
  rw [tally, List.count_eq_zero]
  simp

/-- Breakpoints with numbers of their own occur once. -/
theorem tally_eq_one (hn : (ps.map Breakpoint.id).Nodup) (hq : ∃ q ∈ ps, q.id = i) :
    tally i ps = 1 :=
  List.count_eq_one_of_mem hn (List.mem_map.mpr hq)

/-- A breakpoint that is added or removed counts once. -/
theorem tally_apply_self (mode : BreakpointMode) :
    tally p.id (mode.apply p ps)
      = match mode with
        | .add => tally p.id ps + 1
        | .remove => tally p.id ps - 1 := by
  cases mode with
  | add => simp [BreakpointMode.apply, tally]
  | remove =>
      have herase : (ps.eraseP fun q => q.id = p.id).map Breakpoint.id
          = (ps.map Breakpoint.id).erase p.id := by
        rw [List.erase_eq_eraseP', List.eraseP_map]
        congr 1
      rw [tally, BreakpointMode.apply, herase, List.count_erase_self]
      rfl

/-- A breakpoint that comes or goes leaves the count of all others. -/
theorem tally_apply_of_ne (h : p.id ≠ i) (mode : BreakpointMode) :
    tally i (mode.apply p ps) = tally i ps := by
  cases mode with
  | add => simp [BreakpointMode.apply, tally, h]
  | remove =>
      have herase : (ps.eraseP fun q => q.id = p.id).map Breakpoint.id
          = (ps.map Breakpoint.id).erase p.id := by
        rw [List.erase_eq_eraseP', List.eraseP_map]
        congr 1
      rw [tally, BreakpointMode.apply, herase, List.count_erase_of_ne (Ne.symm h)]
      rfl

/-- Breakpoints of one number that come and go leave the count of all others. -/
theorem tally_foldl_of_ne (h : p.id ≠ i) (modes : List BreakpointMode) (ps : List Breakpoint) :
    tally i (modes.foldl (fun ps mode => mode.apply p ps) ps) = tally i ps := by
  induction modes generalizing ps with
  | nil => rfl
  | cons mode modes ih => rw [List.foldl_cons, ih, tally_apply_of_ne h]

/-- A change of one breakpoint does not count for others. -/
theorem tally_rewrites_of_ne {c : BreakpointChange} (hc : c.Rewrites p ps qs) (h : p.id ≠ i) :
    tally i qs = tally i ps := by
  cases c with
  | added =>
      obtain ⟨-, rfl⟩ := hc
      simp [tally, h]
  | removed =>
      obtain ⟨-, rfl⟩ := hc
      have hmap : (ps.filter fun q => q.id ≠ p.id).map Breakpoint.id
          = (ps.map Breakpoint.id).filter (· ≠ p.id) := by
        rw [List.filter_map]
        rfl
      rw [tally, hmap, List.count_filter (by simpa using Ne.symm h)]
      rfl
  | changed =>
      obtain ⟨-, rfl⟩ := hc
      rfl

/-- A change of a breakpoint counts for its promises as it does for the manager. -/
theorem tally_rewrites_self {c : BreakpointChange} {old promises : List Breakpoint}
    (hc : c.Rewrites p ps qs) (hn : (ps.map Breakpoint.id).Nodup)
    (h : tally p.id promises = tally p.id old + tally p.id ps) :
    tally p.id ((World.modesOf c).foldl (fun ps mode => mode.apply p ps) promises)
      = tally p.id old + tally p.id qs := by
  cases c with
  | added =>
      obtain ⟨hnew, rfl⟩ := hc
      have hone : tally p.id [p] = 1 := by simp [tally]
      rw [World.modesOf, List.foldl_cons, List.foldl_nil, tally_apply_self, tally_append, hone]
      dsimp only
      omega
  | removed =>
      obtain ⟨hq, rfl⟩ := hc
      have hone := tally_eq_one hn hq
      have hzero : tally p.id (ps.filter fun q => q.id ≠ p.id) = 0 := by
        rw [tally_eq_zero]
        intro q hq
        simpa using (List.mem_filter.mp hq).2
      rw [World.modesOf, List.foldl_cons, List.foldl_nil, tally_apply_self, hzero]
      dsimp only
      omega
  | changed =>
      obtain ⟨hq, rfl⟩ := hc
      have hone := tally_eq_one hn hq
      rw [World.modesOf, List.foldl_cons, List.foldl_cons, List.foldl_nil, tally_apply_self,
        tally_apply_self]
      dsimp only
      omega

end Tally

namespace Bridge

open World

variable {σ : Type} [Inhabited σ] [Engine σ] {s : Nat} {d : Debugger}

/-- What is to be recollected of a resource after one more deed. -/
def recollected (s : Nat) (r : Resource) (b : Bridge σ) (x : Deed σ)
    (old : Option (Script × List Breakpoint)) : Option (Script × List Breakpoint) :=
  match b.readied? s x with
  | some script => if script.isOf r then some (script, b.world.promised s script) else old
  | none => old

/-- The script that was last reported ready for a resource in a run, and what had been promised to it
by then. -/
def recollect (s : Nat) (r : Resource) (ds : List (Deed σ)) (b : Bridge σ) :
    Option (Script × List Breakpoint) :=
  (ds.foldl (fun now x => (now.1.after x, now.1.recollected s r x now.2)) (b, none)).2

/-- What is to be recollected after a run is what the last deed makes of it. -/
theorem recollect_append_singleton (s : Nat) (r : Resource) (ds : List (Deed σ)) (x : Deed σ)
    (b : Bridge σ) :
    recollect s r (ds ++ [x]) b = (run ds b).recollected s r x (recollect s r ds b) := by
  have hrun : ∀ (ds : List (Deed σ)) (b : Bridge σ) old, (ds.foldl (fun now x =>
      (now.1.after x, now.1.recollected s r x now.2)) (b, old)).1 = run ds b := by
    intro ds
    induction ds with
    | nil => exact fun _ _ => rfl
    | cons y ds ih => exact fun b old => ih (b.after y) _
  rw [recollect, List.foldl_append, List.foldl_cons, List.foldl_nil, hrun]
  rfl

/-- As long as no script is ready, the same is to be recollected. -/
theorem recollect_of_readied?_eq_none {s : Nat} {b : Bridge σ} {ds : List (Deed σ)} {x : Deed σ}
    (h : (run ds b).readied? s x = none) (r : Resource) :
    recollect s r (ds ++ [x]) b = recollect s r ds b := by
  rw [recollect_append_singleton, recollected, h]

/-- A script that is ready is to be recollected for its resource. -/
theorem recollect_of_readied?_eq_some {s : Nat} {b : Bridge σ} {ds : List (Deed σ)} {x : Deed σ}
    {script : Script} (h : (run ds b).readied? s x = some script) (r : Resource) :
    recollect s r (ds ++ [x]) b
      = if script.isOf r then some (script, (run ds b).world.promised s script)
        else recollect s r ds b := by
  rw [recollect_append_singleton, recollected, h]

/-- Breakpoints with a property are promised, each once for the manager and as often as it was before
its script was last reported ready. -/
structure Tallied (K : Breakpoint → Prop) (s : Nat) (ds : List (Deed σ)) (b : Bridge σ) : Prop where
  known : ∀ t, ∀ q ∈ (run ds b).world.promised s t, K q
  latest : ∀ r script, ((run ds b).world.session s).scripts.find? r = some script →
    ∃ old, recollect s r ds b = some (script, old) ∧ ∀ q ∈ old, K q
  counted : ∀ r script old, ((run ds b).world.session s).scripts.find? r = some script →
    recollect s r ds b = some (script, old) → ∀ p, K p → p.resource.same r = true →
      tally p.id ((run ds b).world.promised s script)
        = tally p.id old + tally p.id ((run ds b).world.breakpoints s)

/-- What is there after a breakpoint came or went was there, or is the one that came. -/
theorem mem_apply {mode : BreakpointMode} {p q : Breakpoint} {ps : List Breakpoint}
    (h : q ∈ mode.apply p ps) : q ∈ ps ∨ q = p := by
  cases mode with
  | add => simpa [BreakpointMode.apply] using h
  | remove => exact .inl (List.mem_of_mem_eraseP h)

/-- What is there after a breakpoint came and went was there, or is that one. -/
theorem mem_foldl_apply {modes : List BreakpointMode} {p q : Breakpoint} {ps : List Breakpoint}
    (h : q ∈ modes.foldl (fun ps mode => mode.apply p ps) ps) : q ∈ ps ∨ q = p := by
  induction modes generalizing ps with
  | nil => exact .inl h
  | cons mode modes ih => exact (ih h).elim mem_apply .inr

variable {K : Breakpoint → Prop} {b : Bridge σ} {ds : List (Deed σ)} {x : Deed σ}

/-- All breakpoints of one number lie in a script, or none does. -/
theorem tally_filter_isOf (hK : ∀ p q, K p → K q → p.id = q.id → p = q) {ps : List Breakpoint}
    (hps : ∀ p ∈ ps, K p) {q : Breakpoint} (hq : K q) (script : Script) :
    tally q.id (ps.filter fun p => script.isOf p.resource)
      = if script.isOf q.resource then tally q.id ps else 0 := by
  have hmem : ∀ p ∈ ps, p.id = q.id → p = q := fun p hp hid => hK p q (hps p hp) hq hid
  split
  · next hof =>
      unfold tally List.count
      rw [List.countP_map, List.countP_map, List.countP_filter]
      refine List.countP_congr fun p hp => ?_
      simp only [Function.comp_apply, beq_iff_eq, Bool.and_eq_true, and_iff_left_iff_imp]
      intro hid
      rw [hmem p hp hid]
      exact hof
  · next hof =>
      rw [tally_eq_zero]
      intro p hp hid
      obtain ⟨hp, hin⟩ := List.mem_filter.mp hp
      rw [hmem p hp hid] at hin
      exact hof hin

/-- A change that is routed counts at the script of the breakpoint as it counts at the manager. -/
theorem Tallied.changed (hK : ∀ p q, K p → K q → p.id = q.id → p = q) (h : Tallied K s ds b)
    {p : Breakpoint} {c : BreakpointChange} (hpoint : x.point? = some p) (hpK : K p)
    (honce : (((run ds b).world.breakpoints s).map Breakpoint.id).Nodup)
    (hr : ((run (ds ++ [x]) b).world.session s).scripts = ((run ds b).world.session s).scripts)
    (hb : c.Rewrites p ((run ds b).world.breakpoints s) ((run (ds ++ [x]) b).world.breakpoints s))
    (hp : ∀ t, (run (ds ++ [x]) b).world.promised s t
      = if ((run ds b).world.scriptFor? s p).any fun script => script.id = t.id
        then (modesOf c).foldl (fun ps mode => mode.apply p ps) ((run ds b).world.promised s t)
        else (run ds b).world.promised s t) : Tallied K s (ds ++ [x]) b := by
  have hrecall := recollect_of_readied?_eq_none (readied?_of_handed_eq_none
    (handed_of_point? (b := run ds b) (s := s) hpoint))
  refine ⟨fun t q hq => ?_, fun r script hfind => ?_,
    fun r script old hfind hlast q hqK hqr => ?_⟩
  · rw [hp] at hq
    split at hq
    · obtain hq | rfl := mem_foldl_apply hq
      · exact h.known t q hq
      · exact hpK
    · exact h.known t q hq
  · rw [hrecall]
    exact h.latest r script (hr ▸ hfind)
  · rw [hr] at hfind
    have htally := h.counted r script old hfind (hrecall r ▸ hlast) q hqK hqr
    by_cases hid : p.id = q.id
    · obtain rfl := hK p q hpK hqK hid
      have hscript : (run ds b).world.scriptFor? s p = some script := by
        unfold scriptFor?
        dsimp only
        rw [Registry.find?_congr _ hqr, hfind]
      rw [hp, hscript, Option.any_some, if_pos (by simp)]
      exact tally_rewrites_self hb honce htally
    · rw [tally_rewrites_of_ne hb hid, ← htally, hp]
      split
      · exact tally_foldl_of_ne hid _ _
      · rfl

/-- When a script is reported ready, what was promised to it is what was promised before, and all
breakpoints in it come on top. -/
theorem Tallied.answered (hK : ∀ p q, K p → K q → p.id = q.id → p = q) (h : Tallied K s ds b)
    (hold : ∀ p ∈ (run ds b).world.breakpoints s, K p) {t : Script}
    (hready : (run ds b).readied? s x = some t)
    (hr : ((run (ds ++ [x]) b).world.session s).scripts
      = ((run ds b).world.session s).scripts.insert t)
    (hb : (run (ds ++ [x]) b).world.breakpoints s = (run ds b).world.breakpoints s)
    (hp : ∀ t', (run (ds ++ [x]) b).world.promised s t'
      = if t.id = t'.id
        then (run ds b).world.promised s t'
          ++ ((run ds b).world.breakpoints s).filter fun p => t.isOf p.resource
        else (run ds b).world.promised s t') : Tallied K s (ds ++ [x]) b := by
  have hrecall := recollect_of_readied?_eq_some hready
  have hin : ∀ q ∈ ((run ds b).world.breakpoints s).filter fun p => t.isOf p.resource, K q :=
    fun q hq => hold q (List.mem_filter.mp hq).1
  refine ⟨fun t' q hq => ?_, fun r script hfind => ?_,
    fun r script old hfind hlast q hqK hqr => ?_⟩
  · rw [hp] at hq
    split at hq
    · exact (List.mem_append.mp hq).elim (h.known t' q) (hin q)
    · exact h.known t' q hq
  · rw [hr, Registry.find?_insert] at hfind
    rw [hrecall]
    split at hfind
    · next hof =>
        obtain rfl := Option.some.inj hfind
        exact ⟨_, if_pos hof, h.known t⟩
    · next hof =>
        obtain ⟨old, hlast, hpast⟩ := h.latest r script hfind
        exact ⟨old, (if_neg hof).trans hlast, hpast⟩
  · have hall := tally_filter_isOf hK hold hqK t
    rw [Script.isOf_congr hqr] at hall
    rw [hr, Registry.find?_insert] at hfind
    rw [hrecall] at hlast
    split at hfind
    · next hof =>
        rw [if_pos hof] at hlast
        obtain rfl := Option.some.inj hfind
        obtain rfl : (run ds b).world.promised s t = old := (Prod.mk.inj (Option.some.inj hlast)).2
        rw [hp, if_pos rfl, tally_append, hall, if_pos hof, hb]
    · next hof =>
        rw [if_neg hof] at hlast
        rw [hp, hb, ← h.counted r script old hfind hlast q hqK hqr]
        split
        · rw [tally_append, hall, if_neg hof]
          rfl
        · rfl

/-- Every step leaves the tallies right. -/
theorem Tallied.step (hK : ∀ p q, K p → K q → p.id = q.id → p = q)
    (hx : ∀ p, x.point? = some p → K p) (h : Tallied K s ds b)
    (hold : ∀ p ∈ (run ds b).world.breakpoints s, K p)
    (honce : (((run ds b).world.breakpoints s).map Breakpoint.id).Nodup)
    (hstep : Refits s (run ds b) x (run (ds ++ [x]) b)) : Tallied K s (ds ++ [x]) b := by
  cases hstep with
  | kept hready hr hb hp =>
      have hrecall := recollect_of_readied?_eq_none hready
      refine ⟨fun t q hq => h.known t q (hp t ▸ hq), fun r script hfind => ?_,
        fun r script old hfind hlast p hpK hpr => ?_⟩
      · rw [hrecall]
        exact h.latest r script (hr ▸ hfind)
      · rw [hp, hb]
        exact h.counted r script old (hr ▸ hfind) (hrecall r ▸ hlast) p hpK hpr
  | changed p c hpoint hr hb hp => exact h.changed hK hpoint (hx p hpoint) honce hr hb hp
  | answered t hready hr hb hp => exact h.answered hK hold hready hr hb hp

/-- Breakpoints that users tell apart by their numbers are tallied in every run. -/
theorem tallied_run (hb : b.Fresh) (hK : ∀ p q, K p → K q → p.id = q.id → p = q)
    (ds : List (Deed σ)) (hds : ∀ x ∈ ds, ∀ p, x.point? = some p → K p)
    (hlive : Live (run ds b).world s d) : Tallied K s ds b := by
  refine live_induction hb (J := fun ds _ => (∀ x ∈ ds, ∀ p, x.point? = some p → K p) →
    Tallied K s ds b) (fun ds x d hopened _ => ?_) (fun ds x d d' hlive ih hgoes hlive' hds => ?_)
    ds hlive hds
  · refine ⟨fun t q hq => ?_, fun r script hfind => ?_, fun r script old hfind => ?_⟩
    · rw [promised, hopened.mail, debugger_eq hopened.here, hopened.table] at hq
      cases hq
    · rw [hopened.scripts] at hfind
      cases hfind
    · rw [hopened.scripts] at hfind
      cases hfind
  · have hbefore : ∀ y ∈ ds, ∀ p, y.point? = some p → K p := fun y hy =>
      hds y (List.mem_append_left _ hy)
    obtain ⟨hold, honce⟩ := registered_run hb ds hbefore ((run ds b).world.session s).manager
    exact (ih hbefore).step hK (hds x (List.mem_append_right _ List.mem_cons_self)) hold honce
      (refits_goes hlive hlive' hgoes)

/-- The breakpoints that users handle in a run. -/
def points (ds : List (Deed σ)) : List Breakpoint :=
  ds.filterMap Deed.point?

omit [Inhabited σ] [Engine σ] in
/-- A breakpoint that a deed is about is one of the run. -/
theorem mem_points {p : Breakpoint} (hx : x ∈ ds) (hp : x.point? = some p) : p ∈ points ds :=
  List.mem_filterMap.mpr ⟨x, hx, hp⟩

end Bridge

/-- The interpreter has all registered breakpoints of a resource for a script, and it would stop at
those that are enabled. -/
structure World.InForce (w : World) (s : Nat) (d : Debugger) (r : Resource) (script : Script) :
    Prop where
  present : ∀ p ∈ w.breakpoints s, p.resource.same r = true → p ∈ d.table.find script
  active : ∀ p ∈ w.breakpoints s, p.resource.same r = true → w.marks.isEnabled p = true →
    d.table.isActive w.marks script p.line = true

namespace Bridge

open World

variable {σ : Type} [Inhabited σ] [Engine σ] {s : Nat} {d : Debugger}

/-- Whenever nothing is on its way, the interpreter has all registered breakpoints of a resource for
the script that is registered for it. Breakpoints are told apart by their numbers. -/
theorem inForce_run {b : Bridge σ} (hb : b.Fresh) (ds : List (Deed σ))
    (hid : ∀ p ∈ points ds, ∀ q ∈ points ds, p.id = q.id → p = q)
    (hl : ((run ds b).world.session s).alive = true)
    (ha : ((run ds b).world.session s).attached = true)
    (hd : ((run ds b).world.session s).debugger = some d)
    (hq : ((run ds b).world.session s).mailbox.queue = []) {r : Resource} {script : Script}
    (hready : ((run ds b).world.session s).scripts.find? r = some script) :
    (run ds b).world.InForce s d r script := by
  let K := fun p : Breakpoint => p ∈ points ds
  have hlive := live_of_queue_eq_nil hb ds hl ha hd hq
  have hK : ∀ p q, K p → K q → p.id = q.id → p = q := fun p q hp hq => hid p hp q hq
  have hpoints : ∀ x ∈ ds, ∀ p, x.point? = some p → K p := fun x hx p hp => mem_points hx hp
  have htallied : Tallied K s ds b := tallied_run hb hK ds hpoints hlive
  obtain ⟨old, hrecall, -⟩ := htallied.latest r script hready
  have hpromised : (run ds b).world.promised s script = d.table.find script := by
    rw [promised, mail, hq, debugger_eq hd]
    rfl
  have hpresent : ∀ p ∈ (run ds b).world.breakpoints s, p.resource.same r = true →
      p ∈ d.table.find script := by
    intro p hp hpr
    have hpK : K p := (registered_run hb ds hpoints _).1 p hp
    have hcounted := htallied.counted r script old hready hrecall p hpK hpr
    have hone : 0 < tally p.id ((run ds b).world.breakpoints s) := tally_pos.mpr ⟨p, hp, rfl⟩
    obtain ⟨q, hq, hqid⟩ := tally_pos.mp (show 0 < tally p.id _ by rw [hcounted]; omega)
    rw [← hK q p (htallied.known script q hq) hpK hqid, ← hpromised]
    exact hq
  refine ⟨hpresent, fun p hp hpr hon => ?_⟩
  exact BreakpointTable.isActive_iff.mpr ⟨p, hpresent p hp hpr, hon, rfl⟩

/-- A script is reported ready, and a breakpoint is registered before the model hears of it. -/
def registerWhileLoading : List (Deed VariableTable) :=
  let i : Interpreter := .idle 0 "main" 0
  let p : Breakpoint := ⟨1, ⟨"a"⟩, 3⟩
  [.launch ⟨.off, 0, true, true, true⟩, .addBreakpoint 0 ⟨0, ⟨"a"⟩, 2⟩,
    .call i (.scriptStarted ⟨0, "a", some ⟨"a"⟩, false⟩), .addBreakpoint 0 p, .deliver 0, .deliver 0,
    .enableBreakpoint 0 p false, .enableBreakpoint 0 p true, .deliver 0, .deliver 0, .deliver 0,
    .deliver 0, .deliver 0, .deliver 0, .deliver 0]

/-- Both breakpoints are in force, the one that was registered before and the one that came while
the script was loaded. -/
theorem inForce_registerWhileLoading :
    ((run registerWhileLoading ∅).world.breakpoints 0).map (·.id) = [0, 1]
      ∧ (run registerWhileLoading ∅).world.InForce 0 ((run registerWhileLoading ∅).world.debugger 0)
        ⟨"a"⟩ ⟨0, "a", some ⟨"a"⟩, false⟩ := by
  refine ⟨by decide +kernel, inForce_run ⟨World.start.reaction, rfl⟩ registerWhileLoading
    (by decide +kernel) (by decide +kernel) (by decide +kernel)
    (debugger_of_isSome (by decide +kernel)) ?_ ?_⟩
  · exact List.isEmpty_iff.mp (by decide +kernel)
  · decide +kernel

end Bridge

end DebugBridge
