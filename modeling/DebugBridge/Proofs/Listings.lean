import Mathlib.Data.List.Basic
import Mathlib.Data.List.Forall2
import DebugBridge.Proofs.Ledger
import DebugBridge.Proofs.Merging

/-!
# Variables that are listed

A thread that lists the variables of a frame asks its engine for them, makes new variables that show
what the engine reports, and tells the model. Whatever is listed later, these variables show the same
until the model takes them in.

## Main definitions

* `Engine.Distinct`: an engine that reports no two variables of one name;
* `Event.listing?`, `Service.listed?`: the variables that an event lists, and what the engine reported
  for them;
* `Heap.Lists`: a step in which variables are listed.

## Main results

* `lists_perform`, `lists_receive`: what is listed in a call and in a request;
* `listings_filter_isAnswer`: listings are answers.
-/

namespace DebugBridge

open World

/-- An engine that reports no two variables of one name. -/
def Engine.Distinct (σ : Type) [Engine σ] : Prop :=
  ∀ (engine : σ) (scope : Scope) (reports : List Report),
    (Engine.visible engine scope).1 = .ok reports → (reports.map Report.name).Nodup

/-- The frame whose variables an event lists, with these variables. -/
def Event.listing? : Event → Option (FrameRef × List VariableId)
  | .frameVariables frame made => some (frame, made)
  | _ => none

/-- The frames whose variables are listed in events, with these variables. -/
def listings (es : List Event) : List (FrameRef × List VariableId) :=
  es.filterMap Event.listing?

/-- What is listed in two parts is listed in one part and then in the other. -/
@[simp] theorem listings_append (es es' : List Event) :
    listings (es ++ es') = listings es ++ listings es' :=
  List.filterMap_append

/-- The frame whose variables a request asks for, if it does. So does an assignment. -/
def Request.listed? : Request → Option FrameRef
  | .getVariables frame => some frame
  | .setVariable (.frame frame) _ _ _ => some frame
  | _ => none

/-- The frame whose variables a message asks for, if it does. -/
def Message.listed? : Message → Option FrameRef
  | .request r => r.listed?
  | .event _ => none

/-- Only answers list variables. -/
theorem listings_filter_isAnswer (es : List Event) :
    listings (es.filter Event.isAnswer) = listings es := by
  rw [listings, List.filterMap_filter]
  refine List.filterMap_congr fun e _ => ?_
  cases e <;> rfl

/-! ### Steps in which variables are listed -/

namespace Heap

variable {h h' h'' : Heap}

/-- Listed variables show what was reported for a frame. -/
structure Renders (h : Heap) (reported : FrameRef × List Report)
    (listed : FrameRef × List VariableId) : Prop where
  frame : listed.1 = reported.1
  views : listed.2.map h.view = reported.2.map Report.view

/-- A step in which variables are listed for what was reported. They are new. -/
structure Lists (reported : List (FrameRef × List Report))
    (listed : List (FrameRef × List VariableId)) (h h' : Heap) : Prop where
  grows : h.Extends h'
  renders : List.Forall₂ h'.Renders reported listed
  ordered : (listed.flatMap Prod.snd).Pairwise (· < ·)
  fresh : ∀ x ∈ listed.flatMap Prod.snd, h.bindings.size ≤ x ∧ h'.IsBinding x

/-- What is listed renders what was reported as long as it shows the same. -/
theorem renders_congr {reported : List (FrameRef × List Report)}
    {listed : List (FrameRef × List VariableId)} (hr : List.Forall₂ h.Renders reported listed)
    (hview : ∀ x ∈ listed.flatMap Prod.snd, h'.view x = h.view x) :
    List.Forall₂ h'.Renders reported listed := by
  induction hr with
  | nil => exact .nil
  | cons hhead _ ih =>
      rw [List.flatMap_cons] at hview
      refine .cons ⟨hhead.frame, ?_⟩ (ih fun x hx => hview x (List.mem_append_right _ hx))
      exact (List.map_congr_left fun x hx => hview x (List.mem_append_left _ hx)).trans hhead.views

/-- A step in which nothing is listed. -/
theorem Extends.lists (he : h.Extends h') : Lists [] [] h h' :=
  ⟨he, .nil, .nil, List.forall_mem_nil _⟩

/-- What is listed later comes behind what was listed before. -/
theorem Lists.trans {reported reported' : List (FrameRef × List Report)}
    {listed listed' : List (FrameRef × List VariableId)} (hl : Lists reported listed h h')
    (hl' : Lists reported' listed' h' h'') :
    Lists (reported ++ reported') (listed ++ listed') h h'' := by
  have hold : ∀ x ∈ listed.flatMap Prod.snd, h'.IsBinding x := fun x hx => (hl.fresh x hx).2
  refine ⟨⟨hl'.grows.tidy, Nat.le_trans hl.grows.values hl'.grows.values,
    Nat.le_trans hl.grows.bindings hl'.grows.bindings, fun hx => hl'.grows.binding (hl.grows.binding hx),
    fun hx => (hl'.grows.view (hl.grows.binding hx)).trans (hl.grows.view hx)⟩, ?_, ?_, ?_⟩
  · exact List.rel_append
      (renders_congr hl.renders fun x hx => hl'.grows.view (hold x hx)) hl'.renders
  · rw [List.flatMap_append]
    refine List.pairwise_append.mpr ⟨hl.ordered, hl'.ordered, fun x hx y hy => ?_⟩
    exact Nat.lt_of_lt_of_le (hold x hx).there (hl'.fresh y hy).1
  · rw [List.flatMap_append]
    intro x hx
    rcases List.mem_append.mp hx with hx | hx
    · exact ⟨(hl.fresh x hx).1, hl'.grows.binding (hold x hx)⟩
    · exact ⟨Nat.le_trans hl.grows.bindings (hl'.fresh x hx).1, (hl'.fresh x hx).2⟩

end Heap

/-! ### Services that list variables -/

section

variable {σ : Type} [Inhabited σ] [Engine σ] {s : Nat}

namespace Bridge

/-- What the engine of a session reports for a frame, if it reports anything. -/
def reports? (b : Bridge σ) (s : Nat) (frame : FrameRef) : Option (List Report) :=
  match (Engine.visible (b.engines.get s) (b.scopeOf frame)).1 with
  | .error _ => none
  | .ok reports => some reports

end Bridge

namespace Service

/-- The frame whose variables a service lists, with what the engine reported for it, if it reported
anything. Variables are listed on request, and after an assignment. -/
def listed? (s : Nat) (v : Service σ) : Option (FrameRef × List Report) :=
  match v.request with
  | .getVariables frame => (v.state.reports? s frame).map (frame, ·)
  | .setVariable context _ name expression =>
    match v.state.world.frameOf context with
    | none => none
    | some frame => ((v.state.tryAssign s frame name expression).reports? s frame).map (frame, ·)
  | _ => none

end Service

namespace Bridge

variable {b : Bridge σ}

omit [Inhabited σ] [Engine σ] in
/-- An event that is fired leaves the heap. -/
@[simp] theorem heap_fire (b : Bridge σ) (s : Nat) (e : Event) :
    (b.fire s e).world.heap = b.world.heap := by
  change (b.world.fire s e).heap = _
  unfold World.fire
  split <;> rfl

omit [Inhabited σ] [Engine σ] in
/-- To look up an execution leaves the heap. -/
theorem heap_executionOf (w : World) (i : Interpreter) : (w.executionOf i).2.heap = w.heap := by
  unfold World.executionOf
  split <;> rfl

omit [Inhabited σ] [Engine σ] in
/-- A thread that reaches a line leaves the heap. -/
theorem heap_reachLine (w : World) (i : Interpreter) (script : Script) (line : Nat) :
    (w.reachLine i script line).2.heap = w.heap := by
  have h := heap_executionOf w i
  unfold reachLine
  dsimp only
  split
  · exact h
  · split <;> exact h

/-- A thread that lists the variables of a frame lists what its engine reports. -/
theorem lists_reportVariables (b : Bridge σ) (s : Nat) (frame : FrameRef) (ht : b.world.heap.Tidy) :
    Heap.Lists ((b.reports? s frame).map (frame, ·)).toList (listings (b.listing s frame))
      b.world.heap (b.reportVariables s frame).world.heap := by
  unfold reportVariables listing reports? askEngine
  dsimp only
  cases Engine.visible (b.engines.get s) (b.scopeOf frame) with
  | mk result engine =>
      cases result with
      | error causes => exact (Heap.Keeps.refl _ ht).lists
      | ok reports =>
          obtain ⟨made, h', hrun, hgrows, hviews, hordered, hfresh⟩ := made_mapM reports ht
          have hmade : b.world.onHeap (reports.mapM Report.make)
              = (made, { b.world with heap := h' }) := by
            rw [World.onHeap, hrun]
          dsimp only
          rw [hmade, heap_fire]
          have hall : [(frame, made)].flatMap Prod.snd = made := List.append_nil made
          refine ⟨hgrows, .cons ⟨rfl, hviews⟩ .nil, ?_, ?_⟩
          · exact hall.symm ▸ hordered
          · exact hall.symm ▸ hfresh

/-- A service lists what its engine reports. -/
theorem lists_serve (b : Bridge σ) (x y : Execution) (r : Request) (ht : b.world.heap.Tidy) :
    Heap.Lists ((⟨b, x, r⟩ : Service σ).listed? s).toList
      (listings ((⟨b, x, r⟩ : Service σ).answer s)) b.world.heap (b.serve s y r).world.heap := by
  have hgrows : b.world.heap.Extends (b.serve s y r).world.heap :=
    (speaks_serve b y r).mild.heap ht
  cases r with
  | getVariables frame => exact lists_reportVariables b s frame ht
  | setVariable context binding name expression =>
      unfold Service.listed? Service.answer answer serve
      dsimp only
      cases hframe : b.world.frameOf context with
      | none => exact (Heap.Keeps.refl _ ht).lists
      | some frame =>
          have htried : b.world.heap.Extends (b.tryAssign s frame name expression).world.heap :=
            (speaks_tryAssign b frame name expression).mild.heap ht
          exact htried.lists.trans (lists_reportVariables _ s frame htried.tidy)
  | _ => exact hgrows.lists

/-- A thread that serves several requests lists what its engine reports, one after the other. -/
theorem lists_serveAll (x : Execution) (rs : List Request) (b : Bridge σ) (ht : b.world.heap.Tidy) :
    Heap.Lists ((services s x rs b).filterMap (Service.listed? s))
      (listings ((services s x rs b).flatMap (Service.answer s)))
      b.world.heap (serveAll s x rs b).world.heap := by
  induction rs generalizing b with
  | nil => exact (Heap.Keeps.refl _ ht).lists
  | cons r rest ih =>
      let u := b.onWorld (·.putExecution s { x with pending := rest })
      have hfirst := lists_serve (s := s) u { x with pending := rest } x r ht
      have hall := hfirst.trans (ih (u.serve s x r) hfirst.grows.tidy)
      have hreported : (services s x (r :: rest) b).filterMap (Service.listed? s)
          = ((⟨u, { x with pending := rest }, r⟩ : Service σ).listed? s).toList
            ++ (services s x rest (u.serve s x r)).filterMap (Service.listed? s) := by
        rw [services, List.filterMap_cons]
        cases (⟨u, { x with pending := rest }, r⟩ : Service σ).listed? s <;> rfl
      have hlisted : listings ((services s x (r :: rest) b).flatMap (Service.answer s))
          = listings ((⟨u, { x with pending := rest }, r⟩ : Service σ).answer s)
            ++ listings ((services s x rest (u.serve s x r)).flatMap (Service.answer s)) := by
        rw [services, List.flatMap_cons, listings_append]
      rw [hreported, hlisted]
      exact hall

/-! ### Calls and requests -/

omit [Inhabited σ] [Engine σ] in
/-- A thread that is held at a gate finds the heap as it was. -/
theorem heap_heldAt {i : Interpreter} {gate : Gate} {event : Execution → Event} {x : Execution}
    {u : Bridge σ} (h : b.heldAt i gate event = some (x, u)) : u.world.heap = b.world.heap := by
  have hopen := heap_executionOf b.world i
  unfold heldAt at h
  generalize b.world.executionOf i = opened at h hopen
  obtain ⟨y, world⟩ := opened
  split at h
  · obtain ⟨-, rfl⟩ := Prod.mk.inj (Option.some.inj h)
    let held := { b with world := world.putExecution i.session { y with waiting := some gate } }
    exact (heap_fire held i.session (event { y with waiting := some gate })).trans hopen
  · cases h

omit [Inhabited σ] [Engine σ] in
/-- A thread that is held up makes no variables. -/
theorem heap_heldUp {i : Interpreter} {c : Call} {x : Execution} {u : Bridge σ}
    (h : b.heldUp i c = some (x, u)) : u.world.heap = b.world.heap := by
  obtain ⟨w, gate, event, hheld, rfl | ⟨script, line, rfl⟩⟩ := exists_heldAt_of_heldUp h
  · exact (heap_heldAt hheld).trans (heap_executionOf b.world i)
  · exact (heap_heldAt hheld).trans (heap_reachLine b.world i script line)

/-- What is listed in a call. -/
theorem lists_perform (b : Bridge σ) (i : Interpreter) (c : Call) (ht : b.world.heap.Tidy) :
    Heap.Lists ((b.performed i c).filterMap (Service.listed? i.session))
      (listings ((b.performed i c).flatMap (Service.answer i.session)))
      b.world.heap (b.perform i c).2.world.heap := by
  obtain ⟨hnone, -⟩ | ⟨x, u, hsome, -, hrun⟩ := perform_cases b i c
  · have hnothing : b.performed i c = [] := by rw [performed, hnone]
    rw [hnothing]
    exact Heap.Extends.lists ((tells_perform b i c).mild.heap ht)
  · have hserved : b.performed i c = services i.session x x.pending u := by rw [performed, hsome]
    have hheap : u.world.heap = b.world.heap := heap_heldUp hsome
    rw [hserved, hrun, ← hheap]
    exact lists_serveAll x x.pending u (hheap ▸ ht)

/-- What is listed in a request. -/
theorem lists_receive (b : Bridge σ) (s : Nat) (r : Request) (ht : b.world.heap.Tidy) :
    Heap.Lists ((b.received s r).filterMap (Service.listed? s))
      (listings ((b.received s r).flatMap (Service.answer s)))
      b.world.heap (b.receive s r).world.heap := by
  have hgrows := (tells_receive (s := s) b r).mild.heap ht
  have hnone : b.received s r = [] → Heap.Lists ((b.received s r).filterMap (Service.listed? s))
      (listings ((b.received s r).flatMap (Service.answer s)))
      b.world.heap (b.receive s r).world.heap := fun h => by
    rw [h]
    exact hgrows.lists
  cases receives b s r with
  | passed hx => exact hnone (by rw [received, hx])
  | putOff x _ hx hw => exact hnone (by simp [received, hx, hw])
  | served x u hx hw hv _ _ _ _ hheap hheap' =>
      have hlists := lists_serve (s := s) u x x r (hheap.symm ▸ ht)
      rw [hv, hheap']
      rw [hheap] at hlists
      have hlisted : [(⟨u, x, r⟩ : Service σ)].filterMap (Service.listed? s)
          = ((⟨u, x, r⟩ : Service σ).listed? s).toList := by
        rw [List.filterMap_cons]
        cases (⟨u, x, r⟩ : Service σ).listed? s <;> rfl
      rw [hlisted, List.flatMap_cons, List.flatMap_nil, List.append_nil]
      exact hlists

/-! ### Answers that list variables -/

end Bridge

namespace Service

variable {v : Service σ} {frame : FrameRef}

/-- A service that lists variables lists those of the frame, and tells nothing else. -/
theorem answer_of_listed? {reports : List Report} (h : v.listed? s = some (frame, reports)) :
    ∃ made, v.answer s = [.frameVariables frame made] := by
  have hlisting : ∀ (b : Bridge σ) (f : FrameRef), (b.reports? s f).map (f, ·) = some (frame, reports) →
      ∃ made, b.listing s f = [.frameVariables frame made] := by
    intro b f hf
    unfold Bridge.reports? at hf
    unfold Bridge.listing
    generalize (Engine.visible (b.engines.get s) (b.scopeOf f)).1 = visible at hf ⊢
    cases visible with
    | error causes => cases hf
    | ok reports =>
        cases hf
        exact ⟨_, rfl⟩
  obtain ⟨b, x, r⟩ := v
  cases r with
  | getVariables f => exact hlisting b f h
  | setVariable context binding name expression =>
      unfold listed? at h
      unfold answer Bridge.answer
      dsimp only at h ⊢
      cases hframe : b.world.frameOf context with
      | none =>
          rw [hframe] at h
          cases h
      | some f =>
          rw [hframe] at h
          exact hlisting _ f h
  | _ => cases h

/-- Variables are listed for the frame in which they are asked for. -/
theorem request_of_listed? {r : FrameRef × List Report} (h : v.listed? s = some r) :
    v.request.listed? = some r.1 := by
  obtain ⟨b, x, q⟩ := v
  cases q with
  | getVariables f =>
      obtain ⟨_, -, rfl⟩ := Option.map_eq_some_iff.mp h
      rfl
  | setVariable context binding name expression =>
      unfold listed? at h
      dsimp only at h
      split at h
      · cases h
      · next f hframe =>
          obtain ⟨_, -, rfl⟩ := Option.map_eq_some_iff.mp h
          cases context with
          | frame g =>
              unfold World.frameOf at hframe
              dsimp only at hframe
              split at hframe
              · exact hframe
              · cases hframe
          | _ => cases hframe
  | _ => cases h

/-- An engine that reports no two variables of one name does so for every service. -/
theorem nodup_of_listed? (hdistinct : Engine.Distinct σ) {r : FrameRef × List Report}
    (h : v.listed? s = some r) : (r.2.map Report.name).Nodup := by
  have hreports : ∀ (b : Bridge σ) (f : FrameRef), (b.reports? s f).map (f, ·) = some r →
      (r.2.map Report.name).Nodup := by
    intro b f hf
    obtain ⟨reports, hreports, rfl⟩ := Option.map_eq_some_iff.mp hf
    unfold Bridge.reports? at hreports
    split at hreports
    · cases hreports
    · next hvisible =>
        cases hreports
        exact hdistinct _ _ _ hvisible
  obtain ⟨b, x, q⟩ := v
  cases q with
  | getVariables f => exact hreports b f h
  | setVariable context binding name expression =>
      unfold listed? at h
      dsimp only at h
      split at h
      · cases h
      · exact hreports _ _ h
  | _ => cases h

/-- Who tells of the variables of a frame listed what its engine reported. -/
theorem listed?_of_mem_answer {made : List VariableId} (h : .frameVariables frame made ∈ v.answer s) :
    ∃ reports, v.listed? s = some (frame, reports) := by
  have hlisting : ∀ (b : Bridge σ) (f : FrameRef), .frameVariables frame made ∈ b.listing s f →
      ∃ reports, (b.reports? s f).map (f, ·) = some (frame, reports) := by
    intro b f hf
    unfold Bridge.listing at hf
    unfold Bridge.reports?
    generalize (Engine.visible (b.engines.get s) (b.scopeOf f)).1 = visible at hf ⊢
    cases visible with
    | error causes => cases hf
    | ok reports =>
        cases List.mem_singleton.mp hf
        exact ⟨reports, rfl⟩
  obtain ⟨b, x, r⟩ := v
  cases r with
  | getVariables f => exact hlisting b f h
  | setVariable context binding name expression =>
      unfold answer Bridge.answer at h
      unfold listed?
      dsimp only at h ⊢
      cases hframe : b.world.frameOf context with
      | none =>
          rw [hframe] at h
          cases h
      | some f =>
          rw [hframe] at h
          exact hlisting _ f h
  | getStackFrames thread => cases List.mem_singleton.mp h
  | evaluate expression f thread listener => cases List.mem_singleton.mp h
  | _ => cases h

end Service

end

end DebugBridge
