import DebugBridge.Bridge.Launch
import DebugBridge.Interpreter.VariableTable
import DebugBridge.Proofs.Conduct

/-!
# Where threads stop

An execution keeps how and where it was last resumed, and whether its thread was asked to stop. These
few fields stand for all that happened to the thread: every call, every request and every stop since
its debugger began. Here what happened is written down, newest first, and the fields are read off it.
So the history decides at which lines a thread stops, and for which reason.

## Main definitions

* `ResumePoint`, with `ResumePoint.EndsAt`: where a step began, and where it is complete;
* `Incident`, with `Incident.lastResume` and `Incident.isAsked`: what a thread went through;
* `Bridge.Undergoes`: a history of a debugger;
* `Debugger.Cause`: why a thread stops, by its history.

## Main results

* `remembers_undergoes`: executions keep what their threads went through;
* `waits_iff_cause`: a thread stops at a line exactly if its history gives a cause, and reports it.
-/

namespace DebugBridge

/-! ### Steps -/

/-- How an execution was resumed, and where it stood then: the depth of its stack, and the line of
the innermost call. -/
structure ResumePoint where
  kind : ResumeKind
  depth : Nat
  line : Nat
deriving DecidableEq

namespace ResumePoint

/-- Where a thread is that was never resumed, other than by itself. -/
def free : ResumePoint :=
  ⟨.unspecified, 0, 0⟩

/-- A step that began at a point is complete at a line, at a depth of the stack. -/
inductive EndsAt (p : ResumePoint) (depth line : Nat) : Prop where
  | into (hk : p.kind = .stepInto)
  | over (hk : p.kind = .stepOver) (h : depth < p.depth ∨ depth = p.depth ∧ line ≠ p.line)
  | out (hk : p.kind = .stepReturn) (h : depth < p.depth)

/-- Nobody who was never resumed is in a step. -/
theorem not_endsAt_free (depth line : Nat) : ¬free.EndsAt depth line := by
  rintro (hk | ⟨hk, -⟩ | ⟨hk, -⟩) <;> cases hk

end ResumePoint

namespace Execution

variable {x x' : Execution}

/-- How an execution was last resumed. -/
def origin (x : Execution) : ResumePoint :=
  ⟨x.resumeKind, x.resumeDepth, x.resumeLine⟩

/-- An execution ends its step at a line if its depth and that line are where the step ends that
began as it was last resumed. -/
theorem isStepEnd_iff (x : Execution) (m : Marks) :
    x.isStepEnd m = true ↔ x.origin.EndsAt x.stack.length (x.topLine m) := by
  unfold isStepEnd
  constructor
  · intro h
    cases hk : x.resumeKind <;> simp only [hk] at h
    · cases h
    · cases h
    · exact .into hk
    · exact .over hk (by simpa [origin] using h)
    · exact .out hk (by simpa [origin] using h)
  · rintro (hk | ⟨hk, h⟩ | ⟨hk, h⟩)
    · simp [show x.resumeKind = .stepInto from hk]
    · simpa [show x.resumeKind = .stepOver from hk, origin] using h
    · simpa [show x.resumeKind = .stepReturn from hk, origin] using h

/-- A request to resume is where the next step begins, unless the thread resumes by itself. -/
theorem origin_resume (x : Execution) (m : Marks) (kind : ResumeKind) :
    (x.resume m kind).origin
      = if kind = .unspecified then x.origin else ⟨kind, x.stack.length, x.topLine m⟩ := by
  unfold resume
  split <;> rfl

/-- To resume an execution leaves whether it was asked to stop. -/
@[simp] theorem suspendRequested_resume (x : Execution) (m : Marks) (kind : ResumeKind) :
    (x.resume m kind).suspendRequested = x.suspendRequested := by
  unfold resume
  split <;> rfl

/-- A request to suspend leaves how an execution was last resumed. -/
@[simp] theorem origin_nudge (x : Execution) (thread : Option Handle) :
    (x.nudge thread).origin = x.origin := by
  unfold nudge
  split <;> rfl

/-- A request to suspend is noted by whom it is meant for. -/
theorem suspendRequested_nudge (x : Execution) (thread : Option Handle) :
    (x.nudge thread).suspendRequested = (x.isMeant thread || x.suspendRequested) := by
  unfold nudge
  split <;> simp_all

/-- An execution that leaves open what its thread went through. -/
structure Keeps (x' x : Execution) : Prop where
  handle : x'.handle = x.handle
  origin : x'.origin = x.origin
  asked : x'.suspendRequested = x.suspendRequested

end Execution

/-! ### What threads go through -/

/-- Something that a thread may go through. Of a request that its debugger takes, it says how the
executions stood. -/
inductive Incident where
  /-- A thread is resumed, or all threads are. -/
  | resumed (whom : Option Handle) (kind : ResumeKind) (d : Debugger) (m : Marks)
  /-- A thread is asked to stop, or all threads are. -/
  | nudged (whom : Option Handle) (d : Debugger)
  /-- A thread stops at a line. -/
  | stopped (thread : Handle)

namespace Incident

variable {thread : Handle} {hs hs' : List Incident}

/-- Where a thread is resumed, if it is, and does not resume by itself. -/
def resumes (thread : Handle) : Incident → Option ResumePoint
  | .resumed whom kind d m =>
    if kind = .unspecified then none
    else ((d.ofHandle? thread).filter (·.isMeant whom)).map fun x =>
      ⟨kind, x.stack.length, x.topLine m⟩
  | _ => none

/-- Whether a thread is asked to stop. -/
def asks (thread : Handle) : Incident → Bool
  | .nudged whom d => (d.ofHandle? thread).any (·.isMeant whom)
  | _ => false

/-- Whether a thread stops at a line. -/
def stops (thread : Handle) : Incident → Bool
  | .stopped handle => handle.id = thread.id
  | _ => false

/-- Where a thread was last resumed, other than by itself. -/
def lastResume (thread : Handle) (hs : List Incident) : Option ResumePoint :=
  hs.findSome? (·.resumes thread)

/-- Whether a thread was asked to stop since it last did. -/
def isAsked (thread : Handle) (hs : List Incident) : Bool :=
  (hs.takeWhile fun h => !h.stops thread).any (·.asks thread)

/-- The newest incident that resumes a thread is the one that counts. -/
theorem lastResume_cons (h : Incident) :
    lastResume thread (h :: hs) = (h.resumes thread).or (lastResume thread hs) := by
  unfold lastResume
  rw [List.findSome?_cons]
  cases h.resumes thread <;> rfl

/-- A thread is asked to stop if the newest incident asks, or if an earlier one did and the thread
has not stopped by the newest one. -/
theorem isAsked_cons (h : Incident) :
    isAsked thread (h :: hs) = (!h.stops thread && (h.asks thread || isAsked thread hs)) := by
  unfold isAsked
  rw [List.takeWhile_cons]
  cases h.stops thread <;> simp

/-- Where a thread was last resumed is sought among newer incidents first. -/
theorem lastResume_append : lastResume thread (hs ++ hs')
    = (lastResume thread hs).or (lastResume thread hs') :=
  List.findSome?_append

/-- A thread was asked to stop lately, or before and it did not stop since. -/
theorem isAsked_append : isAsked thread (hs ++ hs')
    = (isAsked thread hs || (hs.all fun h => !h.stops thread) && isAsked thread hs') := by
  induction hs with
  | nil => rfl
  | cons h hs ih =>
      rw [List.cons_append, isAsked_cons, isAsked_cons, ih, List.all_cons]
      cases h.stops thread <;> simp [Bool.or_assoc]

end Incident

namespace Debugger

open Incident

variable {d d' : Debugger} {n n' : Nat} {hs : List Incident} {x x' : Execution} {m : Marks}

/-- The executions of a debugger keep what their threads went through. -/
structure Remembers (hs : List Incident) (d : Debugger) (n : Nat) : Prop where
  orderly : d.Orderly n
  unknown : ∀ thread : Handle, n ≤ thread.id →
    lastResume thread hs = none ∧ isAsked thread hs = false
  origin : ∀ x ∈ d.executions, x.origin = (lastResume x.handle hs).getD .free
  asked : ∀ x ∈ d.executions, x.suspendRequested = isAsked x.handle hs

/-- A thread that has no execution yet is found under no handle. -/
theorem Orderly.ofHandle?_eq_none (h : d.Orderly n) {thread : Handle} (hn : n ≤ thread.id) :
    d.ofHandle? thread = none := by
  refine List.find?_eq_none.mpr fun x hx => ?_
  have hlt := h.below x hx
  simp only [decide_eq_true_eq]
  omega

namespace Remembers

/-- What executions keep of their threads they keep when later numbers are free. -/
theorem mono (h : Remembers hs d n) (hn : n ≤ n') : Remembers hs d n' :=
  ⟨h.orderly.mono hn, fun thread hid => h.unknown thread (Nat.le_trans hn hid), h.origin, h.asked⟩

/-- Nothing happened yet. -/
theorem start (dynamic attached : Bool) (n : Nat) : Remembers [] (.start dynamic attached) n :=
  ⟨⟨by simp [Debugger.start], by simp [Debugger.start], by simp [Debugger.start]⟩,
    fun _ _ => ⟨rfl, rfl⟩, by simp [Debugger.start], by simp [Debugger.start]⟩

/-- Executions may change in what their threads did not go through. -/
theorem of_keeps (h : Remembers hs d n) (ho : d'.Orderly n)
    (hk : ∀ x' ∈ d'.executions, ∃ x ∈ d.executions, x'.Keeps x) : Remembers hs d' n := by
  refine ⟨ho, h.unknown, fun x' hx' => ?_, fun x' hx' => ?_⟩
  · obtain ⟨x, hx, hkeeps⟩ := hk x' hx'
    rw [hkeeps.origin, hkeeps.handle]
    exact h.origin x hx
  · obtain ⟨x, hx, hkeeps⟩ := hk x' hx'
    rw [hkeeps.asked, hkeeps.handle]
    exact h.asked x hx

/-- An execution that keeps its past may be put in the place of its earlier state. -/
theorem put (h : Remembers hs d n) (hx : x ∈ d.executions) (ho : x'.owner = x.owner)
    (hk : x'.Keeps x) : Remembers hs (d.put x') n := by
  refine h.of_keeps (h.orderly.put hx ho hk.handle) fun y hy => ?_
  obtain ⟨hy, -⟩ | ⟨rfl, -⟩ := mem_put hy
  · exact ⟨y, hy, rfl, rfl, rfl⟩
  · exact ⟨x, hx, hk⟩

/-- An execution that is given up takes its past along, and the others keep theirs. -/
theorem erase (h : Remembers hs d n) (o : Nat) : Remembers hs (d.erase o) n :=
  h.of_keeps (h.orderly.erase o) fun y hy => ⟨y, (List.mem_filter.mp hy).1, rfl, rfl, rfl⟩

/-- A thread that is met for the first time went through nothing. -/
theorem meet {i : Interpreter} (h : Remembers hs d n) (hn : n ≤ n')
    (hnew : d.ofOwner? i.id = none → n < n') : Remembers hs (d.meet n i) n' := by
  unfold Debugger.meet
  split
  · exact h.mono hn
  · next hx =>
      have hlt := hnew hx
      have horder := (h.orderly.insert hx i.name).mono hlt
      obtain ⟨hresume, hasked⟩ := h.unknown ⟨n, i.name⟩ (Nat.le_refl n)
      refine ⟨horder, fun thread hid => h.unknown thread (by omega), fun y hy => ?_, fun y hy => ?_⟩
      · rcases List.mem_append.mp hy with hy | hy
        · exact h.origin y hy
        · obtain rfl := List.mem_singleton.mp hy
          change _ = (lastResume ⟨n, i.name⟩ hs).getD .free
          rw [hresume]
          rfl
      · rcases List.mem_append.mp hy with hy | hy
        · exact h.asked y hy
        · obtain rfl := List.mem_singleton.mp hy
          exact hasked.symm

/-- A thread stops at a line, and it need not be asked any more. -/
theorem stop (h : Remembers hs d n) (hx : x ∈ d.executions) (ho : x'.owner = x.owner)
    (hhandle : x'.handle = x.handle) (horigin : x'.origin = x.origin)
    (hasked : x'.suspendRequested = false) :
    Remembers (.stopped x.handle :: hs) (d.put x') n := by
  have hother : ∀ y ∈ d.executions, y.owner ≠ x'.owner → x.handle.id ≠ y.handle.id :=
    fun y hy hne hid => hne (by rw [ho, h.orderly.eq_of_handle hx hy hid])
  refine ⟨h.orderly.put hx ho hhandle, fun thread hid => ?_, fun y hy => ?_, fun y hy => ?_⟩
  · have hne : x.handle.id ≠ thread.id := fun heq =>
      absurd (h.orderly.below x hx) (by omega)
    obtain ⟨hresume, hnone⟩ := h.unknown thread hid
    rw [lastResume_cons, isAsked_cons, hresume, hnone]
    simp [resumes, asks]
  · rw [lastResume_cons]
    obtain ⟨hy, -⟩ | ⟨rfl, -⟩ := mem_put hy
    · exact h.origin y hy
    · rw [horigin, hhandle]
      exact h.origin x hx
  · rw [isAsked_cons]
    obtain ⟨hy, hne⟩ | ⟨rfl, -⟩ := mem_put hy
    · simp [stops, asks, hother y hy hne, h.asked y hy]
    · simp [stops, hasked, hhandle]

/-- All executions change in what a request says of their threads. -/
theorem each (h : Remembers hs d n) (incident : Incident) {f : Execution → Execution}
    (hnone : ∀ thread, d.ofHandle? thread = none →
      incident.resumes thread = none ∧ incident.asks thread = false)
    (hstops : ∀ thread, incident.stops thread = false)
    (howner : ∀ x, (f x).owner = x.owner) (hhandle : ∀ x, (f x).handle = x.handle)
    (horigin : ∀ x ∈ d.executions, (f x).origin = (incident.resumes x.handle).getD x.origin)
    (hasked : ∀ x ∈ d.executions,
      (f x).suspendRequested = (incident.asks x.handle || x.suspendRequested)) :
    Remembers (incident :: hs) (d.each f) n := by
  refine ⟨h.orderly.map f howner hhandle, fun thread hid => ?_, fun y hy => ?_, fun y hy => ?_⟩
  · obtain ⟨hresumes, hasks⟩ := hnone thread (h.orderly.ofHandle?_eq_none hid)
    obtain ⟨hresume, hasked⟩ := h.unknown thread hid
    rw [lastResume_cons, isAsked_cons, hresumes, hasks, hresume, hasked]
    simp
  · obtain ⟨x, hx, rfl⟩ := List.mem_map.mp hy
    rw [lastResume_cons, hhandle, horigin x hx, h.origin x hx]
    cases incident.resumes x.handle <;> rfl
  · obtain ⟨x, hx, rfl⟩ := List.mem_map.mp hy
    rw [isAsked_cons, hhandle, hasked x hx, hstops, h.asked x hx]
    rfl

/-- Threads are resumed. -/
theorem resume (h : Remembers hs d n) (whom : Option Handle) (kind : ResumeKind) (m : Marks) :
    Remembers (.resumed whom kind d m :: hs)
      (d.each fun x => if x.isMeant whom then x.resume m kind else x) n := by
  refine h.each _ (fun thread hx => ?_) (fun _ => rfl) (fun x => ?_) (fun x => ?_) (fun x hx => ?_)
    fun x hx => ?_
  · simp [resumes, asks, hx]
  · split <;> simp
  · split <;> simp
  · have hfind := h.orderly.ofHandle?_eq hx rfl
    simp only [resumes, hfind]
    split
    · next hmeant =>
        rw [Execution.origin_resume]
        split <;> simp [Option.filter, hmeant]
    · next hmeant => split <;> simp [Option.filter, hmeant]
  · split <;> simp [asks]

/-- Threads are asked to stop. -/
theorem nudge (h : Remembers hs d n) (whom : Option Handle) :
    Remembers (.nudged whom d :: hs) (d.each (·.nudge whom)) n := by
  refine h.each _ (fun thread hx => ?_) (fun _ => rfl) (fun x => x.owner_nudge whom)
    (fun x => x.handle_nudge whom) (fun x hx => ?_) fun x hx => ?_
  · simp [resumes, asks, hx]
  · rw [Execution.origin_nudge]
    rfl
  · have hfind := h.orderly.ofHandle?_eq hx rfl
    rw [Execution.suspendRequested_nudge, asks, hfind]
    rfl

/-- A thread that is known under the next number was met. -/
theorem lt_of_executionFor {i : Interpreter} (ho : d'.Orderly n') (hx : x' ∈ d'.executions)
    (hhandle : x'.handle = (d.executionFor n i).handle) (hnew : d.ofOwner? i.id = none) :
    n < n' := by
  have hlt := ho.below x' hx
  have hid : (d.executionFor n i).handle.id = n := by
    unfold executionFor
    rw [hnew]
    rfl
  rwa [hhandle, hid] at hlt

/-- A request that resumes one thread. -/
theorem put_resume (h : Remembers hs d n) {thread : Handle} (hx : d.ofHandle? thread = some x)
    (kind : ResumeKind) (m : Marks) :
    d.put (x.resume m kind)
      = d.each fun y => if y.isMeant (some thread) then y.resume m kind else y := by
  have hid : x.handle.id = thread.id := by simpa using List.find?_some hx
  have hmem := mem_of_ofHandle? hx
  unfold Debugger.put Debugger.each
  congr 1
  refine List.map_congr_left fun y hy => ?_
  by_cases ho : y.owner = x.owner
  · obtain rfl := h.orderly.eq_of_owner hy hmem ho
    simp [Execution.isMeant, hid]
  · have hne : y.handle.id ≠ thread.id := fun heq =>
      ho (congrArg Execution.owner (h.orderly.eq_of_handle hy hmem (heq.trans hid.symm)))
    simp [Execution.isMeant, hne, ho]

/-- A request for a thread that is not known resumes nobody. -/
theorem resume_of_unknown (h : Remembers hs d n) {thread : Handle}
    (hx : d.ofHandle? thread = none) (kind : ResumeKind) (m : Marks) :
    Remembers (.resumed (some thread) kind d m :: hs) d n := by
  have heach := h.resume (some thread) kind m
  have hsame : (d.each fun x => if x.isMeant (some thread) then x.resume m kind else x) = d := by
    have hmap : d.executions.map (fun x => if x.isMeant (some thread) then x.resume m kind else x)
        = d.executions := by
      refine (List.map_congr_left fun x hx' => ?_).trans (List.map_id d.executions)
      have hne := List.find?_eq_none.mp hx x hx'
      simp only [decide_eq_true_eq] at hne
      simp [Execution.isMeant, hne]
    rw [Debugger.each, hmap]
  rwa [hsame] at heach

end Remembers

end Debugger

/-! ### Causes -/

namespace Debugger

open Incident

variable {d : Debugger} {n : Nat} {hs : List Incident} {x : Execution} {m : Marks}
  {script : Script} {line : Nat} {reason : SuspendReason}

/-- Why a thread stops at a line of a script, by what it went through: the first that applies of a
breakpoint, a request to stop since it last did, and the end of the step that it was last told to
take. -/
inductive Cause (hs : List Incident) (d : Debugger) (m : Marks) (x : Execution) (script : Script)
    (line : Nat) : SuspendReason → Prop where
  | breakpoint (hb : d.table.isActive m script line = true) :
      Cause hs d m x script line .breakpoint
  | clientRequest (hb : d.table.isActive m script line = false)
      (ha : isAsked x.handle hs = true) : Cause hs d m x script line .clientRequest
  | stepEnd (hb : d.table.isActive m script line = false) (ha : isAsked x.handle hs = false)
      (p : ResumePoint) (hp : lastResume x.handle hs = some p)
      (he : p.EndsAt x.stack.length line) : Cause hs d m x script line .stepEnd

/-- A thread has a reason to stop at a visible line in one of its calls. -/
structure Halts (hs : List Incident) (d : Debugger) (m : Marks) (o : Nat) (script : Script)
    (line : Nat) (x : Execution) (reason : SuspendReason) : Prop where
  tracked : d.isTracked script = true
  visible : 1 ≤ line
  known : d.ofOwner? o = some x
  busy : x.stack ≠ []
  cause : Cause hs d m x script line reason

/-- Some cause is given by a breakpoint, by a request to stop or by the end of a step. -/
theorem cause_iff : (∃ reason, Cause hs d m x script line reason)
    ↔ d.table.isActive m script line = true ∨ isAsked x.handle hs = true
      ∨ ∃ p, lastResume x.handle hs = some p ∧ p.EndsAt x.stack.length line := by
  constructor
  · rintro ⟨reason, hb | ⟨hb, ha⟩ | ⟨hb, ha, p, hp, he⟩⟩
    · exact .inl hb
    · exact .inr (.inl ha)
    · exact .inr (.inr ⟨p, hp, he⟩)
  · intro h
    cases hb : d.table.isActive m script line with
    | true => exact ⟨_, .breakpoint hb⟩
    | false =>
        cases ha : isAsked x.handle hs with
        | true => exact ⟨_, .clientRequest hb ha⟩
        | false =>
            obtain h | h | ⟨p, hp, he⟩ := h
            · rw [hb] at h
              cases h
            · rw [ha] at h
              cases h
            · exact ⟨_, .stepEnd hb ha p hp he⟩

/-- The fields of an execution tell whether its thread has a cause to stop. -/
theorem Remembers.stopAt_iff (h : Remembers hs d n) (hx : x ∈ d.executions) :
    d.stopAt m x script line = some reason ↔ x.stack ≠ [] ∧ Cause hs d m x script line reason := by
  have hasked := h.asked x hx
  have horigin := h.origin x hx
  unfold stopAt
  cases hstack : x.stack with
  | nil => simp
  | cons top rest =>
      have hline : x.topLine (m.moveTo top line) = line := by
        unfold Execution.topLine
        rw [hstack]
        exact (m.lineOf_moveTo top top line).trans (if_pos rfl)
      have hstep : x.isStepEnd (m.moveTo top line) = true
          ↔ ∃ p, lastResume x.handle hs = some p ∧ p.EndsAt x.stack.length line := by
        rw [x.isStepEnd_iff, hline, horigin]
        cases hp : lastResume x.handle hs with
        | none => simpa using ResumePoint.not_endsAt_free _ line
        | some p => simp
      have hbusy : x.stack.isEmpty = false := by rw [hstack]; rfl
      dsimp only
      rw [Execution.stopReason, hasked, if_neg (by simp [hbusy])]
      constructor
      · intro hreason
        refine ⟨List.cons_ne_nil _ _, ?_⟩
        split at hreason
        · next hb =>
            cases hreason
            exact .breakpoint hb
        · next hb =>
            split at hreason
            · next ha =>
                cases hreason
                exact .clientRequest (by simpa using hb) ha
            · next ha =>
                split at hreason
                · next he =>
                    cases hreason
                    obtain ⟨p, hp, he⟩ := hstep.mp he
                    exact .stepEnd (by simpa using hb) (by simpa using ha) p hp he
                · cases hreason
      · rintro ⟨-, hcause⟩
        cases hcause with
        | breakpoint hb => exact if_pos hb
        | clientRequest hb ha => rw [if_neg (by simp [hb]), if_pos ha]
        | stepEnd hb ha p hp he =>
            rw [if_neg (by simp [hb]), if_neg (by simp [ha]), if_pos (hstep.mpr ⟨p, hp, he⟩)]

end Debugger

/-! ### Histories of a debugger -/

namespace Bridge

open World Debugger Incident

variable {σ : Type} [Inhabited σ] [Engine σ] {s : Nat} {hs : List Incident} {b b' : Bridge σ}
  {d : Debugger} {i : Interpreter}

/-- What a thread goes through in a call: it stops at a line if it waits there afterwards. -/
def incidentsOf (b : Bridge σ) (i : Interpreter) (c : Call) : List Incident :=
  match c, ((b.perform i c).2.world.debugger i.session).ofOwner? i.id with
  | .line _ _, some x => if x.waiting.isSome then [.stopped x.handle] else []
  | _, _ => []

omit [Inhabited σ] [Engine σ] in
/-- What threads go through when their debugger takes a request. -/
def incidentsBy (b : Bridge σ) (s : Nat) (r : Request) : List Incident :=
  let d := b.world.debugger s
  if d.terminated then []
  else
    match r with
    | .resume whom kind => [.resumed whom kind d b.world.marks]
    | .suspend whom => [.nudged whom d]
    | _ => []

/-- A history of the debugger of a session, from a state to another, with what its threads went
through, newest first. Threads make calls unless they wait, and the debugger takes requests, whatever
they are. What happens besides leaves it as it is. -/
inductive Undergoes (s : Nat) : List Incident → Bridge σ → Bridge σ → Prop where
  | start (b : Bridge σ) : Undergoes s [] b b
  /-- A thread makes a call. -/
  | call {hs : List Incident} {b b' : Bridge σ} (h : Undergoes s hs b b') (i : Interpreter)
      (c : Call) (hi : i.session = s) (hw : b'.isWaiting i = false) :
      Undergoes s (b'.incidentsOf i c ++ hs) b (b'.perform i c).2
  /-- The debugger takes a request. -/
  | take {hs : List Incident} {b b' : Bridge σ} (h : Undergoes s hs b b') (r : Request) :
      Undergoes s (b'.incidentsBy s r ++ hs) b (b'.receive s r)
  /-- Something else happens. -/
  | besides {hs : List Incident} {b b' : Bridge σ} (h : Undergoes s hs b b') (b'' : Bridge σ)
      (hd : (b''.world.session s).debugger = (b'.world.session s).debugger)
      (hn : b'.world.nextNumber ≤ b''.world.nextNumber) : Undergoes s hs b b''

/-- A call that ends the interpreter leaves no debugger attached. -/
theorem not_attached_engineFinished (hd : (b.world.session i.session).debugger = some d)
    (ha : d.attached = true) {d' : Debugger}
    (hd' : ((b.perform i .engineFinished).2.world.session i.session).debugger = some d') :
    d'.attached = false :=
  ((leaves_finishEngine hd ha).left d' hd').attached

/-- A thread that goes on after a call did not stop in it. -/
theorem incidentsOf_eq_nil {c : Call} {d' : Debugger}
    (hd' : ((b.perform i c).2.world.session i.session).debugger = some d')
    (h : ∀ script line, c = .line script line → d'.isWaiting i.id = false) :
    b.incidentsOf i c = [] := by
  unfold incidentsOf
  rw [debugger_eq hd']
  cases c with
  | line script line =>
      cases hx : d'.ofOwner? i.id with
      | none => rfl
      | some x => simp [isWaiting_eq_false (h script line rfl) hx]
  | _ => rfl

/-- A thread that waits after a line has stopped there. -/
theorem incidentsOf_line {script : Script} {line : Nat} {d' : Debugger} {x : Execution}
    (hd' : ((b.perform i (.line script line)).2.world.session i.session).debugger = some d')
    (hx : d'.ofOwner? i.id = some x) (hw : x.waiting.isSome = true) :
    b.incidentsOf i (.line script line) = [.stopped x.handle] := by
  unfold incidentsOf
  rw [debugger_eq hd', hx]
  exact if_pos hw

/-- A thread keeps what it goes through in a call. -/
theorem remembers_perform (hd : (b.world.session i.session).debugger = some d)
    (ha : d.attached = true) (hw : d.isWaiting i.id = false)
    (h : d.Remembers hs b.world.nextNumber) (c : Call) {d' : Debugger}
    (hd' : ((b.perform i c).2.world.session i.session).debugger = some d')
    (ha' : d'.attached = true) :
    d'.Remembers (b.incidentsOf i c ++ hs) (b.perform i c).2.world.nextNumber := by
  have hc : c ≠ .engineFinished := by
    rintro rfl
    rw [not_attached_engineFinished hd ha hd'] at ha'
    cases ha'
  have horder : d'.Orderly (b.perform i c).2.world.nextNumber := by
    obtain ⟨d₁, hworks⟩ := works_perform hd ha hw hc
    obtain rfl := Option.some.inj (hworks.debugger.symm.trans hd')
    exact hworks.orderly h.orderly
  obtain ⟨d₁, es, hperforms, hbecomes⟩ := performs_perform hd ha h.orderly hc
  obtain rfl := Option.some.inj (hd'.symm.trans hbecomes.debugger)
  have hn := hbecomes.tells.numbers
  let n := b.world.nextNumber
  let x := d.executionFor n i
  have hx : x ∈ (d.meet n i).executions := mem_of_ofOwner? (ofOwner?_meet d n i)
  have hmeet : ∀ {y : Execution}, y ∈ d'.executions → y.handle = x.handle →
      (d.meet n i).Remembers hs (b.perform i c).2.world.nextNumber := fun hy hhandle =>
    h.meet hn (Remembers.lt_of_executionFor horder hy hhandle)
  cases hperforms with
  | aside c es hes hline hscript hmove =>
      rw [incidentsOf_eq_nil hd' fun _ _ _ => hw]
      exact h.mono hn
  | gone y hy =>
      rw [incidentsOf_eq_nil hd' (by simp)]
      exact (h.erase i.id).mono hn
  | moved c hmove es hes =>
      rw [incidentsOf_eq_nil hd' (by rintro script line rfl; exact hmove.elim)]
      let y : Execution := { x with stack := c.moves x.stack }
      have hy : y ∈ ((d.meet n i).put y).executions := mem_put_self hx rfl
      exact (hmeet hy rfl).put hx rfl ⟨rfl, rfl, rfl⟩
  | held script ht answers hanswers =>
      rw [incidentsOf_eq_nil hd' (by simp)]
      let y : Execution := { x with waiting := some .load, pending := [] }
      have hy : y ∈ ((d.meet n i).put y).executions := mem_put_self hx rfl
      exact (hmeet hy rfl).put hx rfl ⟨rfl, rfl, rfl⟩
  | passed script line ht hr =>
      have hgo := waiting_executionFor (n := n) hw
      rw [incidentsOf_eq_nil hd' fun _ _ _ => by
        rw [isWaiting_eq (ofOwner?_meet d n i), hgo]
        rfl]
      exact hmeet hx rfl
  | stopped script line reason ht hr answers hanswers =>
      let y : Execution :=
        { x with waiting := some .line, suspendRequested := false, pending := [] }
      have hown : ((d.meet n i).put y).ofOwner? i.id = some y :=
        ofOwner?_put_self (ofOwner?_meet d n i) rfl
      rw [incidentsOf_line hd' hown rfl]
      have hy : y ∈ ((d.meet n i).put y).executions := mem_put_self hx rfl
      exact (hmeet hy rfl).stop (x := x) hx rfl rfl rfl rfl

omit [Inhabited σ] [Engine σ] in
/-- What threads go through by a request is settled by the debugger that takes it. -/
theorem incidentsBy_eq (hd : (b.world.session s).debugger = some d) (ht : d.terminated = false)
    (r : Request) :
    b.incidentsBy s r = match r with
      | .resume whom kind => [.resumed whom kind d b.world.marks]
      | .suspend whom => [.nudged whom d]
      | _ => [] := by
  unfold incidentsBy
  rw [debugger_eq hd]
  exact if_neg (by simp [ht])

omit [Inhabited σ] [Engine σ] in
/-- A request that neither resumes threads nor asks them to stop is none that they go through. -/
theorem incidentsBy_eq_nil {r : Request}
    (hr : ∀ thread, r ≠ .suspend thread ∧ ∀ kind, r ≠ .resume thread kind) :
    b.incidentsBy s r = [] := by
  unfold incidentsBy
  dsimp only
  split
  · rfl
  · split
    · next whom kind => exact absurd rfl ((hr whom).2 kind)
    · next whom => exact absurd rfl (hr whom).1
    · rfl

/-- Threads keep what they go through when their debugger takes a request. -/
theorem remembers_receive (hd : (b.world.session s).debugger = some d)
    (ha : d.attached = true) (h : d.Remembers hs b.world.nextNumber) (r : Request)
    {d' : Debugger} (hd' : ((b.receive s r).world.session s).debugger = some d')
    (ha' : d'.attached = true) :
    d'.Remembers (b.incidentsBy s r ++ hs) (b.receive s r).world.nextNumber := by
  cases ht : d.terminated with
  | true =>
      have hsame : b.receive s r = b := if_pos (by rw [debugger_eq hd]; exact ht)
      have hnone : b.incidentsBy s r = [] := if_pos (by rw [debugger_eq hd]; exact ht)
      rw [hsame] at hd' ⊢
      rw [hnone]
      obtain rfl := Option.some.inj (hd.symm.trans hd')
      exact h
  | false =>
      obtain ⟨d₁, es, hobeys, hbecomes⟩ | ⟨-, hgone⟩ := obeys_receive hd ha ht h.orderly r
      · obtain rfl := Option.some.inj (hbecomes.debugger.symm.trans hd')
        have hn := hbecomes.tells.numbers
        refine Remembers.mono ?_ hn
        cases hobeys with
        | resumed handle kind x hr hx =>
            subst hr
            rw [incidentsBy_eq hd ht, h.put_resume hx]
            exact h.resume (some handle) kind b.world.marks
        | resumedAll kind hr es =>
            subst hr
            rw [incidentsBy_eq hd ht]
            exact h.resume none kind b.world.marks
        | nudged thread hr =>
            subst hr
            rw [incidentsBy_eq hd ht]
            exact h.nudge thread
        | noted table hr =>
            rw [incidentsBy_eq_nil hr]
            exact h.of_keeps (h.orderly.congr rfl) fun x hx => ⟨x, hx, rfl, rfl, rfl⟩
        | putOff x pending hx hr =>
            rw [incidentsBy_eq_nil hr]
            exact h.put hx rfl ⟨rfl, rfl, rfl⟩
        | served answers hanswers hr hx =>
            rw [incidentsBy_eq hd ht]
            split
            · next whom kind =>
                obtain ⟨handle, rfl, hnone⟩ := hx whom kind rfl
                exact h.resume_of_unknown hnone kind b.world.marks
            · next whom => exact absurd rfl (hr whom)
            · exact h
      · rw [(hgone d' hd').attached] at ha'
        cases ha'

/-- Executions keep what their threads went through, as long as their debugger is attached. -/
theorem remembers_undergoes {dynamic : Bool} (h : Undergoes s hs b b')
    (hstart : (b.world.session s).debugger = some (.start dynamic true)) {d : Debugger}
    (hd : (b'.world.session s).debugger = some d) (ha : d.attached = true) :
    d.Remembers hs b'.world.nextNumber := by
  induction h generalizing d with
  | start b =>
      obtain rfl := Option.some.inj (hstart.symm.trans hd)
      exact .start dynamic true _
  | call h i c hi hw ih =>
      subst hi
      obtain ⟨d₀, hd₀, hyields⟩ := (tells_perform _ i c).here.debugger d hd
      have ha₀ := hyields.attached ha
      have hw₀ : d₀.isWaiting i.id = false := by
        rw [isWaiting, debugger_eq hd₀] at hw
        exact hw
      exact remembers_perform hd₀ ha₀ hw₀ (ih hstart hd₀ ha₀) c hd ha
  | take h r ih =>
      obtain ⟨d₀, hd₀, hyields⟩ := (tells_receive _ r).here.debugger d hd
      have ha₀ := hyields.attached ha
      exact remembers_receive hd₀ ha₀ (ih hstart hd₀ ha₀) r hd ha
  | besides h b'' hsame hn ih => exact (ih hstart (hsame ▸ hd) ha).mono hn

/-! ### Lines -/

/-- A thread stopped at a line, and told the model why. Answers to what it was asked for may
follow. -/
structure StoppedFor (b b' : Bridge σ) (i : Interpreter) (x : Execution) (reason : SuspendReason) :
    Prop where
  waits : ∃ y, (b'.world.debugger i.session).ofOwner? i.id = some y ∧ y.waiting = some .line
  told : ∃ answers : List Event, (∀ e ∈ answers, e.isAnswer = true)
    ∧ (b.world.session i.session).mailbox.Gains
      ((.suspended x.handle reason x.stack :: answers).map .event)
      (b'.world.session i.session).mailbox

/-- A line at which a thread has no reason to stop is passed, and any other is not. -/
theorem stoppedFor_of_stopAt (hd : (b.world.session i.session).debugger = some d)
    (ha : d.attached = true) (hw : d.isWaiting i.id = false) (ho : d.Orderly b.world.nextNumber)
    (script : Script) (line : Nat) :
    ((b.perform i (.line script line)).2.isWaiting i = true →
        ∃ reason, d.minds script line = true
          ∧ d.stopAt b.world.marks (d.executionFor b.world.nextNumber i) script line = some reason)
      ∧ ∀ reason, d.minds script line = true →
        d.stopAt b.world.marks (d.executionFor b.world.nextNumber i) script line = some reason →
        b.StoppedFor (b.perform i (.line script line)).2 i (d.executionFor b.world.nextNumber i)
          reason := by
  obtain ⟨d', es, hperforms, hbecomes⟩ :=
    performs_perform hd ha ho (c := .line script line) (by simp)
  have hwaits : (b.perform i (.line script line)).2.isWaiting i = d'.isWaiting i.id := by
    rw [isWaiting, debugger_eq hbecomes.debugger]
  rw [hwaits]
  have hknown := ofOwner?_meet d b.world.nextNumber i
  cases hperforms with
  | aside c es hes hline hscript hmove =>
      have hnone := hline script line rfl
      exact ⟨fun h => absurd (h.symm.trans hw) (by simp), fun reason ht =>
        absurd (ht.symm.trans hnone) (by simp)⟩
  | moved c hmove => exact hmove.elim
  | passed script line ht hr =>
      refine ⟨fun h => ?_, fun reason _ hreason => absurd (hr.symm.trans hreason) (by simp)⟩
      rw [isWaiting_eq hknown, waiting_executionFor hw] at h
      cases h
  | stopped script line reason ht hr answers hanswers =>
      refine ⟨fun _ => ⟨reason, ht, hr⟩, fun reason' _ hreason => ?_⟩
      obtain rfl := Option.some.inj (hr.symm.trans hreason)
      let y : Execution := { d.executionFor b.world.nextNumber i with
        waiting := some .line, suspendRequested := false, pending := [] }
      refine ⟨⟨y, ?_, rfl⟩, answers, hanswers, hbecomes.mailbox⟩
      rw [debugger_eq hbecomes.debugger]
      exact ofOwner?_put_self hknown rfl

/-- Where a thread stops, by its history. While its debugger is attached, a thread that goes on
stops at a line exactly if the line and its script are visible, it has made a call, and what it went
through gives a cause; and it tells the model the first cause that applies. -/
theorem waits_iff_cause {dynamic : Bool} (h : Undergoes s hs b b')
    (hstart : (b.world.session s).debugger = some (.start dynamic true))
    (ha : (b'.world.debugger s).attached = true) (hi : i.session = s)
    (hw : b'.isWaiting i = false) (script : Script) (line : Nat) :
    ((b'.perform i (.line script line)).2.isWaiting i = true
        ↔ ∃ x reason, (b'.world.debugger s).Halts hs b'.world.marks i.id script line x reason)
      ∧ ∀ x reason, (b'.world.debugger s).Halts hs b'.world.marks i.id script line x reason →
        b'.StoppedFor (b'.perform i (.line script line)).2 i x reason := by
  subst hi
  have hd := debugger_of_attached ha
  let d := b'.world.debugger i.session
  have hremembers := remembers_undergoes h hstart hd ha
  obtain ⟨honly, hstop⟩ := stoppedFor_of_stopAt hd ha hw hremembers.orderly script line
  -- A thread that has made a call is known.
  have hhalts : ∀ x reason, d.Halts hs b'.world.marks i.id script line x reason
      ↔ d.minds script line = true ∧ d.executionFor b'.world.nextNumber i = x
        ∧ d.stopAt b'.world.marks x script line = some reason := by
    intro x reason
    constructor
    · rintro ⟨ht, hl, hx, hbusy, hcause⟩
      refine ⟨by simp [minds, ht, hl], by simp [executionFor, hx], ?_⟩
      exact (hremembers.stopAt_iff (mem_of_ofOwner? hx)).mpr ⟨hbusy, hcause⟩
    · rintro ⟨ht, hx, hreason⟩
      simp only [minds, Bool.and_eq_true, decide_eq_true_eq] at ht
      cases hown : d.ofOwner? i.id with
      | none =>
          rw [executionFor, hown] at hx
          subst hx
          cases hreason
      | some y =>
          rw [executionFor, hown] at hx
          obtain rfl : y = x := hx
          obtain ⟨hbusy, hcause⟩ := (hremembers.stopAt_iff (mem_of_ofOwner? hown)).mp hreason
          exact ⟨ht.1, ht.2, hown, hbusy, hcause⟩
  have hgo : ∀ x reason, d.Halts hs b'.world.marks i.id script line x reason →
      b'.StoppedFor (b'.perform i (.line script line)).2 i x reason := fun x reason hx => by
    obtain ⟨ht, rfl, hreason⟩ := (hhalts x reason).mp hx
    exact hstop reason ht hreason
  refine ⟨⟨fun hwaits => ?_, ?_⟩, hgo⟩
  · obtain ⟨reason, ht, hreason⟩ := honly hwaits
    exact ⟨_, reason, (hhalts _ reason).mpr ⟨ht, rfl, hreason⟩⟩
  · rintro ⟨x, reason, hx⟩
    obtain ⟨y, hy, hline⟩ := (hgo x reason hx).waits
    exact (Debugger.isWaiting_eq hy).trans (by rw [hline]; rfl)

/-- A session with a debugger that follows nobody yet. -/
def opened : Bridge VariableTable :=
  ((∅ : Bridge VariableTable).launch ⟨.off, 0, true, true, true⟩).2

/-- A thread has made a call and is told to take a step. -/
def stepped : Bridge VariableTable :=
  let call : Activation := ⟨2, .snippet 0 "main", .file, none⟩
  (opened.perform (.idle 0 "main" 0) (.push call)).2.receive 0 (.resume none .stepInto)

/-- The thread stops at its first line. -/
theorem waits_iff_cause_stepped :
    opened.world.debugger 0 = .start false true ∧ stepped.isWaiting (.idle 0 "main" 0) = false
      ∧ (stepped.perform (.idle 0 "main" 0) (.line (.snippet 0 "main") 1)).2.isWaiting
        (.idle 0 "main" 0) = true := by
  let i : Interpreter := .idle 0 "main" 0
  let c : Call := .push ⟨2, .snippet 0 "main", .file, none⟩
  have h := ((Undergoes.start (s := 0) opened).call i c rfl (by decide +kernel)).take
    (.resume none .stepInto)
  refine ⟨rfl, by decide +kernel, ?_⟩
  have hwaits := (waits_iff_cause h rfl (by decide +kernel) rfl (i := i) (by decide +kernel)
    (.snippet 0 "main") 1).1
  refine hwaits.mpr ⟨_, .stepEnd, by decide +kernel, by decide, rfl, by decide +kernel, ?_⟩
  exact .stepEnd (by decide +kernel) (by decide +kernel) ⟨.stepInto, 1, 0⟩ (by decide +kernel)
    (.into rfl)

/-- Where a thread stops that was told to go on. It stops at a line exactly if there is an enabled
breakpoint, or it was asked to stop or told to take a step that is complete there since it goes on,
or it was asked to stop before that and did not stop since. -/
theorem waits_iff_after_clientRequest {dynamic : Bool} {later earlier : List Incident}
    {whom : Option Handle} {d₀ : Debugger} {m₀ : Marks}
    (h : Undergoes s (later ++ .resumed whom .clientRequest d₀ m₀ :: earlier) b b')
    (hstart : (b.world.session s).debugger = some (.start dynamic true))
    (ha : (b'.world.debugger s).attached = true) (hi : i.session = s)
    (hw : b'.isWaiting i = false) {x : Execution}
    (hx : (b'.world.debugger s).ofOwner? i.id = some x) {x₀ : Execution}
    (hx₀ : d₀.ofHandle? x.handle = some x₀) (hmeant : x₀.isMeant whom = true)
    (script : Script) (line : Nat) :
    (b'.perform i (.line script line)).2.isWaiting i = true
      ↔ ((b'.world.debugger s).isTracked script = true ∧ 1 ≤ line ∧ x.stack ≠ [])
        ∧ ((b'.world.debugger s).table.isActive b'.world.marks script line = true
          ∨ isAsked x.handle later = true
          ∨ (∃ p, lastResume x.handle later = some p ∧ p.EndsAt x.stack.length line)
          ∨ (later.all fun h => !h.stops x.handle) = true ∧ isAsked x.handle earlier = true) := by
  let resumed : Incident := .resumed whom .clientRequest d₀ m₀
  have hasked : isAsked x.handle (later ++ resumed :: earlier) = true
      ↔ isAsked x.handle later = true
        ∨ (later.all fun h => !h.stops x.handle) = true ∧ isAsked x.handle earlier = true := by
    rw [isAsked_append, isAsked_cons]
    simp [resumed, stops, asks]
  -- To go on is no step, so only a step after it can end.
  have hstep : (∃ p, lastResume x.handle (later ++ resumed :: earlier) = some p
        ∧ p.EndsAt x.stack.length line)
      ↔ ∃ p, lastResume x.handle later = some p ∧ p.EndsAt x.stack.length line := by
    have hgo : resumed.resumes x.handle = some ⟨.clientRequest, x₀.stack.length, x₀.topLine m₀⟩ := by
      simp [resumed, resumes, hx₀, Option.filter, hmeant]
    rw [lastResume_append, lastResume_cons, hgo]
    cases lastResume x.handle later with
    | some p => rfl
    | none =>
        constructor
        · rintro ⟨p, hp, he⟩
          obtain rfl := Option.some.inj hp
          obtain hk | ⟨hk, -⟩ | ⟨hk, -⟩ := he <;> cases hk
        · rintro ⟨p, hp, -⟩
          cases hp
  have hcause : (∃ reason, Cause (later ++ resumed :: earlier) (b'.world.debugger s) b'.world.marks
        x script line reason)
      ↔ (b'.world.debugger s).table.isActive b'.world.marks script line = true
        ∨ isAsked x.handle (later ++ resumed :: earlier) = true
        ∨ ∃ p, lastResume x.handle (later ++ resumed :: earlier) = some p
          ∧ p.EndsAt x.stack.length line := cause_iff
  rw [(waits_iff_cause h hstart ha hi hw script line).1]
  constructor
  · rintro ⟨y, reason, ht, hl, hy, hbusy, hc⟩
    obtain rfl := Option.some.inj (hx.symm.trans hy)
    refine ⟨⟨ht, hl, hbusy⟩, ?_⟩
    have hwhy := hcause.mp ⟨reason, hc⟩
    rw [hasked, hstep] at hwhy
    obtain hb | (hl | he) | hs := hwhy
    · exact .inl hb
    · exact .inr (.inl hl)
    · exact .inr (.inr (.inr he))
    · exact .inr (.inr (.inl hs))
  · rintro ⟨⟨ht, hl, hbusy⟩, hwhy⟩
    have hsome : ∃ reason, Cause (later ++ resumed :: earlier) (b'.world.debugger s) b'.world.marks
        x script line reason := by
      rw [hcause, hasked, hstep]
      obtain hb | hl | hs | he := hwhy
      · exact .inl hb
      · exact .inr (.inl (.inl hl))
      · exact .inr (.inr hs)
      · exact .inr (.inl (.inr he))
    obtain ⟨reason, hc⟩ := hsome
    exact ⟨x, reason, ht, hl, hx, hbusy, hc⟩

/-- The thread stops at its first line, and there it is asked to stop. -/
def askedWhileStopped : Bridge VariableTable :=
  (stepped.perform (.idle 0 "main" 0) (.line (.snippet 0 "main") 1)).2.receive 0 (.suspend none)

/-- It is told to go on, and stops at its next line, although it was asked nothing since. -/
theorem waits_iff_after_clientRequest_askedWhileStopped :
    opened.world.debugger 0 = .start false true
      ∧ askedWhileStopped.isWaiting (.idle 0 "main" 0) = true
      ∧ ((askedWhileStopped.receive 0 (.resume none .clientRequest)).perform (.idle 0 "main" 0)
        (.line (.snippet 0 "main") 2)).2.isWaiting (.idle 0 "main" 0) = true := by
  let i : Interpreter := .idle 0 "main" 0
  let b := askedWhileStopped.receive 0 (.resume none .clientRequest)
  let thread : Handle := ⟨0, "main"⟩
  obtain ⟨earlier, h, hasked⟩ : ∃ earlier, Undergoes 0 earlier opened askedWhileStopped
      ∧ isAsked thread earlier = true :=
    ⟨_, ((((Undergoes.start opened).call i (.push ⟨2, .snippet 0 "main", .file, none⟩) rfl
      (by decide +kernel)).take (.resume none .stepInto)).call i (.line (.snippet 0 "main") 1) rfl
      (by decide +kernel)).take (.suspend none), by decide +kernel⟩
  let d₀ := askedWhileStopped.world.debugger 0
  have hlast : Undergoes 0 ([] ++ .resumed none .clientRequest d₀ askedWhileStopped.world.marks
      :: earlier) opened b := by
    have htake := h.take (.resume none .clientRequest)
    rw [incidentsBy_eq (debugger_of_attached (by decide +kernel)) (by decide +kernel)] at htake
    exact htake
  have hshape : ((b.world.debugger 0).ofOwner? 0).map (fun x => (x.handle, x.stack.isEmpty))
      = some (thread, false) := by decide +kernel
  obtain ⟨x, hx, hshape⟩ := Option.map_eq_some_iff.mp hshape
  obtain ⟨hid, hbusy⟩ := Prod.mk.inj hshape
  obtain ⟨x₀, hx₀⟩ := Option.isSome_iff_exists.mp
    (by decide +kernel : (d₀.ofHandle? thread).isSome = true)
  rw [← hid] at hx₀ hasked
  refine ⟨rfl, by decide +kernel, (waits_iff_after_clientRequest hlast rfl (by decide +kernel) rfl
    (by decide +kernel) hx hx₀ rfl (.snippet 0 "main") 2).mpr ⟨⟨by decide +kernel, by decide, ?_⟩, ?_⟩⟩
  · rintro hnil
    rw [hnil] at hbusy
    cases hbusy
  · exact .inr (.inr (.inr ⟨rfl, hasked⟩))

end Bridge

end DebugBridge
