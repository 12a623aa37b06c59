import DebugBridge.Interpreter.Execution

/-!
# The executions of a debugger

A debugger keeps one execution for each of its threads and changes one of them at a time. When it
leaves its session it lets everybody go, and from then on it holds up nobody.

## Main definitions

* `Debugger.Orderly`: every thread has one execution, under a handle of its own;
* `Debugger.Distinct`: no thread has two executions;
* `Debugger.Gone`: a debugger that left and holds up nobody;
* `Debugger.Yields`: what a debugger keeps, whatever becomes of it.
-/

namespace DebugBridge

namespace Execution

/-- A thread that goes on remains whose it was. -/
@[simp] theorem owner_resume (x : Execution) (m : Marks) (kind : ResumeKind) :
    (x.resume m kind).owner = x.owner := by
  unfold resume
  split <;> rfl

/-- A thread that goes on keeps its handle. -/
@[simp] theorem handle_resume (x : Execution) (m : Marks) (kind : ResumeKind) :
    (x.resume m kind).handle = x.handle := by
  unfold resume
  split <;> rfl

/-! ### Executions that may be asked to stop -/

variable {f : Execution → Execution}

/-- An execution that is asked to stop is otherwise the same. -/
theorem same_of_asks (hf : ∀ x, f x = x ∨ f x = { x with suspendRequested := true })
    (x : Execution) : (f x).owner = x.owner ∧ (f x).handle = x.handle
      ∧ (f x).waiting = x.waiting ∧ (f x).stack = x.stack := by
  obtain hx | hx := hf x <;> rw [hx] <;> exact ⟨rfl, rfl, rfl, rfl⟩

/-- A thread that is asked to stop remains whose it was. -/
theorem owner_of_asks (hf : ∀ x, f x = x ∨ f x = { x with suspendRequested := true })
    (x : Execution) : (f x).owner = x.owner :=
  (same_of_asks hf x).1

end Execution

namespace Debugger

/-! ### Finding an execution -/

/-- The execution that is found of a thread is of this thread. -/
theorem owner_of_ofOwner? {d : Debugger} {o : Nat} {x : Execution} (h : d.ofOwner? o = some x) :
    x.owner = o := by
  simpa using List.find?_some h

/-- The execution that is found of a thread is one of the debugger. -/
theorem mem_of_ofOwner? {d : Debugger} {o : Nat} {x : Execution} (h : d.ofOwner? o = some x) :
    x ∈ d.executions :=
  List.mem_of_find?_eq_some h

/-- The execution that is found by a handle is one of the debugger. -/
theorem mem_of_ofHandle? {d : Debugger} {handle : Handle} {x : Execution}
    (h : d.ofHandle? handle = some x) : x ∈ d.executions :=
  List.mem_of_find?_eq_some h

/-- The execution that was put is found where there was one. -/
theorem ofOwner?_put (d : Debugger) (x : Execution) (o : Nat) :
    (d.put x).ofOwner? o
      = if x.owner = o then (d.ofOwner? o).map fun _ => x else d.ofOwner? o := by
  unfold ofOwner? put
  dsimp only
  induction d.executions with
  | nil => simp
  | cons y ys ih =>
      rw [List.map_cons, List.find?_cons, List.find?_cons, ih]
      by_cases hy : y.owner = x.owner
      · by_cases hx : x.owner = o
        · simp [hy, hx]
        · simp [hy, hx]
      · by_cases hx : x.owner = o
        · have hyo : y.owner ≠ o := fun h => hy (h.trans hx.symm)
          simp [hx, hyo]
        · simp [hy, hx]

/-- An execution that is put twice is as it was put last. -/
theorem put_put (d : Debugger) {x y : Execution} (h : x.owner = y.owner) :
    (d.put x).put y = d.put y := by
  unfold put
  dsimp only
  rw [List.map_map]
  congr 1
  refine List.map_congr_left fun z _ => ?_
  by_cases hz : z.owner = y.owner
  · simp [hz, h]
  · simp [hz, h]

/-- The execution that was added is found, unless there was one before. -/
theorem ofOwner?_insert (d : Debugger) (x : Execution) (o : Nat) :
    (d.insert x).ofOwner? o
      = (d.ofOwner? o).or (if x.owner = o then some x else none) := by
  unfold ofOwner? insert
  rw [List.find?_append]
  congr 1
  by_cases h : x.owner = o
  · simp [h]
  · simp [h]

/-- The execution of a thread that is forgotten is the only one that is. -/
theorem ofOwner?_erase_of_ne (d : Debugger) {o o' : Nat} (h : o' ≠ o) :
    (d.erase o).ofOwner? o' = d.ofOwner? o' := by
  unfold ofOwner? erase
  rw [List.find?_filter]
  congr 1
  funext y
  by_cases hy : y.owner = o'
  · simp [hy, h]
  · simp [hy]

/-- Executions that change but for whose they are are found as before. -/
theorem ofOwner?_map (d : Debugger) {f : Execution → Execution}
    (howner : ∀ x, (f x).owner = x.owner) (o : Nat) :
    ofOwner? { d with executions := d.executions.map f } o = (d.ofOwner? o).map f := by
  unfold ofOwner?
  dsimp only
  rw [List.find?_map]
  congr 2
  funext x
  simp [howner]

/-- An execution after one was put back was there, or is that one. -/
theorem mem_put {d : Debugger} {x y : Execution} (h : y ∈ (d.put x).executions) :
    y ∈ d.executions ∧ y.owner ≠ x.owner ∨ y = x ∧ ∃ z ∈ d.executions, z.owner = x.owner := by
  obtain ⟨z, hz, rfl⟩ := List.mem_map.mp h
  split
  · next ho => exact .inr ⟨rfl, z, hz, ho⟩
  · next ho => exact .inl ⟨hz, ho⟩

/-- An execution that is put back for one of the same thread is there. -/
theorem mem_put_self {d : Debugger} {x y : Execution} (hy : y ∈ d.executions)
    (ho : y.owner = x.owner) : x ∈ (d.put x).executions :=
  List.mem_map.mpr ⟨y, hy, if_pos ho⟩

/-- An execution that is put back leaves those of other threads. -/
theorem mem_put_of_ne {d : Debugger} {x y : Execution} (hy : y ∈ d.executions)
    (ho : y.owner ≠ x.owner) : y ∈ (d.put x).executions :=
  List.mem_map.mpr ⟨y, hy, if_neg ho⟩

/-! ### Executions in order -/

/-- Every thread has one execution, under a handle of its own that was given out by now. -/
structure Orderly (d : Debugger) (n : Nat) : Prop where
  keyed : ∀ x ∈ d.executions, d.ofOwner? x.owner = some x
  below : ∀ x ∈ d.executions, x.handle.id < n
  distinct : ∀ x ∈ d.executions, ∀ y ∈ d.executions, x.handle.id = y.handle.id →
    x.owner = y.owner

namespace Orderly

variable {d : Debugger} {n : Nat}

/-- Executions are in order when more numbers are given out. -/
theorem mono (h : Orderly d n) {n' : Nat} (hn : n ≤ n') : Orderly d n' :=
  ⟨h.keyed, fun x hx => Nat.lt_of_lt_of_le (h.below x hx) hn, h.distinct⟩

/-- An execution of a thread is the one that is found for the thread. -/
theorem eq_of_ofOwner? (h : Orderly d n) {o : Nat} {x y : Execution} (hx : d.ofOwner? o = some x)
    (hy : y ∈ d.executions) (ho : y.owner = o) : y = x := by
  have hkey := h.keyed y hy
  rw [ho, hx] at hkey
  exact (Option.some.inj hkey).symm

/-- Two executions of one thread are one. -/
theorem eq_of_owner (h : Orderly d n) {x y : Execution} (hx : x ∈ d.executions)
    (hy : y ∈ d.executions) (ho : x.owner = y.owner) : x = y :=
  h.eq_of_ofOwner? (h.keyed y hy) hx ho

/-- Two executions with the same handle are one. -/
theorem eq_of_handle (h : Orderly d n) {x y : Execution} (hx : x ∈ d.executions)
    (hy : y ∈ d.executions) (hid : x.handle.id = y.handle.id) : x = y :=
  h.eq_of_owner hx hy (h.distinct x hx y hy hid)

/-- The handle of an execution leads to it. -/
theorem ofHandle?_eq (h : Orderly d n) {x : Execution} (hx : x ∈ d.executions) {handle : Handle}
    (hid : x.handle.id = handle.id) : d.ofHandle? handle = some x := by
  cases hf : d.ofHandle? handle with
  | none =>
      have hnone := List.find?_eq_none.mp hf x hx
      simp [hid] at hnone
  | some y =>
      have hy := mem_of_ofHandle? hf
      have hyid : y.handle.id = handle.id := by simpa using List.find?_some hf
      rw [h.eq_of_handle hy hx (hyid.trans hid.symm)]

/-- Only the executions matter. -/
theorem congr (h : Orderly d n) {d' : Debugger} (he : d'.executions = d.executions) :
    Orderly d' n := by
  have hfind : ∀ o, d'.ofOwner? o = d.ofOwner? o := fun o => by rw [ofOwner?, ofOwner?, he]
  refine ⟨fun x hx => ?_, he ▸ h.below, he ▸ h.distinct⟩
  rw [hfind]
  exact h.keyed x (he ▸ hx)

/-- An execution that is put back with its owner and its handle leaves the others in order. -/
theorem put (h : Orderly d n) {x x' : Execution} (hx : x ∈ d.executions)
    (howner : x'.owner = x.owner) (hhandle : x'.handle = x.handle) : Orderly (d.put x') n := by
  have hold : ∀ y ∈ (d.put x').executions,
      ∃ z ∈ d.executions, z.owner = y.owner ∧ z.handle = y.handle := by
    intro y hy
    obtain ⟨hy, -⟩ | ⟨rfl, -⟩ := mem_put hy
    · exact ⟨y, hy, rfl, rfl⟩
    · exact ⟨x, hx, howner.symm, hhandle.symm⟩
  refine ⟨fun y hy => ?_, fun y hy => ?_, fun y hy z hz hid => ?_⟩
  · rw [ofOwner?_put]
    obtain ⟨hy, hne⟩ | ⟨rfl, -⟩ := mem_put hy
    · rw [if_neg (Ne.symm hne)]
      exact h.keyed y hy
    · rw [if_pos rfl, howner, h.keyed x hx]
      rfl
  · obtain ⟨z, hz, -, hzh⟩ := hold y hy
    exact hzh ▸ h.below z hz
  · obtain ⟨y', hy', hyo, hyh⟩ := hold y hy
    obtain ⟨z', hz', hzo, hzh⟩ := hold z hz
    rw [← hyo, ← hzo]
    exact h.distinct y' hy' z' hz' (by rw [hyh, hzh, hid])

/-- An execution that is put where it is changes nothing. -/
theorem put_self (h : Orderly d n) {x : Execution} (hx : x ∈ d.executions) : d.put x = d := by
  have hsame : d.executions.map (fun y => if y.owner = x.owner then x else y) = d.executions := by
    refine (List.map_congr_left fun y hy => ?_).trans (List.map_id d.executions)
    split
    · next ho => exact (h.eq_of_owner hy hx ho).symm
    · rfl
  rw [Debugger.put, hsame]

/-- A thread that is met gets the next number, and all are in order. -/
theorem insert (h : Orderly d n) {o : Nat} (hnew : d.ofOwner? o = none) (name : String) :
    Orderly (d.insert (.start o ⟨n, name⟩)) (n + 1) := by
  have hother : ∀ y ∈ d.executions, y.owner ≠ o := by
    rintro y hy rfl
    rw [h.keyed y hy] at hnew
    cases hnew
  refine ⟨fun y hy => ?_, fun y hy => ?_, fun y hy z hz hid => ?_⟩
  · rw [ofOwner?_insert]
    rcases List.mem_append.mp hy with hy | hy
    · rw [h.keyed y hy]
      rfl
    · obtain rfl := List.mem_singleton.mp hy
      simp [Execution.start, hnew]
  · rcases List.mem_append.mp hy with hy | hy
    · exact Nat.lt_succ_of_lt (h.below y hy)
    · obtain rfl := List.mem_singleton.mp hy
      exact Nat.lt_succ_self n
  · rcases List.mem_append.mp hy with hy | hy
    · rcases List.mem_append.mp hz with hz | hz
      · exact h.distinct y hy z hz hid
      · obtain rfl := List.mem_singleton.mp hz
        exact absurd hid (Nat.ne_of_lt (h.below y hy))
    · obtain rfl := List.mem_singleton.mp hy
      rcases List.mem_append.mp hz with hz | hz
      · exact absurd hid.symm (Nat.ne_of_lt (h.below z hz))
      · obtain rfl := List.mem_singleton.mp hz
        rfl

/-- A thread that is forgotten leaves the others in order. -/
theorem erase (h : Orderly d n) (o : Nat) : Orderly (d.erase o) n := by
  refine ⟨fun y hy => ?_, fun y hy => ?_, fun y hy z hz hid => ?_⟩
  · obtain ⟨hy, hne⟩ := List.mem_filter.mp hy
    have hne : y.owner ≠ o := by simpa using hne
    rw [ofOwner?_erase_of_ne d hne]
    exact h.keyed y hy
  · exact h.below y (List.mem_filter.mp hy).1
  · exact h.distinct y (List.mem_filter.mp hy).1 z (List.mem_filter.mp hz).1 hid

/-- Executions that change but for owners and handles stay in order. -/
theorem map (h : Orderly d n) (f : Execution → Execution)
    (howner : ∀ x, (f x).owner = x.owner) (hhandle : ∀ x, (f x).handle = x.handle) :
    Orderly { d with executions := d.executions.map f } n := by
  refine ⟨fun y hy => ?_, fun y hy => ?_, fun y hy z hz hid => ?_⟩
  · obtain ⟨x, hx, rfl⟩ := List.mem_map.mp hy
    rw [ofOwner?_map d howner, howner, h.keyed x hx]
    rfl
  · obtain ⟨x, hx, rfl⟩ := List.mem_map.mp hy
    exact hhandle x ▸ h.below x hx
  · obtain ⟨x, hx, rfl⟩ := List.mem_map.mp hy
    obtain ⟨x', hx', rfl⟩ := List.mem_map.mp hz
    rw [howner, howner]
    rw [hhandle, hhandle] at hid
    exact h.distinct x hx x' hx' hid

/-- Executions stay in order when threads are asked to stop. -/
theorem asks (h : Orderly d n) {f : Execution → Execution}
    (hf : ∀ x, f x = x ∨ f x = { x with suspendRequested := true }) :
    Orderly { d with executions := d.executions.map f } n :=
  h.map f (Execution.owner_of_asks hf) fun x => (Execution.same_of_asks hf x).2.1

end Orderly

/-- A thread waits if its execution does. -/
theorem isWaiting_eq {d : Debugger} {o : Nat} {x : Execution} (hx : d.ofOwner? o = some x) :
    d.isWaiting o = x.waiting.isSome := by
  rw [isWaiting, hx]

/-- The execution of a thread that does not wait does not wait. -/
theorem isWaiting_eq_false {d : Debugger} {o : Nat} {x : Execution} (h : d.isWaiting o = false)
    (hx : d.ofOwner? o = some x) : x.waiting = none := by
  rw [isWaiting_eq hx] at h
  simpa using h

/-! ### Debuggers that leave -/

/-- No thread has two executions. -/
def Distinct (d : Debugger) : Prop :=
  (d.executions.map Execution.owner).Nodup

/-- A debugger that left its session and holds up nobody. -/
structure Gone (d : Debugger) : Prop where
  attached : d.attached = false
  terminated : d.terminated = true
  free : ∀ x ∈ d.executions, x.waiting = none

/-- What a debugger keeps, whatever becomes of it. Once it left a session it does not come back. -/
structure Yields (d d' : Debugger) : Prop where
  attached : d'.attached = true → d.attached = true
  gone : d.Gone → d'.Gone
  distinct : d.Distinct → d'.Distinct

/-- A debugger yields itself. -/
theorem Yields.refl (d : Debugger) : d.Yields d :=
  ⟨id, id, id⟩

/-- A debugger that yields one that yields a third yields that. -/
theorem Yields.trans {d d' d'' : Debugger} (h : d.Yields d') (h' : d'.Yields d'') : d.Yields d'' :=
  ⟨fun ha => h.attached (h'.attached ha), fun hg => h'.gone (h.gone hg),
    fun hd => h'.distinct (h.distinct hd)⟩

/-- A debugger that is gone holds up no thread. -/
theorem Gone.isWaiting_eq_false {d : Debugger} (h : d.Gone) (o : Nat) : d.isWaiting o = false := by
  unfold isWaiting
  split
  · next x hx => rw [h.free x (mem_of_ofOwner? hx)]; rfl
  · rfl

/-- An execution may be put back, if nobody waits whose debugger is gone. -/
theorem yields_put (d : Debugger) {x : Execution} (hx : d.Gone → x.waiting = none) :
    d.Yields (d.put x) := by
  refine ⟨id, fun hg => ⟨hg.attached, hg.terminated, fun y hy => ?_⟩, fun hd => ?_⟩
  · obtain ⟨hy, -⟩ | ⟨rfl, -⟩ := mem_put hy
    · exact hg.free y hy
    · exact hx hg
  · have howners : (d.put x).executions.map Execution.owner = d.executions.map Execution.owner := by
      rw [put, List.map_map]
      refine List.map_congr_left fun y _ => ?_
      by_cases hy : y.owner = x.owner
      · simp [hy]
      · simp [hy]
    rw [Distinct, howners]
    exact hd

/-- A thread may be met that does not wait. -/
theorem yields_insert (d : Debugger) {x : Execution} (hnew : d.ofOwner? x.owner = none)
    (hx : x.waiting = none) : d.Yields (d.insert x) := by
  refine ⟨id, fun hg => ⟨hg.attached, hg.terminated, fun y hy => ?_⟩, fun hd => ?_⟩
  · rcases List.mem_append.mp hy with hy | hy
    · exact hg.free y hy
    · obtain rfl := List.mem_singleton.mp hy
      exact hx
  · rw [Distinct, insert, List.map_append, List.nodup_append]
    refine ⟨hd, by simp, fun o ho o' ho' => ?_⟩
    obtain ⟨y, hy, rfl⟩ := List.mem_map.mp ho
    obtain rfl : o' = x.owner := by simpa using ho'
    simpa using List.find?_eq_none.mp hnew y hy

/-- A thread may be forgotten. -/
theorem yields_erase (d : Debugger) (o : Nat) : d.Yields (d.erase o) :=
  ⟨id, fun hg => ⟨hg.attached, hg.terminated, fun y hy => hg.free y (List.mem_filter.mp hy).1⟩,
    fun hd => List.Nodup.sublist (List.filter_sublist.map _) hd⟩

/-- Executions may be marked in ways that concern neither their threads nor where these wait. -/
theorem yields_map (d : Debugger) (f : Execution → Execution) (howner : ∀ x, (f x).owner = x.owner)
    (hwaiting : ∀ x, (f x).waiting = x.waiting) :
    d.Yields { d with executions := d.executions.map f } := by
  refine ⟨id, fun hg => ⟨hg.attached, hg.terminated, fun y hy => ?_⟩, fun hd => ?_⟩
  · obtain ⟨x, hx, rfl⟩ := List.mem_map.mp hy
    exact (hwaiting x).trans (hg.free x hx)
  · rw [Distinct, List.map_map]
    exact (List.map_congr_left fun x _ => howner x : d.executions.map (Execution.owner ∘ f)
      = d.executions.map Execution.owner) ▸ hd

/-- Threads may be asked to stop. -/
theorem yields_asks (d : Debugger) {f : Execution → Execution}
    (hf : ∀ x, f x = x ∨ f x = { x with suspendRequested := true }) :
    d.Yields { d with executions := d.executions.map f } :=
  d.yields_map f (Execution.owner_of_asks hf) fun x => (Execution.same_of_asks hf x).2.2.1

/-- A table may be changed. -/
theorem yields_table (d : Debugger) (table : BreakpointTable) : d.Yields { d with table } :=
  ⟨id, fun hg => ⟨hg.attached, hg.terminated, hg.free⟩, id⟩

/-- All threads may be forgotten. -/
theorem yields_forget (d : Debugger) : d.Yields { d with executions := [] } :=
  ⟨id, fun hg => ⟨hg.attached, hg.terminated, List.forall_mem_nil _⟩, fun _ => List.nodup_nil⟩

/-- A debugger that takes leave of its session. Who waits is still to be released. -/
def silence (d : Debugger) : Debugger :=
  { d with terminated := true, attached := false, table := [] }

/-- A debugger may take leave. -/
theorem yields_silence (d : Debugger) : d.Yields d.silence :=
  ⟨nofun, fun hg => ⟨rfl, rfl, hg.free⟩, id⟩

end Debugger

end DebugBridge
