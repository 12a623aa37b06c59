/-!
# Arenas

An arena holds the state of things that are numbered in the order in which they come into being.
Reading is total: a number that was not given out yet reads as the default state.

## Main definitions

* `Arena`: the numbered states;
* `Arena.push`: takes the next number;
* `Arena.get`, `Arena.set`, `Arena.modify`.
-/

namespace DebugBridge

/-- States numbered from zero. -/
structure Arena (α : Type) where
  cells : Array α

namespace Arena

variable {α : Type}

instance : EmptyCollection (Arena α) := ⟨⟨#[]⟩⟩

instance : Inhabited (Arena α) := ⟨∅⟩

/-- How many numbers were given out. -/
def size (a : Arena α) : Nat :=
  a.cells.size

/-- The state with a number. -/
def get [Inhabited α] (a : Arena α) (i : Nat) : α :=
  a.cells[i]?.getD default

/-- Gives a new state the next number, which is the size of the arena before. -/
def push (a : Arena α) (x : α) : Arena α :=
  ⟨a.cells.push x⟩

/-- Replaces the state with a number. An arena that is too short grows with default states. -/
def set [Inhabited α] (a : Arena α) (i : Nat) (x : α) : Arena α :=
  if i < a.cells.size then ⟨a.cells.setIfInBounds i x⟩
  else ⟨(a.cells ++ Array.replicate (i - a.cells.size) default).push x⟩

/-- Changes the state with a number. -/
def modify [Inhabited α] (a : Arena α) (i : Nat) (f : α → α) : Arena α :=
  if i < a.cells.size then ⟨a.cells.modify i f⟩ else a.set i (f default)

/-! ### Reading back -/

/-- A write forgets no number. -/
theorem size_le_set [Inhabited α] (a : Arena α) (i : Nat) (x : α) : a.size ≤ (a.set i x).size := by
  unfold set size
  split
  · simp
  · simp

/-- A change forgets no number. -/
theorem size_le_modify [Inhabited α] (a : Arena α) (i : Nat) (f : α → α) :
    a.size ≤ (a.modify i f).size := by
  unfold modify
  split
  · simp [size]
  · exact size_le_set a i _

/-- A change where there is a state gives out no number. -/
theorem size_modify_of_lt [Inhabited α] (a : Arena α) {i : Nat} (h : i < a.size) (f : α → α) :
    (a.modify i f).size = a.size := by
  have hi : i < a.cells.size := h
  simp [modify, size, hi]

/-- There is a state where something was changed. -/
theorem lt_size_modify [Inhabited α] (a : Arena α) (i : Nat) (f : α → α) :
    i < (a.modify i f).size := by
  by_cases h : i < a.size
  · rwa [size_modify_of_lt a h]
  · have hi : ¬i < a.cells.size := h
    simp only [modify, set, size, if_neg hi, Array.size_push, Array.size_append,
      Array.size_replicate]
    omega

/-- An arena grows by one at a time. -/
@[simp] theorem size_push (a : Arena α) (x : α) : (a.push x).size = a.size + 1 := by
  simp [push, size]

/-- A write shows at its own number and nowhere else. -/
theorem get_set [Inhabited α] (a : Arena α) (i j : Nat) (x : α) :
    (a.set i x).get j = if i = j then x else a.get j := by
  unfold set get
  by_cases h : i < a.cells.size
  · rw [if_pos h]
    by_cases e : i = j
    · subst e
      simp [h]
    · simp [e]
  · rw [if_neg h]
    have hs : a.cells.size + (i - a.cells.size) = i := by omega
    rw [Array.getElem?_push]
    simp only [Array.size_append, Array.size_replicate, hs]
    by_cases e : i = j
    · simp [e]
    · have e' : j ≠ i := fun w => e w.symm
      simp only [e, e', if_false, Array.getElem?_append]
      by_cases hj : j < a.cells.size
      · simp [hj]
      · by_cases hk : j - a.cells.size < i - a.cells.size <;> simp [hj, hk]

/-- What was put in a place is found there. -/
@[simp] theorem get_set_self [Inhabited α] (a : Arena α) (i : Nat) (x : α) :
    (a.set i x).get i = x := by
  simp [get_set]

/-- Other places keep what they have. -/
theorem get_set_of_ne [Inhabited α] (a : Arena α) {i j : Nat} (h : i ≠ j) (x : α) :
    (a.set i x).get j = a.get j := by
  simp [get_set, h]

/-- A change shows at its own number and nowhere else. -/
theorem get_modify [Inhabited α] (a : Arena α) (i j : Nat) (f : α → α) :
    (a.modify i f).get j = if i = j then f (a.get i) else a.get j := by
  unfold modify
  by_cases h : i < a.cells.size
  · rw [if_pos h]
    unfold get
    by_cases e : i = j
    · subst e
      simp [h, Array.getElem_modify]
    · simp [e, Array.getElem?_modify]
  · rw [if_neg h, get_set]
    have hg : a.get i = default := by
      simp [get, h]
    rw [hg]

/-- A new state shows at its own number and nowhere else. -/
theorem get_push [Inhabited α] (a : Arena α) (x : α) (j : Nat) :
    (a.push x).get j = if j = a.size then x else a.get j := by
  unfold push get size
  simp only [Array.getElem?_push]
  by_cases h : j = a.cells.size <;> simp [h]

end Arena

end DebugBridge
