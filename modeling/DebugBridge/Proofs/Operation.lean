import DebugBridge.World

/-!
# What operations keep and where they end

An operation of the model may be broken off by a front end at any notification. Two questions are
asked of it here. What relation holds between the world in which it begins and the one in which it
ends, be it broken off or not? And, where no front end fails, what holds of its result?

## Main definitions

* `Steady`: relations that a sequence of operations keeps if each of them does;
* `Keeps`: every end of an operation is related to its beginning;
* `Ends`: an operation is not broken off, and its result and its end have a property;
* `Attains`: every end is related to the beginning, and if the operation is not broken off, its result
  and its end have a property.

## Main results

* `Keeps.bind`, `Keeps.forM`, `Keeps.forIn`: sequences of operations;
* `Ends.bind`, `Ends.forM`: the same for operations that come to their end;
* `Attains.bind`: the same for operations that may be broken off.
-/

namespace DebugBridge

variable {α β : Type}

/-- The world in which an operation ends, be it broken off or not. -/
def worldAfter (op : Act α) (w : World) : World :=
  match op w with
  | .ok _ w' => w'
  | .error _ w' => w'

/-- A relation between worlds that holds of a sequence of steps if it holds of each of them. -/
structure Steady (R : World → World → Prop) : Prop where
  refl : ∀ w, R w w
  trans : ∀ {u v w}, R u v → R v w → R u w

/-- The end of an operation is related to its beginning, be it broken off or not. -/
def Keeps (R : World → World → Prop) (op : Act α) : Prop :=
  ∀ w, R w (worldAfter op w)

/-- An operation is not broken off, and its result and the world at its end have a property. -/
def Ends (op : Act α) (w : World) (Q : α → World → Prop) : Prop :=
  ∃ a w', op w = .ok a w' ∧ Q a w'

/-- Wherever an operation ends, be it broken off or not, is related to its beginning. If it is not
broken off, its result and its end have a property. -/
def Attains (R : World → World → Prop) (op : Act α) (w : World)
    (Q : α → World → Prop) : Prop :=
  match op w with
  | .ok a w' => R w w' ∧ Q a w'
  | .error _ w' => R w w'

/-! ### Running an operation -/

section Run

variable (w : World)

/-- To look at the world first is to go on with it. -/
@[simp] theorem run_get_bind (f : World → Act α) : ((get : Act World) >>= f) w = f w w :=
  rfl

/-- A result that is returned is gone on with. -/
@[simp] theorem run_pure_bind (a : β) (f : β → Act α) : ((pure a : Act β) >>= f) w = f a w :=
  rfl

/-- A change of the world is what the rest begins with. -/
@[simp] theorem run_change_bind (g : World → World) (f : Unit → Act α) :
    (change g >>= f) w = f () (g w) :=
  rfl

/-- An operation goes on from where the first part of it ended. -/
theorem run_bind_ok {op : Act β} {b : β} {w w' : World} (h : op w = .ok b w') (f : β → Act α) :
    (op >>= f) w = f b w' := by
  change EStateM.bind op f w = _
  unfold EStateM.bind
  rw [h]

/-- An operation whose first part is broken off is broken off there. -/
theorem run_bind_error {op : Act β} {e : String} {w w' : World} (h : op w = .error e w')
    (f : β → Act α) : (op >>= f) w = .error e w' := by
  change EStateM.bind op f w = _
  unfold EStateM.bind
  rw [h]

/-- Changes that are made for each element of a list. -/
theorem run_forM_change (g : α → World → World) (xs : List α) :
    (xs.forM fun a => change (g a)) w = .ok () (xs.foldl (fun w a => g a w) w) := by
  induction xs generalizing w with
  | nil => rfl
  | cons x xs ih => exact ih (g x w)

end Run

/-! ### What is kept -/

section Keeps

variable {R : World → World → Prop}

/-- A result alone changes nothing. -/
theorem Keeps.pure (hR : Steady R) (a : α) : Keeps R (pure a) :=
  fun w => hR.refl w

/-- Looking at the world changes nothing. -/
theorem Keeps.get (hR : Steady R) : Keeps R (get : Act World) :=
  fun w => hR.refl w

/-- A failure leaves the world as it is. -/
theorem Keeps.throw (hR : Steady R) (e : String) : Keeps R (throw e : Act α) :=
  fun w => hR.refl w

/-- A change keeps what relates every world to the changed one. -/
theorem Keeps.change {f : World → World} (h : ∀ w, R w (f w)) : Keeps R (change f) :=
  fun w => h w

/-- One operation after another keeps what both keep. -/
theorem Keeps.bind (hR : Steady R) {op : Act α} {f : α → Act β} (hop : Keeps R op)
    (hf : ∀ a, Keeps R (f a)) : Keeps R (op >>= f) := by
  intro w
  have h := hop w
  change R w (worldAfter (EStateM.bind op f) w)
  unfold worldAfter EStateM.bind at *
  cases hw : op w with
  | ok a w' =>
      rw [hw] at h
      exact hR.trans h (hf a w')
  | error e w' =>
      rw [hw] at h
      exact h

/-- What comes second goes on from where the first ended, be it broken off or not. -/
theorem Keeps.after_bind (hR : Steady R) {op : Act α} {f : α → Act β} (hf : ∀ a, Keeps R (f a))
    (w : World) : R (worldAfter op w) (worldAfter (op >>= f) w) := by
  cases hop : op w with
  | ok a u =>
      have hrun : worldAfter (op >>= f) w = worldAfter (f a) u := by
        rw [worldAfter, run_bind_ok hop]
        rfl
      rw [hrun, worldAfter, hop]
      exact hf a u
  | error e u =>
      rw [worldAfter, worldAfter, run_bind_error hop, hop]
      exact hR.refl u

/-- What is done for each element of a list keeps what is kept for each of them. -/
theorem Keeps.forM (hR : Steady R) {f : α → Act PUnit} (hf : ∀ a, Keeps R (f a)) (xs : List α) :
    Keeps R (xs.forM f) := by
  induction xs with
  | nil => exact Keeps.pure hR _
  | cons x xs ih => exact Keeps.bind hR (hf x) fun _ => ih

/-- A loop over a list keeps what each round of it keeps. -/
theorem Keeps.forIn (hR : Steady R) {f : α → β → Act (ForInStep β)} (hf : ∀ a b, Keeps R (f a b))
    (xs : List α) (b : β) : Keeps R (forIn xs b f) := by
  induction xs generalizing b with
  | nil => exact Keeps.pure hR _
  | cons x xs ih =>
      rw [List.forIn_cons]
      refine Keeps.bind hR (hf x b) fun r => ?_
      cases r with
      | done b => exact Keeps.pure hR _
      | yield b => exact ih b

end Keeps

/-! ### Operations that come to their end -/

section Ends

variable {w : World}

/-- A result alone is the end. -/
theorem Ends.pure {a : α} {Q : α → World → Prop} (h : Q a w) : Ends (pure a) w Q :=
  ⟨a, w, rfl, h⟩

/-- What is read is the present world. -/
theorem Ends.get {Q : World → World → Prop} (h : Q w w) : Ends (get : Act World) w Q :=
  ⟨w, w, rfl, h⟩

/-- A change ends in the changed world. -/
theorem Ends.change {f : World → World} {Q : Unit → World → Prop} (h : Q () (f w)) :
    Ends (change f) w Q :=
  ⟨(), f w, rfl, h⟩

/-- One operation after another: the second begins where the first ended. -/
theorem Ends.bind {op : Act α} {f : α → Act β} {Q : β → World → Prop}
    (h : Ends op w fun a w' => Ends (f a) w' Q) : Ends (op >>= f) w Q := by
  obtain ⟨a, w', hop, b, w'', hf, hQ⟩ := h
  refine ⟨b, w'', ?_, hQ⟩
  change EStateM.bind op f w = _
  unfold EStateM.bind
  rw [hop]
  exact hf

/-- A property of the end may be weakened. -/
theorem Ends.mono {op : Act α} {Q Q' : α → World → Prop} (h : Ends op w Q)
    (hQ : ∀ a w', Q a w' → Q' a w') : Ends op w Q' := by
  obtain ⟨a, w', hop, ha⟩ := h
  exact ⟨a, w', hop, hQ a w' ha⟩

/-- What is done for each element of a list comes to its end, and is related to its beginning, if
that holds for each of them. -/
theorem Ends.forM {R : World → World → Prop} (hR : Steady R) {P : World → Prop}
    {f : α → Act PUnit} (hP : ∀ {u v}, R u v → P u → P v)
    (hf : ∀ a u, P u → Ends (f a) u fun _ v => R u v) (xs : List α) (hw : P w) :
    Ends (xs.forM f) w fun _ w' => R w w' := by
  induction xs generalizing w with
  | nil => exact Ends.pure (hR.refl w)
  | cons x xs ih =>
      refine Ends.bind ((hf x w hw).mono fun _ v hv => ?_)
      exact (ih (hP hv hw)).mono fun _ _ h => hR.trans hv h

end Ends

/-! ### Operations that may be broken off -/

section Attains

variable {R : World → World → Prop} {w : World}

/-- An operation attains what its result has, if it is not broken off. -/
theorem Attains.of_ok {op : Act α} {Q : α → World → Prop} {a : α} {w' : World}
    (hop : op w = .ok a w') (hw : R w w') (ha : Q a w') : Attains R op w Q := by
  unfold Attains
  rw [hop]
  exact ⟨hw, ha⟩

/-- An operation that is broken off attains everything, if its end is related to its beginning. -/
theorem Attains.of_error {op : Act α} {Q : α → World → Prop} {e : String} {w' : World}
    (hop : op w = .error e w') (hw : R w w') : Attains R op w Q := by
  unfold Attains
  rw [hop]
  exact hw

/-- Wherever an operation ends is related to its beginning. -/
theorem Attains.related {op : Act α} {Q : α → World → Prop} (h : Attains R op w Q) :
    R w (worldAfter op w) := by
  unfold Attains at h
  unfold worldAfter
  cases hop : op w with
  | ok a w' =>
      rw [hop] at h
      exact h.1
  | error e w' =>
      rw [hop] at h
      exact h

/-- What is kept is attained. -/
theorem Keeps.attains {op : Act α} (h : Keeps R op) (w : World) :
    Attains R op w fun _ w' => R w w' := by
  have hw := h w
  unfold worldAfter at hw
  unfold Attains
  cases hop : op w with
  | ok a w' =>
      rw [hop] at hw
      exact ⟨hw, hw⟩
  | error e w' =>
      rw [hop] at hw
      exact hw

/-- What is attained under a relation is attained under a weaker one. -/
theorem Attains.weaken {R' : World → World → Prop} {op : Act α} {Q : α → World → Prop}
    (h : Attains R op w Q) (hR : ∀ {w'}, R w w' → R' w w') : Attains R' op w Q := by
  unfold Attains at *
  cases hop : op w with
  | ok a w' =>
      rw [hop] at h
      exact ⟨hR h.1, h.2⟩
  | error e w' =>
      rw [hop] at h
      exact hR h

/-- To return a result attains what that has. -/
theorem Attains.pure {a : α} {Q : α → World → Prop} (hR : R w w) (h : Q a w) :
    Attains R (pure a) w Q :=
  ⟨hR, h⟩

/-- What is attained implies what follows from it. -/
theorem Attains.mono {op : Act α} {Q Q' : α → World → Prop} (h : Attains R op w Q)
    (hQ : ∀ a w', R w w' → Q a w' → Q' a w') : Attains R op w Q' := by
  unfold Attains at *
  cases hop : op w with
  | ok a w' =>
      rw [hop] at h
      exact ⟨h.1, hQ a w' h.1 h.2⟩
  | error e w' =>
      rw [hop] at h
      exact h

/-- One operation after another: the second begins where the first ended. -/
theorem Attains.bind (hR : Steady R) {op : Act α} {f : α → Act β} {P : α → World → Prop}
    {Q : β → World → Prop} (h : Attains R op w P)
    (hf : ∀ a w', R w w' → P a w' → Attains R (f a) w' Q) : Attains R (op >>= f) w Q := by
  unfold Attains at h ⊢
  cases hop : op w with
  | error e w' =>
      rw [hop] at h
      rw [run_bind_error hop]
      exact h
  | ok a w' =>
      rw [hop] at h
      rw [run_bind_ok hop]
      have hrest := hf a w' h.1 h.2
      unfold Attains at hrest
      cases hfa : f a w' with
      | ok b w'' =>
          rw [hfa] at hrest
          exact ⟨hR.trans h.1 hrest.1, hrest.2⟩
      | error e w'' =>
          rw [hfa] at hrest
          exact hR.trans h.1 hrest

/-- What is read is the present world. -/
theorem Attains.get_bind {f : World → Act α} {Q : α → World → Prop} (h : Attains R (f w) w Q) :
    Attains R (get >>= f) w Q := by
  unfold Attains
  rw [run_get_bind]
  exact h

/-- A change, and then the rest of an operation. -/
theorem Attains.change_bind (hR : Steady R) {g : World → World} {f : Unit → Act α}
    {Q : α → World → Prop} (h : R w (g w)) (hf : Attains R (f ()) (g w) Q) :
    Attains R (change g >>= f) w Q :=
  .bind hR (P := fun _ w' => w' = g w) ⟨h, rfl⟩ fun _ _ _ he => he ▸ hf

end Attains

end DebugBridge
