/-!
# Programs that may fail

A program takes a state and ends in one, with a result or without.  Where it
fails, what it has done until then stays done.

There are two kinds of rule.  `Keeps R` says that a program takes every state along
`R`, however it ends; for a reflexive and transitive `R` it holds of a program if it
holds of each of its steps.  `Ends x s Q` says how the program ends that is run from
`s`, and is rewritten along the program's text.
-/

/-- A program over the states `S`. -/
def Fallible (S α : Type) : Type :=
  S → Option α × S

namespace Fallible

variable {S α β : Type}

instance : Monad (Fallible S) where
  pure a := fun s => (some a, s)
  bind x f := fun s =>
    match x s with
    | (some a, s') => f a s'
    | (none, s') => (none, s')

theorem bind_apply (x : Fallible S α) (f : α → Fallible S β) (s : S) :
    (x >>= f) s =
      match x s with
      | (some a, s') => f a s'
      | (none, s') => (none, s') :=
  rfl

instance : LawfulMonad (Fallible S) := by
  refine LawfulMonad.mk' _ ?_ ?_ ?_
  · intro α x
    funext s
    change (x >>= pure) s = x s
    rw [bind_apply]
    rcases x s with ⟨_ | a, s'⟩
    · rfl
    · rfl
  · intro α β a f
    rfl
  · intro α β γ x f g
    funext s
    rw [bind_apply, bind_apply, bind_apply]
    rcases x s with ⟨_ | a, s'⟩
    · rfl
    · rfl

def fail : Fallible S α :=
  fun s => (none, s)

def get : Fallible S S :=
  fun s => (some s, s)

def modify (f : S → S) : Fallible S Unit :=
  fun s => (some (), f s)

/-- Run a program and look at how it ended. -/
def attempt (x : Fallible S α) : Fallible S (Option α) :=
  fun s => (some (x s).1, (x s).2)

/-- Run a program on a part of the state. -/
def zoom {T : Type} (view : S → T) (put : S → T → S) (x : Fallible T α) : Fallible S α :=
  fun s => ((x (view s)).1, put s (x (view s)).2)

/-! ## What a program keeps, however it ends -/

def Keeps (R : S → S → Prop) (x : Fallible S α) : Prop :=
  ∀ s, R s (x s).2

variable {R : S → S → Prop} {x : Fallible S α} {f : α → Fallible S β}

theorem keeps_pure (refl : ∀ s, R s s) (a : α) : Keeps R (pure a : Fallible S α) :=
  refl

theorem keeps_fail (refl : ∀ s, R s s) : Keeps R (fail : Fallible S α) :=
  refl

theorem keeps_get (refl : ∀ s, R s s) : Keeps R (get : Fallible S S) :=
  refl

theorem keeps_modify {f : S → S} (h : ∀ s, R s (f s)) : Keeps R (modify f) :=
  h

theorem Keeps.bind (trans : ∀ {s t u}, R s t → R t u → R s u) (hx : Keeps R x)
    (hf : ∀ a, Keeps R (f a)) : Keeps R (x >>= f) := by
  intro s
  have hfirst := hx s
  change R s (match x s with | (some a, s') => f a s' | (none, s') => (none, s')).2
  split
  next a s' heq =>
    rw [heq] at hfirst
    exact trans hfirst (hf a s')
  next s' heq =>
    rw [heq] at hfirst
    exact hfirst

theorem Keeps.attempt (hx : Keeps R x) : Keeps R (attempt x) :=
  hx

/-- What putting the part back does not touch is kept. -/
theorem keeps_zoom {T : Type} {view : S → T} {put : S → T → S} {y : Fallible T α}
    (h : ∀ s t, R s (put s t)) : Keeps R (zoom view put y) :=
  fun s => h s _

/-! ## How a program ends -/

def Ends (x : Fallible S α) (s : S) (Q : Option α → S → Prop) : Prop :=
  Q (x s).1 (x s).2

variable {s : S} {Q : Option α → S → Prop}

@[simp]
theorem ends_pure (a : α) : Ends (pure a : Fallible S α) s Q ↔ Q (some a) s :=
  Iff.rfl

@[simp]
theorem ends_fail : Ends (fail : Fallible S α) s Q ↔ Q none s :=
  Iff.rfl

@[simp]
theorem ends_get {Q : Option S → S → Prop} : Ends get s Q ↔ Q (some s) s :=
  Iff.rfl

@[simp]
theorem ends_modify {f : S → S} {Q : Option Unit → S → Prop} :
    Ends (modify f) s Q ↔ Q (some ()) (f s) :=
  Iff.rfl

@[simp]
theorem ends_attempt {Q : Option (Option α) → S → Prop} :
    Ends (attempt x) s Q ↔ Ends x s fun r t => Q (some r) t :=
  Iff.rfl

@[simp]
theorem ends_bind {Q : Option β → S → Prop} :
    Ends (x >>= f) s Q ↔
      Ends x s fun r t =>
        match r with
        | some a => Ends (f a) t Q
        | none => Q none t := by
  change Q (match x s with | (some a, s') => f a s' | (none, s') => (none, s')).1
    (match x s with | (some a, s') => f a s' | (none, s') => (none, s')).2 ↔ _
  unfold Ends
  split
  next heq => rw [heq]
  next heq => rw [heq]

@[simp]
theorem ends_zoom {T : Type} {view : S → T} {put : S → T → S} {y : Fallible T α} :
    Ends (zoom view put y) s Q ↔ Ends y (view s) fun r t => Q r (put s t) :=
  Iff.rfl

theorem Ends.mono {Q' : Option α → S → Prop} (h : Ends x s Q)
    (hQ : ∀ r t, Q r t → Q' r t) : Ends x s Q' :=
  hQ _ _ h

/-- The end of a bind, from what is known of the end of its first half. -/
theorem Ends.bind {P : Option α → S → Prop} {Q : Option β → S → Prop} (hx : Ends x s P)
    (hf : ∀ a t, P (some a) t → Ends (f a) t Q) (hfail : ∀ t, P none t → Q none t) :
    Ends (x >>= f) s Q := by
  rw [ends_bind]
  refine hx.mono fun r t hP => ?_
  cases r with
  | some a => exact hf a t hP
  | none => exact hfail t hP

/-- A program that is looked at does not fail its caller. -/
theorem Ends.bind_attempt {P : Option α → S → Prop} {g : Option α → Fallible S β}
    {Q : Option β → S → Prop} (hx : Ends x s P) (hg : ∀ r t, P r t → Ends (g r) t Q) :
    Ends (Fallible.attempt x >>= g) s Q := by
  rw [ends_bind, ends_attempt]
  exact hx.mono hg

/-- A result that is not looked at. -/
theorem bind_pure_apply (x : Fallible S α) (b : β) (s : S) :
    (x >>= fun _ => (pure b : Fallible S β)) s = ((x s).1.map fun _ => b, (x s).2) := by
  have hends : Ends (x >>= fun _ => (pure b : Fallible S β)) s fun r t =>
      (r, t) = ((x s).1.map fun _ => b, (x s).2) := by
    rw [ends_bind]
    unfold Ends
    cases hresult : (x s).1 <;> rfl
  exact hends

theorem Keeps.ends (h : Keeps R x) (s : S) : Ends x s fun _ t => R s t :=
  h s

/-! ## A program on a larger state -/

section Follows

variable {T : Type} {view : S → T} {y : Fallible T α} {g : α → Fallible T β}

/-- Seen through `view`, one program does what the other does. -/
def Follows (view : S → T) (x : Fallible S α) (y : Fallible T α) : Prop :=
  ∀ s, y (view s) = ((x s).1, view (x s).2)

theorem follows_pure (a : α) : Follows view (pure a) (pure a) :=
  fun _ => rfl

theorem follows_fail : Follows view (fail : Fallible S α) fail :=
  fun _ => rfl

theorem follows_zoom {put : S → T → S} (h : ∀ s t, view (put s t) = t) (y : Fallible T α) :
    Follows view (zoom view put y) y := by
  intro s
  change y (view s) = ((y (view s)).1, view (put s (y (view s)).2))
  rw [h]

theorem Follows.bind (hx : Follows view x y) (hf : ∀ a, Follows view (f a) (g a)) :
    Follows view (x >>= f) (y >>= g) := by
  intro s
  rw [bind_apply, bind_apply, hx s]
  rcases x s with ⟨_ | a, s'⟩
  · rfl
  · exact hf a s'

/-- A step that the other program does not see. -/
theorem Follows.modify_bind {x : Fallible S β} {y : Fallible T β} {f : S → S}
    (hf : ∀ s, view (f s) = view s) (h : Follows view x y) :
    Follows view (modify f >>= fun _ => x) y := by
  intro s
  have := h (f s)
  rw [hf] at this
  exact this

end Follows

end Fallible
