/-!
# Computations that may trap

A computation gives a value, or none, and then whoever asked for it gives none either; or it
panics.  Of a computation in numbers that do not run over, only the first two are left.

`Settles e bad x o` compares the two: `x` panics with `e` where `bad` holds, and is `o`
everywhere else.  It is put together along the text of `x` (`Settles.bind`).
-/

inductive Traps (E α : Type) where
  | value (a : α)
  | nothing
  | panic (e : E)

namespace Traps

variable {E α β : Type}

instance : Monad (Traps E) where
  pure := value
  bind x f :=
    match x with
    | value a => f a
    | nothing => nothing
    | panic e => panic e

@[simp] theorem value_bind (a : α) (f : α → Traps E β) : value a >>= f = f a := rfl

@[simp] theorem nothing_bind (f : α → Traps E β) : nothing >>= f = nothing := rfl

@[simp] theorem panic_bind (e : E) (f : α → Traps E β) : panic e >>= f = panic e := rfl

@[simp] theorem pure_eq (a : α) : (pure a : Traps E α) = value a := rfl

/-- What `?` makes of an option. -/
def given : Option α → Traps E α
  | some a => value a
  | none => nothing

@[simp] theorem given_some (a : α) : (given (some a) : Traps E α) = value a := rfl

@[simp] theorem given_none : (given none : Traps E α) = nothing := rfl

theorem given_ne_panic (o : Option α) (e : E) : given o ≠ panic e := by
  cases o with
  | none => exact fun h => nomatch h
  | some a => exact fun h => nomatch h

/-- A number, if there is room for it. -/
def within (e : E) (bound n : Nat) : Traps E Nat :=
  if n < bound then value n else panic e

theorem within_of_lt {e : E} {bound n : Nat} (h : n < bound) : within e bound n = value n :=
  if_pos h

theorem within_of_le {e : E} {bound n : Nat} (h : bound ≤ n) : within e bound n = panic e :=
  if_neg (Nat.not_lt.mpr h)

def Settles (e : E) (bad : Prop) (x : Traps E α) (o : Option α) : Prop :=
  bad ∧ x = panic e ∨ ¬ bad ∧ x = given o

namespace Settles

variable {e : E} {bad : Prop} {x : Traps E α} {o : Option α}

theorem of_given (o : Option α) : Settles e False (given o) o :=
  .inr ⟨id, rfl⟩

theorem congr {bad' : Prop} (h : Settles e bad x o) (hiff : bad' ↔ bad) : Settles e bad' x o := by
  unfold Settles
  rw [hiff]
  exact h

/-- The plain computation is put aside, until `x` has been looked at. -/
theorem of_eq (h : ∀ o', o' = o → Settles e bad x o') : Settles e bad x o :=
  h o rfl

/-- `o'` is what the plain computation goes on to be. -/
theorem bind {f : α → Traps E β} {o' : Option β} (h : Settles e bad x o) (bad' : α → Prop)
    (hnone : o = none → o' = none) (hsome : ∀ a, o = some a → Settles e (bad' a) (f a) o') :
    Settles e (bad ∨ ∃ a, o = some a ∧ bad' a) (x >>= f) o' := by
  rcases h with ⟨hbad, rfl⟩ | ⟨hgood, rfl⟩
  · exact .inl ⟨.inl hbad, rfl⟩
  · cases ho : o with
    | none =>
        rw [hnone ho]
        refine .inr ⟨?_, rfl⟩
        rintro (hbad | ⟨a, ha, -⟩)
        · exact hgood hbad
        · cases ha
    | some a =>
        rcases hsome a ho with ⟨hbad, hpanic⟩ | ⟨hgood', hgiven⟩
        · exact .inl ⟨.inr ⟨a, rfl, hbad⟩, hpanic⟩
        · refine .inr ⟨?_, hgiven⟩
          rintro (hbad | ⟨a', ha', hbad⟩)
          · exact hgood hbad
          · cases ha'
            exact hgood' hbad

/-- Nothing more can go wrong. -/
theorem finish {f : α → Traps E β} {o' : Option β} (h : Settles e bad x o)
    (hnone : o = none → o' = none) (hsome : ∀ a, o = some a → f a = given o') :
    Settles e bad (x >>= f) o' := by
  refine (h.bind (fun _ => False) hnone fun a ha => ?_).congr ?_
  · rw [hsome a ha]
    exact of_given o'
  · simp

/-- **There is no panic where, and only where, nothing is bad**, and then the two agree. -/
theorem good_iff (h : Settles e bad x o) : (∀ e', x ≠ panic e') ∧ x = given o ↔ ¬ bad := by
  constructor
  · rintro ⟨hnever, -⟩ hbad
    rcases h with ⟨-, hpanic⟩ | ⟨hgood, -⟩
    · exact hnever e hpanic
    · exact hgood hbad
  · intro hgood
    rcases h with ⟨hbad, -⟩ | ⟨-, rfl⟩
    · exact absurd hbad hgood
    · exact ⟨given_ne_panic o, rfl⟩

end Settles

end Traps
