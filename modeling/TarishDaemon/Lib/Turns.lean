import Mathlib.Data.PFun

/-!
# Loops that end by themselves

A turn of a loop gives a result or the state that the next turn begins with.  `loop` is
what the loop comes to: a partial value, undefined where the loop goes on for ever.  The
same loop with a bound on its turns, `bounded`, is a function that can be run.

A measure that every turn lowers makes the loop end, and tells how many turns are enough
for the bounded one to come to the same result (`bounded_of_measure`).  What is true of a
result follows back from the last turn (`loop_induction`).
-/

namespace Turns

variable {α β : Type*} (turn : α → β ⊕ α)

/-- What the loop comes to, if it ends. -/
def loop : α →. β :=
  PFun.fix fun a => Part.some (turn a)

/-- The loop with a bound on its turns. -/
def bounded : Nat → α → Option β
  | 0, _ => none
  | fuel + 1, a =>
      match turn a with
      | .inl b => some b
      | .inr a' => bounded fuel a'

variable {turn} {a a' : α} {b : β}

theorem loop_stop (h : turn a = .inl b) : b ∈ loop turn a :=
  PFun.fix_stop (by rw [h]; exact Part.mem_some _)

theorem loop_next (h : turn a = .inr a') : loop turn a = loop turn a' :=
  PFun.fix_fwd_eq (by rw [h]; exact Part.mem_some _)

/-- **What is true of a result** is true where the last turn begins, and carries over to
where the turn before begins. -/
theorem loop_induction {P : α → β → Prop} (hstop : ∀ a b, turn a = .inl b → P a b)
    (hnext : ∀ a a' b, turn a = .inr a' → P a' b → P a b) (h : b ∈ loop turn a) : P a b :=
  PFun.fixInduction' h (fun _ hlast => hstop _ _ (Part.mem_some_iff.mp hlast).symm)
    fun _ _ _ hturn => hnext _ _ _ (Part.mem_some_iff.mp hturn).symm

theorem bounded_succ_stop (fuel : Nat) (h : turn a = .inl b) :
    bounded turn (fuel + 1) a = some b := by
  rw [bounded, h]

theorem bounded_succ_next (fuel : Nat) (h : turn a = .inr a') :
    bounded turn (fuel + 1) a = bounded turn fuel a' := by
  rw [bounded, h]

/-- More turns change nothing once there is a result. -/
theorem bounded_add {fuel : Nat} (more : Nat) (h : bounded turn fuel a = some b) :
    bounded turn (fuel + more) a = some b := by
  induction fuel generalizing a with
  | zero => cases h
  | succ fuel ih =>
      rw [Nat.add_right_comm]
      cases hturn : turn a with
      | inl b' =>
          rw [bounded_succ_stop fuel hturn] at h
          rw [bounded_succ_stop (fuel + more) hturn, h]
      | inr a' =>
          rw [bounded_succ_next fuel hturn] at h
          rw [bounded_succ_next (fuel + more) hturn]
          exact ih h

/-- A bounded loop that comes to a result comes to that of the loop. -/
theorem mem_loop_of_bounded {fuel : Nat} (h : bounded turn fuel a = some b) : b ∈ loop turn a := by
  induction fuel generalizing a with
  | zero => cases h
  | succ fuel ih =>
      cases hturn : turn a with
      | inl b' =>
          rw [bounded_succ_stop fuel hturn] at h
          cases h
          exact loop_stop hturn
      | inr a' =>
          rw [bounded_succ_next fuel hturn] at h
          rw [loop_next hturn]
          exact ih h

/-- **A loop whose every turn lowers a measure ends**, and more turns than the measure
are enough. -/
theorem bounded_of_measure {μ : α → Nat} (hless : ∀ a a', turn a = .inr a' → μ a' < μ a)
    {fuel : Nat} (hfuel : μ a < fuel) : ∃ b, bounded turn fuel a = some b := by
  induction fuel generalizing a with
  | zero => omega
  | succ fuel ih =>
      cases hturn : turn a with
      | inl b => exact ⟨b, bounded_succ_stop fuel hturn⟩
      | inr a' =>
          have hlower := hless a a' hturn
          obtain ⟨b, hb⟩ := ih (show μ a' < fuel by omega)
          exact ⟨b, by rw [bounded_succ_next fuel hturn, hb]⟩

end Turns
