import Mathlib.Data.List.Basic
import Mathlib.Data.List.Infix

/-!
# As many items as are whole

A reader takes one item at a time off the front of what is left and stops where none is
whole.  If what follows an item has no say in it (`Whole.Rules`), items that were written one
after the other are all read, in order, and what is read of the front of an input is the front
of what is read of the input.
-/

namespace Whole

variable {α β γ : Type*}

/-- Read item after item; an item takes something. -/
def readLoop (next : List α → Option (β × List α)) : Nat → List α → List β
  | 0, _ => []
  | fuel + 1, input =>
      match next input with
      | none => []
      | some (item, rest) => item :: readLoop next fuel rest

def readAll (next : List α → Option (β × List α)) (input : List α) : List β :=
  readLoop next input.length input

structure Rules (next : List α → Option (β × List α)) : Prop where
  shorter : ∀ input item rest, next input = some (item, rest) → rest.length < input.length
  stays : ∀ input item rest, next input = some (item, rest) →
    ∀ more, next (input ++ more) = some (item, rest ++ more)

namespace Rules

variable {next : List α → Option (β × List α)} {input rest : List α} {item : β}

theorem empty (h : Rules next) : next [] = none := by
  cases hn : next [] with
  | none => rfl
  | some r => exact absurd (h.shorter [] r.1 r.2 hn) (Nat.not_lt_zero _)

theorem readLoop_enough (h : Rules next) (fuel : Nat) (hfuel : input.length ≤ fuel) :
    readLoop next fuel input = readAll next input := by
  suffices hany : ∀ n fuel input, input.length ≤ n → input.length ≤ fuel →
      readLoop next fuel input = readLoop next n input from
    hany input.length fuel input (le_refl _) hfuel
  intro n
  induction n with
  | zero =>
      intro fuel input hn _
      obtain rfl := List.length_eq_zero_iff.mp (Nat.le_zero.mp hn)
      cases fuel with
      | zero => rfl
      | succ fuel => simp only [readLoop, h.empty]
  | succ n ih =>
      intro fuel input hn hfuel
      cases hnext : next input with
      | none =>
          cases fuel with
          | zero => rw [readLoop, readLoop, hnext]
          | succ fuel => rw [readLoop, readLoop, hnext]
      | some r =>
          have hshorter := h.shorter input r.1 r.2 hnext
          cases fuel with
          | zero => omega
          | succ fuel =>
              rw [readLoop, readLoop, hnext]
              simp only
              rw [ih fuel r.2 (by omega) (by omega)]

theorem readAll_none (hnext : next input = none) : readAll next input = [] := by
  unfold readAll
  cases input with
  | nil => rfl
  | cons a input => rw [List.length_cons, readLoop, hnext]

theorem readAll_some (h : Rules next) (hnext : next input = some (item, rest)) :
    readAll next input = item :: readAll next rest := by
  have hshorter := h.shorter input item rest hnext
  rw [← h.readLoop_enough (input.length + 1) (Nat.le_succ _), readLoop, hnext]
  simp only
  rw [h.readLoop_enough input.length (Nat.le_of_lt hshorter)]

/-- **Of a front, a front.** -/
theorem readAll_append (h : Rules next) (input more : List α) :
    readAll next input <+: readAll next (input ++ more) := by
  induction hn : input.length using Nat.strong_induction_on generalizing input with
  | _ n ih =>
      cases hnext : next input with
      | none =>
          rw [readAll_none hnext]
          exact List.nil_prefix
      | some r =>
          rw [h.readAll_some hnext, h.readAll_some (h.stays input r.1 r.2 hnext more),
            List.cons_prefix_cons]
          exact ⟨rfl, ih _ (hn ▸ h.shorter input r.1 r.2 hnext) r.2 rfl⟩

/-- **What was written item by item is read item by item.** -/
theorem readAll_flatMap (h : Rules next) {write : γ → List α} {image : γ → β}
    (hwrite : ∀ x rest, next (write x ++ rest) = some (image x, rest)) (xs : List γ) :
    readAll next (xs.flatMap write) = xs.map image := by
  induction xs with
  | nil => exact readAll_none h.empty
  | cons x xs ih => rw [List.flatMap_cons, h.readAll_some (hwrite x _), ih, List.map_cons]

end Rules

end Whole
