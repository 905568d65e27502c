import Mathlib.Algebra.Order.BigOperators.Group.List
import Mathlib.Data.List.Infix
import Mathlib.Tactic.Abel

/-!
# Adding up within bounds

Two ways to add up a list when the sum has to stay between two bounds: `add` stays at
the bound it would pass, and `tryAdd` fails there.

`cut` is what the first way loses, so that what comes out of it is the plain sum less that
(`foldl_add`).  The second way gives the plain sum or nothing, and where nothing in the
list is negative only the sum as a whole decides which (`foldlM_tryAdd`).
-/

namespace Clamped

variable {G : Type*} [AddCommGroup G] [LinearOrder G]

/-- Addition that stays at the bound it would pass. -/
def add (lo hi a b : G) : G :=
  max lo (min hi (a + b))

/-- Addition that fails past a bound. -/
def tryAdd (lo hi a b : G) : Option G :=
  if lo ≤ a + b ∧ a + b ≤ hi then some (a + b) else none

/-- What is lost at the bounds when a list is added up from `a`. -/
def cut (lo hi : G) : G → List G → G
  | _, [] => 0
  | a, x :: xs => a + x - add lo hi a x + cut lo hi (add lo hi a x) xs

variable {lo hi a : G} {xs : List G}

theorem add_of_mem {b : G} (hlo : lo ≤ a + b) (hhi : a + b ≤ hi) : add lo hi a b = a + b := by
  rw [add, min_eq_right hhi, max_eq_right hlo]

theorem le_add {b : G} : lo ≤ add lo hi a b :=
  le_max_left _ _

theorem add_le {b : G} (h : lo ≤ hi) : add lo hi a b ≤ hi :=
  max_le h (min_le_left _ _)

/-- What comes out stays within the bounds. -/
theorem foldl_add_mem (h : lo ≤ hi) (hlo : lo ≤ a) (hhi : a ≤ hi) :
    lo ≤ xs.foldl (add lo hi) a ∧ xs.foldl (add lo hi) a ≤ hi := by
  induction xs generalizing a with
  | nil => exact ⟨hlo, hhi⟩
  | cons x xs ih => exact ih le_add (add_le h)

/-- **What comes out is the plain sum less what is lost.** -/
theorem foldl_add (lo hi a : G) (xs : List G) :
    xs.foldl (add lo hi) a = a + xs.sum - cut lo hi a xs := by
  induction xs generalizing a with
  | nil => simp [cut]
  | cons x xs ih =>
      rw [List.foldl_cons, ih, List.sum_cons, cut]
      abel

/-- Nothing is lost where no sum on the way passes a bound. -/
theorem cut_eq_zero (h : ∀ pre, pre <+: xs → lo ≤ a + pre.sum ∧ a + pre.sum ≤ hi) :
    cut lo hi a xs = 0 := by
  induction xs generalizing a with
  | nil => rfl
  | cons x xs ih =>
      have hfirst := h [x] (List.prefix_append [x] xs)
      rw [List.sum_singleton] at hfirst
      rw [cut, add_of_mem hfirst.1 hfirst.2, sub_self, zero_add]
      apply ih
      intro pre hpre
      have hlonger := h (x :: pre) (List.prefix_cons_inj x |>.mpr hpre)
      rw [List.sum_cons, ← add_assoc] at hlonger
      exact hlonger

variable [IsOrderedAddMonoid G]

/-- Where nothing is negative, a sum on the way is no more than the whole. -/
theorem prefix_sum_le {pre : List G} (hxs : ∀ x ∈ xs, 0 ≤ x) (hpre : pre <+: xs) :
    0 ≤ pre.sum ∧ pre.sum ≤ xs.sum := by
  obtain ⟨post, rfl⟩ := hpre
  have hfirst : 0 ≤ pre.sum := List.sum_nonneg fun x hx => hxs x (List.mem_append_left _ hx)
  have hrest : 0 ≤ post.sum := List.sum_nonneg fun x hx => hxs x (List.mem_append_right _ hx)
  rw [List.sum_append]
  exact ⟨hfirst, le_add_of_nonneg_right hrest⟩

/-- **Adding up what is not negative fails where the whole passes the bound**, and gives the
whole otherwise. -/
theorem foldlM_tryAdd (hlo : lo ≤ a) (hhi : a ≤ hi) (hxs : ∀ x ∈ xs, 0 ≤ x) :
    xs.foldlM (tryAdd lo hi) a = if a + xs.sum ≤ hi then some (a + xs.sum) else none := by
  induction xs generalizing a with
  | nil => simp [hhi]
  | cons x xs ih =>
      have hx : 0 ≤ x := hxs x List.mem_cons_self
      have hrest : ∀ y ∈ xs, 0 ≤ y := fun y hy => hxs y (List.mem_cons_of_mem _ hy)
      have hlo' : lo ≤ a + x := hlo.trans (le_add_of_nonneg_right hx)
      rw [List.foldlM_cons, List.sum_cons, ← add_assoc]
      by_cases hhi' : a + x ≤ hi
      · rw [tryAdd, if_pos ⟨hlo', hhi'⟩]
        exact ih hlo' hhi' hrest
      · have hmore : a + x ≤ a + x + xs.sum := le_add_of_nonneg_right (List.sum_nonneg hrest)
        rw [tryAdd, if_neg fun h => hhi' h.2, if_neg fun h => hhi' (hmore.trans h)]
        rfl

end Clamped
