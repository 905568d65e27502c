import Mathlib.Data.List.Basic
import Mathlib.Data.List.Perm.Basic

/-!
# Notices about something yet to be introduced

What is known of one thing is folded from a list of notices.  Nothing is known before a
notice that `opens`, which introduces the thing and says no more of it; any other notice
before that one is lost.

So the order of the notices matters as soon as there is something to lose:
`orders_agree_iff`.
-/

namespace Introduced

variable {V R : Type*}

structure Rules (step : Option V → R → Option V) (opens : R → Prop) (blank : V) : Prop where
  lost : ∀ r, ¬ opens r → step none r = none
  first : ∀ r, opens r → step none r = some blank
  again : ∀ r v, opens r → step (some v) r = some v

namespace Rules

variable {step : Option V → R → Option V} {opens : R → Prop} {blank : V}

theorem foldl_lost (h : Rules step opens blank) {l : List R} (none_opens : ∀ r ∈ l, ¬ opens r) :
    l.foldl step none = none := by
  induction l with
  | nil => rfl
  | cons r l ih =>
      rw [List.foldl_cons, h.lost r (none_opens r List.mem_cons_self)]
      exact ih fun x hx => none_opens x (List.mem_cons_of_mem _ hx)

theorem foldl_again (h : Rules step opens blank) {l : List R} (all_open : ∀ r ∈ l, opens r)
    (v : V) : l.foldl step (some v) = some v := by
  induction l with
  | nil => rfl
  | cons r l ih =>
      rw [List.foldl_cons, h.again r v (all_open r List.mem_cons_self)]
      exact ih fun x hx => all_open x (List.mem_cons_of_mem _ hx)

/-- Notices that introduce the thing and nothing else. -/
theorem foldl_opens (h : Rules step opens blank) {l : List R} (all_open : ∀ r ∈ l, opens r)
    (some_open : l ≠ []) : l.foldl step none = some blank := by
  cases l with
  | nil => exact absurd rfl some_open
  | cons r l =>
      rw [List.foldl_cons, h.first r (all_open r List.mem_cons_self)]
      exact h.foldl_again (fun x hx => all_open x (List.mem_cons_of_mem _ hx)) blank

/-- Notices that have nothing to say. -/
theorem foldl_quiet (h : Rules step opens blank) {l : List R}
    (quiet : ∀ r ∈ l, ¬ opens r → step (some blank) r = some blank) :
    l.foldl step (some blank) = some blank := by
  induction l with
  | nil => rfl
  | cons r l ih =>
      have hr : step (some blank) r = some blank := by
        by_cases ho : opens r
        · exact h.again r blank ho
        · exact quiet r List.mem_cons_self ho
      rw [List.foldl_cons, hr]
      exact ih fun x hx => quiet x (List.mem_cons_of_mem _ hx)

theorem foldl_of_quiet (h : Rules step opens blank) {l : List R}
    (quiet : ∀ r ∈ l, ¬ opens r → step (some blank) r = some blank)
    (introduced : ∃ r ∈ l, opens r) : l.foldl step none = some blank := by
  induction l with
  | nil =>
      obtain ⟨r, hr, -⟩ := introduced
      cases hr
  | cons r l ih =>
      have later : ∀ x ∈ l, ¬ opens x → step (some blank) x = some blank :=
        fun x hx => quiet x (List.mem_cons_of_mem _ hx)
      rw [List.foldl_cons]
      by_cases ho : opens r
      · rw [h.first r ho]
        exact h.foldl_quiet later
      · rw [h.lost r ho]
        obtain ⟨x, hx, hopen⟩ := introduced
        apply ih later
        rcases List.mem_cons.mp hx with rfl | hx
        · exact absurd hopen ho
        · exact ⟨x, hx, hopen⟩

/-- The introductions last: everything else is lost. -/
theorem exists_perm_blank (h : Rules step opens blank) {l : List R}
    (introduced : ∃ r ∈ l, opens r) :
    ∃ l' : List R, l'.Perm l ∧ l'.foldl step none = some blank := by
  classical
  obtain ⟨r, hr, ho⟩ := introduced
  refine ⟨l.filter (fun r => ¬ opens r) ++ l.filter (fun r => opens r), ?_, ?_⟩
  · have hsplit := List.filter_append_perm (fun r => decide (¬ opens r)) l
    simpa using hsplit
  · rw [List.foldl_append, h.foldl_lost]
    · apply h.foldl_opens
      · intro x hx
        simpa using (List.mem_filter.mp hx).2
      · exact List.ne_nil_of_mem (List.mem_filter.mpr ⟨hr, by simpa using ho⟩)
    · intro x hx
      simpa using (List.mem_filter.mp hx).2

/-- The introductions last but for one notice. -/
theorem exists_perm_step (h : Rules step opens blank) {l : List R}
    (introduced : ∃ r ∈ l, opens r) {r : R} (hr : r ∈ l) (closed : ¬ opens r) :
    ∃ l' : List R, l'.Perm l ∧ l'.foldl step none = step (some blank) r := by
  obtain ⟨before, after, rfl⟩ := List.append_of_mem hr
  have still : ∃ x ∈ before ++ after, opens x := by
    obtain ⟨x, hx, ho⟩ := introduced
    refine ⟨x, ?_, ho⟩
    have hne : x ≠ r := by
      intro hxr
      exact closed (hxr ▸ ho)
    simpa [hne] using hx
  obtain ⟨l', hperm, hblank⟩ := h.exists_perm_blank still
  refine ⟨l' ++ [r], ?_, ?_⟩
  · have hlast : (l' ++ [r]).Perm (r :: (before ++ after)) :=
      (List.perm_append_singleton r l').trans (hperm.cons r)
    exact hlast.trans List.perm_middle.symm
  · rw [List.foldl_append, hblank]
    rfl

/-- **The order of notices does not matter exactly where there is nothing to lose**: the thing
is not introduced, or no other notice says anything of it. -/
theorem orders_agree_iff (h : Rules step opens blank) (l : List R) :
    (∀ l' : List R, l'.Perm l → l'.foldl step none = l.foldl step none) ↔
      ((∃ r ∈ l, opens r) → ∀ r ∈ l, ¬ opens r → step (some blank) r = some blank) := by
  constructor
  · intro agree introduced r hr closed
    obtain ⟨l₁, hperm₁, hblank⟩ := h.exists_perm_blank introduced
    obtain ⟨l₂, hperm₂, hstep⟩ := h.exists_perm_step introduced hr closed
    rw [← hstep, agree l₂ hperm₂, ← agree l₁ hperm₁, hblank]
  · intro quiet l' hperm
    by_cases introduced : ∃ r ∈ l, opens r
    · have introduced' : ∃ r ∈ l', opens r := by
        obtain ⟨r, hr, ho⟩ := introduced
        exact ⟨r, hperm.mem_iff.mpr hr, ho⟩
      rw [h.foldl_of_quiet (quiet introduced) introduced]
      apply h.foldl_of_quiet ?_ introduced'
      intro r hr
      exact quiet introduced r (hperm.mem_iff.mp hr)
    · have unknown : ∀ r ∈ l, ¬ opens r := by
        intro r hr ho
        exact introduced ⟨r, hr, ho⟩
      rw [h.foldl_lost unknown]
      apply h.foldl_lost
      intro r hr
      exact unknown r (hperm.mem_iff.mp hr)

end Rules

end Introduced
