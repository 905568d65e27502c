import Mathlib.Data.List.Basic
import Mathlib.Data.List.Chain
import Mathlib.Data.List.Induction
import Mathlib.Data.List.Infix

/-!
# One space between words

Some items are gaps.  `collapse` goes through a list once and leaves out every gap, but where it
passed one or more between two other items it puts the separator, a gap itself.  What comes out
is the words of the list with one separator in between (`collapse_eq_intercalate`).

Such a list is `Neat`, and a neat list is left as it is (`collapse_of_neat`).
-/

namespace Spaced

variable {α : Type*} (gap : α → Bool) (sep : α)

/-- What has been put out, and whether a gap was passed since. -/
def collapseStep [DecidableEq α] (s : List α × Bool) (a : α) : List α × Bool :=
  if gap a then (s.1, true)
  else ((if s.2 ∧ s.1 ≠ [] then s.1 ++ [sep] else s.1) ++ [a], false)

def collapse [DecidableEq α] (l : List α) : List α :=
  (l.foldl (collapseStep gap sep) ([], false)).1

/-- What stands between gaps. -/
def words : List α → List (List α)
  | [] => []
  | a :: l =>
      if gap a then words l
      else (a :: l.takeWhile fun b => !gap b) :: words (l.dropWhile fun b => !gap b)
termination_by l => l.length
decreasing_by
  · exact Nat.lt_succ_self _
  · exact Nat.lt_succ_of_le (List.dropWhile_suffix _).length_le

/-- No gap in front, no two in a row, and no other than the separator. -/
structure Opens (l : List α) : Prop where
  head : ∀ a ∈ l.head?, gap a = false
  apart : l.IsChain fun a b => gap a = false ∨ gap b = false
  only : ∀ a ∈ l, gap a → a = sep

/-- And none behind. -/
structure Neat (l : List α) : Prop extends Opens gap sep l where
  last : ∀ a ∈ l.getLast?, gap a = false

variable {gap sep}

theorem Opens.of_prefix {l p : List α} (h : Opens gap sep l) (hp : p <+: l) :
    Opens gap sep p where
  head := by
    intro a ha
    obtain ⟨rest, rfl⟩ := hp
    cases p with
    | nil => cases ha
    | cons b p => exact h.head a ha
  apart := h.apart.prefix hp
  only := fun a ha => h.only a (hp.subset ha)

theorem neat_nil : Neat gap sep ([] : List α) where
  head := by simp
  apart := List.isChain_nil
  only := by simp
  last := by simp

theorem intercalate_cons (w : List α) (ws : List (List α)) :
    [sep].intercalate (w :: ws) = w ++ ws.flatMap (sep :: ·) := by
  induction ws generalizing w with
  | nil => simp
  | cons v ws ih =>
      rw [List.intercalate_cons_cons, ih v]
      simp

variable [DecidableEq α]

/-- A gap where the next one comes is forgotten, and everything else goes out. -/
theorem neat_step {s : List α × Bool} {a : α} (hsep : gap sep = true) (h : Neat gap sep s.1) :
    Neat gap sep (collapseStep gap sep s a).1 := by
  unfold collapseStep
  by_cases hgap : gap a = true
  · rw [if_pos hgap]
    exact h
  · have ha : gap a = false := eq_false_of_ne_true hgap
    rw [if_neg hgap]
    by_cases hspace : s.2 = true ∧ s.1 ≠ []
    · rw [if_pos hspace]
      refine ⟨⟨?_, ?_, ?_⟩, ?_⟩
      · intro b hb
        obtain ⟨c, l, hl⟩ := List.exists_cons_of_ne_nil hspace.2
        rw [hl] at hb
        exact h.head b (by rw [hl]; exact hb)
      · rw [List.append_assoc, List.isChain_append]
        refine ⟨h.apart, ?_, ?_⟩
        · simp [ha]
        · intro b hb c hc
          exact .inl (h.last b hb)
      · intro b hb hgapb
        simp only [List.mem_append, List.mem_singleton] at hb
        rcases hb with (hb | rfl) | rfl
        · exact h.only b hb hgapb
        · rfl
        · exact absurd hgapb hgap
      · intro b hb
        rw [List.getLast?_append] at hb
        obtain rfl : a = b := by simpa using hb
        exact ha
    · rw [if_neg hspace]
      refine ⟨⟨?_, ?_, ?_⟩, ?_⟩
      · intro b hb
        cases hs : s.1 with
        | nil =>
            rw [hs] at hb
            obtain rfl : a = b := by simpa using hb
            exact ha
        | cons c l =>
            rw [hs] at hb
            exact h.head b (by rw [hs]; exact hb)
      · rw [List.isChain_append]
        refine ⟨h.apart, ?_, ?_⟩
        · simp
        · intro b hb c hc
          exact .inl (h.last b hb)
      · intro b hb hgapb
        simp only [List.mem_append, List.mem_singleton] at hb
        rcases hb with hb | rfl
        · exact h.only b hb hgapb
        · exact absurd hgapb hgap
      · intro b hb
        rw [List.getLast?_append] at hb
        obtain rfl : a = b := by simpa using hb
        exact ha

theorem neat_collapse (hsep : gap sep = true) (l : List α) :
    Neat gap sep (collapse gap sep l) := by
  suffices hfold : ∀ s : List α × Bool, Neat gap sep s.1 →
      Neat gap sep (l.foldl (collapseStep gap sep) s).1 from hfold _ neat_nil
  induction l with
  | nil => exact fun s h => h
  | cons a l ih => exact fun s h => ih _ (neat_step hsep h)

/-! ## The words -/

/-- A word goes on until the next gap. -/
theorem collapse_behind (l out : List α) (hout : out ≠ []) :
    (l.foldl (collapseStep gap sep) (out, false)).1 =
        out ++ l.takeWhile (fun b => !gap b) ++
          (words gap (l.dropWhile fun b => !gap b)).flatMap (sep :: ·) ∧
      (l.foldl (collapseStep gap sep) (out, true)).1 =
        out ++ (words gap l).flatMap (sep :: ·) := by
  induction l generalizing out with
  | nil => simp [words]
  | cons a l ih =>
      by_cases hgap : gap a = true
      · have hstep : ∀ sp, collapseStep gap sep (out, sp) a = (out, true) := by
          intro sp
          rw [collapseStep, if_pos hgap]
        rw [List.foldl_cons, List.foldl_cons, hstep, hstep, (ih out hout).2]
        simp [hgap, words]
      · have ha : gap a = false := eq_false_of_ne_true hgap
        have hword : collapseStep gap sep (out, false) a = (out ++ [a], false) := by
          simp [collapseStep, ha]
        have hnext : collapseStep gap sep (out, true) a = (out ++ [sep] ++ [a], false) := by
          simp [collapseStep, ha, hout]
        rw [List.foldl_cons, List.foldl_cons, hword, hnext, (ih (out ++ [a]) (by simp)).1,
          (ih (out ++ [sep] ++ [a]) (by simp)).1]
        simp [ha, words]

/-- **The words, with one separator in between.** -/
theorem collapse_eq_intercalate (l : List α) :
    collapse gap sep l = [sep].intercalate (words gap l) := by
  suffices hfold : ∀ sp, (l.foldl (collapseStep gap sep) ([], sp)).1 =
      [sep].intercalate (words gap l) from hfold false
  induction l with
  | nil =>
      intro sp
      rw [words]
      rfl
  | cons a l ih =>
      intro sp
      by_cases hgap : gap a = true
      · rw [List.foldl_cons, collapseStep, if_pos hgap, ih, words, if_pos hgap]
      · have hfirst : collapseStep gap sep ([], sp) a = ([a], false) := by
          simp [collapseStep, hgap]
        rw [List.foldl_cons, hfirst, (collapse_behind l [a] (by simp)).1, words, if_neg hgap,
          intercalate_cons]
        rfl

/-- What is no gap stays, and nothing comes in but the separator. -/
theorem mem_collapse (hsep : gap sep = true) {l : List α} {a : α} (ha : gap a = false) :
    a ∈ collapse gap sep l ↔ a ∈ l := by
  have hother : a ≠ sep := by
    rintro rfl
    rw [hsep] at ha
    cases ha
  suffices hfold : ∀ s : List α × Bool,
      a ∈ (l.foldl (collapseStep gap sep) s).1 ↔ a ∈ s.1 ∨ a ∈ l by
    rw [collapse, hfold]
    simp
  induction l with
  | nil => simp
  | cons b l ih =>
      intro s
      rw [List.foldl_cons, ih, collapseStep]
      by_cases hgap : gap b = true
      · have hne : a ≠ b := by
          rintro rfl
          rw [hgap] at ha
          cases ha
        rw [if_pos hgap, List.mem_cons]
        simp [hne]
      · rw [if_neg hgap, List.mem_cons]
        split
        · simp [hother, or_assoc]
        · simp [or_assoc]

/-! ## A neat list -/

/-- Nothing is lost of a list that opens well, but for a separator that may still be behind. -/
theorem fold_of_opens (hsep : gap sep = true) {l : List α} (h : Opens gap sep l) :
    l.foldl (collapseStep gap sep) ([], false) = (l, false) ∨
      ∃ p, l = p ++ [sep] ∧ p ≠ [] ∧
        l.foldl (collapseStep gap sep) ([], false) = (p, true) := by
  induction l using List.reverseRecOn with
  | nil => exact .inl rfl
  | append_singleton l a ih =>
      have hbefore := ih (h.of_prefix (List.prefix_append l [a]))
      rw [List.foldl_append, List.foldl_cons, List.foldl_nil]
      by_cases hgap : gap a = true
      · obtain rfl : a = sep := h.only a (by simp) hgap
        rcases hbefore with hfold | ⟨p, rfl, -, -⟩
        · right
          refine ⟨l, rfl, ?_, ?_⟩
          · rintro rfl
            have hhead := h.head a (by simp)
            rw [hsep] at hhead
            cases hhead
          · rw [hfold, collapseStep, if_pos hgap]
        · have hapart := (List.isChain_append.mp h.apart).2.2 a (by simp) a (by simp)
          simp [hsep] at hapart
      · left
        rcases hbefore with hfold | ⟨p, rfl, hp, hfold⟩
        · rw [hfold, collapseStep, if_neg hgap, if_neg (by simp)]
        · rw [hfold, collapseStep, if_neg hgap, if_pos ⟨rfl, hp⟩]

theorem collapse_of_neat (hsep : gap sep = true) {l : List α} (h : Neat gap sep l) :
    collapse gap sep l = l := by
  rcases fold_of_opens hsep h.toOpens with hfold | ⟨p, rfl, -, -⟩
  · rw [collapse, hfold]
  · have hlast := h.last sep (by simp)
    rw [hsep] at hlast
    cases hlast

end Spaced
