import Mathlib.Data.List.Basic

/-!
# Pieces laid end to end

`Stands all a part` says that `part` stands in `all` from place `a` on.  A file made
of pieces one after the other is read at the place where a piece begins: the piece
stands there.  `start` is that place; where all pieces have one width, it is a
multiple of it.
-/

namespace Layout

variable {α : Type*}

/-- `part` stands in `all` from place `a` on. -/
def Stands (all : List α) (a : Nat) (part : List α) : Prop :=
  ∃ front rest, all = front ++ (part ++ rest) ∧ front.length = a

variable {all part later : List α} {a : Nat}

theorem Stands.left (h : Stands all a (part ++ later)) : Stands all a part := by
  obtain ⟨front, rest, rfl, hfront⟩ := h
  exact ⟨front, later ++ rest, by simp, hfront⟩

theorem Stands.right (h : Stands all a (part ++ later)) :
    Stands all (a + part.length) later := by
  obtain ⟨front, rest, rfl, hfront⟩ := h
  exact ⟨front ++ part, rest, by simp, by simp [hfront]⟩

theorem Stands.tail {x : α} (h : Stands all a (x :: part)) : Stands all (a + 1) part := by
  rw [← List.singleton_append] at h
  exact h.right

theorem Stands.length_le (h : Stands all a part) : a + part.length ≤ all.length := by
  obtain ⟨front, rest, rfl, hfront⟩ := h
  simp only [List.length_append]
  omega

theorem Stands.getElem? {x : α} (h : Stands all a (x :: part)) : all[a]? = some x := by
  obtain ⟨front, rest, rfl, rfl⟩ := h
  simp

theorem Stands.take_drop (h : Stands all a part) : (all.drop a).take part.length = part := by
  obtain ⟨front, rest, rfl, rfl⟩ := h
  rw [List.drop_left, List.take_left]

/-- Reading inside what stands somewhere. -/
theorem Stands.trans {b : Nat} {inner : List α} (h : Stands all a part)
    (hinner : Stands part b inner) : Stands all (a + b) inner := by
  obtain ⟨front, rest, rfl, rfl⟩ := h
  obtain ⟨front', rest', rfl, rfl⟩ := hinner
  exact ⟨front ++ front', rest' ++ rest, by simp, by simp⟩

/-- Two pieces that stand end to end. -/
theorem Stands.append (h : Stands all a part) (hlater : Stands all (a + part.length) later) :
    Stands all a (part ++ later) := by
  obtain ⟨front, rest, hall, rfl⟩ := h
  obtain ⟨front', rest', hall', hfront⟩ := hlater
  rw [hall, ← List.append_assoc] at hall'
  obtain ⟨-, hrest⟩ := List.append_inj hall' (by rw [List.length_append, hfront])
  exact ⟨front, rest', by rw [hall, hrest, List.append_assoc], rfl⟩

/-- What stands within the bounds of a piece is a part of the piece. -/
theorem Stands.isInfix {b : Nat} {inner : List α} (h : Stands all a part)
    (hinner : Stands all b inner) (hle : a ≤ b) (hend : b + inner.length ≤ a + part.length) :
    inner <:+: part := by
  have hpart : (part.drop (b - a)).take inner.length = inner := by
    have hdrop : part.drop (b - a) = (all.drop b).take (part.length - (b - a)) := by
      rw [← h.take_drop, List.drop_take, List.drop_drop, Nat.add_sub_cancel' hle, h.take_drop]
    rw [hdrop, List.take_take, Nat.min_eq_left (by omega), hinner.take_drop]
  rw [← hpart]
  exact ((List.take_prefix _ _).isInfix).trans (List.drop_suffix _ _).isInfix

/-- What there is at a place stands there. -/
theorem stands_take_drop {n : Nat} (h : a + n ≤ all.length) :
    Stands all a ((all.drop a).take n) := by
  refine ⟨all.take a, all.drop (a + n), ?_, List.length_take_of_le (by omega)⟩
  rw [← List.drop_drop, List.take_append_drop, List.take_append_drop]

theorem stands_of_getElem? {x : α} (h : all[a]? = some x) : Stands all a [x] := by
  obtain ⟨hlt, hget⟩ := List.getElem?_eq_some_iff.mp h
  refine ⟨all.take a, all.drop (a + 1), ?_, List.length_take_of_le (by omega)⟩
  conv_lhs => rw [← List.take_append_drop a all, List.drop_eq_getElem_cons hlt, hget]
  rfl

/-- Where piece `i` begins. -/
def start (pieces : List (List α)) (i : Nat) : Nat :=
  (pieces.take i).flatten.length

theorem start_le (pieces : List (List α)) (i : Nat) : start pieces i ≤ pieces.flatten.length := by
  have hall := congrArg (fun l => l.flatten.length) (List.take_append_drop i pieces)
  simp only [List.flatten_append, List.length_append] at hall
  unfold start
  omega

theorem start_succ {pieces : List (List α)} {i : Nat} {piece : List α}
    (h : pieces[i]? = some piece) : start pieces (i + 1) = start pieces i + piece.length := by
  unfold start
  rw [List.take_add_one, h, Option.toList_some, List.flatten_append, List.length_append,
    List.flatten_cons, List.flatten_nil, List.append_nil]

/-- **A piece stands where it begins.** -/
theorem stands_start {pieces : List (List α)} {i : Nat} {piece : List α}
    (h : pieces[i]? = some piece) : Stands pieces.flatten (start pieces i) piece := by
  obtain ⟨hi, hget⟩ := List.getElem?_eq_some_iff.mp h
  refine ⟨(pieces.take i).flatten, (pieces.drop (i + 1)).flatten, ?_, rfl⟩
  conv_lhs => rw [← List.take_append_drop i pieces, List.drop_eq_getElem_cons hi, hget]
  rw [List.flatten_append, List.flatten_cons]

theorem start_uniform {pieces : List (List α)} {width : Nat}
    (hwidth : ∀ piece ∈ pieces, piece.length = width) {i : Nat} (hi : i ≤ pieces.length) :
    start pieces i = i * width := by
  induction i with
  | zero => simp [start]
  | succ i ih =>
      have hget : pieces[i]? = some pieces[i] := List.getElem?_eq_getElem (by omega)
      rw [start_succ hget, ih (by omega), hwidth _ (List.getElem_mem (by omega))]
      exact (Nat.succ_mul i width).symm

end Layout
