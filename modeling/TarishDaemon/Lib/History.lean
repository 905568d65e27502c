import Mathlib.Data.List.Induction

/-!
# Histories in which every event is justified

A history lists what happened, oldest first.  A temporal property of the form
"whenever this happens, that has happened before" is a relation between an event
and the events in front of it.  `Justified P log` says that every event of `log`
stands in that relation to what precedes it.  It holds of the empty history, and
one more event has to be justified by the history it is added to and by nothing
else.
-/

namespace History

variable {E : Type*}

/-- Every event of the history meets `P` of what came before it. -/
def Justified (P : List E → E → Prop) (log : List E) : Prop :=
  ∀ before e after, log = before ++ e :: after → P before e

variable {P : List E → E → Prop} {log : List E}

/-- The relation may be replaced by an equivalent one. -/
theorem justified_congr {Q : List E → E → Prop} (h : ∀ before e, P before e ↔ Q before e) :
    Justified P log ↔ Justified Q log := by
  simp only [Justified, h]

theorem justified_nil : Justified P [] := by
  intro before e after h
  simp at h

/-- Adding one event. -/
theorem justified_concat {e : E} :
    Justified P (log ++ [e]) ↔ Justified P log ∧ P log e := by
  constructor
  · intro h
    refine ⟨?_, h log e [] rfl⟩
    intro before x after hsplit
    exact h before x (after ++ [e]) (by simp [hsplit])
  · rintro ⟨hlog, he⟩ before x after hsplit
    induction after using List.reverseRecOn with
    | nil =>
        obtain ⟨rfl, hlast⟩ := List.append_inj' hsplit rfl
        exact (List.cons.inj hlast).1 ▸ he
    | append_singleton after last _ =>
        have hassoc : log ++ [e] = (before ++ x :: after) ++ [last] := by
          rw [hsplit]
          simp
        exact hlog before x after (List.append_inj' hassoc rfl).1

/-- An event that the property says nothing about. -/
theorem Justified.concat (h : Justified P log) {e : E} (he : P log e) :
    Justified P (log ++ [e]) :=
  justified_concat.mpr ⟨h, he⟩

end History
