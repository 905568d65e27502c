import Mathlib.Logic.Function.Basic

/-!
# One machine per key

A machine `f` takes an input and returns a reply.  `step f key` keeps one such
machine for every key and feeds an input to the machine of its key.  The replies
to the inputs of one key are then those of that machine alone, fed only with
them: `replies_filter`.

A table of a program is such a family as long as its operations touch nothing but
the entry they name.  `replies_of_simulates` carries the replies across, input by
input, while the replies are of the kind for which that holds.
-/

namespace Keyed

variable {K S T A R : Type*}

/-- The inputs with the replies of a machine. -/
def replies (f : S → A → S × R) : S → List A → List (A × R)
  | _, [] => []
  | s, a :: as => (a, (f s a).2) :: replies f (f s a).1 as

@[simp]
theorem replies_nil (f : S → A → S × R) (s : S) : replies f s [] = [] := rfl

@[simp]
theorem replies_cons (f : S → A → S × R) (s : S) (a : A) (as : List A) :
    replies f s (a :: as) = (a, (f s a).2) :: replies f (f s a).1 as := rfl

/-- Two machines in step with each other reply alike, while the replies of the first
are `fine`. -/
theorem replies_of_simulates {f : S → A → S × R} {g : T → A → T × R} (rel : S → T → Prop)
    (fine : R → Prop) {as : List A}
    (simulates : ∀ a ∈ as, ∀ s t, rel s t → fine (f s a).2 →
      (f s a).2 = (g t a).2 ∧ rel (f s a).1 (g t a).1)
    {s : S} {t : T} (start : rel s t) (allFine : ∀ r ∈ replies f s as, fine r.2) :
    replies f s as = replies g t as := by
  induction as generalizing s t with
  | nil => rfl
  | cons a as ih =>
      obtain ⟨same, next⟩ :=
        simulates a List.mem_cons_self s t start (allFine _ List.mem_cons_self)
      rw [replies_cons, replies_cons, same]
      congr 1
      apply ih ?_ next ?_
      · intro b mem
        exact simulates b (List.mem_cons_of_mem _ mem)
      · intro r mem
        exact allFine r (List.mem_cons_of_mem _ mem)

variable [DecidableEq K]

/-- An input goes to the machine of its key. -/
def step (f : S → A → S × R) (key : A → K) (m : K → S) (a : A) : (K → S) × R :=
  (Function.update m (key a) (f (m (key a)) a).1, (f (m (key a)) a).2)

/-- **Machines of different keys do not interfere.** -/
theorem replies_filter (f : S → A → S × R) (key : A → K) (m : K → S) (as : List A) (k : K) :
    (replies (step f key) m as).filter (fun r => key r.1 = k) =
      replies f (m k) (as.filter (fun a => key a = k)) := by
  induction as generalizing m with
  | nil => rfl
  | cons a as ih =>
      rw [replies_cons, List.filter_cons, List.filter_cons]
      by_cases h : key a = k
      · subst h
        simp only [decide_true, if_true, replies_cons, ih]
        simp [step]
      · have frame : (step f key m a).1 k = m k := by
          simp [step, Function.update_of_ne (Ne.symm h)]
        simp only [h, decide_false, Bool.false_eq_true, if_false, ih, frame]

end Keyed
