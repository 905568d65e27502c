import Mathlib.Data.List.Induction

/-!
# Labelled runs of a step relation

A system is a relation `step s a s'`: in state `s` the action `a` may lead to
`s'`.  A run lists the actions taken from a fixed first state, oldest first.
Runs grow at the end, so an induction over a run always splits off its *last*
step: what has happened so far is the hypothesis and one more step is the goal.

`Restrict step ok` keeps the steps whose source state and action meet `ok`.  A
statement about the runs in which every step meets a condition is therefore a
statement about the plain runs of a restricted relation, and the same rule
proves both.
-/

namespace Lts

variable {S A : Type*}

/-- `Run step s₀ acts s`: the actions `acts`, taken in order from `s₀`, can
end in `s`. -/
inductive Run (step : S → A → S → Prop) (s₀ : S) : List A → S → Prop
  | nil : Run step s₀ [] s₀
  | snoc {acts : List A} {s s' : S} {a : A}
      (run : Run step s₀ acts s) (last : step s a s') :
      Run step s₀ (acts ++ [a]) s'

/-- The steps of `step` taken from a state and with an action that meet `ok`. -/
def Restrict (step : S → A → S → Prop) (ok : S → A → Prop) : S → A → S → Prop :=
  fun s a s' => step s a s' ∧ ok s a

/-- The relation of a total step function. -/
def ofFun (f : S → A → S) : S → A → S → Prop :=
  fun s a s' => s' = f s a

/-- The relation of a step function that is undefined where an action is not
enabled. -/
def ofPartial (f : S → A → Option S) : S → A → S → Prop :=
  fun s a s' => f s a = some s'

variable {step : S → A → S → Prop} {s₀ : S}

/-- **The invariant rule.**  What holds at the start and is kept by every step
holds after every run. -/
theorem Run.invariant (I : S → Prop) (hinit : I s₀)
    (hstep : ∀ s a s', I s → step s a s' → I s')
    {acts : List A} {s : S} (run : Run step s₀ acts s) : I s := by
  induction run with
  | nil => exact hinit
  | snoc _ last ih => exact hstep _ _ _ ih last

/-- One run after another. -/
theorem Run.append {acts more : List A} {s s' : S} (run : Run step s₀ acts s)
    (rest : Run step s more s') : Run step s₀ (acts ++ more) s' := by
  induction rest with
  | nil => simpa using run
  | snoc _ last ih => simpa using ih.snoc last

/-- The invariant rule for statements that also mention the actions taken. -/
theorem Run.invariant_acts (I : List A → S → Prop) (hinit : I [] s₀)
    (hstep : ∀ acts s a s', I acts s → step s a s' → I (acts ++ [a]) s')
    {acts : List A} {s : S} (run : Run step s₀ acts s) : I acts s := by
  induction run with
  | nil => exact hinit
  | snoc _ last ih => exact hstep _ _ _ _ ih last

/-- A run of fewer steps is a run. -/
theorem Run.of_restrict {ok : S → A → Prop} {acts : List A} {s : S}
    (run : Run (Restrict step ok) s₀ acts s) : Run step s₀ acts s := by
  induction run with
  | nil => exact Run.nil
  | snoc _ last ih => exact ih.snoc last.1

/-- What meets a condition meets a weaker one. -/
theorem Run.weaken {ok ok' : S → A → Prop} {acts : List A} {s : S}
    (run : Run (Restrict step ok) s₀ acts s) (h : ∀ s a, ok s a → ok' s a) :
    Run (Restrict step ok') s₀ acts s := by
  induction run with
  | nil => exact Run.nil
  | snoc _ last ih => exact ih.snoc ⟨last.1, h _ _ last.2⟩

/-- A run whose actions meet the condition in whatever state. -/
theorem Run.to_restrict {ok : S → A → Prop} {acts : List A} {s : S}
    (run : Run step s₀ acts s) (hok : ∀ a ∈ acts, ∀ s, ok s a) :
    Run (Restrict step ok) s₀ acts s := by
  induction run with
  | nil => exact Run.nil
  | snoc _ last ih =>
      refine (ih fun a ha => hok a (List.mem_append_left _ ha)).snoc ⟨last, ?_⟩
      exact hok _ (List.mem_append_right _ (List.mem_singleton.mpr rfl)) _

/-- **The simulation rule.**  If every step from a state that meets `I` is, seen
through `abs`, a step of the abstract relation, then a run seen through `abs` is
an abstract run. -/
theorem Run.refine {T B : Type*} {astep : T → B → T → Prop} (abs : S → T)
    (I : S → Prop) (hinit : I s₀)
    (hstep : ∀ s a s', I s → step s a s' → I s' ∧ ∃ b, astep (abs s) b (abs s'))
    {acts : List A} {s : S} (run : Run step s₀ acts s) :
    I s ∧ ∃ acts', Run astep (abs s₀) acts' (abs s) := by
  induction run with
  | nil => exact ⟨hinit, [], Run.nil⟩
  | snoc _ last ih =>
      obtain ⟨hI, acts', abstract⟩ := ih
      obtain ⟨hI', b, hb⟩ := hstep _ _ _ hI last
      exact ⟨hI', _, abstract.snoc hb⟩

/-- A total step function runs every list of actions. -/
theorem run_foldl (f : S → A → S) (s₀ : S) (acts : List A) :
    Run (ofFun f) s₀ acts (acts.foldl f s₀) := by
  induction acts using List.reverseRecOn with
  | nil => exact Run.nil
  | append_singleton acts a ih =>
      rw [List.foldl_append]
      exact ih.snoc rfl

/-- A list of actions that a partial step function can execute is a run. -/
theorem run_foldlM (f : S → A → Option S) {s₀ s : S} {acts : List A}
    (h : acts.foldlM f s₀ = some s) : Run (ofPartial f) s₀ acts s := by
  induction acts using List.reverseRecOn generalizing s with
  | nil =>
      have hs : s₀ = s := by simpa using h
      exact hs ▸ Run.nil
  | append_singleton acts a ih =>
      rw [List.foldlM_append] at h
      obtain ⟨m, hm, hlast⟩ := Option.bind_eq_some_iff.mp h
      have hstep : f m a = some s := by simpa using hlast
      exact (ih hm).snoc hstep

/-- A list of actions that a partial step function can execute is a run to a
state with the observed value. -/
theorem run_observe {O : Type*} (f : S → A → Option S) (view : S → O) {s₀ : S}
    {acts : List A} {o : O} (h : (acts.foldlM f s₀).map view = some o) :
    ∃ s, Run (ofPartial f) s₀ acts s ∧ view s = o := by
  obtain ⟨s, hs, hview⟩ := Option.map_eq_some_iff.mp h
  exact ⟨s, run_foldlM f hs, hview⟩

/-- Every one of the actions, taken in order from `s`, meets the condition. -/
def Meets (f : S → A → Option S) (ok : S → A → Prop) : S → List A → Prop
  | _, [] => True
  | s, a :: acts =>
      ok s a ∧ match f s a with
        | some s' => Meets f ok s' acts
        | none => True

/-- A list of actions that a partial step function can execute, each from a state that
meets the condition. -/
theorem run_meets (f : S → A → Option S) {ok : S → A → Prop} {s₀ s : S} {acts : List A}
    (h : acts.foldlM f s₀ = some s) (hok : Meets f ok s₀ acts) :
    Run (Restrict (ofPartial f) ok) s₀ acts s := by
  induction acts generalizing s₀ with
  | nil =>
      obtain rfl : s₀ = s := by simpa using h
      exact Run.nil
  | cons a acts ih =>
      rw [List.foldlM_cons] at h
      obtain ⟨m, hm, hrest⟩ := Option.bind_eq_some_iff.mp h
      have htail := hok.2
      rw [hm] at htail
      have first : Run (Restrict (ofPartial f) ok) s₀ [a] m := Run.nil.snoc ⟨hm, hok.1⟩
      exact first.append (ih hrest htail)

/-- The same, to a state with the observed value. -/
theorem run_meets_observe {O : Type*} (f : S → A → Option S) (view : S → O) {ok : S → A → Prop}
    {s₀ : S} {acts : List A} {o : O} (h : (acts.foldlM f s₀).map view = some o)
    (hok : Meets f ok s₀ acts) : ∃ s, Run (Restrict (ofPartial f) ok) s₀ acts s ∧ view s = o := by
  obtain ⟨s, hs, hview⟩ := Option.map_eq_some_iff.mp h
  exact ⟨s, run_meets f hs hok, hview⟩

/-- A partial step function leads from one state to one state. -/
theorem Run.end_unique {f : S → A → Option S} {acts : List A} {s s' : S}
    (run : Run (ofPartial f) s₀ acts s) (run' : Run (ofPartial f) s₀ acts s') : s = s' := by
  induction run generalizing s' with
  | nil =>
      generalize hacts : ([] : List A) = acts at run'
      cases run' with
      | nil => rfl
      | snoc => simp at hacts
  | @snoc acts m s a _ last ih =>
      generalize hacts : acts ++ [a] = acts' at run'
      cases run' with
      | nil => simp at hacts
      | snoc run' last' =>
          obtain ⟨rfl, rfl⟩ : acts = _ ∧ a = _ := by simpa using hacts
          obtain rfl := ih run'
          exact Option.some.inj (last.symm.trans last')

/-- The first step of a run, and the others. -/
theorem Run.uncons {acts : List A} {a : A} {s : S} (run : Run step s₀ (a :: acts) s) :
    ∃ m, step s₀ a m ∧ Run step m acts s := by
  generalize hacts : a :: acts = acts' at run
  induction run generalizing acts with
  | nil => cases hacts
  | @snoc acts' s s' b run last ih =>
      cases acts' with
      | nil =>
          obtain ⟨rfl, rfl⟩ : a = b ∧ acts = [] := by simpa using hacts
          generalize hnil : ([] : List A) = acts at run
          cases run with
          | nil => exact ⟨_, last, Run.nil⟩
          | snoc => simp at hnil
      | cons c acts' =>
          obtain ⟨rfl, rfl⟩ : a = c ∧ acts = acts' ++ [b] := by simpa using hacts
          obtain ⟨m, first, rest⟩ := ih rfl
          exact ⟨m, first, rest.snoc last⟩

/-- How many of the steps that lead from `s` meet `p`. -/
def count (f : S → A → Option S) (p : S → A → Bool) : S → List A → Nat
  | _, [] => 0
  | s, a :: acts =>
      (if p s a then 1 else 0) +
        match f s a with
        | some s' => count f p s' acts
        | none => 0

/-- One more step. -/
theorem Run.count_concat {f : S → A → Option S} (p : S → A → Bool) {acts : List A} {s : S}
    (run : Run (ofPartial f) s₀ acts s) (a : A) :
    count f p s₀ (acts ++ [a]) = count f p s₀ acts + if p s a then 1 else 0 := by
  induction acts generalizing s₀ with
  | nil =>
      obtain rfl : s₀ = s := Run.nil.end_unique run
      cases hstep : f s₀ a <;> simp [count, hstep]
  | cons b acts ih =>
      obtain ⟨m, first, rest⟩ := run.uncons
      have hfirst : f s₀ b = some m := first
      have htail := ih rest
      simp only [List.cons_append, count, hfirst, htail, Nat.add_assoc]

/-- **The exact-condition rule.**  Where a step from a good state leads to a good state if and
only if it meets the condition, every state that a run goes through is good if and only if
each of its steps meets the condition. -/
theorem Run.restrict_iff {f : S → A → Option S} {ok : S → A → Prop} (I P : S → Prop)
    (hI : I s₀) (hP : P s₀) (hkeep : ∀ s a s', I s → f s a = some s' → I s')
    (hexact : ∀ s a s', I s → P s → f s a = some s' → (P s' ↔ ok s a))
    {acts : List A} {s : S} (run : Run (ofPartial f) s₀ acts s) :
    (∀ pre m, pre <+: acts → Run (ofPartial f) s₀ pre m → P m) ↔
      Run (Restrict (ofPartial f) ok) s₀ acts s := by
  induction run with
  | nil =>
      refine ⟨fun _ => Run.nil, fun _ pre m hpre hm => ?_⟩
      obtain rfl := List.prefix_nil.mp hpre
      exact Run.nil.end_unique hm ▸ hP
  | @snoc acts s s' a run last ih =>
      have hinv : I s := run.invariant I hI hkeep
      constructor
      · intro hgood
        have hs : P s := hgood acts s (List.prefix_append _ _) run
        have hs' : P s' := hgood _ s' (List.prefix_refl _) (run.snoc last)
        have hbefore := ih.mp fun pre m hpre => hgood pre m (hpre.trans (List.prefix_append _ _))
        exact hbefore.snoc ⟨last, (hexact s a s' hinv hs last).mp hs'⟩
      · intro hrun
        generalize hacts : acts ++ [a] = acts' at hrun
        cases hrun with
        | nil => simp at hacts
        | snoc hrun hlast =>
            obtain ⟨rfl, rfl⟩ : acts = _ ∧ a = _ := by simpa using hacts
            obtain rfl := run.end_unique hrun.of_restrict
            have hgood := ih.mpr hrun
            intro pre m hpre hm
            rcases List.prefix_concat_iff.mp hpre with rfl | hpre
            · obtain rfl := (run.snoc last).end_unique hm
              have hs : P s := hgood acts s (List.prefix_refl _) run
              exact (hexact s a s' hinv hs last).mpr hlast.2
            · exact hgood pre m hpre hm

/-- The same of the last state alone, where what is once bad stays bad. -/
theorem Run.restrict_iff_last {f : S → A → Option S} {ok : S → A → Prop} (I P : S → Prop)
    (hI : I s₀) (hP : P s₀) (hkeep : ∀ s a s', I s → f s a = some s' → I s')
    (hback : ∀ s a s', I s → f s a = some s' → P s' → P s)
    (hexact : ∀ s a s', I s → P s → f s a = some s' → (P s' ↔ ok s a))
    {acts : List A} {s : S} (run : Run (ofPartial f) s₀ acts s) :
    P s ↔ Run (Restrict (ofPartial f) ok) s₀ acts s := by
  rw [← Run.restrict_iff I P hI hP hkeep hexact run]
  refine ⟨fun hgood => ?_, fun hall => hall acts s (List.prefix_refl _) run⟩
  induction run with
  | nil =>
      intro pre m hpre hm
      obtain rfl := List.prefix_nil.mp hpre
      exact Run.nil.end_unique hm ▸ hP
  | @snoc acts s s' a run last ih =>
      intro pre m hpre hm
      rcases List.prefix_concat_iff.mp hpre with rfl | hpre
      · obtain rfl := (run.snoc last).end_unique hm
        exact hgood
      · exact ih (hback s a s' (run.invariant I hI hkeep) last hgood) pre m hpre hm

/-- A partial step function that is also undefined where the guard fails. -/
def guarded (f : S → A → Option S) (ok : S → A → Prop) [∀ s a, Decidable (ok s a)] :
    S → A → Option S :=
  fun s a => if ok s a then f s a else none

/-- A run of the guarded function is a run in which every step meets the
guard. -/
theorem Run.of_guarded {f : S → A → Option S} {ok : S → A → Prop}
    [∀ s a, Decidable (ok s a)] {acts : List A} {s : S}
    (run : Run (ofPartial (guarded f ok)) s₀ acts s) :
    Run (Restrict (ofPartial f) ok) s₀ acts s := by
  induction run with
  | nil => exact Run.nil
  | snoc _ last ih =>
      refine ih.snoc ?_
      simp only [ofPartial, guarded] at last
      split at last
      next h => exact ⟨last, h⟩
      next => cases last

end Lts
