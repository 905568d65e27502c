import Mathlib.Logic.Function.Basic

/-!
# Answers parked in one slot

Many may answer, and the one who asked takes the answer out of a single slot that is keyed
only by what it is the answer to.  An answer is on its way from the moment it is given until
it is parked, so it can arrive when nobody waits any more and lie there for the next who asks
under the same key.

`Desk` is the slot and what is on its way.  `Exchange` adds who is asking, and stamps every
question and every answer with the moment it was made, to say which answers are fresh: those
given after the question they are taken for.  One condition keeps all of them fresh: a
question is asked while no answer under its key is parked or on its way
(`Exchange.Fresh.ask`).
-/

namespace AnswerSlot

variable {K A : Type*}

structure Desk (K A : Type*) where
  slot : Option (K × A) := none
  /-- What each of those who answer has yet to park. -/
  calls : Nat → Option (K × A) := fun _ => none

namespace Desk

/-- An answer sets out. -/
def accept (d : Desk K A) (c : Nat) (key : K) (answer : A) : Desk K A :=
  { d with calls := Function.update d.calls c (some (key, answer)) }

/-- It is parked, over whatever was there. -/
def store (d : Desk K A) (c : Nat) : Option (Desk K A) :=
  (d.calls c).map fun note => { slot := some note, calls := Function.update d.calls c none }

/-- Whoever asked under `key` looks, and takes what is there under that key. -/
def take [DecidableEq K] (d : Desk K A) (key : K) : Option A × Desk K A :=
  match d.slot with
  | some (who, answer) => if who = key then (some answer, { d with slot := none }) else (none, d)
  | none => (none, d)

def clear [DecidableEq K] (d : Desk K A) (key : K) : Desk K A :=
  match d.slot with
  | some (who, _) => if who = key then { d with slot := none } else d
  | none => d

/-- No answer under `key` is parked or on its way. -/
def Unanswered (d : Desk K A) (key : K) : Prop :=
  (∀ a, d.slot ≠ some (key, a)) ∧ ∀ c a, d.calls c ≠ some (key, a)

/-- An answer that is parked or on its way. -/
inductive Holds (d : Desk K A) (key : K) (a : A) : Prop
  | parked (h : d.slot = some (key, a))
  | coming (c : Nat) (h : d.calls c = some (key, a))

variable {d d' : Desk K A} {key key' : K} {a a' : A}

theorem Unanswered.not_holds (h : d.Unanswered key) (a : A) : ¬ d.Holds key a := by
  rintro (hslot | ⟨c, hcall⟩)
  · exact h.1 a hslot
  · exact h.2 c a hcall

theorem holds_of_accept {c : Nat} (h : (d.accept c key' a').Holds key a) :
    d.Holds key a ∨ (key = key' ∧ a = a') := by
  rcases h with hslot | ⟨e, hcall⟩
  · exact .inl (.parked hslot)
  · by_cases hec : e = c
    · subst hec
      have heq : (key', a') = (key, a) := by simpa [accept] using hcall
      exact .inr ⟨(congrArg Prod.fst heq).symm, (congrArg Prod.snd heq).symm⟩
    · exact .inl (.coming e (by simpa [accept, Function.update_of_ne hec] using hcall))

theorem holds_of_store {c : Nat} (hstore : d.store c = some d') (h : d'.Holds key a) :
    d.Holds key a := by
  obtain ⟨note, hnote, rfl⟩ := Option.map_eq_some_iff.mp hstore
  rcases h with hslot | ⟨e, hcall⟩
  · exact .coming c (hnote.trans hslot)
  · by_cases hec : e = c
    · subst hec
      simp at hcall
    · exact .coming e (by simpa [Function.update_of_ne hec] using hcall)

theorem holds_of_take [DecidableEq K] (h : (d.take key').2.Holds key a) : d.Holds key a := by
  rcases h with hslot | ⟨c, hcall⟩
  · refine .parked ?_
    unfold take at hslot
    grind
  · refine .coming c ?_
    unfold take at hcall
    grind

theorem holds_of_taken [DecidableEq K] (h : (d.take key).1 = some a) : d.Holds key a := by
  refine .parked ?_
  unfold take at h
  grind

theorem holds_of_clear [DecidableEq K] (h : (d.clear key').Holds key a) : d.Holds key a := by
  rcases h with hslot | ⟨c, hcall⟩
  · refine .parked ?_
    unfold clear at hslot
    grind
  · refine .coming c ?_
    unfold clear at hcall
    grind

end Desk

/-- An answer with the moment it was given. -/
structure Stamped (A : Type*) where
  answer : A
  given : Nat

structure Question (K : Type*) where
  key : K
  asked : Nat

/-- A desk with those who ask at it, and what they have been handed so far. -/
structure Exchange (K A : Type*) where
  desk : Desk K (Stamped A) := {}
  cycle : Nat → Option (Question K) := fun _ => none
  returned : List (Question K × Stamped A) := []

namespace Exchange

/-- `t` asks under `key`, unless it is asking already. -/
def ask (e : Exchange K A) (t : Nat) (key : K) (now : Nat) : Option (Exchange K A) :=
  match e.cycle t with
  | none => some { e with cycle := Function.update e.cycle t (some { key := key, asked := now }) }
  | some _ => none

def leave (e : Exchange K A) (t : Nat) : Exchange K A :=
  { e with cycle := Function.update e.cycle t none }

def store (e : Exchange K A) (c : Nat) : Option (Exchange K A) :=
  (e.desk.store c).map fun desk => { e with desk := desk }

/-- `t` looks at the slot. -/
def take [DecidableEq K] (e : Exchange K A) (t : Nat) : Option (Exchange K A) :=
  (e.cycle t).map fun q =>
    let (taken, desk) := e.desk.take q.key
    { e with desk := desk, returned := e.returned ++ (taken.map fun a => (q, a)).toList }

/-- Everything a question can still be handed, and everything one has been handed, was given
after it was asked. -/
structure Fresh (e : Exchange K A) (now : Nat) : Prop where
  asked_lt : ∀ t q, e.cycle t = some q → q.asked < now
  held : ∀ t q a, e.cycle t = some q → e.desk.Holds q.key a → q.asked < a.given
  returned : ∀ q a, (q, a) ∈ e.returned → q.asked < a.given

variable {e e' : Exchange K A} {now : Nat}

theorem Fresh.init (now : Nat) : Fresh ({} : Exchange K A) now where
  asked_lt _ _ h := by cases h
  held _ _ _ h := by cases h
  returned _ _ h := by cases h

/-- Whatever happens at the desk that brings no answer under a new key. -/
theorem Fresh.desk (h : Fresh e now) {desk : Desk K (Stamped A)}
    (hdesk : ∀ key a, desk.Holds key a → e.desk.Holds key a) :
    Fresh { e with desk := desk } (now + 1) where
  asked_lt t q hq := Nat.lt_succ_of_lt (h.asked_lt t q hq)
  held t q a hq ha := h.held t q a hq (hdesk _ _ ha)
  returned := h.returned

theorem Fresh.accept (h : Fresh e now) (c : Nat) (key : K) (answer : A) :
    Fresh { e with desk := e.desk.accept c key { answer := answer, given := now } }
      (now + 1) where
  asked_lt t q hq := Nat.lt_succ_of_lt (h.asked_lt t q hq)
  held t q a hq ha := by
    rcases Desk.holds_of_accept ha with hold | ⟨-, rfl⟩
    · exact h.held t q a hq hold
    · exact h.asked_lt t q hq
  returned := h.returned

theorem Fresh.store (h : Fresh e now) {c : Nat} (hstore : e.store c = some e') :
    Fresh e' (now + 1) := by
  obtain ⟨desk, hdesk, rfl⟩ := Option.map_eq_some_iff.mp hstore
  exact h.desk fun _ _ hheld => Desk.holds_of_store hdesk hheld

/-- **A question asked while nothing under its key is parked or on its way** is only handed
what was given after it. -/
theorem Fresh.ask (h : Fresh e now) {t : Nat} {key : K} (hask : e.ask t key now = some e')
    (hclear : e.desk.Unanswered key) : Fresh e' (now + 1) := by
  unfold Exchange.ask at hask
  split at hask <;> cases hask
  refine ⟨fun u q hq => ?_, fun u q a hq ha => ?_, h.returned⟩
  · by_cases hut : u = t
    · subst hut
      obtain rfl : _ = q := by simpa using hq
      exact Nat.lt_succ_self _
    · exact Nat.lt_succ_of_lt (h.asked_lt u q (by simpa [Function.update_of_ne hut] using hq))
  · by_cases hut : u = t
    · subst hut
      obtain rfl : _ = q := by simpa using hq
      exact absurd ha (hclear.not_holds a)
    · exact h.held u q a (by simpa [Function.update_of_ne hut] using hq) ha

/-- A moment passes in which nothing happens at the desk. -/
theorem Fresh.later (h : Fresh e now) : Fresh e (now + 1) :=
  h.desk fun _ _ hheld => hheld

theorem Fresh.leave (h : Fresh e now) (t : Nat) : Fresh (e.leave t) now := by
  have hcycle : ∀ u q, (e.leave t).cycle u = some q → e.cycle u = some q := by
    intro u q hq
    by_cases hut : u = t
    · subst hut
      simp [Exchange.leave] at hq
    · simpa [Exchange.leave, Function.update_of_ne hut] using hq
  refine ⟨fun u q hq => ?_, fun u q a hq ha => ?_, h.returned⟩
  · exact h.asked_lt u q (hcycle u q hq)
  · exact h.held u q a (hcycle u q hq) ha

theorem Fresh.take [DecidableEq K] (h : Fresh e now) {t : Nat} (htake : e.take t = some e') :
    Fresh e' (now + 1) := by
  obtain ⟨q, hq, rfl⟩ := Option.map_eq_some_iff.mp htake
  have hrest : Fresh { e with desk := (e.desk.take q.key).2 } (now + 1) :=
    h.desk fun _ _ hheld => Desk.holds_of_take hheld
  refine ⟨hrest.asked_lt, hrest.held, fun q' a hmem => ?_⟩
  rcases List.mem_append.mp hmem with hold | hnew
  · exact h.returned q' a hold
  · obtain ⟨b, htaken, heq⟩ := Option.map_eq_some_iff.mp (Option.mem_toList.mp hnew)
    obtain ⟨rfl, rfl⟩ := Prod.mk.inj heq
    exact h.held t q b hq (Desk.holds_of_taken htaken)

end Exchange

end AnswerSlot
