import TarishDaemon.Lib.Run
import Mathlib.Data.List.Pairwise
import Mathlib.Logic.Function.Basic

/-!
# A slot for one holder, claimed with tickets

Any number of clients share one slot.  A client first *draws* a ticket from a
counter, then tries to *claim* the slot with it: the claim succeeds exactly when
the slot is empty, and a ticket is used up by the attempt either way.  A ticket
that claimed the slot is *issued*; it may be *released* any number of times, by
anybody, and a release empties the slot exactly when the slot still holds that
ticket.

Draws are ordered and claims are not: a client can be overtaken between its draw
and its claim.  What survives every interleaving is

* `Inv.drawn_sorted` — tickets are drawn in increasing order;
* `Inv.issued_nodup` — no ticket is issued twice;
* `live_iff_holder` — the issued tickets that nobody released are exactly the
  one in the slot, if there is one.
-/

namespace TicketSlot

/-- The shared counter and slot, with the history of draws, issues and releases
and the ticket each client has drawn and not yet used. -/
structure State (T : Type*) where
  next : Int
  holder : Option Int
  ticket : T → Option Int
  drawn : List Int
  issued : List Int
  released : List Int

inductive Label (T : Type*)
  | draw (t : T)
  | claim (t : T)
  | lose (t : T)
  | release (i : Int)
  | idle

variable {T : Type*}

/-- One atomic operation on the slot. -/
inductive Step [DecidableEq T] : State T → Label T → State T → Prop
  | draw (s : State T) (t : T) (free : s.ticket t = none) :
      Step s (.draw t)
        { s with
          next := s.next + 1
          ticket := Function.update s.ticket t (some (s.next + 1))
          drawn := s.drawn ++ [s.next + 1] }
  | claim (s : State T) (t : T) (i : Int) (mine : s.ticket t = some i)
      (empty : s.holder = none) :
      Step s (.claim t)
        { s with
          holder := some i
          ticket := Function.update s.ticket t none
          issued := s.issued ++ [i] }
  | lose (s : State T) (t : T) (taken : s.holder ≠ none) :
      Step s (.lose t) { s with ticket := Function.update s.ticket t none }
  | release (s : State T) (i : Int) (known : i ∈ s.issued) :
      Step s (.release i)
        { s with
          holder := if s.holder = some i then none else s.holder
          released := s.released ++ [i] }
  | idle (s : State T) : Step s .idle s

/-- An issued ticket that nobody has released. -/
def Live (s : State T) (i : Int) : Prop :=
  i ∈ s.issued ∧ i ∉ s.released

/-- The empty slot: nothing drawn, nothing issued. -/
def empty : State T where
  next := 0
  holder := none
  ticket := fun _ => none
  drawn := []
  issued := []
  released := []

/-- What every interleaving of the operations keeps. -/
structure Inv (s : State T) : Prop where
  drawn_sorted : s.drawn.Pairwise (· < ·)
  drawn_range : ∀ i ∈ s.drawn, 0 < i ∧ i ≤ s.next
  next_nonneg : 0 ≤ s.next
  ticket_drawn : ∀ t i, s.ticket t = some i → i ∈ s.drawn
  ticket_unused : ∀ t i, s.ticket t = some i → i ∉ s.issued
  ticket_inj : ∀ t u i, s.ticket t = some i → s.ticket u = some i → t = u
  issued_drawn : ∀ i ∈ s.issued, i ∈ s.drawn
  issued_nodup : s.issued.Nodup
  released_issued : ∀ i ∈ s.released, i ∈ s.issued
  live_iff : ∀ i, Live s i ↔ s.holder = some i

theorem inv_empty : Inv (empty : State T) := by
  constructor <;> simp [empty, Live]

/-- A ticket that is still in a client's hands was never released. -/
theorem Inv.ticket_unreleased {s : State T} (inv : Inv s) {t : T} {i : Int}
    (mine : s.ticket t = some i) : i ∉ s.released := by
  intro released
  exact inv.ticket_unused t i mine (inv.released_issued i released)

theorem Inv.draw [DecidableEq T] {s : State T} (inv : Inv s) {t : T} :
    Inv { s with
      next := s.next + 1
      ticket := Function.update s.ticket t (some (s.next + 1))
      drawn := s.drawn ++ [s.next + 1] } := by
  -- the new ticket is above everything drawn, so it is nobody's and unissued
  have fresh : s.next + 1 ∉ s.drawn := by
    intro h
    have := (inv.drawn_range _ h).2
    omega
  have foreign : ∀ u, s.ticket u ≠ some (s.next + 1) := fun u h =>
    fresh (inv.ticket_drawn u _ h)
  have unissued : s.next + 1 ∉ s.issued := fun h => fresh (inv.issued_drawn _ h)
  refine ⟨?_, ?_, ?_, ?_, ?_, ?_, ?_, inv.issued_nodup, inv.released_issued,
    inv.live_iff⟩
  · refine List.pairwise_append.mpr ⟨inv.drawn_sorted, by simp, ?_⟩
    intro a ha b hb
    have hle := (inv.drawn_range a ha).2
    have hb' : b = s.next + 1 := by simpa using hb
    omega
  · intro i hi
    rcases List.mem_append.mp hi with hold | hnew
    · have := inv.drawn_range i hold
      simp only
      omega
    · have hi' : i = s.next + 1 := by simpa using hnew
      have := inv.next_nonneg
      simp only
      omega
  · have := inv.next_nonneg
    simp only
    omega
  · intro u i hu
    by_cases hut : u = t
    · subst hut
      have hi : s.next + 1 = i := by simpa using hu
      simp [hi]
    · have hu' : s.ticket u = some i := by simpa [Function.update, hut] using hu
      exact List.mem_append.mpr (.inl (inv.ticket_drawn u i hu'))
  · intro u i hu
    by_cases hut : u = t
    · subst hut
      have hi : s.next + 1 = i := by simpa using hu
      exact hi ▸ unissued
    · have hu' : s.ticket u = some i := by simpa [Function.update, hut] using hu
      exact inv.ticket_unused u i hu'
  · intro u v i hu hv
    by_cases hut : u = t <;> by_cases hvt : v = t
    · rw [hut, hvt]
    · subst hut
      have hi : s.next + 1 = i := by simpa using hu
      have hv' : s.ticket v = some i := by simpa [Function.update, hvt] using hv
      exact absurd (hi ▸ hv') (foreign v)
    · subst hvt
      have hi : s.next + 1 = i := by simpa using hv
      have hu' : s.ticket u = some i := by simpa [Function.update, hut] using hu
      exact absurd (hi ▸ hu') (foreign u)
    · have hu' : s.ticket u = some i := by simpa [Function.update, hut] using hu
      have hv' : s.ticket v = some i := by simpa [Function.update, hvt] using hv
      exact inv.ticket_inj u v i hu' hv'
  · intro i hi
    exact List.mem_append.mpr (.inl (inv.issued_drawn i hi))

/-- What a client still holds after one client's ticket was used up. -/
theorem ticket_of_used [DecidableEq T] {s : State T} {t u : T} {i : Int}
    (h : Function.update s.ticket t none u = some i) :
    u ≠ t ∧ s.ticket u = some i := by
  by_cases hut : u = t
  · simp [hut] at h
  · exact ⟨hut, by simpa [Function.update, hut] using h⟩

theorem Inv.claim [DecidableEq T] {s : State T} (inv : Inv s) {t : T} {i : Int}
    (mine : s.ticket t = some i) (empty : s.holder = none) :
    Inv { s with
      holder := some i
      ticket := Function.update s.ticket t none
      issued := s.issued ++ [i] } := by
  refine ⟨inv.drawn_sorted, inv.drawn_range, inv.next_nonneg, ?_, ?_, ?_, ?_, ?_,
    ?_, ?_⟩
  · intro u j hu
    exact inv.ticket_drawn u j (ticket_of_used hu).2
  · intro u j hu
    obtain ⟨hut, hu'⟩ := ticket_of_used hu
    intro hj
    rcases List.mem_append.mp hj with hold | hnew
    · exact inv.ticket_unused u j hu' hold
    · have hji : j = i := by simpa using hnew
      exact hut (inv.ticket_inj u t i (hji ▸ hu') mine)
  · intro u v j hu hv
    exact inv.ticket_inj u v j (ticket_of_used hu).2 (ticket_of_used hv).2
  · intro j hj
    rcases List.mem_append.mp hj with hold | hnew
    · exact inv.issued_drawn j hold
    · have hji : j = i := by simpa using hnew
      exact hji ▸ inv.ticket_drawn t i mine
  · have unused := inv.ticket_unused t i mine
    exact List.nodup_append.mpr ⟨inv.issued_nodup, by simp, by grind⟩
  · intro j hj
    exact List.mem_append.mpr (.inl (inv.released_issued j hj))
  · intro j
    have unreleased := inv.ticket_unreleased mine
    have none_live : ¬ Live s j := by
      rw [inv.live_iff j, empty]
      simp
    simp only [Live, List.mem_append, List.mem_singleton, Option.some.injEq]
    constructor
    · rintro ⟨hold | hnew, hrel⟩
      · exact absurd ⟨hold, hrel⟩ none_live
      · exact hnew.symm
    · rintro rfl
      exact ⟨.inr rfl, unreleased⟩

theorem Inv.lose [DecidableEq T] {s : State T} (inv : Inv s) {t : T} :
    Inv { s with ticket := Function.update s.ticket t none } :=
  ⟨inv.drawn_sorted, inv.drawn_range, inv.next_nonneg,
    fun u i hu => inv.ticket_drawn u i (ticket_of_used hu).2,
    fun u i hu => inv.ticket_unused u i (ticket_of_used hu).2,
    fun u v i hu hv => inv.ticket_inj u v i (ticket_of_used hu).2 (ticket_of_used hv).2,
    inv.issued_drawn, inv.issued_nodup, inv.released_issued, inv.live_iff⟩

theorem Inv.release {s : State T} (inv : Inv s) {i : Int} (known : i ∈ s.issued) :
    Inv { s with
      holder := if s.holder = some i then none else s.holder
      released := s.released ++ [i] } := by
  refine ⟨inv.drawn_sorted, inv.drawn_range, inv.next_nonneg, inv.ticket_drawn,
    inv.ticket_unused, inv.ticket_inj, inv.issued_drawn, inv.issued_nodup, ?_, ?_⟩
  · intro j hj
    rcases List.mem_append.mp hj with hold | hnew
    · exact inv.released_issued j hold
    · have hji : j = i := by simpa using hnew
      exact hji ▸ known
  · intro j
    have hlive := inv.live_iff j
    simp only [Live] at hlive
    simp only [Live, List.mem_append, List.mem_singleton]
    by_cases hji : j = i
    · subst hji
      by_cases hold : s.holder = some j <;> simp [hold]
    · by_cases hold : s.holder = some i
      · have hj : ¬ s.holder = some j := by
          rw [hold]
          simpa using fun h => hji h.symm
        simp only [hold, if_true]
        simp only [hj] at hlive
        tauto
      · simp only [hold, if_false]
        tauto

/-- **One step keeps the invariant.** -/
theorem Inv.step [DecidableEq T] {s s' : State T} {l : Label T} (inv : Inv s)
    (h : Step s l s') : Inv s' := by
  cases h with
  | draw t _ => exact inv.draw
  | claim t i mine empty => exact inv.claim mine empty
  | lose t _ => exact inv.lose
  | release i known => exact inv.release known
  | idle => exact inv

/-- Two live tickets are one: both are in the slot. -/
theorem Inv.live_unique {s : State T} (inv : Inv s) {i j : Int}
    (hi : Live s i) (hj : Live s j) : i = j := by
  have h₁ := (inv.live_iff i).mp hi
  have h₂ := (inv.live_iff j).mp hj
  exact Option.some.inj (h₁.symm.trans h₂)

end TicketSlot
