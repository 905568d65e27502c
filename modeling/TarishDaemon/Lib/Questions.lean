import Mathlib.Data.List.Basic
import Mathlib.Logic.Function.Basic

/-!
# Questions and their outcomes

Threads put questions to a person, each under an id, and one board says what has become
of them: a question was offered, it was declined, it finished with a status.  A thread
that has asked something *owes* the person an outcome, and owes it before it ends.

Which notices may still come is a matter of who has a *voice* about an id.  `Told` keeps
three things apart: ids nobody was asked about, questions that are open and about which
one thread at most can still speak, and questions that are settled and about which nobody
can.  `Told.close` is the step from the second to the third.
-/

namespace Questions

variable {T I S : Type*}

inductive Notice (I S : Type*)
  | offered (id : I)
  | declined (id : I)
  | finished (id : I) (status : S)
  deriving DecidableEq, Repr

def Notice.id : Notice I S → I
  | .offered id | .declined id | .finished id _ => id

/-- Where a thread stands. -/
inductive Standing (I : Type*)
  | ready
  /-- It has an id and has asked nobody under it. -/
  | holds (id : I)
  | awaits (id : I)
  /-- It delivers under an id, its own or not. -/
  | brings (id : I)
  | over
  deriving DecidableEq, Repr

namespace Standing

/-- The id a thread may speak about. -/
def voice : Standing I → Option I
  | .holds id | .awaits id | .brings id => some id
  | .ready | .over => none

/-- Whether a thread that stands here may owe an outcome for `id`. -/
def mayOwe : Standing I → I → Prop
  | .ready, _ => True
  | .awaits own, id | .brings own, id => id = own
  | .holds _, _ | .over, _ => False

end Standing

structure Board (T I S : Type*) where
  stands : T → Standing I
  asked : T → List I
  notices : List (Notice I S)
  /-- The ids under which everything arrived. -/
  arrived : List I

namespace Board

structure Quiet (b : Board T I S) (id : I) : Prop where
  unasked : .offered id ∉ b.notices
  brought : ∀ x, (b.stands x).voice = some id → b.stands x = .brings id

section Operations

variable [DecidableEq T] {b : Board T I S} {x y : T} {id : I}

def say (b : Board T I S) (ns : List (Notice I S)) : Board T I S :=
  { b with notices := b.notices ++ ns }

def move (b : Board T I S) (x : T) (k : Standing I) : Board T I S :=
  { b with stands := Function.update b.stands x k }

/-- `x` puts the question and waits. -/
def offer (b : Board T I S) (x : T) (id : I) (times : Nat) : Board T I S :=
  { stands := Function.update b.stands x (.awaits id)
    asked := Function.update b.asked x (id :: b.asked x)
    notices := b.notices ++ List.replicate times (.offered id)
    arrived := b.arrived }

/-- `x` says its last word. -/
def close (b : Board T I S) (x : T) (id : I) (n : Notice I S) (got : Bool) : Board T I S :=
  { stands := Function.update b.stands x .over
    asked := b.asked
    notices := b.notices ++ [n]
    arrived := if got then id :: b.arrived else b.arrived }

theorem move_self (b : Board T I S) (x : T) : b.move x (b.stands x) = b := by
  unfold move
  rw [Function.update_eq_self]

/-- The voices about `id` after a thread has moved. -/
theorem voice_move {k : Standing I}
    (hy : ((b.move x k).stands y).voice = some id) : y = x ∨ (b.stands y).voice = some id := by
  by_cases hyx : y = x
  · exact .inl hyx
  · have hother : (b.move x k).stands y = b.stands y := Function.update_of_ne hyx ..
    rw [hother] at hy
    exact .inr hy

/-- Another delivery under an id nobody was asked about. -/
theorem quiet_brings (unasked : .offered id ∉ b.notices)
    (brought : ∀ y, (b.stands y).voice = some id → b.stands y = .brings id) :
    (b.move x (.brings id)).Quiet id := by
  refine ⟨unasked, ?_⟩
  intro y hy
  by_cases hyx : y = x
  · subst hyx
    exact Function.update_self ..
  · have hother : (b.move x (.brings id)).stands y = b.stands y := Function.update_of_ne hyx ..
    rw [hother] at hy ⊢
    exact brought y hy

end Operations

variable [DecidableEq I]

/-- The notices about `id`, oldest first. -/
def about (b : Board T I S) (id : I) : List (Notice I S) :=
  b.notices.filter fun n => n.id = id

/-- The person declined, or was told one outcome, and that is `ok` just where everything
arrived. -/
def Resolved (ok : S) (b : Board T I S) (id : I) : Prop :=
  .declined id ∈ b.notices ∨
    ∃ before status, b.about id = before ++ [.finished id status] ∧
      (∀ n ∈ before, n = .offered id) ∧ (status = ok ↔ id ∈ b.arrived)

/-- The person was asked, and neither declined nor was told an outcome. -/
def Owes (b : Board T I S) (x : T) (id : I) : Prop :=
  id ∈ b.asked x ∧ ∀ n ∈ b.about id, n = .offered id

structure Open (b : Board T I S) (id : I) : Prop where
  offers : ∀ n ∈ b.about id, n = .offered id
  missing : id ∉ b.arrived
  single : ∀ x y, (b.stands x).voice = some id → (b.stands y).voice = some id → x = y

structure Settled (ok : S) (b : Board T I S) (id : I) : Prop where
  resolved : b.Resolved ok id
  silent : ∀ x, (b.stands x).voice ≠ some id

inductive Stage (ok : S) (b : Board T I S) (id : I) : Prop
  | quiet (h : b.Quiet id)
  | unanswered (h : b.Open id)
  | settled (h : b.Settled ok id)

/-- What the board keeps. -/
structure Told (ok : S) (b : Board T I S) : Prop where
  stage : ∀ id, Stage ok b id
  shown : ∀ x, ∀ id ∈ b.asked x, .offered id ∈ b.notices
  owed : ∀ x, ∀ id ∈ b.asked x, b.Resolved ok id ∨ (b.stands x).mayOwe id

variable {ok : S} {b b' : Board T I S} {x : T} {id j : I}

/-- A thread that has ended owes nothing. -/
theorem Told.ended (told : Told ok b) (hover : b.stands x = .over) (hid : id ∈ b.asked x) :
    b.Resolved ok id := by
  rcases told.owed x id hid with h | h
  · exact h
  · rw [hover] at h
    exact h.elim

theorem mem_about {n : Notice I S} : n ∈ b.about id ↔ n ∈ b.notices ∧ n.id = id := by
  simp [about]

/-- What is resolved is not only offered. -/
theorem Resolved.answered (h : b.Resolved ok id) : ¬ ∀ n ∈ b.about id, n = .offered id := by
  intro offers
  rcases h with h | ⟨before, status, habout, -, -⟩
  · cases offers _ (mem_about.mpr ⟨h, rfl⟩)
  · have hmem : Notice.finished id status ∈ b.about id := by
      rw [habout]
      exact List.mem_append_right _ (List.mem_singleton.mpr rfl)
    cases offers _ hmem

/-- The outcome that was told, where the person did not decline. -/
theorem Resolved.status (h : b.Resolved ok id) (taken : .declined id ∉ b.notices) {status : S}
    (told : .finished id status ∈ b.notices) : status = ok ↔ id ∈ b.arrived := by
  rcases h with h | ⟨before, last, habout, offers, right⟩
  · exact absurd h taken
  · have hmem : .finished id status ∈ b.about id := mem_about.mpr ⟨told, rfl⟩
    rw [habout] at hmem
    rcases List.mem_append.mp hmem with hmem | hmem
    · cases offers _ hmem
    · cases List.mem_singleton.mp hmem
      exact right

/-- A question that was put is open or settled. -/
theorem Told.open_or_settled (told : Told ok b) (hoffered : .offered id ∈ b.notices) :
    b.Open id ∨ b.Settled ok id := by
  cases told.stage id with
  | quiet h => exact absurd hoffered h.unasked
  | unanswered h => exact .inl h
  | settled h => exact .inr h

/-- What a thread has asked and does not owe any more is resolved. -/
theorem Told.resolved_of_not_owes (told : Told ok b) (hid : id ∈ b.asked x)
    (h : ¬ b.Owes x id) : b.Resolved ok id := by
  rcases told.open_or_settled (told.shown x id hid) with hopen | hsettled
  · exact absurd ⟨hid, hopen.offers⟩ h
  · exact hsettled.resolved

/-- The one voice of a question that is held or waited for is its thread's. -/
theorem Told.open_of_voice (told : Told ok b) (hvoice : (b.stands x).voice = some id)
    (hstands : b.stands x ≠ .brings id) : b.Open id := by
  cases told.stage id with
  | quiet h => exact absurd (h.brought x hvoice) hstands
  | unanswered h => exact h
  | settled h => exact absurd hvoice (h.silent x)

/-- A question that is owed is open. -/
theorem Told.open_of_owes (told : Told ok b) (h : b.Owes x id) : b.Open id := by
  rcases told.open_or_settled (told.shown x id h.1) with hopen | hsettled
  · exact hopen
  · exact absurd h.2 hsettled.resolved.answered

/-- An id nobody has heard of is open. -/
theorem open_of_unheard (habout : b.about id = []) (hmissing : id ∉ b.arrived)
    (silent : ∀ y, (b.stands y).voice ≠ some id) : b.Open id := by
  refine ⟨?_, hmissing, fun y _ hy _ => absurd hy (silent y)⟩
  intro n hn
  rw [habout] at hn
  cases hn

/-! ## Other questions -/

/-- Nothing changes about `j`, and nobody new has a voice about it. -/
structure Leaves (b b' : Board T I S) (j : I) : Prop where
  about : b'.about j = b.about j
  arrived : j ∈ b'.arrived ↔ j ∈ b.arrived
  voice : ∀ y, (b'.stands y).voice = some j → b'.stands y = b.stands y

theorem Leaves.mem (h : Leaves b b' j) {n : Notice I S} (hn : n.id = j) :
    n ∈ b'.notices ↔ n ∈ b.notices := by
  have both : n ∈ b'.about j ↔ n ∈ b.about j := by rw [h.about]
  simpa [mem_about, hn] using both

theorem Leaves.resolved (h : Leaves b b' j) : b'.Resolved ok j ↔ b.Resolved ok j := by
  unfold Resolved
  rw [h.mem rfl, h.about, h.arrived]

theorem Leaves.stage (h : Leaves b b' j) (stage : Stage ok b j) : Stage ok b' j := by
  have voice : ∀ y, (b'.stands y).voice = some j → (b.stands y).voice = some j := by
    intro y hy
    rw [← h.voice y hy]
    exact hy
  cases stage with
  | quiet quiet =>
      refine .quiet ⟨fun hmem => quiet.unasked ((h.mem rfl).mp hmem), ?_⟩
      intro y hy
      rw [h.voice y hy]
      exact quiet.brought y (voice y hy)
  | unanswered hopen =>
      refine .unanswered ⟨?_, fun hmem => hopen.missing (h.arrived.mp hmem), ?_⟩
      · rw [h.about]
        exact hopen.offers
      · exact fun y z hy hz => hopen.single y z (voice y hy) (voice z hz)
  | settled settled =>
      exact .settled ⟨h.resolved.mpr settled.resolved, fun y hy => settled.silent y (voice y hy)⟩

theorem leaves_say {ns : List (Notice I S)} (hns : ∀ n ∈ ns, n.id ≠ j) : Leaves b (b.say ns) j := by
  refine ⟨?_, Iff.rfl, fun _ _ => rfl⟩
  have none : ns.filter (fun n => decide (n.id = j)) = [] := by
    rw [List.filter_eq_nil_iff]
    intro n hn
    simpa using hns n hn
  unfold about say
  rw [List.filter_append, none, List.append_nil]

theorem Leaves.trans {b'' : Board T I S} (h : Leaves b b' j) (h' : Leaves b' b'' j) :
    Leaves b b'' j := by
  refine ⟨h'.about.trans h.about, h'.arrived.trans h.arrived, ?_⟩
  intro y hy
  have hsame := h'.voice y hy
  rw [hsame, h.voice y (hsame ▸ hy)]

variable [DecidableEq T]

theorem leaves_move {k : Standing I} (hk : k.voice ≠ some j) : Leaves b (b.move x k) j := by
  refine ⟨rfl, Iff.rfl, ?_⟩
  intro y hy
  by_cases hyx : y = x
  · subst hyx
    have hself : (b.move y k).stands y = k := Function.update_self ..
    rw [hself] at hy
    exact absurd hy hk
  · exact Function.update_of_ne hyx ..

theorem leaves_offer {times : Nat} (hne : j ≠ id) : Leaves b (b.offer x id times) j := by
  have said : Leaves b (b.say (List.replicate times (.offered id))) j := by
    apply leaves_say
    intro n hn
    rw [List.eq_of_mem_replicate hn]
    exact hne.symm
  have moved : Leaves (b.say (List.replicate times (.offered id)))
      ((b.say (List.replicate times (.offered id))).move x (.awaits id)) j := by
    apply leaves_move
    intro h
    exact hne (Option.some.inj h).symm
  have both := said.trans moved
  exact ⟨both.about, both.arrived, both.voice⟩

theorem leaves_close {n : Notice I S} {got : Bool} (hn : n.id = id) (hne : j ≠ id) :
    Leaves b (b.close x id n got) j := by
  have said : Leaves b (b.say [n]) j := by
    apply leaves_say
    intro m hm
    rw [List.mem_singleton.mp hm, hn]
    exact hne.symm
  have moved : Leaves (b.say [n]) ((b.say [n]).move x .over) j := by
    apply leaves_move
    intro h
    cases h
  have both := said.trans moved
  refine ⟨both.about, ?_, both.voice⟩
  unfold close
  cases got with
  | false => exact Iff.rfl
  | true => simp [hne]

/-! ## One thread moves -/

/-- A thread comes to stand elsewhere.  Where that gives it a voice, the question must
bear it. -/
theorem Told.move (told : Told ok b) {k : Standing I}
    (enters : ∀ id, k.voice = some id → Stage ok (b.move x k) id)
    (owed : ∀ id ∈ b.asked x, b.Resolved ok id ∨ k.mayOwe id) : Told ok (b.move x k) := by
  refine ⟨?_, told.shown, ?_⟩
  · intro id
    by_cases hid : k.voice = some id
    · exact enters id hid
    · exact (leaves_move hid).stage (told.stage id)
  · intro y id hasked
    by_cases hyx : y = x
    · subst hyx
      have hself : (b.move y k).stands y = k := Function.update_self ..
      rw [hself]
      exact owed id hasked
    · have hother : (b.move x k).stands y = b.stands y := Function.update_of_ne hyx ..
      rw [hother]
      exact told.owed y id hasked

/-- A thread that speaks about nothing any more. -/
theorem Told.move_silent (told : Told ok b) {k : Standing I} (silent : k.voice = none)
    (owed : ∀ id ∈ b.asked x, b.Resolved ok id ∨ k.mayOwe id) : Told ok (b.move x k) := by
  refine told.move ?_ owed
  intro id hid
  rw [silent] at hid
  cases hid

/-- A thread takes up an id that nobody speaks about and that has no answer yet. -/
theorem Open.taken (hopen : b.Open id) (silent : ∀ y, (b.stands y).voice ≠ some id)
    (k : Standing I) : (b.move x k).Open id := by
  have only : ∀ y, ((b.move x k).stands y).voice = some id → y = x := by
    intro y hy
    rcases voice_move hy with h | h
    · exact h
    · exact absurd h (silent y)
  exact ⟨hopen.offers, hopen.missing, fun y z hy hz => (only y hy).trans (only z hz).symm⟩

theorem about_offer (b : Board T I S) (x : T) (id : I) (times : Nat) :
    (b.offer x id times).about id = b.about id ++ List.replicate times (.offered id) := by
  unfold about offer
  rw [List.filter_append]
  congr 1
  rw [List.filter_eq_self]
  intro n hn
  rw [List.eq_of_mem_replicate hn]
  exact decide_eq_true rfl

/-- **A question is put.** -/
theorem Told.offer (told : Told ok b) (hvoice : (b.stands x).voice = some id)
    (hstands : b.stands x ≠ .brings id) {times : Nat} (htimes : 0 < times)
    (owed : ∀ i ∈ b.asked x, b.Resolved ok i ∨ i = id) : Told ok (b.offer x id times) := by
  have hopen := told.open_of_voice hvoice hstands
  have voices : ∀ y, ((b.offer x id times).stands y).voice = some id →
      (b.stands y).voice = some id := by
    intro y hy
    rcases voice_move (b := b) (x := x) (k := .awaits id) hy with rfl | h
    · exact hvoice
    · exact h
  have still : (b.offer x id times).Open id := by
    refine ⟨?_, hopen.missing, fun y z hy hz => hopen.single y z (voices y hy) (voices z hz)⟩
    intro n hn
    rw [about_offer] at hn
    rcases List.mem_append.mp hn with h | h
    · exact hopen.offers n h
    · exact List.eq_of_mem_replicate h
  have kept : ∀ {i}, i ≠ id → b.Resolved ok i → (b.offer x id times).Resolved ok i :=
    fun hne h => (leaves_offer hne).resolved.mpr h
  refine ⟨?_, ?_, ?_⟩
  · intro i
    by_cases hid : i = id
    · subst hid
      exact .unanswered still
    · exact (leaves_offer hid).stage (told.stage i)
  · intro y i hasked
    by_cases hid : i = id
    · subst hid
      exact List.mem_append_right _ (List.mem_replicate.mpr ⟨Nat.ne_of_gt htimes, rfl⟩)
    · have hold : i ∈ b.asked y := by
        by_cases hyx : y = x
        · subst hyx
          simpa [Board.offer, hid] using hasked
        · simpa [Board.offer, Function.update_of_ne hyx] using hasked
      exact List.mem_append_left _ (told.shown y i hold)
  · intro y i hasked
    by_cases hyx : y = x
    · subst hyx
      have hself : (b.offer y id times).stands y = .awaits id := Function.update_self ..
      rw [hself]
      by_cases hid : i = id
      · exact .inr hid
      · have hold : i ∈ b.asked y := by simpa [Board.offer, hid] using hasked
        rcases owed i hold with h | h
        · exact .inl (kept hid h)
        · exact absurd h hid
    · have hother : (b.offer x id times).stands y = b.stands y := Function.update_of_ne hyx ..
      have hold : i ∈ b.asked y := by
        simpa [Board.offer, Function.update_of_ne hyx] using hasked
      rw [hother]
      rcases told.owed y i hold with h | h
      · by_cases hid : i = id
        · subst hid
          exact absurd hopen.offers h.answered
        · exact .inl (kept hid h)
      · exact .inr h

theorem about_close {n : Notice I S} {got : Bool} (hn : n.id = id) :
    (b.close x id n got).about id = b.about id ++ [n] := by
  unfold about close
  rw [List.filter_append]
  simp [hn]

/-- The last word about a question. -/
inductive LastWord (ok : S) (id : I) (got : Bool) : Notice I S → Prop
  | declined : LastWord ok id got (.declined id)
  | finished (status : S) (right : status = ok ↔ got = true) :
      LastWord ok id got (.finished id status)

/-- After the last word an open question is resolved. -/
theorem Open.close (hopen : b.Open id) {n : Notice I S} {got : Bool} (word : LastWord ok id got n) :
    (b.close x id n got).Resolved ok id := by
  cases word with
  | declined => exact .inl (List.mem_append_right _ (List.mem_singleton.mpr rfl))
  | finished status right =>
      refine .inr ⟨b.about id, status, about_close rfl, hopen.offers, ?_⟩
      rw [right]
      have missing := hopen.missing
      unfold Board.close
      cases got with
      | false => simpa using missing
      | true => simp

/-- **A question is answered.**  The thread that has the voice says the last word and
ends; where nobody was asked under the id, any word will do. -/
theorem Told.close (told : Told ok b) (hvoice : (b.stands x).voice = some id)
    {n : Notice I S} {got : Bool} (hn : n.id = id) (notOffer : n ≠ .offered id)
    (word : .offered id ∈ b.notices → LastWord ok id got n)
    (owed : ∀ i ∈ b.asked x, b.Resolved ok i ∨ i = id) : Told ok (b.close x id n got) := by
  have others : ∀ y, ((b.close x id n got).stands y).voice = some id →
      y ≠ x ∧ (b.stands y).voice = some id ∧ (b.close x id n got).stands y = b.stands y := by
    intro y hy
    have hyx : y ≠ x := by
      rintro rfl
      have hself : (b.close y id n got).stands y = .over := Function.update_self ..
      rw [hself] at hy
      cases hy
    have hother : (b.close x id n got).stands y = b.stands y := Function.update_of_ne hyx ..
    exact ⟨hyx, hother ▸ hy, hother⟩
  have kept : ∀ {i}, i ≠ id → b.Resolved ok i → (b.close x id n got).Resolved ok i :=
    fun hne h => (leaves_close hn hne).resolved.mpr h
  -- the question itself
  have settled : .offered id ∈ b.notices → (b.close x id n got).Settled ok id := by
    intro hoffered
    rcases told.open_or_settled hoffered with hopen | hsettled
    · refine ⟨hopen.close (word hoffered), ?_⟩
      intro y hy
      obtain ⟨hyx, hbefore, -⟩ := others y hy
      exact hyx (hopen.single y x hbefore hvoice)
    · exact absurd hvoice (hsettled.silent x)
  have stage : Stage ok (b.close x id n got) id := by
    by_cases hoffered : .offered id ∈ b.notices
    · exact .settled (settled hoffered)
    · refine .quiet ⟨?_, ?_⟩
      · intro hmem
        rcases List.mem_append.mp hmem with h | h
        · exact hoffered h
        · exact notOffer (List.mem_singleton.mp h).symm
      · intro y hy
        obtain ⟨hyx, hbefore, hsame⟩ := others y hy
        rw [hsame]
        cases told.stage id with
        | quiet h => exact h.brought y hbefore
        | unanswered h => exact absurd (h.single y x hbefore hvoice) hyx
        | settled h => exact absurd hvoice (h.silent x)
  refine ⟨?_, ?_, ?_⟩
  · intro i
    by_cases hid : i = id
    · subst hid
      exact stage
    · exact (leaves_close hn hid).stage (told.stage i)
  · exact fun y i hasked => List.mem_append_left _ (told.shown y i hasked)
  · intro y i hasked
    by_cases hid : i = id
    · subst hid
      exact .inl (settled (told.shown y i hasked)).resolved
    · by_cases hyx : y = x
      · subst hyx
        rcases owed i hasked with h | h
        · exact .inl (kept hid h)
        · exact absurd h hid
      · have hother : (b.close x id n got).stands y = b.stands y := Function.update_of_ne hyx ..
        rw [hother]
        rcases told.owed y i hasked with h | h
        · exact .inl (kept hid h)
        · exact .inr h

end Board

end Questions
