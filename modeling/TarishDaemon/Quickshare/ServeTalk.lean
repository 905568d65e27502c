import TarishDaemon.Lib.History
import TarishDaemon.Protocol.FsmConsent
import TarishDaemon.Quickshare.Serve

/-!
# The conversation behind a receive

The sharing machine hands its effects to a queue, and the loop performs them one
by one and answers the machine's question on the way.  `Talk` relates the three:
the machine, the effects still queued, and what is on record.  It says that there
is at most one question, that receiving begins only for an introduction the person
said yes to, and that it begins at most once.
-/

namespace Quickshare

open Rust Protocol Protocol.Sharing Protocol.Fsm Sharingd
open Protocol.Frames (PayloadHeader)

/-- A file the loop opened. -/
structure Opened where
  id : Int
  header : PayloadHeader
  name : Text
  path : Text
  deriving DecidableEq, Repr

def Act.opening : Act → Option Opened
  | .opened id header name path => some ⟨id, header, name, path⟩
  | _ => none

def Act.offer : Act → Option Introduction
  | .asked i _ => some i
  | _ => none

/-- The payload a `create` or a write is for. -/
def Act.touches : Act → Option Int
  | .opened id _ _ _ | .createFailed id _ | .wrote id _ => some id
  | _ => none

/-- The acts that concern a file. -/
def Act.isFile : Act → Bool
  | .opened _ _ _ _ | .createFailed _ _ | .wrote _ _ | .delivered _ | .dropped _ => true
  | .sent _ | .asked _ _ | .progress _ _ | .discarded | .finished _ => false

/-- The acts that concern neither a file nor the person. -/
def Act.isQuiet : Act → Bool
  | .sent _ | .progress _ _ | .finished _ => true
  | .opened _ _ _ _ | .createFailed _ _ | .wrote _ _ | .delivered _ | .dropped _ => false
  | .asked _ _ | .discarded => false

/-- The files opened so far, in order. -/
def openings (log : List Act) : List Opened :=
  log.filterMap Act.opening

/-- The introductions the person was asked about, in order. -/
def offers (log : List Act) : List Introduction :=
  log.filterMap Act.offer

variable {log acts : List Act}

@[simp]
theorem openings_append (log acts : List Act) :
    openings (log ++ acts) = openings log ++ openings acts :=
  List.filterMap_append

@[simp]
theorem offers_append (log acts : List Act) :
    offers (log ++ acts) = offers log ++ offers acts :=
  List.filterMap_append

theorem openings_eq_nil (noFile : ∀ a ∈ acts, a.isFile = false) : openings acts = [] := by
  apply List.filterMap_eq_nil_iff.mpr
  intro a ha
  have := noFile a ha
  cases a <;> first | rfl | cases this

theorem isFile_of_isQuiet {a : Act} (quiet : a.isQuiet = true) : a.isFile = false := by
  cases a <;> first | rfl | cases quiet

theorem offers_quiet (quiet : ∀ a ∈ acts, a.isQuiet = true) : offers acts = [] := by
  apply List.filterMap_eq_nil_iff.mpr
  intro a ha
  have := quiet a ha
  cases a <;> first | rfl | cases this

theorem openings_quiet (quiet : ∀ a ∈ acts, a.isQuiet = true) : openings acts = [] :=
  openings_eq_nil fun a ha => isFile_of_isQuiet (quiet a ha)

/-! ## The machine, its queue and the record -/

/-- No file may be touched in these states. -/
def isEarly : State → Bool
  | .pairedKey | .introduction | .awaitingUser => true
  | .transferring | .done | .failed | .cancelled => false

/-- The effects that end the loop. -/
def isFinal : Effect → Bool
  | .done | .failed _ | .cancelled => true
  | .send _ | .askUser _ | .beginSending _ | .beginReceiving _ => false

structure Talk (m : Inbound) (queue : List Effect) (log : List Act) : Prop where
  asked_le : (offers log ++ queue.filterMap Effect.asked).length ≤ 1
  unasked : m.state = .pairedKey ∨ m.state = .introduction →
    offers log ++ queue.filterMap Effect.asked = []
  asking : ∀ i ∈ queue.filterMap Effect.asked, m.introduction = some i
  began_le : (queue.filterMap Effect.began).length ≤ 1
  begins : ∀ i ∈ queue.filterMap Effect.began, .asked i true ∈ log
  unbegun : isEarly m.state = true → queue.filterMap Effect.began = []
  ends : m.state.isOver = true → ∃ e ∈ queue, isFinal e = true

variable {m m' : Inbound} {queue es : List Effect}

/-- Acts that ask nothing go on record. -/
theorem Talk.note (talk : Talk m queue log) (noOffer : offers acts = []) :
    Talk m queue (log ++ acts) := by
  have same : offers (log ++ acts) = offers log := by
    rw [offers_append, noOffer, List.append_nil]
  exact { talk with
    asked_le := by rw [same]; exact talk.asked_le
    unasked := by rw [same]; exact talk.unasked
    begins := fun i hi => List.mem_append_left _ (talk.begins i hi) }

/-- More effects, none of which asks or begins; the machine stays where it is or is
over. -/
theorem Talk.more (talk : Talk m queue log) (noAsk : es.filterMap Effect.asked = [])
    (noBegin : es.filterMap Effect.began = []) (intro_eq : m'.introduction = m.introduction)
    (state : m'.state = m.state ∨ m'.state.isOver = true ∧ ∃ e ∈ es, isFinal e = true) :
    Talk m' (queue ++ es) log := by
  have asks : (queue ++ es).filterMap Effect.asked = queue.filterMap Effect.asked := by
    rw [List.filterMap_append, noAsk, List.append_nil]
  have begins : (queue ++ es).filterMap Effect.began = queue.filterMap Effect.began := by
    rw [List.filterMap_append, noBegin, List.append_nil]
  refine ⟨?_, ?_, ?_, ?_, ?_, ?_, ?_⟩
  · rw [asks]
    exact talk.asked_le
  · intro h
    rw [asks]
    rcases state with same | ⟨ended, -⟩
    · exact talk.unasked (same ▸ h)
    · rcases h with h | h <;> rw [h] at ended <;> cases ended
  · rw [asks, intro_eq]
    exact talk.asking
  · rw [begins]
    exact talk.began_le
  · rw [begins]
    exact talk.begins
  · intro h
    rw [begins]
    rcases state with same | ⟨ended, -⟩
    · exact talk.unbegun (same ▸ h)
    · revert h ended
      cases m'.state <;> simp [isEarly, State.isOver]
  · intro ended
    rcases state with same | ⟨-, e, he, final⟩
    · obtain ⟨e, he, final⟩ := talk.ends (same ▸ ended)
      exact ⟨e, List.mem_append_left _ he, final⟩
    · exact ⟨e, List.mem_append_right _ he, final⟩

/-- Whatever the machine is told, short of a yes. -/
theorem Talk.reply (talk : Talk m queue log) {event : Event} (h : Reply m event m' es)
    (notYes : event ≠ .userAccepted) : Talk m' (queue ++ es) log := by
  cases h with
  | silent => exact talk.more rfl rfl rfl (.inl rfl)
  | fail why => exact talk.more rfl rfl rfl (.inr ⟨rfl, _, List.mem_singleton.mpr rfl, rfl⟩)
  | cancelledHere =>
      exact talk.more rfl rfl rfl (.inr ⟨rfl, .cancelled, by simp, rfl⟩)
  | cancelledThere => exact talk.more rfl rfl rfl (.inr ⟨rfl, .cancelled, by simp, rfl⟩)
  | accept here => exact absurd rfl notYes
  | reject here => exact talk.more rfl rfl rfl (.inr ⟨rfl, .done, by simp, rfl⟩)
  | complete here => exact talk.more rfl rfl rfl (.inr ⟨rfl, .done, by simp, rfl⟩)
  | claim here => exact talk.more rfl rfl rfl (.inl rfl)
  | verdict here =>
      have none_asked := talk.unasked (.inl here)
      have none_begun := talk.unbegun (by rw [here]; rfl)
      rw [List.append_nil]
      exact { talk with
        unasked := fun _ => none_asked
        unbegun := fun _ => none_begun
        ends := fun ended => by cases ended }
  | @offer i here nonempty =>
      have none_asked := talk.unasked (.inr here)
      have none_begun := talk.unbegun (by rw [here]; rfl)
      obtain ⟨hoffers, hqueue⟩ := List.append_eq_nil_iff.mp none_asked
      have asks : (queue ++ [Effect.askUser i]).filterMap Effect.asked = [i] := by
        rw [List.filterMap_append, hqueue]
        rfl
      have begins : (queue ++ [Effect.askUser i]).filterMap Effect.began = [] := by
        rw [List.filterMap_append, none_begun]
        rfl
      refine ⟨?_, ?_, ?_, ?_, ?_, ?_, ?_⟩
      · rw [asks, hoffers]
        exact Nat.le_refl 1
      · rintro (h | h) <;> cases h
      · rw [asks]
        intro j hj
        rw [List.mem_singleton.mp hj]
      · rw [begins]
        exact Nat.zero_le 1
      · rw [begins]
        intro j hj
        cases hj
      · exact fun _ => begins
      · intro ended
        cases ended

/-- One effect leaves the queue. -/
theorem Talk.pop {effect : Effect} (talk : Talk m (effect :: queue) log)
    (stays : isFinal effect = false) (noAsk : effect.asked = none) : Talk m queue log := by
  have asks : (effect :: queue).filterMap Effect.asked = queue.filterMap Effect.asked :=
    List.filterMap_cons_none noAsk
  have sub : (queue.filterMap Effect.began).Sublist
      ((effect :: queue).filterMap Effect.began) :=
    (List.sublist_cons_self effect queue).filterMap _
  refine ⟨?_, ?_, ?_, ?_, ?_, ?_, ?_⟩
  · rw [← asks]
    exact talk.asked_le
  · rw [← asks]
    exact talk.unasked
  · rw [← asks]
    exact talk.asking
  · exact sub.length_le.trans talk.began_le
  · exact fun i hi => talk.begins i (sub.subset hi)
  · intro h
    rw [talk.unbegun h] at sub
    exact List.sublist_nil.mp sub
  · intro ended
    obtain ⟨e, he, final⟩ := talk.ends ended
    rcases List.mem_cons.mp he with rfl | he
    · rw [stays] at final
      cases final
    · exact ⟨e, he, final⟩

/-- The question is put to the person and goes on record. -/
theorem Talk.ask {i : Introduction} (talk : Talk m (.askUser i :: queue) log)
    (accepted : Bool) : Talk m queue (log ++ [Act.asked i accepted]) := by
  have moved : offers (log ++ [Act.asked i accepted]) ++ queue.filterMap Effect.asked =
      offers log ++ (Effect.askUser i :: queue).filterMap Effect.asked := by
    rw [offers_append, List.append_assoc]
    rfl
  refine ⟨?_, ?_, ?_, talk.began_le, ?_, talk.unbegun, ?_⟩
  · rw [moved]
    exact talk.asked_le
  · rw [moved]
    exact talk.unasked
  · exact fun j hj => talk.asking j (List.mem_cons_of_mem _ hj)
  · exact fun j hj => List.mem_append_left _ (talk.begins j hj)
  · intro ended
    obtain ⟨e, he, final⟩ := talk.ends ended
    rcases List.mem_cons.mp he with rfl | he
    · cases final
    · exact ⟨e, he, final⟩

/-- The person's yes, once the question is on record. -/
theorem Talk.yes (talk : Talk m queue log) {i : Introduction}
    (here : m.introduction = some i) (onRecord : .asked i true ∈ log)
    (h : Reply m .userAccepted m' es) : Talk m' (queue ++ es) log := by
  cases h with
  | silent => exact talk.more rfl rfl rfl (.inl rfl)
  | fail why => exact talk.more rfl rfl rfl (.inr ⟨rfl, _, List.mem_singleton.mpr rfl, rfl⟩)
  | accept waiting =>
      have none_begun := talk.unbegun (by rw [waiting]; rfl)
      have shown : m.introduction.getD {} = i := by rw [here]; rfl
      rw [shown]
      have asks : (queue ++ [Effect.send (response .accept), .beginReceiving i]).filterMap
          Effect.asked = queue.filterMap Effect.asked := by
        rw [List.filterMap_append]
        exact List.append_nil _
      have begins : (queue ++ [Effect.send (response .accept), .beginReceiving i]).filterMap
          Effect.began = [i] := by
        rw [List.filterMap_append, none_begun]
        rfl
      refine ⟨?_, ?_, ?_, ?_, ?_, ?_, ?_⟩
      · rw [asks]
        exact talk.asked_le
      · rintro (h | h) <;> cases h
      · rw [asks]
        exact talk.asking
      · rw [begins]
        exact Nat.le_refl 1
      · rw [begins]
        intro j hj
        rw [List.mem_singleton.mp hj]
        exact onRecord
      · intro h
        cases h
      · intro ended
        cases ended

end Quickshare
