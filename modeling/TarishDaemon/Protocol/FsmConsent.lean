import TarishDaemon.Lib.History
import TarishDaemon.Lib.Run
import TarishDaemon.Protocol.Fsm

/-!
# Nothing a peer sends accepts on the user's behalf

A run of the receiving machine is a list of calls, each with the effects it
returned.  `Reply` says once what a call can return and what state it leaves; the
invariant `Shape` relates the machine's state to the questions and starts in the
transcript so far, and both temporal properties are read off it.

The acceptance a peer sees is a frame, that is, bytes.  That no *other* frame the
machine sends is byte for byte that one is a fact about the encoders
(`response_accept_ne`), not about the machine.
-/

namespace Protocol

open Rust Sharing

namespace Fsm

/-- A call on the receiving machine. -/
inductive Call
  | start (fill : Option RandomFill)
  | on (event : Event)

/-- The calls so far, each with what it returned. -/
abbrev Transcript := List (Call × List Effect)

structure Session where
  machine : Inbound := {}
  transcript : Transcript := []

def Inbound.call (m : Inbound) : Call → Inbound × List Effect
  | .start fill => m.start fill
  | .on event => m.on event

def Session.step (s : Session) (c : Call) : Session :=
  let (machine, effects) := s.machine.call c
  { machine := machine, transcript := s.transcript ++ [(c, effects)] }

def Effect.asked : Effect → Option Introduction
  | .askUser i => some i
  | _ => none

def Effect.began : Effect → Option Introduction
  | .beginReceiving i => some i
  | _ => none

/-- The offers the person was asked about, in order. -/
def asked (t : Transcript) : List Introduction :=
  t.flatMap fun entry => entry.2.filterMap Effect.asked

/-- The introductions that receiving began for, in order. -/
def began (t : Transcript) : List Introduction :=
  t.flatMap fun entry => entry.2.filterMap Effect.began

/-- The peer's verdict on our identity claim has arrived. -/
def peerResultSeen (t : Transcript) : Prop :=
  ∃ result effects, (Call.on (.frame (.pairedKeyResult result)), effects) ∈ t

/-- The person was asked exactly once, about `i`; there is something in it, and
the question came after the peer's verdict. -/
structure AskedFor (before : Transcript) (i : Introduction) : Prop where
  once : asked before = [i]
  nonempty : i.files ≠ [] ∨ i.texts ≠ []
  after_result : ∃ early entry late, before = early ++ entry :: late ∧
    .askUser i ∈ entry.2 ∧ peerResultSeen early

/-- What a call and its effects must be for the receiver to have consent, given
the calls before it. -/
structure Lawful (before : Transcript) (entry : Call × List Effect) : Prop where
  begins : ∀ i, .beginReceiving i ∈ entry.2 →
    entry.1 = .on .userAccepted ∧ AskedFor before i
  accepts : .send (response .accept) ∈ entry.2 →
    ∃ i, entry = (.on .userAccepted, [.send (response .accept), .beginReceiving i]) ∧
      AskedFor before i

/-! ## The acceptance is recognisable -/

theorem pairedKeyEncryption_length {fill : Option RandomFill} {f : Bytes}
    (h : pairedKeyEncryption fill = .ok f) : f.length = 90 := by
  cases fill with
  | none => cases h
  | some fill =>
      cases h
      have hbody : (Protobuf.bytes pkeSignedData fill.signed ++
          Protobuf.bytes pkeSecretIdHash fill.hash).length = 82 := by
        simp only [Protobuf.bytes, List.length_append, fill.signed_length, fill.hash_length]
        decide
      have hne : Protobuf.bytes pkeSignedData fill.signed ++
          Protobuf.bytes pkeSecretIdHash fill.hash ≠ [] := by
        intro hnil
        rw [hnil] at hbody
        cases hbody
      rw [wrap, if_pos (.inl hne)]
      simp only [Protobuf.bytes, List.length_append] at hbody ⊢
      rw [hbody]
      decide

/-- No frame the machine sends for another reason is the acceptance. -/
theorem response_accept_ne :
    response .accept ≠ cancel ∧ response .accept ≠ response .reject ∧
      response .accept ≠ pairedKeyResult .unable := by
  decide

theorem response_accept_ne_claim {fill : Option RandomFill} {f : Bytes}
    (h : pairedKeyEncryption fill = .ok f) : response .accept ≠ f := by
  intro heq
  have hlen := pairedKeyEncryption_length h
  rw [← heq] at hlen
  revert hlen
  decide

/-! ## What one call can return -/

/-- Everything `on` can do: the event, the machine it leaves and the effects it
returns. -/
inductive Reply (m : Inbound) : Event → Inbound → List Effect → Prop
  | silent {e : Event} : Reply m e m []
  | fail {e : Event} (why : String) : Reply m e { m with state := .failed } [.failed why]
  | cancelledHere : Reply m .userCancelled { m with state := .cancelled }
      [.send cancel, .cancelled]
  | cancelledThere : Reply m (.frame .cancel) { m with state := .cancelled } [.cancelled]
  | accept (here : m.state = .awaitingUser) :
      Reply m .userAccepted { m with state := .transferring }
        [.send (response .accept), .beginReceiving (m.introduction.getD {})]
  | reject (here : m.state = .awaitingUser) :
      Reply m .userRejected { m with state := .done } [.send (response .reject), .done]
  | complete (here : m.state = .transferring) :
      Reply m .transferComplete { m with state := .done } [.done]
  | claim {signed hash : Bytes} (here : m.state = .pairedKey) :
      Reply m (.frame (.pairedKeyEncryption signed hash)) m
        [.send (pairedKeyResult .unable)]
  | verdict {result : PairedKeyResult} (here : m.state = .pairedKey) :
      Reply m (.frame (.pairedKeyResult result))
        { m with seenPeerResult := true, state := .introduction } []
  | offer {i : Introduction} (here : m.state = .introduction)
      (nonempty : i.files ≠ [] ∨ i.texts ≠ []) :
      Reply m (.frame (.introduction i))
        { m with introduction := some i, state := .awaitingUser } [.askUser i]

theorem reply_onFrame (m : Inbound) (f : Frame) (live : m.state.isOver = false) :
    Reply m (.frame f) (m.onFrame f).1 (m.onFrame f).2 := by
  cases f with
  | cancel =>
      have h : m.onFrame .cancel = ({ m with state := .cancelled }, [.cancelled]) := by
        cases m.state <;> simp [Inbound.onFrame]
      rw [h]
      exact .cancelledThere
  | introduction i =>
      cases hs : m.state with
      | introduction =>
          by_cases hempty : i.files = [] ∧ i.texts = []
          · simp only [Inbound.onFrame, hs, if_pos hempty]
            exact .fail _
          · simp only [Inbound.onFrame, hs, if_neg hempty]
            exact .offer hs (by tauto)
      | pairedKey | awaitingUser | transferring =>
          simp only [Inbound.onFrame, hs]
          exact .fail _
      | done | failed | cancelled => simp [hs, State.isOver] at live
  | pairedKeyEncryption signed hash =>
      cases hs : m.state with
      | pairedKey =>
          simp only [Inbound.onFrame, hs]
          exact .claim hs
      | _ =>
          simp only [Inbound.onFrame, hs]
          exact .silent
  | pairedKeyResult result =>
      cases hs : m.state with
      | pairedKey =>
          simp only [Inbound.onFrame, hs]
          exact .verdict hs
      | _ =>
          simp only [Inbound.onFrame, hs]
          exact .silent
  | unknown ty =>
      have h : m.onFrame (.unknown ty) = (m, []) := by
        cases m.state <;> simp [Inbound.onFrame]
      rw [h]
      exact .silent
  | response status =>
      have h : m.onFrame (.response status) = (m, []) := by
        cases m.state <;> simp [Inbound.onFrame]
      rw [h]
      exact .silent

/-- **Inversion.** -/
theorem reply_on (m : Inbound) (e : Event) : Reply m e (m.on e).1 (m.on e).2 := by
  unfold Inbound.on
  by_cases ended : m.state.isOver = true
  · rw [if_pos ended]
    exact .silent
  rw [if_neg ended]
  cases e with
  | frame f => exact reply_onFrame m f (by simpa using ended)
  | userCancelled => exact .cancelledHere
  | userAccepted =>
      by_cases here : m.state = .awaitingUser
      · simp only [here, ne_eq, not_true, if_false]
        exact .accept here
      · simp only [ne_eq, here, not_false_eq_true, if_true]
        exact .fail _
  | userRejected =>
      by_cases here : m.state = .awaitingUser
      · simp only [here, ne_eq, not_true, if_false]
        exact .reject here
      · simp only [ne_eq, here, not_false_eq_true, if_true]
        exact .fail _
  | transferComplete =>
      by_cases here : m.state = .transferring
      · simp only [here, ne_eq, not_true, if_false]
        exact .complete here
      · simp only [ne_eq, here, not_false_eq_true, if_true]
        exact .fail _

/-! ## The machine and its transcript -/

/-- What the state of the machine says about the transcript. -/
structure Shape (m : Inbound) (t : Transcript) : Prop where
  lawful : History.Justified Lawful t
  asked_le : (asked t).length ≤ 1
  began_le : (began t).length ≤ 1
  unasked : m.state = .pairedKey ∨ m.state = .introduction → asked t = []
  unbegun : m.state = .pairedKey ∨ m.state = .introduction ∨ m.state = .awaitingUser →
    began t = []
  seen : m.state = .introduction → peerResultSeen t
  waiting : m.state = .awaitingUser → ∃ i, m.introduction = some i ∧ AskedFor t i

theorem asked_concat (t : Transcript) (c : Call) (es : List Effect) :
    asked (t ++ [(c, es)]) = asked t ++ es.filterMap Effect.asked := by
  simp [asked]

theorem began_concat (t : Transcript) (c : Call) (es : List Effect) :
    began (t ++ [(c, es)]) = began t ++ es.filterMap Effect.began := by
  simp [began]

theorem peerResultSeen.concat {t : Transcript} (h : peerResultSeen t)
    (entry : Call × List Effect) : peerResultSeen (t ++ [entry]) := by
  obtain ⟨result, effects, hmem⟩ := h
  exact ⟨result, effects, List.mem_append_left _ hmem⟩

/-- An effect that neither asks, nor begins, nor accepts. -/
def Quiet (e : Effect) : Prop :=
  e.asked = none ∧ e.began = none ∧ e ≠ .send (response .accept)

theorem Quiet.lawful {t : Transcript} {c : Call} {es : List Effect}
    (quiet : ∀ e ∈ es, Quiet e) : Lawful t (c, es) := by
  refine ⟨?_, ?_⟩
  · intro i hi
    have := (quiet _ hi).2.1
    simp [Effect.began] at this
  · intro hsend
    exact absurd rfl (quiet _ hsend).2.2

/-- A call with quiet effects leaves questions and starts as they were. -/
theorem Quiet.concat {t : Transcript} {c : Call} {es : List Effect}
    (quiet : ∀ e ∈ es, Quiet e) :
    asked (t ++ [(c, es)]) = asked t ∧ began (t ++ [(c, es)]) = began t := by
  rw [asked_concat, began_concat]
  have hasked : es.filterMap Effect.asked = [] :=
    List.filterMap_eq_nil_iff.mpr fun e he => (quiet e he).1
  have hbegan : es.filterMap Effect.began = [] :=
    List.filterMap_eq_nil_iff.mpr fun e he => (quiet e he).2.1
  rw [hasked, hbegan]
  exact ⟨List.append_nil _, List.append_nil _⟩

theorem AskedFor.concat {t : Transcript} {i : Introduction} (h : AskedFor t i) {c : Call}
    {es : List Effect} (quiet : ∀ e ∈ es, Quiet e) : AskedFor (t ++ [(c, es)]) i := by
  obtain ⟨early, entry, late, hsplit, hask, hseen⟩ := h.after_result
  refine ⟨(Quiet.concat quiet).1.trans h.once, h.nonempty, early, entry, late ++ [(c, es)],
    ?_, hask, hseen⟩
  rw [hsplit]
  simp

variable {m m' : Inbound} {t : Transcript}

/-- A quiet call after which the machine expects no more than before. -/
theorem Shape.quiet (shape : Shape m t) {c : Call} {es : List Effect}
    (quiet : ∀ e ∈ es, Quiet e)
    (next : m'.state = m.state ∧ m'.introduction = m.introduction ∨ m'.state.isOver = true) :
    Shape m' (t ++ [(c, es)]) := by
  obtain ⟨hasked, hbegan⟩ := Quiet.concat (t := t) (c := c) quiet
  have back : m'.state.isOver = false → m'.state = m.state ∧
      m'.introduction = m.introduction := by
    intro live
    rcases next with same | ended
    · exact same
    · rw [live] at ended
      cases ended
  refine ⟨shape.lawful.concat (Quiet.lawful quiet), ?_, ?_, ?_, ?_, ?_, ?_⟩
  · rw [hasked]
    exact shape.asked_le
  · rw [hbegan]
    exact shape.began_le
  · intro hstate
    obtain ⟨hsame, -⟩ := back (by rcases hstate with h | h <;> rw [h] <;> rfl)
    rw [hasked]
    exact shape.unasked (hsame ▸ hstate)
  · intro hstate
    obtain ⟨hsame, -⟩ := back (by rcases hstate with h | h | h <;> rw [h] <;> rfl)
    rw [hbegan]
    exact shape.unbegun (hsame ▸ hstate)
  · intro hstate
    obtain ⟨hsame, -⟩ := back (by rw [hstate]; rfl)
    exact (shape.seen (hsame ▸ hstate)).concat _
  · intro hstate
    obtain ⟨hsame, hintro⟩ := back (by rw [hstate]; rfl)
    obtain ⟨i, hi, hfor⟩ := shape.waiting (hsame ▸ hstate)
    exact ⟨i, hintro.trans hi, hfor.concat quiet⟩

/-- The peer's verdict arrives: the machine now waits for an offer. -/
theorem Shape.verdict (shape : Shape m t) (here : m.state = .pairedKey)
    {result : PairedKeyResult} :
    Shape { m with seenPeerResult := true, state := .introduction }
      (t ++ [(Call.on (.frame (.pairedKeyResult result)), [])]) := by
  have unchanged : asked (t ++ [(Call.on (.frame (.pairedKeyResult result)), [])]) = asked t ∧
      began (t ++ [(Call.on (.frame (.pairedKeyResult result)), [])]) = began t :=
    Quiet.concat (by simp)
  obtain ⟨hasked, hbegan⟩ := unchanged
  have none_asked := shape.unasked (.inl here)
  have none_begun := shape.unbegun (.inl here)
  refine ⟨shape.lawful.concat (Quiet.lawful (by simp)), ?_, ?_, ?_, ?_, ?_, ?_⟩
  · rw [hasked]
    exact shape.asked_le
  · rw [hbegan]
    exact shape.began_le
  · exact fun _ => hasked.trans none_asked
  · exact fun _ => hbegan.trans none_begun
  · exact fun _ => ⟨result, [], List.mem_append_right _ (List.mem_singleton.mpr rfl)⟩
  · intro h
    cases h

/-- The one question: an offer reaches a machine that has asked nothing yet. -/
theorem Shape.offer (shape : Shape m t) (here : m.state = .introduction)
    {i : Introduction} (nonempty : i.files ≠ [] ∨ i.texts ≠ []) :
    Shape { m with introduction := some i, state := .awaitingUser }
      (t ++ [(Call.on (.frame (.introduction i)), [.askUser i])]) := by
  have none_asked := shape.unasked (.inr here)
  have none_begun := shape.unbegun (.inr (.inl here))
  have one_asked : asked (t ++ [(Call.on (.frame (.introduction i)), [.askUser i])]) = [i] := by
    rw [asked_concat, none_asked]
    rfl
  have still_unbegun : began (t ++ [(Call.on (.frame (.introduction i)), [.askUser i])]) = [] := by
    rw [began_concat, none_begun]
    rfl
  refine ⟨shape.lawful.concat ⟨by simp, by simp⟩, ?_, ?_, ?_, ?_, ?_, ?_⟩
  · rw [one_asked]
    exact Nat.le_refl 1
  · rw [still_unbegun]
    exact Nat.zero_le 1
  · rintro (h | h) <;> cases h
  · exact fun _ => still_unbegun
  · intro h
    cases h
  · exact fun _ => ⟨i, rfl, one_asked, nonempty, t, _, [], rfl, by simp, shape.seen here⟩

/-- The person says yes to the one question. -/
theorem Shape.accept (shape : Shape m t) (here : m.state = .awaitingUser) :
    Shape { m with state := .transferring }
      (t ++ [(Call.on .userAccepted,
        [.send (response .accept), .beginReceiving (m.introduction.getD {})])]) := by
  obtain ⟨i, hintro, hfor⟩ := shape.waiting here
  have none_begun := shape.unbegun (.inr (.inr here))
  rw [hintro, Option.getD_some]
  refine ⟨shape.lawful.concat ⟨?_, ?_⟩, ?_, ?_, ?_, ?_, ?_, ?_⟩
  · intro j hj
    have hji : j = i := by simpa using hj
    exact ⟨rfl, hji ▸ hfor⟩
  · intro _
    exact ⟨i, rfl, hfor⟩
  · rw [asked_concat, hfor.once]
    exact Nat.le_refl 1
  · rw [began_concat, none_begun]
    exact Nat.le_refl 1
  · rintro (h | h) <;> cases h
  · rintro (h | h | h) <;> cases h
  · intro h
    cases h
  · intro h
    cases h

theorem Shape.reply (shape : Shape m t) {e : Event} {es : List Effect}
    (h : Reply m e m' es) : Shape m' (t ++ [(Call.on e, es)]) := by
  obtain ⟨hcancel, hreject, hunable⟩ := response_accept_ne
  cases h with
  | silent => exact shape.quiet (by simp) (.inl ⟨rfl, rfl⟩)
  | fail why => exact shape.quiet (by simp [Quiet, Effect.asked, Effect.began]) (.inr rfl)
  | cancelledHere =>
      exact shape.quiet (by simp [Quiet, Effect.asked, Effect.began, hcancel.symm]) (.inr rfl)
  | cancelledThere =>
      exact shape.quiet (by simp [Quiet, Effect.asked, Effect.began]) (.inr rfl)
  | accept here => exact shape.accept here
  | reject here =>
      exact shape.quiet (by simp [Quiet, Effect.asked, Effect.began, hreject.symm]) (.inr rfl)
  | complete here => exact shape.quiet (by simp [Quiet, Effect.asked, Effect.began]) (.inr rfl)
  | claim here =>
      exact shape.quiet (by simp [Quiet, Effect.asked, Effect.began, hunable.symm])
        (.inl ⟨rfl, rfl⟩)
  | verdict here => exact shape.verdict here
  | offer here nonempty => exact shape.offer here nonempty

theorem Shape.start (shape : Shape m t) (fill : Option RandomFill) :
    Shape (m.start fill).1 (t ++ [(Call.start fill, (m.start fill).2)]) := by
  unfold Inbound.start
  split
  · exact shape.quiet (by simp) (.inl ⟨rfl, rfl⟩)
  · split
    next f hf =>
      have hne := (response_accept_ne_claim hf).symm
      exact shape.quiet (by simp [Quiet, Effect.asked, Effect.began, hne]) (.inl ⟨rfl, rfl⟩)
    next => exact shape.quiet (by simp [Quiet, Effect.asked, Effect.began]) (.inr rfl)

/-- **One call.** -/
theorem Shape.call (shape : Shape m t) (c : Call) :
    Shape (m.call c).1 (t ++ [(c, (m.call c).2)]) := by
  cases c with
  | start fill => exact shape.start fill
  | on e => exact shape.reply (reply_on m e)

theorem shape_init : Shape {} [] := by
  refine ⟨History.justified_nil, ?_, ?_, ?_, ?_, ?_, ?_⟩ <;> simp [asked, began]

/-- **Consent.**  In every run of the receiving machine, whatever is called in
whatever order: receiving begins, and the acceptance frame is sent, only in reply
to `UserAccepted` and only after exactly one question, which was about the same
non-empty introduction and came after the peer's paired-key verdict; and over the
whole run there is at most one question and at most one start. -/
theorem inbound_consent {calls : List Call} {s : Session}
    (run : Lts.Run (Lts.ofFun Session.step) {} calls s) :
    History.Justified Lawful s.transcript ∧
      (asked s.transcript).length ≤ 1 ∧ (began s.transcript).length ≤ 1 := by
  have shape : Shape s.machine s.transcript := by
    refine run.invariant (fun s => Shape s.machine s.transcript) shape_init ?_
    rintro s c s' shape rfl
    exact shape.call c
  exact ⟨shape.lawful, shape.asked_le, shape.began_le⟩

/-- A run that gets as far as receiving: the verdict, an offer of one file, a
stray frame and a yes. -/
def acceptingCalls : List Call :=
  [.on (.frame (.pairedKeyResult .unable)),
    .on (.frame (.introduction { files := [{ payloadId := 7, size := 100 }] })),
    .on (.frame (.response .accept)), .on .userAccepted]

theorem acceptingCalls_consent :
    began (acceptingCalls.foldl Session.step {}).transcript =
        [{ files := [{ payloadId := 7, size := 100 }] }] ∧
      History.Justified Lawful (acceptingCalls.foldl Session.step {}).transcript :=
  ⟨by decide, (inbound_consent (Lts.run_foldl _ _ acceptingCalls)).1⟩

end Fsm

end Protocol
