import TarishDaemon.Protocol.FsmConsent

/-!
# A machine that is over

`on` looks at the state first and does nothing once it is over.  `start` looks at
its own flag only.  A machine that was cancelled, or that failed, before anyone
opened the exchange is therefore over and can still be started: the receiver then
sends its identity claim into a conversation that has ended, and the sender is
back at its introduction.

Nothing a machine does makes it forget that it was started, so this is the only
way: **over is over exactly where the exchange had been opened**
(`over_absorbs_iff_started`).
-/

namespace Protocol

open Rust Sharing

namespace Fsm

def Outbound.call (m : Outbound) : Call → Outbound × List Effect
  | .start fill => m.start fill
  | .on event => m.on event

section Calls

variable {M : Type} (call : M → Call → M × List Effect)

/-- The machine after the calls. -/
def afterCalls (m : M) (calls : List Call) : M :=
  calls.foldl (fun m c => (call m c).1) m

/-- From here on every call returns nothing and changes nothing. -/
def Absorbs (m : M) : Prop :=
  ∀ later c, call (afterCalls call m later) c = (m, [])

theorem afterCalls_concat (m : M) (calls : List Call) (c : Call) :
    afterCalls call m (calls ++ [c]) = (call (afterCalls call m calls) c).1 := by
  simp [afterCalls]

/-- One call decides: it leaves the machine where the next one finds it. -/
theorem absorbs_iff (m : M) : Absorbs call m ↔ ∀ c, call m c = (m, []) := by
  refine ⟨fun h => h [], fun h later c => ?_⟩
  have hstays : afterCalls call m later = m := by
    induction later using List.reverseRecOn with
    | nil => rfl
    | append_singleton later last ih => rw [afterCalls_concat, ih, h]
  rw [hstays, h]

end Calls

def Call.isStart : Call → Bool
  | .start _ => true
  | .on _ => false

/-- The exchange was opened by one of the calls. -/
def Started (calls : List Call) : Prop :=
  calls.any Call.isStart = true

theorem started_concat (calls : List Call) (c : Call) :
    Started (calls ++ [c]) ↔ Started calls ∨ c.isStart = true := by
  simp [Started]

/-! ## The flag -/

theorem Inbound.onFrame_sentPairedKey (m : Inbound) (f : Frame) :
    (m.onFrame f).1.sentPairedKey = m.sentPairedKey := by
  unfold Inbound.onFrame
  split <;> first | rfl | (split <;> rfl)

theorem Inbound.on_sentPairedKey (m : Inbound) (e : Event) :
    (m.on e).1.sentPairedKey = m.sentPairedKey := by
  unfold Inbound.on
  split
  · rfl
  cases e with
  | frame f => exact m.onFrame_sentPairedKey f
  | userCancelled => rfl
  | userAccepted | userRejected | transferComplete =>
      dsimp only
      split <;> rfl

theorem Inbound.start_sentPairedKey (m : Inbound) (fill : Option RandomFill) :
    (m.start fill).1.sentPairedKey = true := by
  unfold Inbound.start
  split
  · assumption
  · dsimp only
    split <;> rfl

theorem Outbound.onFrame_sentPairedKey (m : Outbound) (f : Frame) :
    (m.onFrame f).1.sentPairedKey = m.sentPairedKey := by
  unfold Outbound.onFrame
  split <;> rfl

theorem Outbound.on_sentPairedKey (m : Outbound) (e : Event) :
    (m.on e).1.sentPairedKey = m.sentPairedKey := by
  unfold Outbound.on
  split
  · rfl
  cases e with
  | frame f => exact m.onFrame_sentPairedKey f
  | userCancelled | userAccepted | userRejected => rfl
  | transferComplete =>
      dsimp only
      split <;> rfl

theorem Outbound.start_sentPairedKey (m : Outbound) (fill : Option RandomFill) :
    (m.start fill).1.sentPairedKey = true := by
  unfold Outbound.start
  split
  · assumption
  · dsimp only
    split <;> rfl

/-- What both machines have in common: a flag that `start` raises and `on` leaves
alone holds exactly when one of the calls was a start. -/
theorem flag_iff_started {M : Type} {call : M → Call → M × List Effect} (flag : M → Bool)
    (hstart : ∀ m fill, flag (call m (.start fill)).1 = true)
    (hon : ∀ m e, flag (call m (.on e)).1 = flag m) {m : M} (hnew : flag m = false)
    (calls : List Call) : flag (afterCalls call m calls) = true ↔ Started calls := by
  induction calls using List.reverseRecOn with
  | nil => simp [afterCalls, hnew, Started]
  | append_singleton calls c ih =>
      rw [afterCalls_concat, started_concat, ← ih]
      cases c with
      | start fill => simp [hstart, Call.isStart]
      | on e => simp [hon, Call.isStart]

/-! ## Over is over -/

/-- Where `on` is silent, everything is exactly if the flag is up. -/
theorem absorbs_iff_flag {M : Type} {call : M → Call → M × List Effect} (flag : M → Bool)
    (hstart : ∀ m fill, flag (call m (.start fill)).1 = true) {m : M}
    (hraised : flag m = true → ∀ fill, call m (.start fill) = (m, []))
    (hon : ∀ e, call m (.on e) = (m, [])) : Absorbs call m ↔ flag m = true := by
  rw [absorbs_iff]
  constructor
  · intro silent
    -- a start that changes nothing found the flag up, since it leaves it up
    have hsame : (call m (.start none)).1 = m := congrArg Prod.fst (silent (.start none))
    rw [← hsame]
    exact hstart m none
  · intro raised c
    cases c with
    | start fill => exact hraised raised fill
    | on e => exact hon e

theorem Inbound.absorbs_iff_sent {m : Inbound} (hover : m.state.isOver = true) :
    Absorbs Inbound.call m ↔ m.sentPairedKey = true :=
  absorbs_iff_flag Inbound.sentPairedKey Inbound.start_sentPairedKey
    (fun sent fill => by simp [Inbound.call, Inbound.start, sent])
    (fun e => by simp [Inbound.call, Inbound.on, hover])

theorem Outbound.absorbs_iff_sent {m : Outbound} (hover : m.state.isOver = true) :
    Absorbs Outbound.call m ↔ m.sentPairedKey = true :=
  absorbs_iff_flag Outbound.sentPairedKey Outbound.start_sentPairedKey
    (fun sent fill => by simp [Outbound.call, Outbound.start, sent])
    (fun e => by simp [Outbound.call, Outbound.on, hover])

/-- **Over is over exactly where the exchange had been opened.**  Whatever calls
brought a machine to its end, everything after it is ignored if one of them was
`start`, and only then. -/
theorem over_absorbs_iff_started (i : Introduction) (calls : List Call) :
    ((afterCalls Inbound.call {} calls).state.isOver = true →
      (Absorbs Inbound.call (afterCalls Inbound.call {} calls) ↔ Started calls)) ∧
    ((afterCalls Outbound.call { introduction := i } calls).state.isOver = true →
      (Absorbs Outbound.call (afterCalls Outbound.call { introduction := i } calls) ↔
        Started calls)) := by
  refine ⟨fun hover => ?_, fun hover => ?_⟩
  · rw [Inbound.absorbs_iff_sent hover]
    exact flag_iff_started Inbound.sentPairedKey Inbound.start_sentPairedKey
      Inbound.on_sentPairedKey rfl calls
  · rw [Outbound.absorbs_iff_sent hover]
    exact flag_iff_started Outbound.sentPairedKey Outbound.start_sentPairedKey
      Outbound.on_sentPairedKey rfl calls

theorem opened_then_cancelled_absorbs :
    Absorbs Inbound.call
      (afterCalls Inbound.call {} [Call.start (some someFill), Call.on .userCancelled]) ∧
    Absorbs Outbound.call
      (afterCalls Outbound.call { introduction := {} }
        [Call.start (some someFill), Call.on .userCancelled]) :=
  have h := over_absorbs_iff_started {} [Call.start (some someFill), Call.on .userCancelled]
  ⟨(h.1 (by decide)).mpr (by unfold Started; decide),
    (h.2 (by decide)).mpr (by unfold Started; decide)⟩

/-- A receiver and a sender that were cancelled before they were started.  Starting
the receiver now sends a frame; starting the sender sends three and brings it back. -/
theorem cancelled_then_started_speaks :
    ¬ (∀ calls, (afterCalls Inbound.call {} calls).state.isOver = true →
        Absorbs Inbound.call (afterCalls Inbound.call {} calls)) ∧
    ¬ (∀ i calls, (afterCalls Outbound.call { introduction := i } calls).state.isOver = true →
        Absorbs Outbound.call (afterCalls Outbound.call { introduction := i } calls)) := by
  refine ⟨fun receiver => ?_, fun sender => ?_⟩
  · have silent := receiver [Call.on .userCancelled] (by decide) [] (.start (some someFill))
    have hsaid := congrArg (fun r => r.2.length) silent
    revert hsaid
    decide
  · have silent := sender {} [Call.on .userCancelled] (by decide) [] (.start (some someFill))
    have hstate := congrArg (fun r => r.1.state) silent
    revert hstate
    decide

end Fsm

end Protocol
