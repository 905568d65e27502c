import TarishDaemon.Lib.Incremental
import TarishDaemon.Protocol.Framing

/-!
# The decoder under any order of pieces and requests

A frame, and a refusal, are decided by what stands at the front of the buffer.
More input changes only an answer of "not yet" (`stable`), so the rules for
decoders that are fed in pieces apply.
-/

namespace Protocol

open Rust Incremental

namespace Framing

namespace Decoder

/-- What is to be had from the decoder, asking until there is nothing more. -/
@[ext]
structure Drained where
  frames : List Bytes
  stop : Option Error
  rest : Decoder
  deriving DecidableEq, Repr

/-- A frame takes at least its prefix, so the buffer bounds the requests. -/
def drainedLoop : Nat → Decoder → Drained
  | 0, d => ⟨[], none, d⟩
  | fuel + 1, d =>
      match d.nextFrame with
      | .error e => ⟨[], some e, d⟩
      | .ok (none, d') => ⟨[], none, d'⟩
      | .ok (some frame, d') =>
          let r := drainedLoop fuel d'
          { r with frames := frame :: r.frames }

def drained (d : Decoder) : Drained :=
  drainedLoop (d.buf.length + 1) d

/-- What a request finds is decided by the front of the buffer. -/
theorem nextFrame_cases (d : Decoder) :
    d.nextFrame = .ok (none, d) ∨
    (∃ b0 b1 b2 b3 rest, d.buf = b0 :: b1 :: b2 :: b3 :: rest ∧
      maxFrame ≤ ofBeBytes b0 b1 b2 b3 ∧
      d.nextFrame = .error (.oversize (ofBeBytes b0 b1 b2 b3))) ∨
    (∃ b0 b1 b2 b3 rest, d.buf = b0 :: b1 :: b2 :: b3 :: rest ∧
      ofBeBytes b0 b1 b2 b3 < maxFrame ∧ ofBeBytes b0 b1 b2 b3 ≤ rest.length ∧
      d.nextFrame = .ok (some (rest.take (ofBeBytes b0 b1 b2 b3)),
        ⟨rest.drop (ofBeBytes b0 b1 b2 b3)⟩)) := by
  obtain ⟨buf⟩ := d
  unfold nextFrame
  split
  next b0 b1 b2 b3 rest hbuf =>
    dsimp only at hbuf
    subst hbuf
    by_cases hlong : maxFrame ≤ ofBeBytes b0 b1 b2 b3
    · exact .inr (.inl ⟨b0, b1, b2, b3, rest, rfl, hlong, by simp [hlong]⟩)
    by_cases hall : ofBeBytes b0 b1 b2 b3 ≤ rest.length
    · refine .inr (.inr ⟨b0, b1, b2, b3, rest, rfl, by omega, hall, ?_⟩)
      rw [if_neg hlong, if_neg (by simp [lengthPrefix]; omega)]
    · refine .inl ?_
      rw [if_neg hlong, if_pos (by simp [lengthPrefix]; omega)]
  next => exact .inl rfl

/-- **More input changes only an answer of "not yet".** -/
theorem stable : Stable push nextFrame where
  push_nil d := by simp [push]
  push_push d a b := by simp [push]
  idle {d d'} h := by
    rcases d.nextFrame_cases with hc | ⟨_, _, _, _, _, -, -, hc⟩ | ⟨_, _, _, _, _, -, -, -, hc⟩
    · rw [h] at hc
      cases hc
      rfl
    · rw [h] at hc
      cases hc
    · rw [h] at hc
      cases hc
  item {d d' w} b h := by
    rcases d.nextFrame_cases with hc | ⟨_, _, _, _, _, -, -, hc⟩ |
      ⟨b0, b1, b2, b3, rest, hbuf, hsmall, hall, hc⟩
    · rw [h] at hc
      cases hc
    · rw [h] at hc
      cases hc
    · rw [h] at hc
      cases hc
      -- the whole frame is in the buffer, so what is pushed stays behind it
      have hmore : (d.push b).buf = b0 :: b1 :: b2 :: b3 :: (rest ++ b) := by
        simp [push, hbuf]
      unfold nextFrame
      rw [hmore]
      dsimp only
      rw [if_neg (by omega), if_neg (by simp [lengthPrefix]; omega),
        List.take_append_of_le_length hall, List.drop_append_of_le_length hall]
      rfl
  fail {d e} b h := by
    rcases d.nextFrame_cases with hc | ⟨b0, b1, b2, b3, rest, hbuf, hlong, hc⟩ |
      ⟨_, _, _, _, _, -, -, -, hc⟩
    · rw [h] at hc
      cases hc
    · rw [h] at hc
      cases hc
      have hmore : (d.push b).buf = b0 :: b1 :: b2 :: b3 :: (rest ++ b) := by
        simp [push, hbuf]
      unfold nextFrame
      rw [hmore]
      dsimp only
      rw [if_pos hlong]
    · rw [h] at hc
      cases hc

/-- The bounded loop does ask until there is nothing more. -/
theorem drains_drainedLoop (fuel : Nat) (d : Decoder) (hfuel : d.buf.length < fuel) :
    Drains nextFrame d (drainedLoop fuel d).frames (drainedLoop fuel d).stop
      (drainedLoop fuel d).rest := by
  induction fuel generalizing d with
  | zero => omega
  | succ fuel ih =>
      rcases d.nextFrame_cases with hc | ⟨_, _, _, _, _, -, -, hc⟩ |
        ⟨b0, b1, b2, b3, rest, hbuf, -, -, hc⟩
      · simpa only [drainedLoop, hc] using Drains.idle hc
      · simpa only [drainedLoop, hc] using Drains.fail hc
      · simp only [drainedLoop, hc]
        apply Drains.item hc
        apply ih
        rw [hbuf] at hfuel
        simp only [List.length_cons, List.length_drop] at hfuel ⊢
        omega

theorem drains_drained (d : Decoder) :
    Drains nextFrame d d.drained.frames d.drained.stop d.drained.rest :=
  drains_drainedLoop _ d (Nat.lt_succ_self _)

theorem drains_encode {frames : List Bytes} (hsmall : ∀ w ∈ frames, w.length < maxFrame) :
    Drains nextFrame ⟨frames.flatMap encode⟩ frames none ⟨[]⟩ := by
  induction frames with
  | nil => exact Drains.idle rfl
  | cons w frames ih =>
      rw [List.flatMap_cons]
      apply Drains.item (nextFrame_encode (hsmall w (by simp)) _)
      apply ih
      intro v hv
      exact hsmall v (by simp [hv])

end Decoder

/-- The calls on a new decoder, and the answers to the requests. -/
def calls (ops : List (Op UInt8)) : Decoder × List (Except Error (Option Bytes)) :=
  run Decoder.push Decoder.nextFrame {} ops

/-- **The stream decides.**  For pieces and requests in any order: the frames given
so far and then those still to be had are the frames of the whole stream, the same
error ends both, and once it has been answered nothing else is.  A stream of framed
payloads is exactly these payloads, with nothing left over; and after an error every
later request is answered with it, whatever is pushed. -/
theorem stream_decoded :
    (∀ ops : List (Op UInt8),
      let whole := (Decoder.push {} (stream ops)).drained
      let left := (calls ops).1.drained
      whole.frames = items (calls ops).2 ++ left.frames ∧ whole.stop = left.stop ∧
        whole.rest = left.rest ∧
        ∀ e, .error e ∈ (calls ops).2 → whole.stop = some e ∧ left.frames = []) ∧
    (∀ frames : List Bytes, (∀ w ∈ frames, w.length < maxFrame) →
      (Decoder.push {} (frames.flatMap encode)).drained = ⟨frames, none, {}⟩) ∧
    ∀ (d : Decoder) (n : Nat), d.nextFrame = .error (.oversize n) → ∀ ops,
      ∀ answer ∈ (run Decoder.push Decoder.nextFrame d ops).2,
        answer = .error (.oversize n) := by
  refine ⟨fun ops => ?_, fun frames hsmall => ?_, fun d n h ops => ?_⟩
  · obtain ⟨later, hlater, hframes, herror⟩ :=
      Decoder.stable.run_drains ops (Decoder.drains_drained _)
    obtain ⟨hl, hstop, hrest⟩ := hlater.unique (Decoder.drains_drained (calls ops).1)
    subst hl
    exact ⟨hframes, hstop, hrest, herror⟩
  · have hall := Decoder.drains_drained (Decoder.push {} (frames.flatMap encode))
    obtain ⟨hframes, hstop, hrest⟩ := hall.unique (Decoder.drains_encode hsmall)
    exact Decoder.Drained.ext hframes hstop hrest
  · exact Decoder.stable.error_stays ops h

/-- Two frames in three pieces that cut a prefix and a body. -/
theorem two_frames_decoded :
    (calls [.push [0, 0], .next, .push [0, 2, 7], .next, .push [9, 0, 0, 0, 0], .next]).1 =
      ⟨[0, 0, 0, 0]⟩ ∧
    (Decoder.push {} ([[7, 9], []].flatMap encode)).drained = ⟨[[7, 9], []], none, {}⟩ ∧
    ∀ answer ∈ (run Decoder.push Decoder.nextFrame ⟨[255, 0, 0, 0]⟩ [.push [1], .next]).2,
      answer = .error (.oversize 4278190080) :=
  ⟨by decide, stream_decoded.2.1 [[7, 9], []] (by decide),
    stream_decoded.2.2 ⟨[255, 0, 0, 0]⟩ 4278190080 (by decide) _⟩

end Framing

end Protocol
