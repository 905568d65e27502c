import TarishDaemon.Protocol.Sharing

/-!
# The sharing state machines

Events in, effects out.  The receiving machine (`Inbound`) waits for the peer's
paired-key frames and its file list and then for a person; the sending machine
(`Outbound`) says all it has to say at once and waits for the answer.

`start` builds a frame around random bytes, so what the random source returned is
an argument of it.
-/

namespace Protocol

open Rust Sharing

namespace Fsm

inductive Event
  | frame (f : Frame)
  | userAccepted
  | userRejected
  | userCancelled
  | transferComplete
  deriving DecidableEq, Repr

inductive Effect
  | send (frame : Bytes)
  | askUser (i : Introduction)
  | beginSending (i : Introduction)
  | beginReceiving (i : Introduction)
  | done
  | failed (why : String)
  | cancelled
  deriving DecidableEq, Repr

inductive State
  | pairedKey
  | introduction
  | awaitingUser
  | transferring
  | done
  | failed
  | cancelled
  deriving DecidableEq, Repr

def State.isOver : State → Bool
  | .done | .failed | .cancelled => true
  | .pairedKey | .introduction | .awaitingUser | .transferring => false

/-! ## Receiving -/

structure Inbound where
  state : State := .pairedKey
  sentPairedKey : Bool := false
  seenPeerResult : Bool := false
  introduction : Option Introduction := none
  deriving DecidableEq, Repr

namespace Inbound

def fail (m : Inbound) (why : String) : Inbound × List Effect :=
  ({ m with state := .failed }, [.failed why])

def start (m : Inbound) (fill : Option RandomFill) : Inbound × List Effect :=
  if m.sentPairedKey then (m, [])
  else
    let m := { m with sentPairedKey := true }
    match pairedKeyEncryption fill with
    | .ok f => (m, [.send f])
    | .error _ => ({ m with state := .failed }, [.failed "could not build the paired-key frame"])

def onFrame (m : Inbound) (frame : Frame) : Inbound × List Effect :=
  match m.state, frame with
  | _, .cancel => ({ m with state := .cancelled }, [.cancelled])
  -- their claim; our verdict is always Unable
  | .pairedKey, .pairedKeyEncryption _ _ => (m, [.send (pairedKeyResult .unable)])
  | .pairedKey, .pairedKeyResult _ =>
      ({ m with seenPeerResult := true, state := .introduction }, [])
  | .introduction, .introduction i =>
      if i.files = [] ∧ i.texts = [] then m.fail "introduction announced no attachments"
      else ({ m with introduction := some i, state := .awaitingUser }, [.askUser i])
  | .awaitingUser, .introduction _ => m.fail "a second introduction arrived after the first"
  | .transferring, .introduction _ => m.fail "a second introduction arrived after the first"
  | _, .pairedKeyEncryption _ _ => (m, [])
  | _, .pairedKeyResult _ => (m, [])
  | _, .unknown _ => (m, [])
  | _, .response _ => (m, [])
  | _, .introduction _ => m.fail "frame arrived in a state that does not allow it"

def on (m : Inbound) (event : Event) : Inbound × List Effect :=
  if m.state.isOver then (m, [])
  else
    match event with
    | .userCancelled => ({ m with state := .cancelled }, [.send cancel, .cancelled])
    | .userAccepted =>
        if m.state ≠ .awaitingUser then m.fail "acceptance arrived before an offer"
        else
          ({ m with state := .transferring },
            [.send (response .accept), .beginReceiving (m.introduction.getD {})])
    | .userRejected =>
        if m.state ≠ .awaitingUser then m.fail "rejection arrived before an offer"
        else ({ m with state := .done }, [.send (response .reject), .done])
    | .transferComplete =>
        if m.state ≠ .transferring then m.fail "transfer completed before it started"
        else ({ m with state := .done }, [.done])
    | .frame f => m.onFrame f

end Inbound

/-! ## Sending -/

structure Outbound where
  introduction : Introduction
  state : State := .pairedKey
  sentPairedKey : Bool := false
  deriving DecidableEq, Repr

namespace Outbound

def fail (m : Outbound) (why : String) : Outbound × List Effect :=
  ({ m with state := .failed }, [.failed why])

def start (m : Outbound) (fill : Option RandomFill) : Outbound × List Effect :=
  if m.sentPairedKey then (m, [])
  else
    let m := { m with sentPairedKey := true }
    match pairedKeyEncryption fill with
    | .error _ => ({ m with state := .failed }, [.failed "could not build the paired-key frame"])
    | .ok pke =>
        ({ m with state := .introduction },
          [.send pke, .send (pairedKeyResult .unable), .send (Sharing.introduction m.introduction)])

def onFrame (m : Outbound) (frame : Frame) : Outbound × List Effect :=
  match m.state, frame with
  | _, .cancel => ({ m with state := .cancelled }, [.cancelled])
  | .introduction, .response .accept =>
      ({ m with state := .transferring }, [.beginSending m.introduction])
  -- a refusal is a normal answer
  | .introduction, .response _ => ({ m with state := .done }, [.done])
  | _, .pairedKeyEncryption _ _ => (m, [])
  | _, .pairedKeyResult _ => (m, [])
  | _, .unknown _ => (m, [])
  | _, .introduction _ =>
      m.fail "the peer tried to introduce files on a connection we opened"
  | _, .response _ => m.fail "frame arrived in a state that does not allow it"

def on (m : Outbound) (event : Event) : Outbound × List Effect :=
  if m.state.isOver then (m, [])
  else
    match event with
    | .userCancelled => ({ m with state := .cancelled }, [.send cancel, .cancelled])
    | .transferComplete =>
        if m.state ≠ .transferring then m.fail "transfer completed before it started"
        else ({ m with state := .done }, [.done])
    | .userAccepted => m.fail "a local decision arrived on the sending side"
    | .userRejected => m.fail "a local decision arrived on the sending side"
    | .frame f => m.onFrame f

end Outbound

end Fsm

end Protocol
