import TarishDaemon.Lib.Run
import TarishDaemon.Protocol.Framing
import TarishDaemon.Protocol.Wire

/-!
# A stream over an L2CAP channel

On L2CAP everything goes in packets, each with the hash of a service in front; three
zeroes mean the control channel.  One side splits what it is given into data packets,
and stays within a window of what the other side has confirmed.  On the other side the
pump, a thread of its own, confirms each data packet and queues what is in it, and a
reader takes it from the queue in pieces of any size.

`Pump.packet` is a pass of the pump's loop, `Pump.run` the loop: a disconnection notice
ends it.  `Link` is both sides and the bytes between them.  Its steps are the threads'
steps in any order; what the packets of the other direction say to the writing side is
not fixed at all.
-/

namespace Quickshare

open Rust Protocol Protocol.Protobuf

namespace Mux

def serviceIdHashLen : Nat := 3

/-- `sha256("NearbySharing")[..3]`. -/
def serviceIdHash : Bytes := [0xFC, 0x9F, 0x5E]

def controlPrefix : Bytes := [0, 0, 0]

def scfType : Nat := 1

def scfPacketAcknowledgement : Nat := 4

def controlTypePacketAcknowledgement : Nat := 3

/-- A literal in the source. -/
def controlTypeDisconnection : Nat := 2

def ackServiceIdHash : Nat := 1

def ackReceivedSize : Nat := 2

/-- The most payload in one packet. -/
def maxPacketPayload : Nat := 16 * 1024

def maxBytesInFlight : Nat := 64 * 1024

/-- Tell the peer how much of its data we took. -/
def packetAcknowledgement (received : Nat) : Bytes :=
  let ack := bytes ackServiceIdHash serviceIdHash ++ varint ackReceivedSize received
  controlPrefix ++ (varint scfType controlTypePacketAcknowledgement ++
    bytes scfPacketAcknowledgement ack)

def dataPacket (payload : Bytes) : Bytes :=
  serviceIdHash ++ payload

/-! ## The pump -/

/-- Shared between the pump thread and the two halves. -/
structure Shared where
  /-- Bytes of payload that the peer has confirmed. -/
  acked : Nat := 0
  inbox : Bytes := []
  closed : Bool := false
  deriving DecidableEq, Repr

structure Pump where
  shared : Shared := {}
  /-- The acknowledgements given to `write_frame`, oldest first.  Its result is ignored. -/
  acks : List Bytes := []
  deriving DecidableEq, Repr

/-- The type of a control packet: `first_varint(..).ok().flatten()`. -/
def controlKind (payload : Bytes) : Option Nat :=
  match firstVarint payload scfType with
  | .ok kind => kind
  | .error _ => none

/-- The size that an acknowledgement confirms. -/
def confirmed (payload : Bytes) : Option Nat :=
  match firstBytes payload scfPacketAcknowledgement with
  | .ok (some ack) =>
      match firstVarint ack ackReceivedSize with
      | .ok size => size
      | .error _ => none
  | _ => none

/-- One packet, as the loop of `pump` takes it. -/
def Pump.packet (p : Pump) (packet : Bytes) : Pump :=
  if packet.length < serviceIdHashLen then p
  else
    let pre := packet.take serviceIdHashLen
    let payload := packet.drop serviceIdHashLen
    if pre = controlPrefix then
      if controlKind payload = some controlTypePacketAcknowledgement then
        match confirmed payload with
        | some size =>
            { p with shared := { p.shared with
                acked := min (2 ^ 64 - 1) (p.shared.acked + size) } }
        | none => p
      else if controlKind payload = some controlTypeDisconnection then
        { p with shared := { p.shared with closed := true } }
      else p
    else if pre ≠ serviceIdHash then p
    else
      { shared := { p.shared with inbox := p.shared.inbox ++ payload }
        acks := p.acks ++ [packetAcknowledgement payload.length] }

/-- The loop over the packets that come: it stops at a disconnection notice. -/
def Pump.run (p : Pump) : List Bytes → Pump
  | [] => p
  | packet :: packets =>
      let p := p.packet packet
      if p.shared.closed then p else p.run packets

/-- A read fails or finds the end, and the pump closes the queue behind it. -/
def Pump.close (p : Pump) : Pump :=
  { p with shared := { p.shared with closed := true } }

/-! ## The two halves -/

/-- `data.chunks(size)`; every piece takes at least one byte. -/
def chunksLoop (size : Nat) : Nat → Bytes → List Bytes
  | _, [] => []
  | 0, _ :: _ => []
  | fuel + 1, data => data.take size :: chunksLoop size fuel (data.drop size)

def chunks (data : Bytes) : List Bytes :=
  chunksLoop maxPacketPayload data.length data

/-- The condition under which `wait_for_room` waits no longer. -/
def hasRoom (sent : Nat) (st : Shared) : Bool :=
  st.closed || sent - st.acked ≤ maxBytesInFlight

/-- What `read` takes for a buffer of `n` bytes: nothing at the end of the stream, and it
waits while there is nothing yet. -/
def Shared.read (st : Shared) (n : Nat) : Option (Bytes × Shared) :=
  if st.inbox ≠ [] then some (st.inbox.take n, { st with inbox := st.inbox.drop n })
  else if st.closed then some ([], st)
  else none

/-! ## Both sides -/

structure Link where
  /-- What is left of the call of `write` that is being made. -/
  todo : List Bytes := []
  /-- Bytes of payload handed to the socket so far. -/
  sent : Nat := 0
  /-- The writing side's own shared state, where its own pump counts what is confirmed. -/
  own : Shared := {}
  /-- A call of `write` has returned an error. -/
  failed : Bool := false
  wire : Bytes := []
  decoder : Framing.Decoder := {}
  pump : Pump := {}
  /-- Everything `write` was called with. -/
  handed : Bytes := []
  /-- The packets put on the wire, oldest first. -/
  put : List Bytes := []
  /-- Everything `read` has returned. -/
  received : Bytes := []
  deriving DecidableEq, Repr

inductive Action
  /-- `MuxWriter::write` is called. -/
  | write (data : Bytes)
  /-- Its next piece goes out. -/
  | piece
  /-- It gives up waiting for room. -/
  | timeout
  /-- A control packet, or one of another service, goes out between two pieces. -/
  | other (packet : Bytes)
  /-- The writing side's own pump takes a packet. -/
  | back (packet : Bytes)
  /-- The writing side's own pump ends. -/
  | backEnds
  /-- The pump reads from the socket. -/
  | arrive (n : Nat)
  /-- The pump takes the next whole packet. -/
  | packet
  /-- The pump finds the end, or its read fails. -/
  | ends
  /-- `MuxReader::read` is called with a buffer of `n` bytes. -/
  | read (n : Nat)
  deriving DecidableEq, Repr

/-- The packet belongs to the stream. -/
def ofService (packet : Bytes) : Bool :=
  packet.take serviceIdHashLen = serviceIdHash

namespace Link

/-- One step, where it can be taken.  After a call of `write` that failed there is no
other: its error ends the session. -/
def step (l : Link) : Action → Option Link
  | .write data =>
      if l.failed ∨ l.todo ≠ [] then none
      else some { l with todo := chunks data, handed := l.handed ++ data }
  | .piece =>
      match l.todo with
      | [] => none
      | piece :: todo =>
          if hasRoom l.sent l.own then
            some { l with
              todo
              sent := l.sent + piece.length
              wire := l.wire ++ Framing.encode (dataPacket piece)
              put := l.put ++ [dataPacket piece] }
          else none
  | .timeout =>
      if l.todo = [] ∨ hasRoom l.sent l.own then none
      else some { l with todo := [], failed := true }
  | .other packet =>
      -- a prefix of four bytes says no more than this
      if ofService packet ∨ packet.length ≥ 2 ^ 32 then none
      else some { l with wire := l.wire ++ Framing.encode packet, put := l.put ++ [packet] }
  | .back packet => some { l with own := (Pump.packet { shared := l.own } packet).shared }
  | .backEnds => some { l with own := { l.own with closed := true } }
  | .arrive n =>
      if l.pump.shared.closed then none
      else some { l with decoder := l.decoder.push (l.wire.take n), wire := l.wire.drop n }
  | .packet =>
      if l.pump.shared.closed then none
      else
        match l.decoder.nextFrame with
        | .error _ => some { l with pump := l.pump.close }
        | .ok (none, _) => none
        | .ok (some packet, decoder) =>
            some { l with decoder, pump := l.pump.packet packet }
  | .ends =>
      if l.pump.shared.closed then none else some { l with pump := l.pump.close }
  | .read n =>
      (l.pump.shared.read n).map fun r =>
        { l with received := l.received ++ r.1, pump := { l.pump with shared := r.2 } }

/-- Every call of `write` has returned without an error, and the pump has been through
every packet. -/
def Processed (l : Link) : Prop :=
  l.todo = [] ∧ l.failed = false ∧ l.wire = [] ∧ l.decoder.buf = []

end Link

/-! ## What a packet does -/

/-- The part of a packet that belongs to the stream. -/
def streamPart (packet : Bytes) : Bytes :=
  if ofService packet then packet.drop serviceIdHashLen else []

/-- The acknowledgement that a packet is given. -/
def answer (packet : Bytes) : List Bytes :=
  if ofService packet then [packetAcknowledgement (streamPart packet).length] else []

/-- The packet is a notice that the peer disconnects. -/
def disconnects (packet : Bytes) : Bool :=
  packet.length ≥ serviceIdHashLen ∧ packet.take serviceIdHashLen = controlPrefix ∧
    controlKind (packet.drop serviceIdHashLen) = some controlTypeDisconnection

/-- **What one packet does**: its part of the stream is queued and confirmed, and a
disconnection notice closes the queue. -/
theorem Pump.packet_spec (p : Pump) (packet : Bytes) :
    (p.packet packet).shared.inbox = p.shared.inbox ++ streamPart packet ∧
      (p.packet packet).acks = p.acks ++ answer packet ∧
      (p.packet packet).shared.closed = (p.shared.closed || disconnects packet) := by
  have hneq : controlPrefix ≠ serviceIdHash := by decide
  unfold Pump.packet
  split
  next hshort =>
    have hnot : ofService packet = false := by
      have hlen : packet.take serviceIdHashLen ≠ serviceIdHash := by
        intro heq
        have := congrArg List.length heq
        rw [List.length_take] at this
        unfold serviceIdHashLen serviceIdHash at *
        simp only [List.length_cons, List.length_nil] at this
        omega
      simpa [ofService] using hlen
    have hno : disconnects packet = false := by
      simp only [disconnects, ge_iff_le, decide_eq_false_iff_not, not_and]
      omega
    simp [streamPart, answer, hnot, hno]
  next hlong =>
  dsimp only
  split
  next hcontrol =>
    have hnot : ofService packet = false := by simp [ofService, hcontrol, hneq]
    have hparts : streamPart packet = [] ∧ answer packet = [] := by
      simp [streamPart, answer, hnot]
    rw [hparts.1, hparts.2]
    split
    next hack =>
      have hno : disconnects packet = false := by
        simp [disconnects, hack, controlTypePacketAcknowledgement, controlTypeDisconnection]
      split
      · simp [hno]
      · simp [hno]
    next hnack =>
    split
    next hdisconnects =>
      have hyes : disconnects packet = true := by
        simp [disconnects, hcontrol, hdisconnects, Nat.not_lt.mp hlong]
      simp [hyes]
    next hother =>
      have hno : disconnects packet = false := by simp [disconnects, hother]
      simp [hno]
  next hdata =>
    have hno : disconnects packet = false := by simp [disconnects, hdata]
    split
    next hforeign =>
      have hnot : ofService packet = false := by simpa [ofService] using hforeign
      simp [streamPart, answer, hnot, hno]
    next hservice =>
      have hyes : ofService packet = true := by simpa [ofService] using hservice
      simp [streamPart, answer, hyes, hno]

end Mux

end Quickshare
