import TarishDaemon.Protocol.Frames

/-!
# Putting payloads back together

A payload arrives as chunks that share an id.  BYTES payloads are buffered and
handed back whole; a chunk of any other payload is handed on as it arrives, its
offset already checked.

`Accepts` says once everything `Assembler::accept` can do.  In particular a chunk
of a file carries the header of the *first* chunk of its payload, and it starts
exactly where the bytes received so far end.
-/

namespace Protocol

open Rust Frames

namespace Payload

def maxBytesPayload : Nat := 1024 * 1024

def maxInFlight : Nat := 32

inductive Event
  | bytes (id : Int) (data : Bytes)
  | fileChunk (id offset : Int) (data : Bytes) (last : Bool) (header : PayloadHeader)
  | cancelled (id : Int)
  | failed (id : Int)
  | pending
  deriving DecidableEq, Repr

inductive Error
  | offset (id expected got : Int)
  | overrun (id declared : Int)
  | tooLarge (id : Int) (limit : Nat)
  | negative (id : Int)
  | tooManyInFlight (id : Int) (limit : Nat)
  deriving DecidableEq, Repr

structure InFlight where
  header : PayloadHeader
  received : Int := 0
  /-- Only for BYTES. -/
  buffer : Bytes := []
  deriving DecidableEq, Repr

structure Assembler where
  inFlight : HashMap Int InFlight := ∅
  deriving DecidableEq

namespace Assembler

def remove (a : Assembler) (id : Int) : Assembler :=
  { a with inFlight := a.inFlight.erase id }

def put (a : Assembler) (id : Int) (entry : InFlight) : Assembler :=
  { a with inFlight := a.inFlight.insert id entry }

/-- The payload this header belongs to: the one in flight under its id, or a new
one. -/
def entry (a : Assembler) (header : PayloadHeader) : InFlight :=
  (a.inFlight.lookup header.id).getD { header := header }

/-- `accept` once a DATA packet has turned out to carry a chunk. -/
def acceptChunk (a : Assembler) (header : PayloadHeader) (chunk : PayloadChunk) :
    Assembler × Except Error Event :=
  let id := header.id
  if chunk.offset < 0 ∨ header.totalSize < 0 then (a, .error (.negative id))
  else if id ∉ a.inFlight ∧ maxInFlight ≤ a.inFlight.keys.length then
    (a, .error (.tooManyInFlight id maxInFlight))
  else
    let entry := a.entry header
    if chunk.offset ≠ entry.received then
      (a.remove id, .error (.offset id entry.received chunk.offset))
    else
      let total := saturatingAdd entry.received chunk.body.length
      if 0 < entry.header.totalSize ∧ entry.header.totalSize < total then
        (a.remove id, .error (.overrun id entry.header.totalSize))
      else if entry.header.payloadType = .bytes ∧ maxBytesPayload < total.toNat then
        (a.remove id, .error (.tooLarge id maxBytesPayload))
      else if entry.header.payloadType = .bytes then
        let buffer := entry.buffer ++ chunk.body
        if chunk.isLast then (a.remove id, .ok (.bytes id buffer))
        else (a.put id { entry with received := total, buffer := buffer }, .ok .pending)
      else
        (if chunk.isLast then a.remove id else a.put id { entry with received := total },
          .ok (.fileChunk id chunk.offset chunk.body chunk.isLast entry.header))

def accept (a : Assembler) (pt : PayloadTransfer) : Assembler × Except Error Event :=
  match pt.packetType with
  | .control =>
      let event := (pt.control.map (·.1)).getD 0
      (a.remove pt.header.id,
        .ok (if event = 2 then .cancelled pt.header.id else .failed pt.header.id))
  | .data =>
      match pt.chunk with
      | none => (a, .ok .pending)
      | some chunk => a.acceptChunk pt.header chunk
  -- acknowledgements and unknown packets carry nothing for us
  | .unknown | .payloadAck => (a, .ok .pending)

/-- Forget a payload, e.g. because the user cancelled locally. -/
def cancel (a : Assembler) (id : Int) : Assembler :=
  a.remove id

/-- What is in flight under an id. -/
def track (a : Assembler) (id : Int) : Option InFlight :=
  a.inFlight.lookup id

@[simp]
theorem track_put (a : Assembler) (id : Int) (entry : InFlight) :
    (a.put id entry).track = Function.update a.track id (some entry) := by
  funext j
  by_cases h : j = id
  · subst h
    rw [Function.update_self]
    exact AList.lookup_insert _
  · rw [Function.update_of_ne h]
    exact AList.lookup_insert_ne h

@[simp]
theorem track_remove (a : Assembler) (id : Int) :
    (a.remove id).track = Function.update a.track id none := by
  funext j
  by_cases h : j = id
  · subst h
    rw [Function.update_self]
    exact AList.lookup_erase _ _
  · rw [Function.update_of_ne h]
    exact AList.lookup_erase_ne h

/-! ## What one packet can do -/

/-- A chunk of a file that continues `entry`. -/
structure Continues (entry : InFlight) (chunk : PayloadChunk) : Prop where
  isFile : entry.header.payloadType ≠ .bytes
  offset : chunk.offset = entry.received
  nonneg : 0 ≤ chunk.offset
  within : 0 < entry.header.totalSize →
    saturatingAdd entry.received chunk.body.length ≤ entry.header.totalSize

/-- Everything `accept` can do. -/
inductive Accepts (a : Assembler) (pt : PayloadTransfer) : Assembler → Except Error Event → Prop
  | refused {a' : Assembler} (e : Error) : Accepts a pt a' (.error e)
  | ignored : Accepts a pt a (.ok .pending)
  | cancelled : Accepts a pt (a.remove pt.header.id) (.ok (.cancelled pt.header.id))
  | failed : Accepts a pt (a.remove pt.header.id) (.ok (.failed pt.header.id))
  | buffered {entry : InFlight} (isBytes : (a.entry pt.header).header.payloadType = .bytes)
      (same : entry.header = (a.entry pt.header).header) :
      Accepts a pt (a.put pt.header.id entry) (.ok .pending)
  | bytes {data : Bytes} (isBytes : (a.entry pt.header).header.payloadType = .bytes) :
      Accepts a pt (a.remove pt.header.id) (.ok (.bytes pt.header.id data))
  | lastChunk {chunk : PayloadChunk} (continues : Continues (a.entry pt.header) chunk) :
      Accepts a pt (a.remove pt.header.id)
        (.ok (.fileChunk pt.header.id chunk.offset chunk.body true (a.entry pt.header).header))
  | chunk {chunk : PayloadChunk} (continues : Continues (a.entry pt.header) chunk) :
      Accepts a pt
        (a.put pt.header.id { a.entry pt.header with
          received := saturatingAdd (a.entry pt.header).received chunk.body.length })
        (.ok (.fileChunk pt.header.id chunk.offset chunk.body false (a.entry pt.header).header))

theorem accepts_acceptChunk (a : Assembler) (pt : PayloadTransfer) (chunk : PayloadChunk) :
    Accepts a pt (a.acceptChunk pt.header chunk).1 (a.acceptChunk pt.header chunk).2 := by
  unfold acceptChunk
  by_cases negative : chunk.offset < 0 ∨ pt.header.totalSize < 0
  · rw [if_pos negative]
    exact .refused _
  rw [if_neg negative]
  by_cases crowded : pt.header.id ∉ a.inFlight ∧ maxInFlight ≤ a.inFlight.keys.length
  · rw [if_pos crowded]
    exact .refused _
  rw [if_neg crowded]
  by_cases offset : chunk.offset = (a.entry pt.header).received
  swap
  · simp only [if_pos (show chunk.offset ≠ (a.entry pt.header).received from offset)]
    exact .refused _
  simp only [if_neg (not_not_intro offset)]
  by_cases overrun : 0 < (a.entry pt.header).header.totalSize ∧
      (a.entry pt.header).header.totalSize <
        saturatingAdd (a.entry pt.header).received chunk.body.length
  · simp only [if_pos overrun]
    exact .refused _
  simp only [if_neg overrun]
  by_cases isBytes : (a.entry pt.header).header.payloadType = .bytes
  · simp only [isBytes, true_and, if_true]
    split
    · exact .refused _
    · split
      · exact .bytes isBytes
      · exact .buffered isBytes rfl
  · have continues : Continues (a.entry pt.header) chunk := by
      refine ⟨isBytes, offset, by omega, ?_⟩
      intro hpos
      by_contra hlt
      exact overrun ⟨hpos, by omega⟩
    simp only [isBytes, false_and, if_false]
    cases hlast : chunk.isLast with
    | true => exact .lastChunk continues
    | false => exact .chunk continues

/-- **Inversion.** -/
theorem accepts_accept (a : Assembler) (pt : PayloadTransfer) :
    Accepts a pt (a.accept pt).1 (a.accept pt).2 := by
  unfold accept
  cases pt.packetType with
  | control =>
      dsimp only
      split
      · exact .cancelled
      · exact .failed
  | data =>
      cases pt.chunk with
      | none => exact .ignored
      | some chunk => exact accepts_acceptChunk a pt chunk
  | unknown => exact .ignored
  | payloadAck => exact .ignored

/-! ## Chunks that are as they should be -/

/-- There is room for the payload: it is in flight, or not too many are. -/
def HasRoom (a : Assembler) (id : Int) : Prop :=
  id ∈ a.inFlight ∨ a.inFlight.keys.length < maxInFlight

theorem hasRoom_iff {a : Assembler} {id : Int} :
    a.HasRoom id ↔ ¬ (id ∉ a.inFlight ∧ maxInFlight ≤ a.inFlight.keys.length) := by
  rw [HasRoom, not_and_or, not_not, Nat.not_le]

/-- A chunk that starts where the bytes so far end, and stays within the declared size,
passes the checks.  What is left of `accept` is the part about BYTES. -/
theorem acceptChunk_fitting {a : Assembler} {header : PayloadHeader} {chunk : PayloadChunk}
    (room : a.HasRoom header.id) (size : 0 ≤ header.totalSize)
    (offset : chunk.offset = (a.entry header).received) (nonneg : 0 ≤ chunk.offset)
    (within : 0 < (a.entry header).header.totalSize →
      saturatingAdd (a.entry header).received chunk.body.length ≤
        (a.entry header).header.totalSize) :
    a.acceptChunk header chunk =
      let entry := a.entry header
      let total := saturatingAdd entry.received chunk.body.length
      if entry.header.payloadType = .bytes ∧ maxBytesPayload < total.toNat then
        (a.remove header.id, .error (.tooLarge header.id maxBytesPayload))
      else if entry.header.payloadType = .bytes then
        let buffer := entry.buffer ++ chunk.body
        if chunk.isLast then (a.remove header.id, .ok (.bytes header.id buffer))
        else (a.put header.id { entry with received := total, buffer := buffer }, .ok .pending)
      else
        (if chunk.isLast then a.remove header.id
          else a.put header.id { entry with received := total },
          .ok (.fileChunk header.id chunk.offset chunk.body chunk.isLast entry.header)) := by
  have hroom := hasRoom_iff.mp room
  have hwithin : ¬ (0 < (a.entry header).header.totalSize ∧ (a.entry header).header.totalSize <
      saturatingAdd (a.entry header).received chunk.body.length) := by
    rintro ⟨hpos, hlt⟩
    have := within hpos
    omega
  unfold acceptChunk
  rw [if_neg (by omega), if_neg hroom]
  simp only [if_neg (not_not_intro offset), if_neg hwithin]

/-- The next chunk of a payload that is not BYTES is handed on. -/
theorem acceptChunk_file {a : Assembler} {header : PayloadHeader} {chunk : PayloadChunk}
    (room : a.HasRoom header.id) (size : 0 ≤ header.totalSize)
    (continues : Continues (a.entry header) chunk) :
    a.acceptChunk header chunk =
      (if chunk.isLast then a.remove header.id
        else a.put header.id { a.entry header with
          received := saturatingAdd (a.entry header).received chunk.body.length },
      .ok (.fileChunk header.id chunk.offset chunk.body chunk.isLast (a.entry header).header)) := by
  obtain ⟨isFile, offset, nonneg, within⟩ := continues
  rw [acceptChunk_fitting room size offset nonneg within]
  simp only [isFile, false_and, if_false]

/-- The next chunk of a BYTES payload is kept, and the last one hands it back. -/
theorem acceptChunk_bytes {a : Assembler} (header : PayloadHeader) (chunk : PayloadChunk)
    (room : a.HasRoom header.id) (size : 0 ≤ header.totalSize)
    (isBytes : (a.entry header).header.payloadType = .bytes)
    (offset : chunk.offset = (a.entry header).received) (nonneg : 0 ≤ chunk.offset)
    (within : 0 < (a.entry header).header.totalSize →
      saturatingAdd (a.entry header).received chunk.body.length ≤
        (a.entry header).header.totalSize)
    (small : (saturatingAdd (a.entry header).received chunk.body.length).toNat ≤
      maxBytesPayload) :
    a.acceptChunk header chunk =
      if chunk.isLast then
        (a.remove header.id, .ok (.bytes header.id ((a.entry header).buffer ++ chunk.body)))
      else
        (a.put header.id { a.entry header with
          received := saturatingAdd (a.entry header).received chunk.body.length
          buffer := (a.entry header).buffer ++ chunk.body }, .ok .pending) := by
  have hsmall : ¬ maxBytesPayload <
      (saturatingAdd (a.entry header).received chunk.body.length).toNat := by
    omega
  rw [acceptChunk_fitting room size offset nonneg within]
  simp only [isBytes, true_and, if_neg hsmall, if_true]

end Assembler

end Payload

end Protocol
