import TarishDaemon.Lib.Keyed
import TarishDaemon.Lib.Run
import TarishDaemon.Protocol.Payload

/-!
# Many payloads at once

The assembler is a table of payloads.  `stream` is one payload alone: what is in
flight under its id, and a frame of that id.  As long as the table is not full,
`accept` is the stream of the frame's id and leaves every other id alone
(`accept_stream`), so the streams do not interfere.

`Opened` is what the callers have seen of a payload since it was opened: the header
that opened it, and the bodies that were accepted.  It is kept from the calls and
the replies alone, and `Holds` says what the assembler has of it.
-/

namespace Protocol

open Rust Frames

namespace Payload

/-! ## One payload alone -/

/-- A chunk of a payload, as `accept` takes it when there is room. -/
def streamChunk (s : Option InFlight) (header : PayloadHeader) (chunk : PayloadChunk) :
    Option InFlight × Except Error Event :=
  let id := header.id
  if chunk.offset < 0 ∨ header.totalSize < 0 then (s, .error (.negative id))
  else
    let entry := s.getD { header := header }
    if chunk.offset ≠ entry.received then (none, .error (.offset id entry.received chunk.offset))
    else
      let total := saturatingAdd entry.received chunk.body.length
      if 0 < entry.header.totalSize ∧ entry.header.totalSize < total then
        (none, .error (.overrun id entry.header.totalSize))
      else if entry.header.payloadType = .bytes ∧ maxBytesPayload < total.toNat then
        (none, .error (.tooLarge id maxBytesPayload))
      else if entry.header.payloadType = .bytes then
        let buffer := entry.buffer ++ chunk.body
        if chunk.isLast then (none, .ok (.bytes id buffer))
        else (some { entry with received := total, buffer := buffer }, .ok .pending)
      else
        (if chunk.isLast then none else some { entry with received := total },
          .ok (.fileChunk id chunk.offset chunk.body chunk.isLast entry.header))

/-- A frame of a payload. -/
def stream (s : Option InFlight) (pt : PayloadTransfer) : Option InFlight × Except Error Event :=
  match pt.packetType with
  | .control =>
      let event := (pt.control.map (·.1)).getD 0
      (none, .ok (if event = 2 then .cancelled pt.header.id else .failed pt.header.id))
  | .data =>
      match pt.chunk with
      | none => (s, .ok .pending)
      | some chunk => streamChunk s pt.header chunk
  | .unknown | .payloadAck => (s, .ok .pending)

/-- The reply that tells of the other payloads. -/
def Error.isCrowded : Error → Bool
  | .tooManyInFlight _ _ => true
  | _ => false

def crowded : Except Error Event → Bool
  | .error e => e.isCrowded
  | .ok _ => false

namespace Assembler

theorem acceptChunk_stream {a : Assembler} {header : PayloadHeader} {chunk : PayloadChunk}
    (fine : crowded (a.acceptChunk header chunk).2 = false) :
    (a.acceptChunk header chunk).2 = (streamChunk (a.track header.id) header chunk).2 ∧
      (a.acceptChunk header chunk).1.track =
        Function.update a.track header.id (streamChunk (a.track header.id) header chunk).1 := by
  have hentry : (a.track header.id).getD { header := header } = a.entry header := rfl
  unfold acceptChunk at fine ⊢
  unfold streamChunk
  by_cases negative : chunk.offset < 0 ∨ header.totalSize < 0
  · simp only [if_pos negative, Function.update_eq_self, and_self]
  by_cases full : header.id ∉ a.inFlight ∧ maxInFlight ≤ a.inFlight.keys.length
  · rw [if_neg negative, if_pos full] at fine
    simp [crowded, Error.isCrowded] at fine
  simp only [if_neg negative, if_neg full, hentry]
  by_cases offset : chunk.offset ≠ (a.entry header).received
  · simp only [if_pos offset, track_remove, and_self]
  simp only [if_neg offset]
  by_cases overrun : 0 < (a.entry header).header.totalSize ∧
      (a.entry header).header.totalSize <
        saturatingAdd (a.entry header).received chunk.body.length
  · simp only [if_pos overrun, track_remove, and_self]
  simp only [if_neg overrun]
  by_cases large : (a.entry header).header.payloadType = .bytes ∧ maxBytesPayload <
      (saturatingAdd (a.entry header).received chunk.body.length).toNat
  · simp only [if_pos large, track_remove, and_self]
  simp only [if_neg large]
  by_cases isBytes : (a.entry header).header.payloadType = .bytes <;>
    cases hlast : chunk.isLast <;>
    simp [isBytes]

/-- A frame that is not refused for the other payloads goes to the stream of its id. -/
theorem accept_stream {a : Assembler} {pt : PayloadTransfer}
    (fine : crowded (a.accept pt).2 = false) :
    (a.accept pt).2 = (stream (a.track pt.header.id) pt).2 ∧
      (a.accept pt).1.track =
        Function.update a.track pt.header.id (stream (a.track pt.header.id) pt).1 := by
  unfold accept at fine ⊢
  unfold stream
  cases hkind : pt.packetType with
  | control => simp
  | unknown => simp
  | payloadAck => simp
  | data =>
      cases hchunk : pt.chunk with
      | none => simp
      | some chunk =>
          simp only [hkind, hchunk] at fine ⊢
          exact acceptChunk_stream fine

/-- Only a full table refuses a payload for the others. -/
theorem acceptChunk_fine {a : Assembler} {header : PayloadHeader} (chunk : PayloadChunk)
    (room : ¬ (header.id ∉ a.inFlight ∧ maxInFlight ≤ a.inFlight.keys.length)) :
    crowded (a.acceptChunk header chunk).2 = false := by
  unfold acceptChunk
  simp only [if_neg room]
  repeat' split
  all_goals rfl

theorem accept_fine {a : Assembler} {pt : PayloadTransfer}
    (room : ¬ (pt.header.id ∉ a.inFlight ∧ maxInFlight ≤ a.inFlight.keys.length)) :
    crowded (a.accept pt).2 = false := by
  unfold accept
  cases pt.packetType with
  | control => rfl
  | unknown => rfl
  | payloadAck => rfl
  | data =>
      cases pt.chunk with
      | none => rfl
      | some chunk => exact acceptChunk_fine chunk room

/-! ## The streams do not interfere -/

/-- The key of a frame. -/
def idOf (pt : PayloadTransfer) : Int := pt.header.id

/-- What `accept` returned for each of the frames. -/
def results (a : Assembler) (pts : List PayloadTransfer) :
    List (PayloadTransfer × Except Error Event) :=
  Keyed.replies accept a pts

/-- The results of an assembler that was never full are those of its streams. -/
theorem results_eq_streams (a : Assembler) (pts : List PayloadTransfer)
    (fine : ∀ r ∈ a.results pts, crowded r.2 = false) :
    a.results pts = Keyed.replies (Keyed.step stream idOf) a.track pts := by
  apply Keyed.replies_of_simulates (fun a m => a.track = m) (fun r => crowded r = false) ?_ rfl fine
  intro pt _ a _ heq hfine
  subst heq
  exact accept_stream hfine

/-- With no payload of another id in flight there is room. -/
theorem hasRoom_of_alone {a : Assembler} {id : Int} (alone : ∀ j, j ≠ id → a.track j = none) :
    a.HasRoom id := by
  by_cases mem : id ∈ a.inFlight
  · exact Or.inl mem
  · right
    have hnil : a.inFlight.keys = [] := by
      apply List.eq_nil_iff_forall_not_mem.mpr
      intro j hj
      have hmem : j ∈ a.inFlight := AList.mem_keys.mp hj
      by_cases h : j = id
      · exact mem (h ▸ hmem)
      · exact AList.lookup_eq_none.mp (alone j h) hmem
    rw [hnil]
    decide

/-- An assembler that sees the frames of one payload only is that payload's stream. -/
theorem results_of_one (id : Int) (pts : List PayloadTransfer)
    (one : ∀ pt ∈ pts, pt.header.id = id) :
    ({} : Assembler).results pts = Keyed.replies stream none pts := by
  apply Keyed.replies_of_simulates
    (fun a s => a.track id = s ∧ ∀ j, j ≠ id → a.track j = none) (fun _ => True) ?_ ?_ ?_
  · intro pt mem a s hstart _
    obtain ⟨rfl, alone⟩ := hstart
    have hid := one pt mem
    have hfine : crowded (a.accept pt).2 = false := by
      apply accept_fine
      rw [hid]
      exact hasRoom_iff.mp (hasRoom_of_alone alone)
    obtain ⟨hreply, htrack⟩ := accept_stream hfine
    rw [hid] at hreply htrack
    refine ⟨hreply, ?_, ?_⟩
    · rw [htrack, Function.update_self]
    · intro j hj
      rw [htrack, Function.update_of_ne hj]
      exact alone j hj
  · exact ⟨rfl, fun _ _ => rfl⟩
  · intro r _
    trivial

/-- **Payloads do not interfere.** -/
theorem results_of_payload (pts : List PayloadTransfer) (id : Int)
    (fine : ∀ r ∈ ({} : Assembler).results pts, crowded r.2 = false) :
    (({} : Assembler).results pts).filter (fun r => r.1.header.id = id) =
      ({} : Assembler).results (pts.filter (fun pt => pt.header.id = id)) := by
  have one : ∀ pt ∈ pts.filter (fun pt => pt.header.id = id), pt.header.id = id := by
    intro pt mem
    simpa using (List.mem_filter.mp mem).2
  rw [results_of_one id _ one, results_eq_streams _ _ fine]
  exact Keyed.replies_filter stream idOf _ pts id

/-- A chunk of each of two payloads in turn; the third does not continue the first payload. -/
def twoPayloads : List PayloadTransfer :=
  let file (offset : Int) (flags : Nat) : PayloadTransfer :=
    { packetType := .data
      header := { id := 1, payloadType := .file, totalSize := 4, fileName := [] }
      chunk := some { offset := offset, flags := flags, body := [7, 7] }, control := none }
  let text (offset : Int) (flags : Nat) : PayloadTransfer :=
    { packetType := .data
      header := { id := 2, payloadType := .bytes, totalSize := 2, fileName := [] }
      chunk := some { offset := offset, flags := flags, body := [9] }, control := none }
  [file 0 0, text 0 0, file 3 0, text 1 1, file 0 0]

theorem results_of_payload_twoPayloads :
    (({} : Assembler).results twoPayloads).filter (fun r => r.1.header.id = 2) =
      ({} : Assembler).results (twoPayloads.filter (fun pt => pt.header.id = 2)) := by
  apply results_of_payload
  decide

/-! ## What is held of each payload -/

/-- What the callers have seen of a payload since it was opened. -/
structure Opened where
  /-- The header it was opened with. -/
  header : PayloadHeader
  /-- The bodies of the chunks that were accepted, oldest first. -/
  bodies : List Bytes := []
  deriving DecidableEq, Repr

/-- The sum of the lengths of the bodies. -/
def Opened.total (o : Opened) : Nat := (o.bodies.map List.length).sum

/-- A chunk is accepted: it opens the payload unless that is open. -/
def Opened.push (o : Option Opened) (header : PayloadHeader) (body : Bytes) : Opened :=
  let opened := o.getD { header := header }
  { opened with bodies := opened.bodies ++ [body] }

/-- What a frame and the reply to it make of its payload. -/
def seen (o : Option Opened) (pt : PayloadTransfer) : Except Error Event → Option Opened
  | .ok .pending =>
      match pt.packetType, pt.chunk with
      | .data, some chunk => some (Opened.push o pt.header chunk.body)
      | _, _ => o
  | .ok (.fileChunk _ _ data last _) =>
      if last then none else some (Opened.push o pt.header data)
  | .ok (.bytes _ _) | .ok (.cancelled _) | .ok (.failed _) => none
  -- refused, and the payload with it
  | .error (.offset _ _ _) | .error (.overrun _ _) | .error (.tooLarge _ _) => none
  | .error (.negative _) | .error (.tooManyInFlight _ _) => o

inductive Call
  | accept (pt : PayloadTransfer)
  | cancel (id : Int)

/-- The assembler and what was seen of each payload. -/
structure Ledger where
  assembler : Assembler := {}
  opened : Int → Option Opened := fun _ => none

def Ledger.call (l : Ledger) : Call → Ledger
  | .accept pt =>
      let r := l.assembler.accept pt
      ⟨r.1, Function.update l.opened pt.header.id (seen (l.opened pt.header.id) pt r.2)⟩
  | .cancel id => ⟨l.assembler.cancel id, Function.update l.opened id none⟩

/-- A new assembler after some calls. -/
def Ledger.after (calls : List Call) : Ledger := calls.foldl Ledger.call {}

/-- What the assembler has of an open payload. -/
structure Holds (e : InFlight) (o : Opened) : Prop where
  header : e.header = o.header
  received : e.received = min (o.total : Int) i64Max
  within : 0 < o.header.totalSize → e.received ≤ o.header.totalSize
  bytes : o.header.payloadType = .bytes →
    e.buffer = o.bodies.flatten ∧ e.buffer.length ≤ maxBytesPayload
  other : o.header.payloadType ≠ .bytes → e.buffer = []

theorem saturatingAdd_min (n m : Nat) :
    saturatingAdd (min (n : Int) i64Max) m = min ((n + m : Nat) : Int) i64Max := by
  unfold saturatingAdd i64Max i64Min
  omega

theorem Opened.total_push (o : Option Opened) (header : PayloadHeader) (body : Bytes) :
    (Opened.push o header body).total =
      (o.getD { header := header }).total + body.length := by
  simp [Opened.push, Opened.total]

/-- What the stream and what was seen of the payload agree on. -/
abbrev Agree : Option InFlight → Option Opened → Prop := Option.Rel Holds

theorem Agree.of_inFlight {e : InFlight} {o : Option Opened} (h : Agree (some e) o) :
    ∃ p, o = some p ∧ Holds e p := by
  cases h with
  | some holds => exact ⟨_, rfl, holds⟩

theorem Agree.of_opened {s : Option InFlight} {o : Opened} (h : Agree s (some o)) :
    ∃ e, s = some e ∧ Holds e o := by
  cases h with
  | some holds => exact ⟨_, rfl, holds⟩

theorem Agree.of_closed {s : Option InFlight} (h : Agree s none) : s = none := by
  cases h
  rfl

/-- What is open, or just being opened, agrees with the header and the bodies seen. -/
theorem Agree.getD {s : Option InFlight} {o : Option Opened} (h : Agree s o)
    (header : PayloadHeader) (size : 0 ≤ header.totalSize) :
    Holds (s.getD { header := header }) (o.getD { header := header }) := by
  cases h with
  | some holds => exact holds
  | none =>
      have zero : (0 : Int) = min ((0 : Nat) : Int) i64Max := by decide
      exact { header := rfl, received := zero
              within := fun _ => size
              bytes := fun _ => ⟨rfl, Nat.zero_le _⟩
              other := fun _ => rfl }

section Push

variable {entry : InFlight} {o : Option Opened} {header : PayloadHeader} {body : Bytes}

/-- A chunk of a payload that is not BYTES. -/
theorem Holds.push_file (holds : Holds entry (o.getD { header := header }))
    (isFile : entry.header.payloadType ≠ .bytes)
    (within : 0 < entry.header.totalSize →
      min ((Opened.push o header body).total : Int) i64Max ≤ entry.header.totalSize) :
    Holds { entry with received := min ((Opened.push o header body).total : Int) i64Max }
      (Opened.push o header body) := by
  have hheader : entry.header = (Opened.push o header body).header := holds.header
  rw [hheader] at isFile within
  refine { header := hheader, received := rfl, within := within, bytes := ?_, other := ?_ }
  · intro isBytes
    exact absurd isBytes isFile
  · intro _
    exact holds.other isFile

/-- A chunk of a BYTES payload that is kept. -/
theorem Holds.push_bytes (holds : Holds entry (o.getD { header := header }))
    (isBytes : entry.header.payloadType = .bytes)
    (within : 0 < entry.header.totalSize →
      min ((Opened.push o header body).total : Int) i64Max ≤ entry.header.totalSize)
    (small : (min ((Opened.push o header body).total : Int) i64Max).toNat ≤ maxBytesPayload) :
    Holds { entry with
        received := min ((Opened.push o header body).total : Int) i64Max
        buffer := entry.buffer ++ body }
      (Opened.push o header body) := by
  have hheader : entry.header = (Opened.push o header body).header := holds.header
  rw [hheader] at isBytes within
  have hbuffer := (holds.bytes isBytes).1
  have hflat : entry.buffer ++ body = (Opened.push o header body).bodies.flatten := by
    rw [hbuffer]
    simp [Opened.push]
  refine { header := hheader, received := rfl, within := within, bytes := ?_, other := ?_ }
  · intro _
    refine ⟨hflat, ?_⟩
    have hlen : (entry.buffer ++ body).length = (Opened.push o header body).total := by
      rw [hflat, List.length_flatten, Opened.total]
    have hmax : i64Max = 9223372036854775807 := rfl
    have hlimit : maxBytesPayload = 1048576 := rfl
    change (entry.buffer ++ body).length ≤ maxBytesPayload
    omega
  · intro isFile
    exact absurd isBytes isFile

end Push

/-- **What one chunk of a payload leaves.** -/
theorem agree_streamChunk {s : Option InFlight} {o : Option Opened} (h : Agree s o)
    {pt : PayloadTransfer} {chunk : PayloadChunk} (data : pt.packetType = .data)
    (hchunk : pt.chunk = some chunk) :
    Agree (streamChunk s pt.header chunk).1 (seen o pt (streamChunk s pt.header chunk).2) := by
  unfold streamChunk
  by_cases negative : chunk.offset < 0 ∨ pt.header.totalSize < 0
  · simp only [if_pos negative, seen]
    exact h
  have holds := h.getD pt.header (by omega)
  simp only [if_neg negative]
  generalize s.getD { header := pt.header } = entry at holds ⊢
  by_cases offset : chunk.offset ≠ entry.received
  · simp only [if_pos offset, seen]
    exact .none
  have hsat : saturatingAdd entry.received chunk.body.length =
      min ((Opened.push o pt.header chunk.body).total : Int) i64Max := by
    rw [holds.received, saturatingAdd_min, Opened.total_push]
  simp only [if_neg offset, hsat]
  by_cases overrun : 0 < entry.header.totalSize ∧ entry.header.totalSize <
      min ((Opened.push o pt.header chunk.body).total : Int) i64Max
  · simp only [if_pos overrun, seen]
    exact .none
  have hwithin : 0 < entry.header.totalSize →
      min ((Opened.push o pt.header chunk.body).total : Int) i64Max ≤
        entry.header.totalSize := by
    intro hpos
    by_contra hlt
    exact overrun ⟨hpos, by omega⟩
  simp only [if_neg overrun]
  by_cases isBytes : entry.header.payloadType = .bytes
  · simp only [isBytes, true_and, if_true]
    by_cases large : maxBytesPayload <
        (min ((Opened.push o pt.header chunk.body).total : Int) i64Max).toNat
    · simp only [if_pos large, seen]
      exact .none
    simp only [if_neg large]
    cases chunk.isLast with
    | true => exact .none
    | false =>
        simp only [Bool.false_eq_true, if_false, seen, data, hchunk]
        exact .some (holds.push_bytes isBytes hwithin (Nat.le_of_not_lt large))
  · simp only [isBytes, false_and, if_false, seen]
    cases chunk.isLast with
    | true => exact .none
    | false =>
        simp only [Bool.false_eq_true, if_false]
        exact .some (holds.push_file isBytes hwithin)

/-- **What one frame of a payload leaves.** -/
theorem agree_stream {s : Option InFlight} {o : Option Opened} (h : Agree s o)
    (pt : PayloadTransfer) : Agree (stream s pt).1 (seen o pt (stream s pt).2) := by
  unfold stream
  cases kind : pt.packetType with
  | control =>
      dsimp only
      split
      · exact .none
      · exact .none
  | unknown => simpa [seen, kind] using h
  | payloadAck => simpa [seen, kind] using h
  | data =>
      cases hchunk : pt.chunk with
      | none => simpa [seen, kind, hchunk] using h
      | some chunk => exact agree_streamChunk h kind hchunk

/-- A full table is left as it is. -/
theorem acceptChunk_crowded {a : Assembler} {header : PayloadHeader} {chunk : PayloadChunk}
    (full : crowded (a.acceptChunk header chunk).2 = true) :
    (a.acceptChunk header chunk).1 = a ∧
      (a.acceptChunk header chunk).2 = .error (.tooManyInFlight header.id maxInFlight) := by
  have hfull : header.id ∉ a.inFlight ∧ maxInFlight ≤ a.inFlight.keys.length := by
    by_contra room
    rw [acceptChunk_fine chunk room] at full
    exact absurd full Bool.false_ne_true
  unfold acceptChunk at full ⊢
  by_cases negative : chunk.offset < 0 ∨ header.totalSize < 0
  · rw [if_pos negative] at full
    exact absurd full Bool.false_ne_true
  · simp only [if_neg negative, if_pos hfull, and_self]

theorem accept_crowded {a : Assembler} {pt : PayloadTransfer}
    (full : crowded (a.accept pt).2 = true) :
    (a.accept pt).1 = a ∧
      (a.accept pt).2 = .error (.tooManyInFlight pt.header.id maxInFlight) := by
  unfold accept at full ⊢
  cases hkind : pt.packetType with
  | control => simp [hkind, crowded] at full
  | unknown => simp [hkind, crowded] at full
  | payloadAck => simp [hkind, crowded] at full
  | data =>
      cases hchunk : pt.chunk with
      | none => simp [hkind, hchunk, crowded] at full
      | some chunk =>
          simp only [hkind, hchunk] at full ⊢
          exact acceptChunk_crowded full

theorem length_remove_le {a : Assembler} (few : a.inFlight.keys.length ≤ maxInFlight) (id : Int) :
    (a.remove id).inFlight.keys.length ≤ maxInFlight := by
  change (a.inFlight.erase id).keys.length ≤ maxInFlight
  rw [AList.keys_erase]
  exact Nat.le_trans List.length_erase_le few

theorem length_put_le {a : Assembler} {id : Int} (room : a.HasRoom id)
    (few : a.inFlight.keys.length ≤ maxInFlight) (e : InFlight) :
    (a.put id e).inFlight.keys.length ≤ maxInFlight := by
  change (a.inFlight.insert id e).keys.length ≤ maxInFlight
  by_cases mem : id ∈ a.inFlight
  · rw [length_insert_of_mem mem]
    exact few
  · rw [length_insert_of_notMem mem]
    exact room.resolve_left mem

/-- A payload is opened only where there is room for it. -/
theorem acceptChunk_few {a : Assembler} (few : a.inFlight.keys.length ≤ maxInFlight)
    (header : PayloadHeader) (chunk : PayloadChunk) :
    (a.acceptChunk header chunk).1.inFlight.keys.length ≤ maxInFlight := by
  have hremove := length_remove_le few header.id
  unfold acceptChunk
  by_cases negative : chunk.offset < 0 ∨ header.totalSize < 0
  · simpa only [if_pos negative] using few
  by_cases full : header.id ∉ a.inFlight ∧ maxInFlight ≤ a.inFlight.keys.length
  · simpa only [if_neg negative, if_pos full] using few
  have hput := length_put_le (hasRoom_iff.mpr full) few
  simp only [if_neg negative, if_neg full]
  repeat' split
  all_goals first
    | exact hremove
    | exact hput _

theorem accept_few {a : Assembler} (few : a.inFlight.keys.length ≤ maxInFlight)
    (pt : PayloadTransfer) : (a.accept pt).1.inFlight.keys.length ≤ maxInFlight := by
  unfold accept
  cases pt.packetType with
  | control => exact length_remove_le few _
  | unknown => exact few
  | payloadAck => exact few
  | data =>
      cases pt.chunk with
      | none => exact few
      | some chunk => exact acceptChunk_few few _ _

/-! ## Over all calls -/

/-- The table is bounded, and has of every payload what was seen of it. -/
structure Ledger.Sound (l : Ledger) : Prop where
  few : l.assembler.inFlight.keys.length ≤ maxInFlight
  agree : ∀ id, Agree (l.assembler.track id) (l.opened id)

theorem Ledger.sound_start : Ledger.Sound {} := by
  refine ⟨Nat.zero_le _, ?_⟩
  intro id
  exact .none

/-- One entry of the two tables changes. -/
theorem Ledger.Sound.update {l : Ledger} (sound : l.Sound) {a : Assembler} {id : Int}
    {s : Option InFlight} {o : Option Opened} (few : a.inFlight.keys.length ≤ maxInFlight)
    (htrack : a.track = Function.update l.assembler.track id s) (h : Agree s o) :
    Ledger.Sound ⟨a, Function.update l.opened id o⟩ := by
  refine ⟨few, ?_⟩
  intro j
  change Agree (a.track j) (Function.update l.opened id o j)
  rw [htrack]
  by_cases hj : j = id
  · subst hj
    simpa only [Function.update_self] using h
  · simpa only [Function.update_of_ne hj] using sound.agree j

/-- **Every call keeps the tables sound.** -/
theorem Ledger.Sound.call {l : Ledger} (sound : l.Sound) (c : Call) : (l.call c).Sound := by
  cases c with
  | cancel id =>
      exact sound.update (length_remove_le sound.few id) (track_remove _ id) .none
  | accept pt =>
      have few := accept_few sound.few pt
      cases hcrowd : crowded (l.assembler.accept pt).2 with
      | true =>
          obtain ⟨hsame, hreply⟩ := accept_crowded hcrowd
          apply sound.update few (s := l.assembler.track pt.header.id)
          · rw [hsame, Function.update_eq_self]
          · rw [hreply]
            exact sound.agree _
      | false =>
          obtain ⟨hreply, htrack⟩ := accept_stream hcrowd
          apply sound.update few htrack
          rw [hreply]
          exact agree_stream (sound.agree _) pt

/-- **Over all sequences of calls.** -/
theorem Ledger.sound_after (calls : List Call) : (Ledger.after calls).Sound := by
  apply (Lts.run_foldl Ledger.call {} calls).invariant Ledger.Sound Ledger.sound_start
  intro l c l' sound step
  rw [show l' = l.call c from step]
  exact sound.call c

/-- What is held of the payloads in flight, after any calls. -/
theorem assembler_invariant (calls : List Call) :
    (Ledger.after calls).assembler.inFlight.keys.length ≤ maxInFlight ∧
      ∀ id e, (Ledger.after calls).assembler.track id = some e →
        ∃ o, (Ledger.after calls).opened id = some o ∧
          e.received = min (o.total : Int) i64Max ∧
          (0 < o.header.totalSize → e.received ≤ o.header.totalSize) ∧
          (o.header.payloadType = .bytes →
            e.received = o.total ∧ e.buffer = o.bodies.flatten ∧
              e.buffer.length ≤ 1024 * 1024) ∧
          (o.header.payloadType ≠ .bytes → e.buffer = []) := by
  obtain ⟨few, agree⟩ := Ledger.sound_after calls
  refine ⟨few, ?_⟩
  intro id e he
  have h := agree id
  rw [he] at h
  obtain ⟨o, hopened, holds⟩ := h.of_inFlight
  refine ⟨o, hopened, holds.received, holds.within, ?_, holds.other⟩
  intro isBytes
  obtain ⟨hbuffer, hlen⟩ := holds.bytes isBytes
  refine ⟨?_, hbuffer, hlen⟩
  have htotal : e.buffer.length = o.total := by
    rw [hbuffer, List.length_flatten, Opened.total]
  have hmax : i64Max = 9223372036854775807 := rfl
  have hlimit : maxBytesPayload = 1048576 := rfl
  rw [holds.received]
  omega

/-! A payload of undeclared size may go on for ever: `received` stops at the largest number it
can hold. -/

def mebibyte : Bytes := List.replicate (1024 * 1024) 0

theorem length_mebibyte : mebibyte.length = 1024 * 1024 := List.length_replicate

def endless : PayloadHeader :=
  { id := 1, payloadType := .file, totalSize := 0, fileName := [] }

/-- The `i`-th mebibyte of it. -/
def endlessChunk (i : Nat) : PayloadTransfer :=
  { packetType := .data, header := endless
    chunk := some { offset := i * (1024 * 1024), flags := 0, body := mebibyte }, control := none }

/-- Its first `n` mebibytes. -/
def flood (n : Nat) : List Call :=
  (List.range n).map (fun i => .accept (endlessChunk i))

theorem flood_succ (n : Nat) : flood (n + 1) = flood n ++ [.accept (endlessChunk n)] := by
  simp [flood, List.range_succ]

theorem total_flood (n : Nat) :
    Opened.total { header := endless, bodies := List.replicate n mebibyte } =
      n * (1024 * 1024) := by
  rw [Opened.total, List.map_replicate, List.sum_replicate_nat, length_mebibyte]

/-- Each of the mebibytes is accepted, as long as the next offset can be written. -/
theorem after_flood (n : Nat) (h : n ≤ 2 ^ 43) :
    ((Ledger.after (flood n)).opened 1).getD { header := endless } =
        { header := endless, bodies := List.replicate n mebibyte } ∧
      ∀ j, j ≠ 1 → (Ledger.after (flood n)).opened j = none := by
  induction n with
  | zero => exact ⟨rfl, fun _ _ => rfl⟩
  | succ n ih =>
      obtain ⟨hopened, hothers⟩ := ih (by omega)
      have agree := (Ledger.sound_after (flood n)).agree
      generalize hl : Ledger.after (flood n) = l at hopened hothers agree
      have hafter : Ledger.after (flood (n + 1)) = l.call (.accept (endlessChunk n)) := by
        rw [flood_succ, Ledger.after, List.foldl_append, ← hl]
        rfl
      have room : l.assembler.HasRoom 1 := by
        apply hasRoom_of_alone
        intro j hj
        have hclosed := agree j
        rw [hothers j hj] at hclosed
        exact hclosed.of_closed
      have holds := (agree 1).getD endless (Int.le_refl 0)
      rw [hopened] at holds
      have hentry : l.assembler.entry endless = (l.assembler.track 1).getD { header := endless } :=
        rfl
      rw [← hentry] at holds
      have continues : Continues (l.assembler.entry endless)
          { offset := n * (1024 * 1024), flags := 0, body := mebibyte } := by
        have hreceived := holds.received
        rw [total_flood, i64Max] at hreceived
        have hisFile : (l.assembler.entry endless).header.payloadType ≠ .bytes := by
          rw [holds.header]
          exact PayloadType.noConfusion
        have hundeclared : ¬ 0 < (l.assembler.entry endless).header.totalSize := by
          rw [holds.header]
          exact Int.lt_irrefl 0
        refine ⟨hisFile, ?_, ?_, ?_⟩
        · dsimp only
          omega
        · dsimp only
          omega
        · intro hpos
          exact absurd hpos hundeclared
      have haccept := acceptChunk_file room (Int.le_refl 0) continues
      have hreply : (l.assembler.accept (endlessChunk n)).2 =
          .ok (.fileChunk 1 (n * (1024 * 1024)) mebibyte false
            (l.assembler.entry endless).header) := by
        have notLast : PayloadChunk.isLast
            { offset := n * (1024 * 1024), flags := 0, body := mebibyte } = false := by
          simp [PayloadChunk.isLast]
        change (l.assembler.acceptChunk endless _).2 = _
        rw [haccept, notLast]
        rfl
      rw [hafter]
      have hopen : (l.call (.accept (endlessChunk n))).opened =
          Function.update l.opened 1 (some (Opened.push (l.opened 1) endless mebibyte)) := by
        change Function.update l.opened 1
          (seen (l.opened 1) (endlessChunk n) (l.assembler.accept (endlessChunk n)).2) = _
        rw [hreply]
        rfl
      rw [hopen]
      refine ⟨?_, ?_⟩
      · rw [Function.update_self, Option.getD_some, Opened.push, hopened,
          List.replicate_succ']
      · intro j hj
        rw [Function.update_of_ne hj]
        exact hothers j hj

/-- **The bytes received are not counted past `i64::MAX`.** -/
theorem received_saturates :
    ¬ ∀ calls id e o, (Ledger.after calls).assembler.track id = some e →
      (Ledger.after calls).opened id = some o → e.received = o.total := by
  intro claim
  obtain ⟨n, hn⟩ : ∃ n, n = 2 ^ 43 := ⟨_, rfl⟩
  obtain ⟨hopened, -⟩ := after_flood n (Nat.le_of_eq hn)
  have agree := (Ledger.sound_after (flood n)).agree 1
  have claim := claim (flood n) 1
  generalize Ledger.after (flood n) = l at hopened agree claim
  have htotal := total_flood n
  rw [← hopened] at htotal
  cases ho : l.opened 1 with
  | none =>
      rw [ho] at htotal
      have : (0 : Nat) = n * (1024 * 1024) := htotal
      omega
  | some o =>
      rw [ho, Option.getD_some] at htotal
      rw [ho] at agree
      obtain ⟨e, he, holds⟩ := agree.of_opened
      have hclaim := claim e o he ho
      have hreceived := holds.received
      rw [hclaim, i64Max] at hreceived
      omega

end Assembler

end Payload

end Protocol
