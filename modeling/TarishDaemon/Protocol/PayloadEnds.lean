import TarishDaemon.Protocol.PayloadStreams

/-!
# How a payload ends

A payload leaves the table when its last chunk is taken, when the peer takes it
back, and when a chunk of it is refused.

A refused chunk releases its payload (`released_iff`), unless it is refused for a
negative number: that check comes before the payload is looked up, and what is in
flight stays there.

The last chunk is the one that says so.  It may not go past the declared size, but
nothing asks it to reach it, so a payload is complete where its sender stops
(`completed_whole_iff`).
-/

namespace Protocol

open Rust Frames

namespace Payload

namespace Assembler

theorem track_eq_none {a : Assembler} {id : Int} : a.track id = none ↔ id ∉ a.inFlight :=
  AList.lookup_eq_none

/-! ## Refused chunks -/

/-- The payload is gone, the others are as they were, and the next chunk under the id
starts a new one. -/
structure Released (a a' : Assembler) (id : Int) : Prop where
  gone : id ∉ a'.inFlight
  others : ∀ j, j ≠ id → a'.track j = a.track j
  fresh : ∀ header : PayloadHeader, header.id = id → a'.entry header = { header := header }

theorem released_of_track {a a' : Assembler} {id : Int} {s : Option InFlight}
    (htrack : a'.track = Function.update a.track id s) : Released a a' id ↔ s = none := by
  have hself : a'.track id = s := by
    rw [htrack, Function.update_self]
  constructor
  · intro released
    rw [← hself]
    exact track_eq_none.mpr released.gone
  · intro hnone
    rw [hnone] at hself
    refine ⟨track_eq_none.mp hself, ?_, ?_⟩
    · intro j hj
      rw [htrack, Function.update_of_ne hj]
    · intro header hid
      change (a'.track header.id).getD { header := header } = _
      rw [hid, hself, Option.getD_none]

/-- A chunk with a negative offset, or under a header with a negative size. -/
def Negative (pt : PayloadTransfer) : Prop :=
  ∃ chunk, pt.chunk = some chunk ∧ (chunk.offset < 0 ∨ pt.header.totalSize < 0)

/-- What a refused frame leaves of its payload. -/
theorem streamChunk_refused {s : Option InFlight} {header : PayloadHeader} {chunk : PayloadChunk}
    {e : Error} (refused : (streamChunk s header chunk).2 = .error e) :
    (streamChunk s header chunk).1 =
      if chunk.offset < 0 ∨ header.totalSize < 0 then s else none := by
  unfold streamChunk at refused ⊢
  by_cases negative : chunk.offset < 0 ∨ header.totalSize < 0
  · simp only [if_pos negative]
  simp only [if_neg negative] at refused ⊢
  generalize s.getD { header := header } = entry at refused ⊢
  by_cases offset : chunk.offset ≠ entry.received
  · simp only [if_pos offset]
  simp only [if_neg offset] at refused ⊢
  by_cases overrun : 0 < entry.header.totalSize ∧ entry.header.totalSize <
      saturatingAdd entry.received chunk.body.length
  · simp only [if_pos overrun]
  simp only [if_neg overrun] at refused ⊢
  by_cases large : entry.header.payloadType = .bytes ∧
      maxBytesPayload < (saturatingAdd entry.received chunk.body.length).toNat
  · simp only [if_pos large]
  -- past the last check nothing is refused
  simp only [if_neg large] at refused
  by_cases isBytes : entry.header.payloadType = .bytes
  · rw [if_pos isBytes] at refused
    cases hlast : chunk.isLast with
    | true => simp [hlast] at refused
    | false => simp [hlast] at refused
  · rw [if_neg isBytes] at refused
    cases refused

theorem stream_refused {s : Option InFlight} {pt : PayloadTransfer} {e : Error}
    (refused : (stream s pt).2 = .error e) :
    (Negative pt → (stream s pt).1 = s) ∧ (¬ Negative pt → (stream s pt).1 = none) := by
  unfold stream at refused ⊢
  cases hkind : pt.packetType with
  | control =>
      simp only [hkind] at refused
      cases refused
  | unknown =>
      simp only [hkind] at refused
      cases refused
  | payloadAck =>
      simp only [hkind] at refused
      cases refused
  | data =>
      cases hchunk : pt.chunk with
      | none =>
          simp only [hkind, hchunk] at refused
          cases refused
      | some chunk =>
          simp only [hkind, hchunk] at refused ⊢
          have hleft := streamChunk_refused refused
          have hnegative : Negative pt ↔ chunk.offset < 0 ∨ pt.header.totalSize < 0 := by
            rw [Negative, hchunk]
            simp
          rw [hnegative]
          constructor
          · intro negative
            rw [hleft, if_pos negative]
          · intro negative
            rw [hleft, if_neg negative]

/-- **Refused chunks.**  The payload is released exactly when it was not in flight, or
the chunk was not refused for a negative number. -/
theorem released_iff {a : Assembler} {pt : PayloadTransfer} {e : Error}
    (refused : (a.accept pt).2 = .error e) :
    Released a (a.accept pt).1 pt.header.id ↔
      ¬ (Negative pt ∧ pt.header.id ∈ a.inFlight) := by
  cases hcrowd : crowded (a.accept pt).2 with
  | true =>
      -- the table is full, so nothing is in flight under the id
      obtain ⟨hsame, -⟩ := accept_crowded hcrowd
      have habsent : pt.header.id ∉ a.inFlight := by
        intro mem
        rw [accept_fine (fun full => full.1 mem)] at hcrowd
        cases hcrowd
      rw [hsame, released_of_track (Function.update_eq_self _ _).symm]
      constructor
      · intro _ kept
        exact habsent kept.2
      · intro _
        exact track_eq_none.mpr habsent
  | false =>
      obtain ⟨hreply, htrack⟩ := accept_stream hcrowd
      rw [released_of_track htrack]
      rw [hreply] at refused
      obtain ⟨hkept, hgone⟩ := stream_refused refused
      constructor
      · intro hnone kept
        rw [hkept kept.1] at hnone
        exact track_eq_none.mp hnone kept.2
      · intro free
        by_cases negative : Negative pt
        · rw [hkept negative]
          exact track_eq_none.mpr (fun mem => free ⟨negative, mem⟩)
        · exact hgone negative

/-- The chunk of a file under id 11: 100 bytes were declared. -/
def ofEleven (offset : Int) : PayloadTransfer :=
  { packetType := .data
    header := { id := 11, payloadType := .file, totalSize := 100, fileName := [] }
    chunk := some { offset := offset, flags := 0, body := [97, 98, 99] }, control := none }

theorem released_iff_wrongOffset :
    Released (Ledger.after [.accept (ofEleven 0)]).assembler
      ((Ledger.after [.accept (ofEleven 0)]).assembler.accept (ofEleven 99)).1 11 := by
  have refused : ((Ledger.after [.accept (ofEleven 0)]).assembler.accept (ofEleven 99)).2 =
      .error (.offset 11 3 99) := by
    decide
  apply (released_iff refused).mpr
  intro kept
  obtain ⟨chunk, hchunk, negative⟩ := kept.1
  cases hchunk
  simp [ofEleven] at negative

/-- A negative offset is refused, and the file stays in flight. -/
theorem not_released_of_negative :
    ¬ ∀ calls pt e, ((Ledger.after calls).assembler.accept pt).2 = .error e →
      Released (Ledger.after calls).assembler ((Ledger.after calls).assembler.accept pt).1
        pt.header.id := by
  intro claim
  have released := claim [.accept (ofEleven 0)] (ofEleven (-1)) (.negative 11) (by decide)
  have kept : (11 : Int) ∈
      ((Ledger.after [.accept (ofEleven 0)]).assembler.accept (ofEleven (-1))).1.inFlight := by
    decide
  exact released.gone kept

/-! ## Last chunks -/

/-- The size the payload of a frame was opened with, or is opened with by this one. -/
def declared (l : Ledger) (pt : PayloadTransfer) : Int :=
  ((l.opened pt.header.id).getD { header := pt.header }).header.totalSize

/-- The bytes delivered of the payload before this frame. -/
def soFar (l : Ledger) (pt : PayloadTransfer) : Nat :=
  ((l.opened pt.header.id).getD { header := pt.header }).total

/-- How many bytes were delivered of a payload that this reply completes. -/
def completed (l : Ledger) (pt : PayloadTransfer) : Except Error Event → Option Nat
  | .ok (.bytes _ data) => some data.length
  | .ok (.fileChunk _ _ data true _) => some (soFar l pt + data.length)
  | _ => none

/-- Where this frame completes a payload of declared size, all of it was delivered. -/
def Whole (l : Ledger) (pt : PayloadTransfer) : Prop :=
  ∀ n, completed l pt (l.assembler.accept pt).2 = some n → 0 < declared l pt → n = declared l pt

/-- A chunk that carries the flag of the last one, starts where the bytes so far end, and
keeps within the limits. -/
structure Ending (l : Ledger) (pt : PayloadTransfer) (chunk : PayloadChunk) : Prop where
  data : pt.packetType = .data
  carries : pt.chunk = some chunk
  last : chunk.isLast = true
  room : l.assembler.HasRoom pt.header.id
  size : 0 ≤ pt.header.totalSize
  nonneg : 0 ≤ chunk.offset
  offset : chunk.offset = min (soFar l pt : Int) i64Max
  within : 0 < declared l pt → min ((soFar l pt + chunk.body.length : Nat) : Int) i64Max ≤
    declared l pt
  small : ((l.opened pt.header.id).getD { header := pt.header }).header.payloadType = .bytes →
    min ((soFar l pt + chunk.body.length : Nat) : Int) i64Max ≤ maxBytesPayload

/-- The peer ends a payload of declared size elsewhere. -/
def CutShort (l : Ledger) (pt : PayloadTransfer) : Prop :=
  ∃ chunk, Ending l pt chunk ∧ 0 < declared l pt ∧
    ((soFar l pt + chunk.body.length : Nat) : Int) ≠ declared l pt

/-- As long as the bytes can be counted, that is before the size is reached. -/
theorem CutShort.lt {l : Ledger} {pt : PayloadTransfer} (short : CutShort l pt) :
    ∃ chunk, pt.chunk = some chunk ∧ chunk.isLast = true ∧
      (((soFar l pt + chunk.body.length : Nat) : Int) < declared l pt ∨
        i64Max < ((soFar l pt + chunk.body.length : Nat) : Int)) := by
  obtain ⟨chunk, ending, hpos, hne⟩ := short
  have within := ending.within hpos
  refine ⟨chunk, ending.carries, ending.last, ?_⟩
  omega

section Sound

variable {l : Ledger} {pt : PayloadTransfer} {chunk : PayloadChunk} {n : Nat}

/-- The entry of a frame is what was seen of its payload. -/
theorem Ledger.Sound.holds (sound : l.Sound) (size : 0 ≤ pt.header.totalSize) :
    Holds (l.assembler.entry pt.header)
      ((l.opened pt.header.id).getD { header := pt.header }) :=
  (sound.agree pt.header.id).getD pt.header size

/-- What the bytes come to with this chunk, as they are counted. -/
theorem Ledger.Sound.counted (sound : l.Sound) (size : 0 ≤ pt.header.totalSize)
    (chunk : PayloadChunk) :
    saturatingAdd (l.assembler.entry pt.header).received chunk.body.length =
      min ((soFar l pt + chunk.body.length : Nat) : Int) i64Max := by
  rw [(sound.holds size).received, saturatingAdd_min]
  rfl

/-- A last chunk that is taken completes the payload. -/
theorem Ending.completed (sound : l.Sound) (ending : Ending l pt chunk) :
    completed l pt (l.assembler.accept pt).2 = some (soFar l pt + chunk.body.length) := by
  have holds := sound.holds ending.size
  have counted := sound.counted ending.size chunk
  have hoffset : chunk.offset = (l.assembler.entry pt.header).received := by
    rw [ending.offset, holds.received]
    rfl
  have hwithin : 0 < (l.assembler.entry pt.header).header.totalSize →
      saturatingAdd (l.assembler.entry pt.header).received chunk.body.length ≤
        (l.assembler.entry pt.header).header.totalSize := by
    rw [counted, holds.header]
    exact ending.within
  have haccept : l.assembler.accept pt = l.assembler.acceptChunk pt.header chunk := by
    unfold accept
    simp only [ending.data, ending.carries]
  rw [haccept]
  by_cases isBytes : (l.assembler.entry pt.header).header.payloadType = .bytes
  · have hlimit : (saturatingAdd (l.assembler.entry pt.header).received
        chunk.body.length).toNat ≤ maxBytesPayload := by
      have hsmall := ending.small (holds.header ▸ isBytes)
      rw [counted]
      omega
    have hbuffer := (holds.bytes (holds.header ▸ isBytes)).1
    rw [acceptChunk_bytes pt.header chunk ending.room ending.size isBytes hoffset ending.nonneg
      hwithin hlimit, if_pos ending.last, hbuffer]
    simp [Assembler.completed, soFar, Opened.total, List.length_flatten]
  · rw [acceptChunk_file ending.room ending.size ⟨isBytes, hoffset, ending.nonneg, hwithin⟩,
      ending.last]
    rfl

/-- A payload is completed by a last chunk that is taken. -/
theorem ending_of_completed (sound : l.Sound)
    (h : completed l pt (l.assembler.accept pt).2 = some n) : ∃ chunk, Ending l pt chunk := by
  unfold accept at h
  cases hkind : pt.packetType with
  | control =>
      simp only [hkind] at h
      split at h
      · cases h
      · cases h
  | unknown =>
      simp only [hkind] at h
      cases h
  | payloadAck =>
      simp only [hkind] at h
      cases h
  | data =>
  cases hchunk : pt.chunk with
  | none =>
      simp only [hkind, hchunk] at h
      cases h
  | some chunk =>
  simp only [hkind, hchunk] at h
  by_cases negative : chunk.offset < 0 ∨ pt.header.totalSize < 0
  · unfold acceptChunk at h
    rw [if_pos negative] at h
    cases h
  have size : 0 ≤ pt.header.totalSize := by omega
  have holds := sound.holds size
  have counted := sound.counted size chunk
  by_cases full : pt.header.id ∉ l.assembler.inFlight ∧
      maxInFlight ≤ l.assembler.inFlight.keys.length
  · unfold acceptChunk at h
    rw [if_neg negative, if_pos full] at h
    cases h
  by_cases offset : chunk.offset = (l.assembler.entry pt.header).received
  swap
  · unfold acceptChunk at h
    simp only [if_neg negative, if_neg full, if_pos (show chunk.offset ≠ _ from offset)] at h
    cases h
  by_cases overrun : 0 < (l.assembler.entry pt.header).header.totalSize ∧
      (l.assembler.entry pt.header).header.totalSize <
        saturatingAdd (l.assembler.entry pt.header).received chunk.body.length
  · unfold acceptChunk at h
    simp only [if_neg negative, if_neg full, if_neg (not_not_intro offset), if_pos overrun] at h
    cases h
  have within : 0 < (l.assembler.entry pt.header).header.totalSize →
      saturatingAdd (l.assembler.entry pt.header).received chunk.body.length ≤
        (l.assembler.entry pt.header).header.totalSize := by
    intro hpos
    by_contra hlt
    exact overrun ⟨hpos, by omega⟩
  rw [acceptChunk_fitting (hasRoom_iff.mpr full) size offset (by omega) within] at h
  by_cases large : (l.assembler.entry pt.header).header.payloadType = .bytes ∧
      maxBytesPayload <
        (saturatingAdd (l.assembler.entry pt.header).received chunk.body.length).toNat
  · simp only [if_pos large] at h
    cases h
  have hlast : chunk.isLast = true := by
    cases hlast : chunk.isLast with
    | true => rfl
    | false =>
        simp only [if_neg large, hlast, Bool.false_eq_true, if_false] at h
        split at h
        · cases h
        · cases h
  refine ⟨chunk, hkind, hchunk, hlast, hasRoom_iff.mpr full, size, by omega, ?_, ?_, ?_⟩
  · rw [offset, holds.received]
    rfl
  · rw [← counted]
    rw [holds.header] at within
    exact within
  · intro isBytes
    rw [← counted]
    by_contra hlt
    exact large ⟨holds.header ▸ isBytes, by omega⟩

/-- **One frame.** -/
theorem whole_iff (sound : l.Sound) : Whole l pt ↔ ¬ CutShort l pt := by
  constructor
  · intro whole short
    obtain ⟨chunk, ending, hpos, hne⟩ := short
    exact hne (whole _ (ending.completed sound) hpos)
  · intro reached n hn hpos
    obtain ⟨chunk, ending⟩ := ending_of_completed sound hn
    rw [ending.completed sound] at hn
    cases hn
    by_contra hne
    exact reached ⟨chunk, ending, hpos, hne⟩

end Sound

/-- Of each frame that is fed, with the table as it then is. -/
def EachFrame (calls : List Call) (p : Ledger → PayloadTransfer → Prop) : Prop :=
  ∀ before pt, before ++ [.accept pt] <+: calls → p (Ledger.after before) pt

/-- **Completed payloads.**  They are complete exactly when the peer never ends one short
of, or past, the size it declared. -/
theorem completed_whole_iff (calls : List Call) :
    EachFrame calls Whole ↔ EachFrame calls (fun l pt => ¬ CutShort l pt) := by
  constructor
  · intro whole before pt hfed
    exact (whole_iff (Ledger.sound_after before)).mp (whole before pt hfed)
  · intro reached before pt hfed
    exact (whole_iff (Ledger.sound_after before)).mpr (reached before pt hfed)

/-- Three bytes of a file of ten, and no more to come. -/
def threeOfTen : PayloadTransfer :=
  { packetType := .data
    header := { id := 1, payloadType := .file, totalSize := 10, fileName := [] }
    chunk := some { offset := 0, flags := 1, body := [97, 98, 99] }, control := none }

theorem not_whole_threeOfTen : ¬ ∀ calls, EachFrame calls Whole := by
  intro claim
  have whole := claim [.accept threeOfTen] [] threeOfTen (List.prefix_refl _) 3 (by decide)
  exact absurd (whole (by decide)) (by decide)

end Assembler

end Payload

end Protocol
