import TarishDaemon.Protocol.FramingStream
import TarishDaemon.Quickshare.Mux

/-!
# What is written through the packets is what is read

A packet put on the wire is taken by the pump or still on its way (`Sound`).  What has
been queued, and what has been confirmed, are then the parts that the packets taken have
of the stream, and what has been written is cut into those parts.  Packets of the other
kinds have no part in it.

The one packet that matters besides is the notice that the peer disconnects: it ends the
stream where it stands.
-/

namespace Quickshare

open Rust Lts Protocol Protocol.Protobuf

namespace Mux

/-! ## Pieces -/

theorem chunksLoop_flatten {size : Nat} (hsize : 0 < size) {fuel : Nat} {data : Bytes}
    (hfuel : data.length ≤ fuel) : (chunksLoop size fuel data).flatten = data := by
  induction fuel generalizing data with
  | zero =>
      have hnil : data = [] := List.length_eq_zero_iff.mp (by omega)
      rw [hnil]
      rfl
  | succ fuel ih =>
      cases data with
      | nil => rfl
      | cons b data =>
          have hless : ((b :: data).drop size).length ≤ fuel := by
            rw [List.length_drop, List.length_cons]
            rw [List.length_cons] at hfuel
            omega
          rw [chunksLoop, List.flatten_cons, ih hless, List.take_append_drop]
          exact nofun

theorem chunks_flatten (data : Bytes) : (chunks data).flatten = data :=
  chunksLoop_flatten (by decide) (Nat.le_refl _)

theorem chunksLoop_length {size fuel : Nat} {data piece : Bytes}
    (h : piece ∈ chunksLoop size fuel data) : piece.length ≤ size := by
  induction fuel generalizing data with
  | zero => cases data <;> cases h
  | succ fuel ih =>
      cases data with
      | nil => cases h
      | cons b data =>
          rw [chunksLoop] at h
          · rcases List.mem_cons.mp h with rfl | h
            · rw [List.length_take]
              omega
            · exact ih h
          · exact nofun

/-! ## Packets -/

theorem streamPart_dataPacket (payload : Bytes) : streamPart (dataPacket payload) = payload := by
  have hservice : ofService (dataPacket payload) = true := by
    simp [ofService, dataPacket, serviceIdHash, serviceIdHashLen]
  rw [streamPart, if_pos hservice]
  rfl

theorem streamPart_other {packet : Bytes} (h : ofService packet = false) :
    streamPart packet = [] := by
  simp [streamPart, h]

/-- What an acknowledgement says on the other side. -/
def confirmedSize (ack : Bytes) : Nat :=
  (confirmed (ack.drop serviceIdHashLen)).getD 0

theorem confirmedSize_packetAcknowledgement {n : Nat} (hn : n < 2 ^ 64) :
    confirmedSize (packetAcknowledgement n) = n := by
  let ack : List Field := [.bytes ackServiceIdHash serviceIdHash, .varint ackReceivedSize n]
  let frame : List Field := [.varint scfType controlTypePacketAcknowledgement,
    .bytes scfPacketAcknowledgement (encode ack)]
  have hack := encode_length_le ack
  simp only [ack, List.foldr_cons, List.foldr_nil, Field.size, serviceIdHash, List.length_cons,
    List.length_nil] at hack
  have hackFits : ∀ f ∈ ack, f.Fits := by
    simp [ack, Field.Fits, ackServiceIdHash, ackReceivedSize, serviceIdHash]
    omega
  have hframeFits : ∀ f ∈ frame, f.Fits := by
    have hlen : (encode ack).length < 2 ^ 64 := by
      simp only [ack, serviceIdHash]
      omega
    simpa [frame, Field.Fits, scfType, controlTypePacketAcknowledgement,
      scfPacketAcknowledgement] using hlen
  have hdrop : (packetAcknowledgement n).drop serviceIdHashLen = encode frame := by
    have hframe : packetAcknowledgement n = controlPrefix ++ encode frame := by
      simp [packetAcknowledgement, frame, ack, Field.encode]
    rw [hframe]
    rfl
  have hbody : firstBytes (encode frame) scfPacketAcknowledgement = .ok (some (encode ack)) := by
    rw [firstBytes_encode frame hframeFits]
    simp [frame]
  have hsize : firstVarint (encode ack) ackReceivedSize = .ok (some n) := by
    rw [firstVarint_encode ack hackFits]
    simp [ack]
  simp only [confirmedSize, confirmed, hdrop, hbody, hsize]
  rfl

/-- An acknowledgement confirms what was queued. -/
theorem confirmed_answer {packet : Bytes} (hsmall : packet.length < 2 ^ 32) :
    ((answer packet).map confirmedSize).sum = (streamPart packet).length := by
  by_cases hservice : ofService packet = true
  · have hless : (streamPart packet).length < 2 ^ 64 := by
      rw [streamPart, if_pos hservice, List.length_drop]
      omega
    rw [answer, if_pos hservice, List.map_singleton, confirmedSize_packetAcknowledgement hless]
    exact List.sum_singleton
  · simp [answer, streamPart, hservice]

theorem confirmed_answers {packets : List Bytes}
    (hsmall : ∀ packet ∈ packets, packet.length < 2 ^ 32) :
    ((packets.flatMap answer).map confirmedSize).sum = (packets.flatMap streamPart).length := by
  induction packets with
  | nil => rfl
  | cons packet packets ih =>
      have hfirst := confirmed_answer (hsmall packet (by simp))
      have hrest := ih fun q hq => hsmall q (by simp [hq])
      rw [List.flatMap_cons, List.flatMap_cons, List.map_append, List.sum_append,
        List.length_append, hfirst, hrest]

/-! ## The loop -/

/-- A loop that has not ended takes one more packet. -/
theorem Pump.run_snoc (p : Pump) (packets : List Bytes) (packet : Bytes)
    (hopen : p.shared.closed = false) (hrun : (p.run packets).shared.closed = false) :
    p.run (packets ++ [packet]) = (p.run packets).packet packet := by
  induction packets generalizing p with
  | nil =>
      rw [List.nil_append, Pump.run, Pump.run]
      split
      · rfl
      · rfl
  | cons first packets ih =>
      rw [Pump.run] at hrun
      rw [List.cons_append, Pump.run, Pump.run]
      split at hrun
      next hclosed =>
        rw [hclosed] at hrun
        cases hrun
      next hstill =>
        rw [if_neg hstill, if_neg hstill]
        exact ih _ (Bool.eq_false_iff.mpr hstill) hrun

/-- **Without a disconnection notice the loop takes every packet.** -/
theorem Pump.run_open (p : Pump) {packets : List Bytes} (hopen : p.shared.closed = false)
    (hno : ∀ packet ∈ packets, disconnects packet = false) :
    (p.run packets).shared.inbox = p.shared.inbox ++ packets.flatMap streamPart ∧
      (p.run packets).acks = p.acks ++ packets.flatMap answer := by
  induction packets generalizing p with
  | nil => simp [Pump.run]
  | cons packet packets ih =>
      obtain ⟨hinbox, hacks, hclosed⟩ := p.packet_spec packet
      rw [hopen, hno packet (by simp), Bool.or_false] at hclosed
      obtain ⟨hinbox', hacks'⟩ := ih (p.packet packet) hclosed fun q hq => hno q (by simp [hq])
      rw [Pump.run]
      simp only [hclosed, Bool.false_eq_true, if_false]
      rw [hinbox', hacks', hinbox, hacks, List.flatMap_cons, List.flatMap_cons, List.append_assoc,
        List.append_assoc]
      exact ⟨rfl, rfl⟩

/-- Packets of the other kinds have no part in the stream and are not confirmed. -/
theorem flatMap_filter {f : Bytes → List α} (hother : ∀ packet, ofService packet = false →
    f packet = []) (packets : List Bytes) :
    (packets.filter ofService).flatMap f = packets.flatMap f := by
  induction packets with
  | nil => rfl
  | cons packet packets ih =>
      by_cases hservice : ofService packet = true
      · rw [List.filter_cons_of_pos hservice, List.flatMap_cons, List.flatMap_cons, ih]
      · rw [List.filter_cons_of_neg hservice, List.flatMap_cons, ih,
          hother packet (Bool.eq_false_iff.mpr hservice), List.nil_append]

/-- **They change neither the stream nor what is confirmed.** -/
theorem Pump.run_filter (p : Pump) {packets : List Bytes} (hopen : p.shared.closed = false)
    (hno : ∀ packet ∈ packets, disconnects packet = false) :
    (p.run packets).shared.inbox = (p.run (packets.filter ofService)).shared.inbox ∧
      (p.run packets).acks = (p.run (packets.filter ofService)).acks := by
  have hfew : ∀ packet ∈ packets.filter ofService, disconnects packet = false :=
    fun packet h => hno packet (List.mem_of_mem_filter h)
  have hfew := p.run_open hopen hfew
  have hall := p.run_open hopen hno
  rw [hfew.1, hfew.2, hall.1, hall.2, flatMap_filter (fun _ => streamPart_other),
    flatMap_filter fun packet h => by simp [answer, h]]
  exact ⟨rfl, rfl⟩

/-! ## Both sides -/

namespace Link

/-- What holds of the two sides and the bytes between them. -/
structure Sound (l : Link) : Prop where
  pieces : ∀ piece ∈ l.todo, piece.length ≤ maxPacketPayload
  small : ∀ packet ∈ l.put, packet.length < 2 ^ 32
  /-- Every packet has been taken or is on its way. -/
  flow : ∃ processed behind, l.put = processed ++ behind ∧
    l.decoder.buf ++ l.wire = behind.flatMap Framing.encode ∧
    l.received ++ l.pump.shared.inbox = processed.flatMap streamPart ∧
    l.pump.acks = processed.flatMap answer ∧
    (Pump.run {} processed).shared.inbox = processed.flatMap streamPart ∧
    (Pump.run {} processed).acks = processed.flatMap answer ∧
    ((Pump.run {} processed).shared.closed = true → l.pump.shared.closed = true)
  /-- What has been handed over is on the wire or still to be written. -/
  whole : ∃ dropped, l.put.flatMap streamPart ++ (l.todo.flatten ++ dropped) = l.handed ∧
    (l.failed = false → dropped = [])

/-- A packet that the pump takes is the next one on its way. -/
theorem next_packet {decoder d : Framing.Decoder} {wire packet : Bytes} {behind : List Bytes}
    (hsmall : ∀ packet ∈ behind, packet.length < 2 ^ 32)
    (hflight : decoder.buf ++ wire = behind.flatMap Framing.encode)
    (hnext : decoder.nextFrame = .ok (some packet, d)) :
    ∃ rest, behind = packet :: rest ∧ d.buf ++ wire = rest.flatMap Framing.encode := by
  have hmore := Framing.Decoder.stable.item wire hnext
  have hpush : decoder.push wire = ⟨behind.flatMap Framing.encode⟩ := by
    rw [← hflight]
    rfl
  rw [hpush] at hmore
  cases behind with
  | nil => cases hmore
  | cons first rest =>
      rw [List.flatMap_cons] at hmore
      by_cases hfits : first.length < Framing.maxFrame
      · rw [Framing.nextFrame_encode hfits] at hmore
        obtain ⟨hpacket, hrest⟩ := Prod.mk.inj (Except.ok.inj hmore)
        cases Option.some.inj hpacket
        exact ⟨rest, rfl, (congrArg Framing.Decoder.buf hrest).symm⟩
      · rw [Framing.nextFrame_oversize (Nat.not_lt.mp hfits) (hsmall first (by simp))] at hmore
        cases hmore

/-- One more packet is put on the wire. -/
theorem Sound.put {l : Link} (sound : l.Sound) {packet : Bytes} {todo : List Bytes} {sent : Nat}
    (hsmall : packet.length < 2 ^ 32) (hleft : todo ⊆ l.todo)
    (hpart : streamPart packet ++ todo.flatten = l.todo.flatten) :
    Sound { l with
      todo, sent, wire := l.wire ++ Framing.encode packet, put := l.put ++ [packet] } where
  pieces := fun piece hpiece => sound.pieces piece (hleft hpiece)
  small := by
    intro q hq
    rcases List.mem_append.mp hq with hq | hq
    · exact sound.small q hq
    · rw [List.mem_singleton.mp hq]
      exact hsmall
  flow := by
    obtain ⟨processed, behind, hput, hflight, hrest⟩ := sound.flow
    refine ⟨processed, behind ++ [packet], ?_, ?_, hrest⟩
    · rw [hput, List.append_assoc]
    · rw [← List.append_assoc, hflight, List.flatMap_append, List.flatMap_singleton]
  whole := by
    obtain ⟨dropped, hwhole, hnone⟩ := sound.whole
    refine ⟨dropped, ?_, hnone⟩
    rw [List.flatMap_append, List.flatMap_singleton, List.append_assoc,
      ← List.append_assoc _ _ dropped, hpart]
    exact hwhole

/-- One write of a packet of our own. -/
theorem Sound.piece {l : Link} (sound : l.Sound) {piece : Bytes} {todo : List Bytes}
    (htodo : l.todo = piece :: todo) :
    Sound { l with
      todo
      sent := l.sent + piece.length
      wire := l.wire ++ Framing.encode (dataPacket piece)
      put := l.put ++ [dataPacket piece] } := by
  refine sound.put ?_ ?_ ?_
  · have hpiece := sound.pieces piece (by simp [htodo])
    rw [dataPacket, List.length_append]
    unfold maxPacketPayload at hpiece
    unfold serviceIdHash
    simp only [List.length_cons, List.length_nil]
    omega
  · rw [htodo]
    exact List.subset_cons_self piece todo
  · rw [streamPart_dataPacket, htodo, List.flatten_cons]

/-- The pump ends. -/
theorem Sound.close {l : Link} (sound : l.Sound) : Sound { l with pump := l.pump.close } := by
  obtain ⟨processed, behind, hput, hflight, hqueued, hacked, hinbox, hacks, -⟩ := sound.flow
  exact ⟨sound.pieces, sound.small, ⟨processed, behind, hput, hflight, hqueued, hacked, hinbox,
    hacks, fun _ => rfl⟩, sound.whole⟩

/-- The pump takes its next packet. -/
theorem Sound.packet {l : Link} (sound : l.Sound) {packet : Bytes} {d : Framing.Decoder}
    (hopen : l.pump.shared.closed ≠ true) (hnext : l.decoder.nextFrame = .ok (some packet, d)) :
    Sound { l with decoder := d, pump := l.pump.packet packet } := by
  obtain ⟨processed, behind, hput, hflight, hqueued, hacked, hinbox, hacks, hclosed⟩ := sound.flow
  have hbehind : ∀ packet ∈ behind, packet.length < 2 ^ 32 := fun packet hq =>
    sound.small packet (hput ▸ List.mem_append_right _ hq)
  obtain ⟨rest, rfl, hflight'⟩ := next_packet hbehind hflight hnext
  obtain ⟨hinbox', hacks', -⟩ := l.pump.packet_spec packet
  have hstill : (Pump.run {} processed).shared.closed = false := by
    cases hc : (Pump.run {} processed).shared.closed with
    | false => rfl
    | true => exact absurd (hclosed hc) hopen
  have hsnoc := Pump.run_snoc {} processed packet rfl hstill
  obtain ⟨hrun, hrunAcks, hrunClosed⟩ := (Pump.run {} processed).packet_spec packet
  refine ⟨sound.pieces, sound.small,
    ⟨processed ++ [packet], rest, ?_, hflight', ?_, ?_, ?_, ?_, ?_⟩, sound.whole⟩
  · rw [hput, List.append_assoc]
    rfl
  · rw [hinbox', ← List.append_assoc, hqueued, List.flatMap_append, List.flatMap_singleton]
  · rw [hacks', hacked, List.flatMap_append, List.flatMap_singleton]
  · rw [hsnoc, hrun, hinbox, List.flatMap_append, List.flatMap_singleton]
  · rw [hsnoc, hrunAcks, hacks, List.flatMap_append, List.flatMap_singleton]
  · rw [hsnoc, hrunClosed, hstill, Bool.false_or]
    intro hd
    rw [(l.pump.packet_spec packet).2.2, hd, Bool.or_true]

/-- A read takes from the front of what is queued. -/
theorem read_keeps {st st' : Shared} {n : Nat} {out : Bytes} (h : st.read n = some (out, st')) :
    out ++ st'.inbox = st.inbox ∧ st'.closed = st.closed := by
  unfold Shared.read at h
  split at h
  · cases h
    exact ⟨List.take_append_drop _ _, rfl⟩
  · split at h
    · cases h
      exact ⟨rfl, rfl⟩
    · cases h

theorem Sound.read {l : Link} (sound : l.Sound) {n : Nat} {out : Bytes} {st : Shared}
    (hread : l.pump.shared.read n = some (out, st)) :
    Sound { l with received := l.received ++ out, pump := { l.pump with shared := st } } := by
  obtain ⟨hinboxes, hsame⟩ := read_keeps hread
  obtain ⟨processed, behind, hput, hflight, hqueued, hacked, hinbox, hacks, hclosed⟩ := sound.flow
  refine ⟨sound.pieces, sound.small,
    ⟨processed, behind, hput, hflight, ?_, hacked, hinbox, hacks, ?_⟩, sound.whole⟩
  · rw [List.append_assoc, hinboxes, hqueued]
  · intro hc
    rw [← hclosed hc]
    exact hsame

/-- **One step**, by the kinds of action. -/
theorem Sound.step {l l' : Link} {a : Action} (sound : l.Sound) (h : l.step a = some l') :
    l'.Sound := by
  cases a with
  | write data =>
      rw [Link.step] at h
      split at h
      · cases h
      next hidle =>
        cases h
        simp only [not_or, not_not] at hidle
        obtain ⟨dropped, hwhole, hnone⟩ := sound.whole
        refine ⟨fun piece => chunksLoop_length, sound.small, sound.flow, [], ?_, fun _ => rfl⟩
        rw [hidle.2, hnone (Bool.eq_false_iff.mpr hidle.1)] at hwhole
        simpa [chunks_flatten] using hwhole
  | piece =>
      rw [Link.step] at h
      split at h
      · cases h
      next piece todo htodo =>
        split at h
        next hroom =>
          cases h
          exact sound.piece htodo
        · cases h
  | timeout =>
      rw [Link.step] at h
      split at h
      · cases h
      next hwaits =>
        cases h
        obtain ⟨dropped, hwhole, -⟩ := sound.whole
        exact ⟨nofun, sound.small, sound.flow, l.todo.flatten ++ dropped, by simpa using hwhole,
          fun hfailed => by cases hfailed⟩
  | other packet =>
      rw [Link.step] at h
      split at h
      · cases h
      next hother =>
        cases h
        simp only [not_or, Bool.not_eq_true, not_le, ge_iff_le] at hother
        refine sound.put hother.2 (List.Subset.refl _) ?_
        rw [streamPart_other hother.1, List.nil_append]
  | back packet =>
      cases h
      exact ⟨sound.pieces, sound.small, sound.flow, sound.whole⟩
  | backEnds =>
      cases h
      exact ⟨sound.pieces, sound.small, sound.flow, sound.whole⟩
  | arrive n =>
      rw [Link.step] at h
      split at h
      · cases h
      · cases h
        obtain ⟨processed, behind, hput, hflight, hrest⟩ := sound.flow
        refine ⟨sound.pieces, sound.small, ⟨processed, behind, hput, ?_, hrest⟩, sound.whole⟩
        rw [← hflight, Framing.Decoder.push, List.append_assoc, List.take_append_drop]
  | packet =>
      rw [Link.step] at h
      split at h
      · cases h
      next hopen =>
        split at h
        · cases h
          exact sound.close
        · cases h
        next packet d hnext =>
          cases h
          exact sound.packet hopen hnext
  | ends =>
      rw [Link.step] at h
      split at h
      · cases h
      · cases h
        exact sound.close
  | read n =>
      rw [Link.step] at h
      obtain ⟨⟨out, st⟩, hread, rfl⟩ := Option.map_eq_some_iff.mp h
      exact sound.read hread

theorem sound_start : Sound {} where
  pieces := nofun
  small := nofun
  flow := ⟨[], [], rfl, rfl, rfl, rfl, rfl, rfl, nofun⟩
  whole := ⟨[], rfl, fun _ => rfl⟩

/-- A call of `read` that returns; one that waits changes nothing. -/
def readOn (l : Link) (n : Nat) : Link :=
  (l.step (.read n)).getD l

/-- **Buffers with room for what is queued take all of it**, however it is divided up. -/
theorem reads_all (sizes : List Nat) {l : Link}
    (hroom : l.pump.shared.inbox.length ≤ sizes.sum) :
    (sizes.foldl readOn l).received = l.received ++ l.pump.shared.inbox := by
  induction sizes generalizing l with
  | nil =>
      have hnil : l.pump.shared.inbox = [] := List.length_eq_zero_iff.mp (by simpa using hroom)
      simp [hnil]
  | cons n sizes ih =>
      rw [List.sum_cons] at hroom
      have hread : (readOn l n).received ++ (readOn l n).pump.shared.inbox =
            l.received ++ l.pump.shared.inbox ∧
          (readOn l n).pump.shared.inbox.length ≤ sizes.sum := by
        by_cases hempty : l.pump.shared.inbox = []
        · by_cases hclosed : l.pump.shared.closed = true
          · simp [readOn, step, Shared.read, hempty, hclosed]
          · simp [readOn, step, Shared.read, hempty, hclosed]
        · simp only [readOn, step, Shared.read, hempty, ne_eq, not_false_eq_true, if_true,
            Option.map_some, Option.getD_some]
          refine ⟨?_, ?_⟩
          · rw [List.append_assoc, List.take_append_drop]
          · rw [List.length_drop]
            omega
      rw [List.foldl_cons, ih hread.2, hread.1]

end Link

/-- **Stream fidelity.**  However the writes are cut, whatever else is on the wire
between the pieces, and however the threads take turns: what has been read begins what
has been written, and is all of it, for buffers of any sizes, once every packet has been
taken; what the acknowledgements confirm is what was queued; and both are what the pump
makes of the packets it has taken.  As long as none of these is a disconnection notice,
that is what it makes of the packets of this service alone. -/
theorem stream_fidelity (acts : List Action) (s : Link)
    (run : Run (ofPartial Link.step) {} acts s) :
    s.received <+: s.handed ∧
    (s.Processed → s.received ++ s.pump.shared.inbox = s.handed ∧
      ∀ sizes : List Nat, s.pump.shared.inbox.length ≤ sizes.sum →
        (sizes.foldl Link.readOn s).received = s.handed) ∧
    (s.pump.acks.map confirmedSize).sum = (s.received ++ s.pump.shared.inbox).length ∧
    ∃ taken behind, s.put = taken ++ behind ∧
      s.received ++ s.pump.shared.inbox = (Pump.run {} taken).shared.inbox ∧
      s.pump.acks = (Pump.run {} taken).acks ∧
      ((∀ packet ∈ taken, disconnects packet = false) →
        (Pump.run {} taken).shared.inbox =
          (Pump.run {} (taken.filter ofService)).shared.inbox ∧
        (Pump.run {} taken).acks = (Pump.run {} (taken.filter ofService)).acks) := by
  have sound : s.Sound :=
    run.invariant Link.Sound Link.sound_start fun _ _ _ sound h => sound.step h
  obtain ⟨taken, behind, hput, hflight, hqueued, hacked, hinbox, hacks, -⟩ := sound.flow
  obtain ⟨dropped, hwhole, hnone⟩ := sound.whole
  rw [hput, List.flatMap_append, ← hqueued] at hwhole
  have hall : s.Processed → s.received ++ s.pump.shared.inbox = s.handed := by
    rintro ⟨htodo, hfailed, hwire, hbuf⟩
    have hnil : behind = [] := by
      cases behind with
      | nil => rfl
      | cons packet rest =>
          rw [hwire, hbuf, List.append_nil, List.flatMap_cons] at hflight
          have hlen := congrArg List.length hflight
          rw [List.length_append, Framing.encode_length, List.length_nil] at hlen
          unfold Framing.lengthPrefix at hlen
          omega
    rw [hnil, htodo, hnone hfailed] at hwhole
    simpa using hwhole
  refine ⟨?_, fun h => ⟨hall h, fun sizes hroom => ?_⟩, ?_, taken, behind, hput, ?_, ?_, ?_⟩
  · rw [← hwhole, List.append_assoc, List.append_assoc]
    exact List.prefix_append _ _
  · rw [Link.reads_all sizes hroom, hall h]
  · rw [hacked, hqueued]
    exact confirmed_answers fun packet h => sound.small packet (hput ▸ List.mem_append_left _ h)
  · rw [hqueued, hinbox]
  · rw [hacked, hacks]
  · exact fun hno => Pump.run_filter {} rfl hno

/-- Three bytes between an acknowledgement and a packet of another service, in two
arrivals, read in two pieces. -/
def threeBytes : List Action :=
  [.write [7, 8, 9], .other (packetAcknowledgement 5), .piece, .other [1, 2, 3, 4], .arrive 9,
    .arrive 40, .packet, .packet, .packet, .read 2, .read 2]

theorem three_bytes_read :
    ∃ s, Run (ofPartial Link.step) {} threeBytes s ∧ s.received = [7, 8, 9] ∧
      s.received <+: s.handed ∧
      (s.pump.acks.map confirmedSize).sum = (s.received ++ s.pump.shared.inbox).length := by
  have hview : (threeBytes.foldlM Link.step {}).map Link.received = some [7, 8, 9] := by
    decide +kernel
  obtain ⟨s, run, hreceived⟩ := run_observe Link.step Link.received hview
  obtain ⟨hreads, -, hacks, -⟩ := stream_fidelity _ s run
  exact ⟨s, run, hreceived, hreads, hacks⟩

/-- A control packet of any kind leaves the stream as it is. -/
def ControlIsNoPart : Prop :=
  ∀ packets : List Bytes,
    (Pump.run {} packets).shared.inbox = (Pump.run {} (packets.filter ofService)).shared.inbox

/-- Behind a disconnection notice nothing is queued any more. -/
theorem disconnection_ends_stream : ¬ ControlIsNoPart := by
  intro h
  have hnotice := h [controlPrefix ++ varint scfType controlTypeDisconnection, dataPacket [7]]
  revert hnotice
  decide +kernel

end Mux

end Quickshare
