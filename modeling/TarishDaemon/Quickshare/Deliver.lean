import TarishDaemon.Protocol.ChannelTalk
import TarishDaemon.Protocol.FramesWire
import TarishDaemon.Protocol.Framing
import TarishDaemon.Quickshare.Send

/-!
# From a file to its chunks at the other end

`send_one` reads a file, cuts it into chunks of half a megabyte and closes it with a
terminator; `wrap_bytes` does the same for a sharing frame.  Every chunk becomes a
frame, is sealed, gets its length in front and goes on the wire.  At the other end
the stream is put together again however it was cut, opened, parsed and handed to
the assembler.

`Line` is the wire with the sender's end of the channel, `Receiver` the other end.
What the world decides is an argument: how much a read gives, where random bytes
come from, whether a write succeeds, whether somebody cancels.

A frame of 5 MiB and more is refused by the decoder, and every chunk of a file
carries the file's name: `long_name_refused`.  `delivered` is the rest: with names
that leave a chunk its room everything arrives, each file whole and in order, and each
sharing frame once.
-/

namespace Quickshare

namespace Deliver

open Protocol Rust Frames Payload

/-- A file being read: what is left of it, and how much each read will give at most.
A read that fails is `none`; past the list a read gives what it is asked for. -/
structure Reader where
  left : Bytes
  answers : List (Option Nat) := []
  deriving DecidableEq, Repr

namespace Reader

/-- `read` into a buffer with room.  Nothing is given at the end of the file only. -/
def read (r : Reader) (room : Nat) : Option (Bytes × Reader) :=
  match r.answers with
  | [] => some (r.left.take room, { r with left := r.left.drop room })
  | none :: _ => none
  | some n :: rest =>
      let n := min room (max 1 n)
      some (r.left.take n, { left := r.left.drop n, answers := rest })

/-- The loop that fills the buffer; a read gives a byte at least, or is the last. -/
def fillLoop : Nat → Nat → Reader → Option (Bytes × Reader)
  | 0, _, r => some ([], r)
  | fuel + 1, room, r =>
      if room = 0 then some ([], r)
      else
        match r.read room with
        | none => none
        | some ([], r) => some ([], r)
        | some (b :: piece, r) =>
            (fillLoop fuel (room - (piece.length + 1)) r).map fun (more, r) =>
              (b :: piece ++ more, r)

def fill (r : Reader) (room : Nat) : Option (Bytes × Reader) :=
  fillLoop room room r

end Reader

/-- The world's answers to whoever writes frames, frame by frame. -/
structure World where
  iv : Nat → Option Bytes
  writes : Nat → Bool

/-- The wire, and the sender's end of the channel. -/
structure Line where
  channel : SecureChannel
  /-- Frames sealed so far. -/
  frames : Nat := 0
  wire : Bytes := []

variable (c : Crypto) (w : World)

/-- `write_frame(out, &channel.encrypt(plain)?)`. -/
def Line.write (l : Line) (plain : Bytes) : Except SendError Line :=
  match l.channel.encrypt c (w.iv l.frames) plain with
  | (.error _, _) => .error .transport
  | (.ok sealed, ch) =>
      if w.writes l.frames then
        .ok { channel := ch, frames := l.frames + 1, wire := l.wire ++ Framing.encode sealed }
      else .error .transport

/-- The header on every chunk of a file. -/
def fileHeader (f : OutFile) (id : Int) : PayloadHeader :=
  { id := id, payloadType := .file, totalSize := f.size, fileName := f.name }

/-- The loop of `send_one`: how far it got, or `none` where somebody cancelled.  A
round that does not fill the buffer is the last, so the file bounds the rounds. -/
def chunkLoop (header : PayloadHeader) (cancelled : Nat → Bool) :
    Nat → Nat → Line → Int → Reader → Except SendError (Line × Option Int)
  | 0, _, l, _, _ => .ok (l, none)
  | fuel + 1, round, l, offset, r =>
      if cancelled round then .ok (l, none)
      else
        match r.fill chunk with
        | none => .error .file
        | some (body, r) => do
            let l ← if body ≠ [] then
              l.write c w (payloadData header { flags := 0, offset := offset, body := body })
            else .ok l
            let offset := offset + body.length
            if body.length < chunk then .ok (l, some offset)
            else chunkLoop header cancelled fuel (round + 1) l offset r

/-- `send_one`; `false` is a send that was cancelled part-way. -/
def sendOne (l : Line) (f : OutFile) (id : Int) (r : Reader) (cancelled : Nat → Bool) :
    Except SendError (Line × Bool) := do
  let (l, reached) ← chunkLoop c w (fileHeader f id) cancelled (r.left.length + 1) 0 l 0 r
  match reached with
  | none => return (l, false)
  | some offset =>
      let l ← l.write c w
        (payloadData (fileHeader f id) { flags := flagLastChunk, offset := offset })
      return (l, true)

/-- What a sender puts on the wire, one after the other: a file, or a sharing frame
wrapped with the counter as it stands. -/
inductive Item
  | file (f : OutFile) (id : Int) (r : Reader) (cancelled : Nat → Bool)
  | frame (nextId : Int) (frame : Bytes)

def sendItem (l : Line) : Item → Except SendError (Line × Bool)
  | .file f id r cancelled => sendOne c w l f id r cancelled
  | .frame nextId frame => do
      let l ← (wrapBytes nextId frame).2.foldlM (Line.write c w) l
      return (l, true)

def sendAll : List Item → Line → Except SendError (Line × Bool)
  | [], l => .ok (l, true)
  | item :: items, l => do
      let (l, ok) ← sendItem c w l item
      if ok then sendAll items l else return (l, false)

/-! ## The other end -/

inductive RecvError
  | framing (e : Framing.Error)
  | channel (e : SecureChannel.Error)
  | frame (e : Frames.Error)
  | payload (e : Payload.Error)
  deriving DecidableEq, Repr

structure Receiver where
  channel : SecureChannel
  assembler : Assembler := {}
  events : List Payload.Event := []

/-- One frame off the wire: open it, parse it, and hand a payload on. -/
def Receiver.handle (r : Receiver) (wire : Bytes) : Except RecvError Receiver :=
  match r.channel.decrypt c wire with
  | (.error e, _) => .error (.channel e)
  | (.ok plain, ch) =>
      match Frames.parse plain with
      | .error e => .error (.frame e)
      | .ok (.payloadTransfer pt) =>
          match r.assembler.accept pt with
          | (_, .error e) => .error (.payload e)
          | (assembler, .ok event) =>
              .ok { channel := ch, assembler := assembler, events := r.events ++ [event] }
      | .ok _ => .ok { r with channel := ch }

/-- Everything that arrives, in the pieces it arrives in. -/
def Receiver.receive (r : Receiver) (pieces : List Bytes) : Except RecvError Receiver :=
  (Framing.feed .framing (Receiver.handle c) pieces {} r).map Prod.snd

/-! ## What arrived -/

/-- The chunks of one file among the events: offset, data and whether it is the
last. -/
def chunksOf (id : Int) (events : List Payload.Event) : List (Int × Bytes × Bool) :=
  events.filterMap fun
    | .fileChunk i offset data last _ => if i = id then some (offset, data, last) else none
    | _ => none

/-- The sharing frames among the events. -/
def framesOf (events : List Payload.Event) : List Bytes :=
  events.filterMap fun
    | .bytes _ data => some data
    | _ => none

/-- The chunks are the whole file: each starts where the ones before it end, together
they are the content, and the final one alone is flagged. -/
structure Whole (content : Bytes) (chunks : List (Int × Bytes × Bool)) : Prop where
  contiguous : ∀ before x after, chunks = before ++ x :: after →
    x.1 = ((before.map fun y => y.2.1).flatten.length : Int)
  content : (chunks.map fun y => y.2.1).flatten = content
  last : ∃ before x, chunks = before ++ [x] ∧ x.2.2 = true ∧ ∀ y ∈ before, y.2.2 = false

/-- The sharing frames among the items. -/
def sharingFrames (items : List Item) : List Bytes :=
  items.filterMap fun
    | .file _ _ _ _ => none
    | .frame _ frame => some frame

/-- **Delivery.**  Everything is sent, and however the wire is cut everything
arrives. -/
def EndToEnd (keys : SessionKeys) (role : Role) (items : List Item) : Prop :=
  ∃ l, sendAll c w items { channel := { keys := keys, role := role } } = .ok (l, true) ∧
    ∀ pieces, pieces.flatten = l.wire →
      ∃ r, Receiver.receive c { channel := { keys := keys, role := role.peer } } pieces = .ok r ∧
        (∀ f id reader cancelled, .file f id reader cancelled ∈ items →
          Whole reader.left (chunksOf id r.events)) ∧
        framesOf r.events = sharingFrames items

/-! ## What a sender writes -/

namespace Reader

theorem read_eq {r : Reader} (hr : none ∉ r.answers) {room : Nat} (hroom : 0 < room) :
    ∃ n answers, 0 < n ∧ n ≤ room ∧ none ∉ answers ∧
      r.read room = some (r.left.take n, ⟨r.left.drop n, answers⟩) := by
  unfold read
  cases hans : r.answers with
  | nil => exact ⟨room, [], hroom, Nat.le_refl _, by simp, rfl⟩
  | cons answer rest =>
      cases answer with
      | none => simp [hans] at hr
      | some n =>
          have hrest : none ∉ rest := fun h => hr (by simp [hans, h])
          exact ⟨min room (max 1 n), rest, by omega, Nat.min_le_left _ _, hrest, rfl⟩

/-- However short the reads, the buffer ends up with as much of the file as it
holds. -/
theorem fillLoop_eq (fuel : Nat) {room : Nat} {r : Reader} (hr : none ∉ r.answers)
    (hfuel : room ≤ fuel) :
    ∃ answers, none ∉ answers ∧
      fillLoop fuel room r = some (r.left.take room, ⟨r.left.drop room, answers⟩) := by
  induction fuel generalizing room r with
  | zero =>
      have hroom : room = 0 := by omega
      subst hroom
      exact ⟨r.answers, hr, by simp [fillLoop]⟩
  | succ fuel ih =>
      unfold fillLoop
      by_cases hroom : room = 0
      · subst hroom
        exact ⟨r.answers, hr, by simp⟩
      · rw [if_neg hroom]
        obtain ⟨n, answers, hn, hle, hans, hread⟩ := read_eq hr (Nat.pos_of_ne_zero hroom)
        rw [hread]
        cases hpiece : r.left.take n with
        | nil =>
            -- nothing came, so nothing is left
            have hleft : r.left = [] := by
              rcases List.take_eq_nil_iff.mp hpiece with h | h
              · omega
              · exact h
            exact ⟨answers, hans, by simp [hleft]⟩
        | cons b piece =>
            have hlen : piece.length + 1 = (r.left.take n).length := by rw [hpiece]; rfl
            obtain ⟨answers', hans', hrest⟩ := ih (r := ⟨r.left.drop n, answers⟩) hans
              (show room - (piece.length + 1) ≤ fuel by omega)
            refine ⟨answers', hans', ?_⟩
            dsimp only at hrest ⊢
            rw [hrest, hlen, ← hpiece]
            simp only [Option.map_some, Option.some.injEq, Prod.mk.injEq, Reader.mk.injEq,
              and_true, List.drop_drop, List.length_take]
            by_cases hshort : r.left.length ≤ n
            · have hgone : r.left.drop n = [] := List.drop_eq_nil_of_le hshort
              constructor
              · have hroomy : r.left.take room = r.left := List.take_of_length_le (by omega)
                rw [hgone, hroomy, List.take_of_length_le hshort]
                simp
              · rw [List.drop_eq_nil_of_le (by omega), List.drop_eq_nil_of_le (by omega)]
            · have hmin : min n r.left.length = n := by omega
              rw [hmin]
              constructor
              · rw [← List.take_add]
                congr 1
                omega
              · congr 1
                omega

theorem fill_eq {r : Reader} (hr : none ∉ r.answers) (room : Nat) :
    ∃ answers, none ∉ answers ∧
      r.fill room = some (r.left.take room, ⟨r.left.drop room, answers⟩) :=
  fillLoop_eq room hr (Nat.le_refl _)

end Reader

/-- The data chunks of a file, from an offset on. -/
def dataChunks : Int → List Bytes → List PayloadChunk
  | _, [] => []
  | offset, body :: bodies =>
      { flags := 0, offset := offset, body := body } :: dataChunks (offset + body.length) bodies

/-- The chunks of a file: its data and the terminator. -/
def fileChunks (bodies : List Bytes) : List PayloadChunk :=
  dataChunks 0 bodies ++ [{ flags := flagLastChunk, offset := bodies.flatten.length }]

variable {c} {w}

/-- One round of the loop of `send_one`. -/
theorem chunkLoop_round (header : PayloadHeader) {cancelled : Nat → Bool} {round : Nat}
    (hgo : cancelled round = false) {r r' : Reader} {body : Bytes}
    (hfill : r.fill chunk = some (body, r')) (fuel : Nat) (l : Line) (offset : Int) :
    chunkLoop c w header cancelled (fuel + 1) round l offset r =
      (if body ≠ [] then
        l.write c w (payloadData header { flags := 0, offset := offset, body := body })
      else .ok l) >>= fun l =>
        if body.length < chunk then .ok (l, some (offset + body.length))
        else chunkLoop c w header cancelled fuel (round + 1) l (offset + body.length) r' := by
  rw [chunkLoop, if_neg (by simp [hgo]), hfill]
  dsimp only
  split <;> rfl

/-- What the loop of `send_one` writes, however short the reads are. -/
theorem chunkLoop_eq (header : PayloadHeader) {cancelled : Nat → Bool}
    (hgo : ∀ n, cancelled n = false) (fuel round : Nat) (offset : Int) {r : Reader}
    (hr : none ∉ r.answers) (hfuel : r.left.length < fuel) :
    ∃ bodies : List Bytes, bodies.flatten = r.left ∧ (∀ b ∈ bodies, b.length ≤ chunk) ∧
      ∀ l : Line, chunkLoop c w header cancelled fuel round l offset r =
        ((dataChunks offset bodies).map (payloadData header)).foldlM (Line.write c w) l >>=
          fun l => .ok (l, some (offset + r.left.length)) := by
  induction fuel generalizing round offset r with
  | zero => omega
  | succ fuel ih =>
      obtain ⟨answers, hans, hfill⟩ := Reader.fill_eq hr chunk
      simp only [chunkLoop_round header (hgo round) hfill]
      by_cases hend : r.left = []
      · refine ⟨[], by simp [hend], by simp, fun l => ?_⟩
        have hchunk : 0 < chunk := by decide
        simp [hend, dataChunks, hchunk, bind, Except.bind, pure, Except.pure]
      · have hbody : r.left.take chunk ≠ [] := by
          simp [hend, chunk]
        simp only [if_pos hbody]
        by_cases hshort : (r.left.take chunk).length < chunk
        · -- the rest of the file fits one chunk
          have hall : r.left.take chunk = r.left := by
            apply List.take_of_length_le
            rw [List.length_take] at hshort
            omega
          rw [hall] at hshort ⊢
          refine ⟨[r.left], by simp, by simpa using Nat.le_of_lt hshort, fun l => ?_⟩
          simp only [dataChunks, List.map_cons, List.map_nil, List.foldlM_cons, List.foldlM_nil,
            if_pos hshort, bind, Except.bind, pure, Except.pure]
          cases Line.write c w l _ <;> rfl
        · have hlen : chunk ≤ r.left.length := by
            rw [List.length_take] at hshort
            omega
          have hfull : (r.left.take chunk).length = chunk := List.length_take_of_le hlen
          have hpos : 0 < chunk := by decide
          obtain ⟨bodies, hflat, hsmall, hloop⟩ := ih (r := ⟨r.left.drop chunk, answers⟩)
            (round + 1) (offset + (r.left.take chunk).length) hans
            (by rw [List.length_drop]; omega)
          refine ⟨r.left.take chunk :: bodies, by simp [hflat], ?_, fun l => ?_⟩
          · intro b hb
            rcases List.mem_cons.mp hb with rfl | hb
            · omega
            · exact hsmall b hb
          · have htotal : offset + (r.left.take chunk).length + (r.left.drop chunk).length =
                offset + r.left.length := by
              rw [List.length_drop, hfull]
              omega
            dsimp only at hloop
            simp only [dataChunks, List.map_cons, List.foldlM_cons, bind, Except.bind,
              if_neg hshort]
            cases Line.write c w l _ with
            | error e => rfl
            | ok l' =>
                simp only [hloop l', htotal]
                rfl

/-- What `send_one` writes when nobody stops it: the data in pieces that fit a chunk, and the
terminator. -/
theorem sendOne_eq (l : Line) (f : OutFile) (id : Int) {r : Reader} {cancelled : Nat → Bool}
    (hgo : ∀ n, cancelled n = false) (hr : none ∉ r.answers) :
    ∃ bodies : List Bytes, bodies.flatten = r.left ∧ (∀ b ∈ bodies, b.length ≤ chunk) ∧
      sendOne c w l f id r cancelled =
        ((fileChunks bodies).map (payloadData (fileHeader f id))).foldlM (Line.write c w) l >>=
          fun l => .ok (l, true) := by
  obtain ⟨bodies, hflat, hsmall, hloop⟩ := chunkLoop_eq (c := c) (w := w) (fileHeader f id) hgo
    (r.left.length + 1) 0 0 hr (Nat.lt_succ_self _)
  refine ⟨bodies, hflat, hsmall, ?_⟩
  unfold sendOne
  rw [hloop, fileChunks, List.map_append, List.foldlM_append, hflat, Int.zero_add]
  cases ((dataChunks 0 bodies).map (payloadData (fileHeader f id))).foldlM (Line.write c w) l with
  | error e => rfl
  | ok l' =>
      simp only [bind, Except.bind, List.map_cons, List.map_nil, List.foldlM_cons, List.foldlM_nil,
        pure, Except.pure]
      cases Line.write c w l' _ <;> rfl

/-! ## A frame across -/

/-- The two ends of the channel: the same keys, opposite roles, counters in step. -/
structure Paired (l : Line) (r : Receiver) : Prop where
  keys : r.channel.keys = l.channel.keys
  role : l.channel.role = r.channel.role.peer
  seq : r.channel.recvSeq = l.channel.sendSeq
  key : (l.channel.keys.send l.channel.role).1.length = 32

/-- A world in which random bytes come and writes succeed. -/
structure World.Kind (w : World) : Prop where
  random : ∀ n, ∃ iv, w.iv n = some iv ∧ iv.length = 16
  writes : ∀ n, w.writes n = true

/-- What the receiver does with a chunk. -/
def takeIn (header : PayloadHeader) (s : Assembler × List Payload.Event) (x : PayloadChunk) :
    Except Payload.Error (Assembler × List Payload.Event) :=
  match s.1.acceptChunk header x with
  | (_, .error e) => .error e
  | (a, .ok event) => .ok (a, s.2 ++ [event])

variable (c) in
/-- What went on the wire between two points in time has arrived: whole frames, none
too long, and the receiver got through them. -/
def Across (l l' : Line) (r r' : Receiver) : Prop :=
  ∃ frames : List Bytes, l'.wire = l.wire ++ frames.flatMap Framing.encode ∧
    (∀ frame ∈ frames, frame.length < Framing.maxFrame) ∧
    frames.foldlM (Receiver.handle c) r = .ok r' ∧ Paired l' r'

theorem Across.refl {l : Line} {r : Receiver} (paired : Paired l r) : Across c l l r r :=
  ⟨[], by simp, by simp, rfl, paired⟩

theorem Across.paired {l l' : Line} {r r' : Receiver} (h : Across c l l' r r') : Paired l' r' := by
  obtain ⟨-, -, -, -, paired⟩ := h
  exact paired

theorem Across.trans {l l₁ l₂ : Line} {r r₁ r₂ : Receiver} (h : Across c l l₁ r r₁)
    (h' : Across c l₁ l₂ r₁ r₂) : Across c l l₂ r r₂ := by
  obtain ⟨frames, hwire, hsmall, hhandle, -⟩ := h
  obtain ⟨frames', hwire', hsmall', hhandle', paired⟩ := h'
  refine ⟨frames ++ frames', ?_, ?_, ?_, paired⟩
  · rw [hwire', hwire, List.flatMap_append, List.append_assoc]
  · intro frame hframe
    rcases List.mem_append.mp hframe with hframe | hframe
    · exact hsmall frame hframe
    · exact hsmall' frame hframe
  · rw [List.foldlM_append, hhandle]
    exact hhandle'

/-- A frame is sealed and written. -/
theorem write_ideal (ideal : c.Ideal) (kind : w.Kind) {l : Line}
    (hkey : (l.channel.keys.send l.channel.role).1.length = 32) (plain : Bytes) :
    ∃ sealed, (l.channel.encrypt c (w.iv l.frames) plain).1 = .ok sealed ∧
      plain.length < sealed.length ∧ sealed.length ≤ plain.length + 300 ∧
      l.write c w plain = .ok
        { channel := { l.channel with sendSeq := nextSeq l.channel.sendSeq }
          frames := l.frames + 1
          wire := l.wire ++ Framing.encode sealed } := by
  obtain ⟨iv, hiv, hivLen⟩ := kind.random l.frames
  obtain ⟨sealed, hsealed, hlong, hgrown⟩ :=
    SecureChannel.encrypt_ideal ideal hkey hivLen plain
  have hsnd := SecureChannel.encrypt_snd (c := c) l.channel (some iv) plain
  rw [← hiv] at hsealed hsnd
  refine ⟨sealed, hsealed, hlong, hgrown, ?_⟩
  unfold Line.write
  rw [show l.channel.encrypt c (w.iv l.frames) plain =
    (.ok sealed, { l.channel with sendSeq := nextSeq l.channel.sendSeq }) from
    Prod.ext hsealed hsnd]
  dsimp only
  rw [if_pos (kind.writes _)]

/-- One frame, from `write` to `handle`. -/
theorem carry_one (ideal : c.Ideal) (kind : w.Kind) {l : Line} {r : Receiver} (paired : Paired l r)
    {header : PayloadHeader} {x : PayloadChunk} (hh : header.Fits) (hx : x.Fits)
    (hlen : (payloadData header x).length + 300 < Framing.maxFrame) {a : Assembler}
    {events : List Payload.Event}
    (htake : takeIn header (r.assembler, r.events) x = .ok (a, events)) :
    ∃ l' r', l.write c w (payloadData header x) = .ok l' ∧ Across c l l' r r' ∧
      r'.assembler = a ∧ r'.events = events := by
  obtain ⟨sealed, hsealed, -, hgrown, hwrite⟩ :=
    write_ideal ideal kind paired.key (payloadData header x)
  have hsmall : sealed.length < Framing.maxFrame := by omega
  have hmax : Framing.maxFrame < 2 ^ 64 := by decide
  have hd2d : (SecureMessage.d2dBytes (nextSeq l.channel.sendSeq)
      (payloadData header x)).length < 2 ^ 64 := by
    have hmessage := Protobuf.bytes_length_le SecureMessage.d2dMessage (payloadData header x)
    have hnumber := Protobuf.varint_length_le SecureMessage.d2dSequenceNumber
      (toU64 (nextSeq l.channel.sendSeq))
    rw [SecureMessage.d2dBytes, List.length_append]
    omega
  have hopen := SecureChannel.decrypt_encrypt ideal.inverse paired.keys paired.role paired.seq
    hsealed hd2d (by omega)
  have hparse := parse_payloadData header x hh hx (by omega)
  unfold takeIn at htake
  split at htake
  · cases htake
  next a' event haccept =>
    simp only [Except.ok.injEq, Prod.mk.injEq] at htake
    obtain ⟨rfl, rfl⟩ := htake
    refine ⟨_, ⟨{ r.channel with recvSeq := nextSeq r.channel.recvSeq }, a', r.events ++ [event]⟩,
      hwrite, ⟨[sealed], by simp, by simpa using hsmall, ?_, ?_⟩, rfl, rfl⟩
    · rw [List.foldlM_cons, Receiver.handle, hopen]
      dsimp only
      rw [hparse]
      dsimp only
      rw [show r.assembler.accept
          { packetType := .data, header := header, chunk := some x, control := none } =
        r.assembler.acceptChunk header x from rfl, haccept]
      rfl
    · exact ⟨paired.keys, paired.role, by rw [paired.seq], paired.key⟩

/-- **A payload across.**  The frames of a payload reach the assembler at the other
end, one after the other. -/
theorem carry (ideal : c.Ideal) (kind : w.Kind) {header : PayloadHeader} (hh : header.Fits)
    {xs : List PayloadChunk} (hxs : ∀ x ∈ xs, x.Fits)
    (hlen : ∀ x ∈ xs, (payloadData header x).length + 300 < Framing.maxFrame)
    {l : Line} {r : Receiver} (paired : Paired l r) {a : Assembler} {events : List Payload.Event}
    (htake : xs.foldlM (takeIn header) (r.assembler, r.events) = .ok (a, events)) :
    ∃ l' r', (xs.map (payloadData header)).foldlM (Line.write c w) l = .ok l' ∧
      Across c l l' r r' ∧ r'.assembler = a ∧ r'.events = events := by
  induction xs generalizing l r with
  | nil =>
      cases htake
      exact ⟨l, r, rfl, .refl paired, rfl, rfl⟩
  | cons x xs ih =>
      rw [List.foldlM_cons] at htake
      cases hone : takeIn header (r.assembler, r.events) x with
      | error e =>
          rw [hone] at htake
          cases htake
      | ok s =>
          obtain ⟨a₁, events₁⟩ := s
          rw [hone] at htake
          obtain ⟨l₁, r₁, hwrite, across, rfl, rfl⟩ :=
            carry_one ideal kind paired hh (hxs x (by simp)) (hlen x (by simp)) hone
          obtain ⟨l', r', hwrites, across', ha, he⟩ :=
            ih (fun y hy => hxs y (by simp [hy])) (fun y hy => hlen y (by simp [hy])) across.paired
              htake
          refine ⟨l', r', ?_, across.trans across', ha, he⟩
          rw [List.map_cons, List.foldlM_cons, hwrite]
          exact hwrites

/-! ## What the assembler makes of it -/

/-- The only payload in flight, if any, is this one, and it is this far. -/
structure Holds (a : Assembler) (header : PayloadHeader) (received : Nat) (buffer : Bytes) :
    Prop where
  entry : a.entry header = { header := header, received := received, buffer := buffer }
  room : a.HasRoom header.id
  remove : a.remove header.id = {}
  put : ∀ e, a.put header.id e = Assembler.put {} header.id e

theorem holds_nothing (header : PayloadHeader) : Holds {} header 0 [] where
  entry := rfl
  room := .inr (by decide)
  remove := rfl
  put _ := rfl

theorem holds_put (header : PayloadHeader) (received : Nat) (buffer : Bytes) :
    Holds (Assembler.put {} header.id
      { header := header, received := received, buffer := buffer }) header received buffer where
  entry := by
    unfold Assembler.entry Assembler.put
    rw [AList.lookup_insert]
    rfl
  room := .inl (AList.mem_insert _ |>.mpr (.inl rfl))
  remove := by
    simp only [Assembler.remove, Assembler.put, Assembler.mk.injEq]
    apply AList.ext
    change List.kerase header.id (AList.insert header.id _ ∅).entries = []
    rw [AList.entries_insert]
    exact List.kerase_cons_eq rfl
  put e := by simp [Assembler.put]

@[simp] theorem isLast_data (offset : Int) (body : Bytes) :
    PayloadChunk.isLast { flags := 0, offset := offset, body := body } = false := by
  simp [PayloadChunk.isLast]

@[simp] theorem isLast_terminator (offset : Int) :
    PayloadChunk.isLast { flags := flagLastChunk, offset := offset } = true := by
  simp [PayloadChunk.isLast, flagLastChunk]

/-- What the receiver makes of a chunk of a file. -/
def chunkEvent (header : PayloadHeader) (x : PayloadChunk) : Payload.Event :=
  .fileChunk header.id x.offset x.body x.isLast header

/-- The next chunk of a file that is going well. -/
theorem takeIn_file {a : Assembler} {header : PayloadHeader} {received : Nat}
    (holds : Holds a header received []) (isFile : header.payloadType ≠ .bytes) {x : PayloadChunk}
    (hoffset : x.offset = received) (hsize : 0 ≤ header.totalSize)
    (hwithin : 0 < header.totalSize → ((received + x.body.length : Nat) : Int) ≤ header.totalSize)
    (hbound : received + x.body.length < 2 ^ 63) (events : List Payload.Event) :
    takeIn header (a, events) x =
      .ok (if x.isLast then {} else Assembler.put {} header.id
          { header := header, received := ((received + x.body.length : Nat) : Int) },
        events ++ [chunkEvent header x]) := by
  have hsum := saturatingAdd_natCast hbound
  have hcontinues : Assembler.Continues (a.entry header) x := by
    rw [holds.entry]
    refine ⟨isFile, hoffset, by omega, ?_⟩
    intro hpos
    dsimp only
    rw [hsum]
    exact hwithin hpos
  unfold takeIn
  rw [Assembler.acceptChunk_file holds.room hsize hcontinues, holds.entry, holds.remove, holds.put]
  dsimp only
  rw [hsum]
  rfl

/-- The data chunks of a file. -/
theorem takeIn_dataChunks {header : PayloadHeader} (isFile : header.payloadType ≠ .bytes)
    (hsize : 0 ≤ header.totalSize) (bodies : List Bytes) {a : Assembler} {received : Nat}
    (holds : Holds a header received [])
    (hwithin : 0 < header.totalSize →
      ((received + bodies.flatten.length : Nat) : Int) ≤ header.totalSize)
    (hbound : received + bodies.flatten.length < 2 ^ 63) (events : List Payload.Event) :
    ∃ a', (dataChunks received bodies).foldlM (takeIn header) (a, events) =
        .ok (a', events ++ (dataChunks received bodies).map (chunkEvent header)) ∧
      Holds a' header (received + bodies.flatten.length) [] := by
  induction bodies generalizing a received events with
  | nil => exact ⟨a, by simp [dataChunks, pure, Except.pure], by simpa using holds⟩
  | cons body bodies ih =>
      rw [List.flatten_cons, List.length_append, ← Nat.add_assoc] at hwithin hbound ⊢
      have hone := takeIn_file holds isFile (x := { flags := 0, offset := received, body := body })
        rfl hsize (fun hpos => by have := hwithin hpos; dsimp only; omega) (by dsimp only; omega)
        events
      obtain ⟨a', hrest, holds'⟩ := ih (holds_put header (received + body.length) []) hwithin hbound
        (events ++ [chunkEvent header { flags := 0, offset := received, body := body }])
      refine ⟨a', ?_, holds'⟩
      rw [dataChunks, List.foldlM_cons, hone, isLast_data, ← Int.natCast_add]
      rw [List.append_assoc, List.singleton_append] at hrest
      exact hrest

/-- **A file.**  Every chunk is handed on, and nothing stays behind. -/
theorem takeIn_fileChunks (header : PayloadHeader) (isFile : header.payloadType ≠ .bytes)
    (bodies : List Bytes) (hsize : header.totalSize = bodies.flatten.length)
    (hbound : bodies.flatten.length < 2 ^ 63) (events : List Payload.Event) :
    (fileChunks bodies).foldlM (takeIn header) ({}, events) =
      .ok ({}, events ++ (fileChunks bodies).map (chunkEvent header)) := by
  obtain ⟨a, hdata, holds⟩ := takeIn_dataChunks isFile (by omega) bodies (holds_nothing header)
    (fun _ => by omega) (by omega) events
  rw [Nat.zero_add] at holds
  have hend := takeIn_file holds isFile
    (x := { flags := flagLastChunk, offset := bodies.flatten.length }) rfl (by omega)
    (fun _ => by rw [hsize]; simp) (by simpa using hbound)
    (events ++ (dataChunks 0 bodies).map (chunkEvent header))
  rw [fileChunks, List.foldlM_append, show (0 : Int) = ((0 : Nat) : Int) from rfl, hdata]
  simp only [bind, Except.bind, List.foldlM_cons, List.foldlM_nil]
  rw [show ((0 : Nat) : Int) = 0 from rfl, hend, isLast_terminator]
  simp [pure, Except.pure]

/-- **A sharing frame.**  It is kept, then handed back whole. -/
theorem takeIn_wrapBytes (header : PayloadHeader) (isBytes : header.payloadType = .bytes)
    {frame : Bytes} (hsize : header.totalSize = frame.length)
    (hsmall : frame.length ≤ Payload.maxBytesPayload) (events : List Payload.Event) :
    [({ flags := 0, offset := 0, body := frame } : PayloadChunk),
      { flags := flagLastChunk, offset := frame.length }].foldlM (takeIn header) ({}, events) =
      .ok ({}, events ++ [Payload.Event.pending, .bytes header.id frame]) := by
  have hmax : Payload.maxBytesPayload < 2 ^ 63 := by decide
  have hnone := holds_nothing header
  have hsome := holds_put header frame.length frame
  have hsum := saturatingAdd_natCast (a := 0) (b := frame.length) (by omega)
  have hsum' := saturatingAdd_natCast (a := frame.length) (b := 0) (by omega)
  have hfirst := Assembler.acceptChunk_bytes header
    { flags := 0, offset := 0, body := frame } hnone.room (by omega) isBytes rfl
    (Int.le_refl 0)
    (fun _ => by rw [hnone.entry]; dsimp only; rw [hsum]; omega)
    (by rw [hnone.entry]; dsimp only; rw [hsum]; omega)
  have hsecond := Assembler.acceptChunk_bytes header
    { flags := flagLastChunk, offset := frame.length } hsome.room (by omega)
    (by rw [hsome.entry]; exact isBytes) (by rw [hsome.entry]) (by dsimp only; omega)
    (fun _ => by rw [hsome.entry]; dsimp only [List.length_nil]; rw [hsum']; omega)
    (by rw [hsome.entry]; dsimp only [List.length_nil]; rw [hsum']; omega)
  rw [isLast_data, if_neg (by simp), hnone.entry, hnone.put] at hfirst
  rw [isLast_terminator, if_pos rfl, hsome.entry, hsome.remove] at hsecond
  dsimp only at hfirst
  rw [hsum] at hfirst
  simp only [List.foldlM_cons, List.foldlM_nil, takeIn, hfirst, bind, Except.bind, pure,
    Except.pure]
  simp [hsecond]

/-! ## Items -/

/-- The fields around a name and a body, the seal and the signature: 700 bytes are
enough. -/
def envelope : Nat := 700

/-- What a caller sees to: the declared size is the real one and the reads succeed; the
ids and sizes are the integers the source has.  A name and a chunk fit into one frame,
with what is put around them, and nobody cancels. -/
def Item.Good : Item → Prop
  | .file f id r cancelled =>
      none ∉ r.answers ∧ (∀ n, cancelled n = false) ∧ f.size = r.left.length ∧
        r.left.length < 2 ^ 63 ∧ (-2 ^ 63 ≤ id ∧ id < 2 ^ 63) ∧
        (asBytes f.name).length + min r.left.length chunk + envelope < Framing.maxFrame
  | .frame nextId body =>
      body.length ≤ Payload.maxBytesPayload ∧ -2 ^ 63 ≤ nextId ∧ nextId + 1 < 2 ^ 63

/-- What the events of one item say. -/
def Arrived (events : List Payload.Event) : Item → Prop
  | .file _ id r _ =>
      Whole r.left (chunksOf id events) ∧ framesOf events = [] ∧
        ∀ j, j ≠ id → chunksOf j events = []
  | .frame _ body => framesOf events = [body] ∧ ∀ j, chunksOf j events = []

theorem dataChunks_body (offset : Int) (bodies : List Bytes) :
    (dataChunks offset bodies).map PayloadChunk.body = bodies := by
  induction bodies generalizing offset with
  | nil => rfl
  | cons body bodies ih => rw [dataChunks, List.map_cons, ih]

theorem dataChunks_isLast (offset : Int) (bodies : List Bytes) :
    ∀ x ∈ dataChunks offset bodies, x.isLast = false := by
  induction bodies generalizing offset with
  | nil => simp [dataChunks]
  | cons body bodies ih =>
      intro x hx
      rcases List.mem_cons.mp hx with rfl | hx
      · exact isLast_data _ _
      · exact ih _ x hx

/-- Each chunk starts where the ones before it end. -/
theorem dataChunks_contiguous (offset : Int) (bodies : List Bytes) (terminator : PayloadChunk)
    (hend : terminator.offset = offset + bodies.flatten.length) {before after : List PayloadChunk}
    {x : PayloadChunk} (h : dataChunks offset bodies ++ [terminator] = before ++ x :: after) :
    x.offset = offset + ((before.map PayloadChunk.body).flatten.length : Int) := by
  induction bodies generalizing offset before with
  | nil =>
      rcases before with _ | ⟨y, before⟩
      · obtain ⟨rfl, -⟩ : terminator = x ∧ after = [] := by simpa [dataChunks] using h
        simpa using hend
      · simp [dataChunks] at h
  | cons body bodies ih =>
      rcases before with _ | ⟨y, before⟩
      · obtain ⟨rfl, -⟩ := List.cons_eq_cons.mp h
        simp
      · obtain ⟨rfl, hrest⟩ := List.cons_eq_cons.mp h
        have := ih (offset + body.length) (by rw [hend]; simp; omega) hrest
        rw [this]
        simp
        omega

theorem chunksOf_chunkEvent (header : PayloadHeader) (xs : List PayloadChunk) :
    chunksOf header.id (xs.map (chunkEvent header)) =
      xs.map fun x => (x.offset, x.body, x.isLast) := by
  induction xs with
  | nil => rfl
  | cons x xs ih => simpa [chunksOf, chunkEvent] using ih

theorem chunksOf_chunkEvent_of_ne {header : PayloadHeader} {j : Int} (h : j ≠ header.id)
    (xs : List PayloadChunk) : chunksOf j (xs.map (chunkEvent header)) = [] := by
  simp [chunksOf, chunkEvent, h.symm]

theorem framesOf_chunkEvent (header : PayloadHeader) (xs : List PayloadChunk) :
    framesOf (xs.map (chunkEvent header)) = [] := by
  simp [framesOf, chunkEvent]

/-- The chunks `send_one` writes are the whole file. -/
theorem whole_fileChunks (bodies : List Bytes) :
    Whole bodies.flatten ((fileChunks bodies).map fun x => (x.offset, x.body, x.isLast)) where
  contiguous := by
    intro before x after h
    obtain ⟨before', rest, hsplit, rfl, hrest⟩ := List.map_eq_append_iff.mp h
    obtain ⟨x', after', rfl, rfl, -⟩ := List.map_eq_cons_iff.mp hrest
    have := dataChunks_contiguous 0 bodies _ (by simp) hsplit
    simpa [List.map_map, Function.comp_def] using this
  content := by
    rw [List.map_map]
    have hbodies : (fileChunks bodies).map PayloadChunk.body = bodies ++ [[]] := by
      rw [fileChunks, List.map_append, dataChunks_body]
      rfl
    rw [show ((fun y : Int × Bytes × Bool => y.2.1) ∘ fun x : PayloadChunk =>
      (x.offset, x.body, x.isLast)) = PayloadChunk.body from rfl, hbodies]
    simp
  last := by
    refine ⟨(dataChunks 0 bodies).map fun x => (x.offset, x.body, x.isLast),
      (bodies.flatten.length, [], true), ?_, rfl, ?_⟩
    · simp [fileChunks]
    · intro y hy
      obtain ⟨x, hx, rfl⟩ := List.mem_map.mp hy
      exact dataChunks_isLast 0 bodies x hx

theorem dataChunks_bounds (offset : Int) (bodies : List Bytes) :
    ∀ x ∈ dataChunks offset bodies, x.flags = 0 ∧ offset ≤ x.offset ∧
      x.offset ≤ offset + bodies.flatten.length ∧ x.body ∈ bodies := by
  induction bodies generalizing offset with
  | nil => simp [dataChunks]
  | cons body bodies ih =>
      intro x hx
      rw [List.flatten_cons, List.length_append]
      rcases List.mem_cons.mp hx with rfl | hx
      · exact ⟨rfl, Int.le_refl _, by dsimp only; omega, by simp⟩
      · obtain ⟨hflags, hlo, hhi, hbody⟩ := ih _ x hx
        exact ⟨hflags, by omega, by omega, by simp [hbody]⟩

theorem fits_of_offset {x : PayloadChunk} (hflags : x.flags ≤ flagLastChunk) {n : Nat}
    (hoffset : x.offset = n) (hn : n < 2 ^ 63) : x.Fits := by
  refine ⟨lt_of_le_of_lt hflags (by decide), ?_, ?_⟩ <;> omega

/-- The chunks of a file can be written down, and are small. -/
theorem fileChunks_bounds {bodies : List Bytes} (hsmall : ∀ b ∈ bodies, b.length ≤ chunk)
    (hbound : bodies.flatten.length < 2 ^ 63) :
    ∀ x ∈ fileChunks bodies, x.Fits ∧ x.body.length ≤ min bodies.flatten.length chunk := by
  intro x hx
  rcases List.mem_append.mp hx with hx | hx
  · obtain ⟨hflags, hlo, hhi, hbody⟩ := dataChunks_bounds 0 bodies x hx
    refine ⟨⟨by omega, by omega, by omega⟩, ?_⟩
    exact Nat.le_min.mpr ⟨(List.sublist_flatten_of_mem hbody).length_le, hsmall _ hbody⟩
  · rw [List.mem_singleton.mp hx]
    exact ⟨fits_of_offset (Nat.le_refl _) rfl hbound, Nat.zero_le _⟩

/-- A file sent is a file arrived. -/
theorem sendOne_across (ideal : c.Ideal) (kind : w.Kind) {f : OutFile} {id : Int} {r : Reader}
    {cancelled : Nat → Bool} (good : Item.Good (.file f id r cancelled)) {l : Line}
    {rcv : Receiver} (paired : Paired l rcv) (hempty : rcv.assembler = {}) :
    ∃ l' rcv' events, sendOne c w l f id r cancelled = .ok (l', true) ∧ Across c l l' rcv rcv' ∧
      rcv'.assembler = {} ∧ rcv'.events = rcv.events ++ events ∧
      Arrived events (.file f id r cancelled) := by
  obtain ⟨hreads, hgo, hsize, hbound, hid, hname⟩ := good
  obtain ⟨bodies, hflat, hsmall, hsend⟩ := sendOne_eq (c := c) (w := w) l f id hgo hreads
  rw [← hflat] at hsize hbound hname
  have hfit : (fileHeader f id).Fits := by
    refine ⟨hid, ?_⟩
    simp only [fileHeader, hsize]
    omega
  have hchunks := fileChunks_bounds hsmall hbound
  have hlen : ∀ x ∈ fileChunks bodies,
      (payloadData (fileHeader f id) x).length + 300 < Framing.maxFrame := by
    intro x hx
    have hle := payloadData_length_le (fileHeader f id) x
    have hbody := (hchunks x hx).2
    simp only [fileHeader, asBytes, List.flatMap_nil, List.length_nil, Nat.add_zero,
      envelope] at hle hname ⊢
    omega
  have htake := takeIn_fileChunks (fileHeader f id) (by simp [fileHeader]) bodies hsize
    hbound rcv.events
  rw [← hempty] at htake
  obtain ⟨l', rcv', hwrite, across, ha, he⟩ :=
    carry ideal kind hfit (fun x hx => (hchunks x hx).1) hlen paired htake
  refine ⟨l', rcv', _, ?_, across, ha.trans hempty, he, ?_⟩
  · rw [hsend, hwrite]
    rfl
  · refine ⟨?_, framesOf_chunkEvent _ _, fun j hj => chunksOf_chunkEvent_of_ne hj _⟩
    have hwhole := whole_fileChunks bodies
    rw [← chunksOf_chunkEvent (fileHeader f id), hflat] at hwhole
    exact hwhole

/-- And so is a sharing frame. -/
theorem wrapBytes_across (ideal : c.Ideal) (kind : w.Kind) {nextId : Int} {frame : Bytes}
    (good : Item.Good (.frame nextId frame)) {l : Line} {rcv : Receiver} (paired : Paired l rcv)
    (hempty : rcv.assembler = {}) :
    ∃ l' rcv' events, (wrapBytes nextId frame).2.foldlM (Line.write c w) l = .ok l' ∧
      Across c l l' rcv rcv' ∧ rcv'.assembler = {} ∧ rcv'.events = rcv.events ++ events ∧
      Arrived events (.frame nextId frame) := by
  obtain ⟨hsmall, hlo, hhi⟩ := good
  have hmax : Payload.maxBytesPayload = 1024 * 1024 := rfl
  have htake := takeIn_wrapBytes
    { id := nextId + 1, payloadType := .bytes, totalSize := frame.length } rfl rfl
    hsmall rcv.events
  rw [← hempty] at htake
  have hfits : ∀ x ∈ [({ flags := 0, offset := 0, body := frame } : PayloadChunk),
      { flags := flagLastChunk, offset := frame.length }],
      x.Fits ∧ x.body.length ≤ Payload.maxBytesPayload := by
    simp only [List.mem_cons, List.not_mem_nil, or_false, forall_eq_or_imp, forall_eq]
    exact ⟨⟨fits_of_offset (Nat.zero_le _) (n := 0) rfl (by decide), hsmall⟩,
      ⟨fits_of_offset (Nat.le_refl _) rfl (by omega), Nat.zero_le _⟩⟩
  obtain ⟨l', rcv', hwrite, across, ha, he⟩ :=
    carry ideal kind ⟨⟨by dsimp only; omega, hhi⟩, by dsimp only; omega, by dsimp only; omega⟩
      (fun x hx => (hfits x hx).1)
      (by
        intro x hx
        have hle := payloadData_length_le
          { id := nextId + 1, payloadType := .bytes, totalSize := frame.length } x
        have hbody := (hfits x hx).2
        simp only [asBytes, List.flatMap_nil, List.length_nil, Nat.add_zero,
          Framing.maxFrame] at hle ⊢
        omega)
      paired htake
  exact ⟨l', rcv', _, hwrite, across, ha.trans hempty, he, by simp [framesOf],
    fun j => by simp [chunksOf]⟩

/-! ## Everything -/

/-- The payload ids of the files. -/
def fileIds (items : List Item) : List Int :=
  items.filterMap fun
    | .file _ id _ _ => some id
    | .frame _ _ => none

/-- What the events of all items say. -/
structure AllArrived (events : List Payload.Event) (items : List Item) : Prop where
  files : ∀ f id r cancelled, .file f id r cancelled ∈ items → Whole r.left (chunksOf id events)
  frames : framesOf events = sharingFrames items
  others : ∀ j, j ∉ fileIds items → chunksOf j events = []

theorem chunksOf_append (id : Int) (events more : List Payload.Event) :
    chunksOf id (events ++ more) = chunksOf id events ++ chunksOf id more :=
  List.filterMap_append

theorem framesOf_append (events more : List Payload.Event) :
    framesOf (events ++ more) = framesOf events ++ framesOf more :=
  List.filterMap_append

/-- One more item before the others.  Its chunks are nobody else's. -/
theorem AllArrived.cons {events more : List Payload.Event} {item : Item} {items : List Item}
    (one : Arrived events item) (rest : AllArrived more items)
    (distinct : (fileIds (item :: items)).Nodup) : AllArrived (events ++ more) (item :: items) := by
  cases item with
  | frame nextId frame =>
      obtain ⟨hframe, hnone⟩ := one
      refine ⟨?_, ?_, ?_⟩
      · intro f id r cancelled hmem
        rw [chunksOf_append, hnone, List.nil_append]
        exact rest.files f id r cancelled (by simpa using hmem)
      · rw [framesOf_append, hframe, rest.frames]
        rfl
      · intro j hj
        rw [chunksOf_append, hnone, List.nil_append]
        exact rest.others j hj
  | file f id r cancelled =>
      obtain ⟨hwhole, hframe, hnone⟩ := one
      have hids : fileIds (.file f id r cancelled :: items) = id :: fileIds items := rfl
      rw [hids, List.nodup_cons] at distinct
      refine ⟨?_, ?_, ?_⟩
      · intro g j s stop hmem
        rcases List.mem_cons.mp hmem with heq | hmem
        · obtain ⟨rfl, rfl, rfl, rfl⟩ := Item.file.inj heq
          rw [chunksOf_append, rest.others j distinct.1, List.append_nil]
          exact hwhole
        · have hj : j ∈ fileIds items := List.mem_filterMap.mpr ⟨_, hmem, rfl⟩
          rw [chunksOf_append, hnone j (fun h => distinct.1 (h ▸ hj)), List.nil_append]
          exact rest.files g j s stop hmem
      · rw [framesOf_append, hframe, rest.frames]
        rfl
      · intro j hj
        rw [hids, List.mem_cons, not_or] at hj
        rw [chunksOf_append, hnone j hj.1, rest.others j hj.2]
        rfl

theorem sendItem_across (ideal : c.Ideal) (kind : w.Kind) {item : Item} (good : item.Good)
    {l : Line} {rcv : Receiver} (paired : Paired l rcv) (hempty : rcv.assembler = {}) :
    ∃ l' rcv' events, sendItem c w l item = .ok (l', true) ∧ Across c l l' rcv rcv' ∧
      rcv'.assembler = {} ∧ rcv'.events = rcv.events ++ events ∧ Arrived events item := by
  cases item with
  | file f id r cancelled => exact sendOne_across ideal kind good paired hempty
  | frame nextId frame =>
      obtain ⟨l', rcv', events, hwrite, rest⟩ := wrapBytes_across ideal kind good paired hempty
      refine ⟨l', rcv', events, ?_, rest⟩
      rw [sendItem, hwrite]
      rfl

/-- The run: item after item, the assembler empty in between. -/
theorem sendAll_across (ideal : c.Ideal) (kind : w.Kind) {items : List Item}
    (good : ∀ item ∈ items, item.Good) (distinct : (fileIds items).Nodup) {l : Line}
    {rcv : Receiver} (paired : Paired l rcv) (hempty : rcv.assembler = {}) :
    ∃ l' rcv' events, sendAll c w items l = .ok (l', true) ∧ Across c l l' rcv rcv' ∧
      rcv'.events = rcv.events ++ events ∧ AllArrived events items := by
  induction items generalizing l rcv with
  | nil =>
      refine ⟨l, rcv, [], rfl, .refl paired, (List.append_nil _).symm, ?_⟩
      exact ⟨fun _ _ _ _ h => by simp at h, rfl, fun _ _ => rfl⟩
  | cons item items ih =>
      have hrest : (fileIds items).Nodup := by
        refine distinct.sublist ?_
        exact (List.sublist_cons_self item items).filterMap _
      obtain ⟨l₁, rcv₁, events, hsend, across, ha, he, one⟩ :=
        sendItem_across ideal kind (good item (by simp)) paired hempty
      obtain ⟨l', rcv', more, hsends, across', he', rest⟩ :=
        ih (fun other hmem => good other (by simp [hmem])) hrest across.paired ha
      refine ⟨l', rcv', events ++ more, ?_, across.trans across', ?_, .cons one rest distinct⟩
      · rw [sendAll, hsend]
        exact hsends
      · rw [he', he, List.append_assoc]

/-- **End to end.**  With primitives as documented, files with different payload ids,
real sizes and names short enough, and sharing frames of at most 1 MiB, arrive: however
short the reads and however the wire is cut. -/
theorem delivered (ideal : c.Ideal) (kind : w.Kind) {keys : SessionKeys} {role : Role}
    (hkey : (keys.send role).1.length = 32) {items : List Item} (good : ∀ item ∈ items, item.Good)
    (distinct : (fileIds items).Nodup) : EndToEnd c w keys role items := by
  have paired : Paired { channel := { keys := keys, role := role } }
      { channel := { keys := keys, role := role.peer } } :=
    ⟨rfl, by cases role <;> rfl, rfl, hkey⟩
  obtain ⟨l, rcv, events, hsend, ⟨frames, hwire, hsmall, hhandle, -⟩, he, all⟩ :=
    sendAll_across ideal kind good distinct paired rfl
  refine ⟨l, hsend, ?_⟩
  intro pieces hcut
  have hevents : rcv.events = events := by simpa using he
  refine ⟨rcv, ?_, ?_, ?_⟩
  · rw [hwire, List.nil_append] at hcut
    rw [Receiver.receive, Framing.feed_encode .framing (Receiver.handle c) hsmall hcut, hhandle]
    rfl
  · rw [hevents]
    exact all.files
  · rw [hevents]
    exact all.frames

/-! ## A name that is too long -/

theorem asBytes_replicate (n : Nat) : (asBytes (List.replicate n 'a')).length = n := by
  simp [asBytes, show 'a'.utf8Size = 1 from rfl]

/-- An empty file is its terminator. -/
theorem sendOne_empty (l : Line) (f : OutFile) (id : Int) {cancelled : Nat → Bool}
    (hgo : ∀ n, cancelled n = false) :
    sendOne c w l f id ⟨[], []⟩ cancelled =
      l.write c w (payloadData (fileHeader f id) { flags := flagLastChunk, offset := 0 }) >>=
        fun l => .ok (l, true) := by
  obtain ⟨answers, -, hfill⟩ := Reader.fill_eq (r := ⟨[], []⟩) (by simp) chunk
  have hchunk : 0 < chunk := by decide
  simp only [sendOne, chunkLoop, hgo, hfill, List.take_nil, List.length_nil, hchunk, bind,
    Except.bind, pure, Except.pure, ne_eq, not_true_eq_false, if_false, if_true,
    Bool.false_eq_true]
  rfl

/-- An empty file whose name takes 5 MiB and more is sent, and its one frame is not
accepted. -/
theorem not_endToEnd_of_long_name (ideal : c.Ideal) (kind : w.Kind) {keys : SessionKeys}
    {role : Role} (hkey : (keys.send role).1.length = 32) {f : OutFile} {id : Int}
    (hlong : Framing.maxFrame ≤ (asBytes f.name).length)
    (hbound : (asBytes f.name).length < 2 ^ 31) {cancelled : Nat → Bool}
    (hgo : ∀ n, cancelled n = false) :
    ¬ EndToEnd c w keys role [.file f id ⟨[], []⟩ cancelled] := by
  rintro ⟨l, hsend, harrive⟩
  obtain ⟨sealed, -, hmore, hgrown, hwrite⟩ := write_ideal ideal kind
    (l := { channel := { keys := keys, role := role } }) hkey
    (payloadData (fileHeader f id) { flags := flagLastChunk, offset := 0 })
  have hname := fileName_length_le (fileHeader f id) { flags := flagLastChunk, offset := 0 }
  have hframe := payloadData_length_le (fileHeader f id) { flags := flagLastChunk, offset := 0 }
  simp only [fileHeader] at hname hframe
  have hfolder : (asBytes []).length = 0 := rfl
  simp only [sendAll, sendItem, sendOne_empty _ f id hgo, hwrite, bind, Except.bind, if_true,
    Except.ok.injEq, Prod.mk.injEq, and_true] at hsend
  subst hsend
  obtain ⟨r, hreceive, -⟩ := harrive [Framing.encode sealed] (by simp)
  rw [Receiver.receive, Framing.feed_oversize .framing (Receiver.handle c) (w := sealed)
    (by simp only [fileHeader] at hmore; omega)
    (by simp only [fileHeader, List.length_nil] at hgrown hframe; omega)] at hreceive
  cases hreceive

/-! ## One recorded session -/

/-- Padding that no recorded body has: it ends one byte into a block. -/
def pad (plain : Bytes) : Bytes :=
  let k := 16 - (plain.length + 15) % 16
  plain ++ List.replicate k (UInt8.ofNat k)

def unpad (body : Bytes) : Bytes :=
  body.take (body.length - (body.getLastD 0).toNat)

theorem pad_length (plain : Bytes) :
    (pad plain).length % 16 = 1 ∧ plain.length < (pad plain).length ∧
      (pad plain).length ≤ plain.length + 16 := by
  simp only [pad, List.length_append, List.length_replicate]
  omega

theorem unpad_pad (plain : Bytes) : unpad (pad plain) = plain := by
  obtain ⟨k, hk, hpos, hsmall⟩ : ∃ k, k = 16 - (plain.length + 15) % 16 ∧ 0 < k ∧ k ≤ 16 :=
    ⟨_, rfl, by omega, by omega⟩
  have hlast : (plain ++ List.replicate k (UInt8.ofNat k)).getLastD 0 = UInt8.ofNat k := by
    rw [List.getLastD_eq_getLast?, List.getLast?_append, List.getLast?_replicate,
      if_neg (by omega)]
    rfl
  simp only [unpad, pad, ← hk]
  rw [hlast, toNat_ofNat_byte (by omega)]
  simp

/-- Primitives that are those on record where there is one. -/
def completed (record : Link.Record) : Crypto where
  hmac key data := some ((record.crypto.hmac key data).getD (List.replicate 32 0))
  encrypt key iv plain := some ((record.crypto.encrypt key iv plain).getD (pad plain))
  decrypt key iv body := some ((record.crypto.decrypt key iv body).getD (unpad body))

theorem completed_ideal {record : Link.Record} (htags : ∀ t ∈ record.tags, t.2.2.length = 32)
    (hbodies : ∀ t ∈ record.bodies, t.2.2.1.length < t.2.2.2.length ∧
      t.2.2.2.length ≤ t.2.2.1.length + 16 ∧ t.2.2.2.length % 16 = 0)
    (hopens : ∀ t ∈ record.bodies, record.crypto.decrypt t.1 t.2.1 t.2.2.2 = some t.2.2.1) :
    (completed record).Ideal where
  signs key data := by
    refine ⟨_, rfl, ?_⟩
    cases h : record.crypto.hmac key data with
    | none => simp
    | some tag =>
        obtain ⟨t, hfind, rfl⟩ := Option.map_eq_some_iff.mp h
        exact htags t (List.mem_of_find?_eq_some hfind)
  encrypts key iv plain _ _ := by
    refine ⟨_, rfl, ?_⟩
    cases h : record.crypto.encrypt key iv plain with
    | none => exact (pad_length plain).2
    | some body =>
        obtain ⟨t, hfind, rfl⟩ := Option.map_eq_some_iff.mp h
        have hhit : t.1 = key ∧ t.2.1 = iv ∧ t.2.2.1 = plain := by
          simpa using List.find?_some hfind
        obtain ⟨-, -, rfl⟩ := hhit
        have hlen := hbodies t (List.mem_of_find?_eq_some hfind)
        exact ⟨hlen.1, hlen.2.1⟩
  inverse key iv plain body henc := by
    cases h : record.crypto.encrypt key iv plain with
    | some sealed =>
        simp only [completed, h, Option.getD_some, Option.some.injEq] at henc
        subst henc
        simp [completed, record.inverse hopens key iv plain sealed h]
    | none =>
        simp only [completed, h, Option.getD_none, Option.some.injEq] at henc
        subst henc
        -- what is padded here is nobody's recorded body
        have hmiss : record.crypto.decrypt key iv (pad plain) = none := by
          rw [Option.eq_none_iff_forall_ne_some]
          intro out hout
          obtain ⟨t, hfind, -⟩ := Option.map_eq_some_iff.mp hout
          have hhit : t.1 = key ∧ t.2.1 = iv ∧ t.2.2.2 = pad plain := by
            simpa using List.find?_some hfind
          have hwhole := (hbodies t (List.mem_of_find?_eq_some hfind)).2.2
          have hodd := (pad_length plain).1
          rw [hhit.2.2] at hwhole
          omega
        simp [completed, hmiss, unpad_pad]

namespace Hi

open Link Link.Hello SecureMessage

def file : OutFile := { name := ['a'], mime := [], size := 2 }

def content : Bytes := [0x68, 0x69]

/-- One file, read byte by byte, and one sharing frame. -/
def items : List Item :=
  [.file file 7 ⟨content, [some 1, some 1]⟩ fun _ => false, .frame 0 Sharing.cancel]

def cancelHeader : PayloadHeader :=
  { id := 1, payloadType := .bytes, totalSize := Sharing.cancel.length }

def plains : List Bytes :=
  [d2dBytes 1 (payloadData (fileHeader file 7) { flags := 0, offset := 0, body := content }),
    d2dBytes 2 (payloadData (fileHeader file 7) { flags := flagLastChunk, offset := 2 }),
    d2dBytes 3 (payloadData cancelHeader { flags := 0, offset := 0, body := Sharing.cancel }),
    d2dBytes 4 (payloadData cancelHeader
      { flags := flagLastChunk, offset := Sharing.cancel.length })]

def bodies : List Bytes :=
  [bigEndian 48 0x61f724c4dac0e878a26ce9d15f735e633760e305ca156af16a7d690d8563c68e77d1b94c83cde0892f627d24c3544312,
    bigEndian 48 0xc4203c327e764f92b160bfece6f7d6e53dd4bbc1bcc08836d7a846d0a6ce3c45e562b8473f422a217f118af946d0b9c0,
    bigEndian 48 0xc3409d5cbc0f7c22e48ee80f2ae1b028ed23696796358da2ddc53105e47715576635bcc502b860e95275bed82e4e0dff,
    bigEndian 48 0xb62b1800c1ab58a4956fedf318d446a9803711c1f5796595da172d7cd8fdc4c7ee46671e1118c36a9a55c4f9a420256d]

def tags : List Bytes :=
  [bigEndian 32 0x7be0de87f94cb794376d034ce204c711e7113389072c088814255f8d058b65d3,
    bigEndian 32 0x5916a3a8f48086a6769114ed5a658e82fe972e09f0e89d12827ba174bff948b0,
    bigEndian 32 0x56ed3b40026e0f149223c7c7237e14aa51f75e3ce6c0f803b91a130c556549a1,
    bigEndian 32 0x2621236814061fe1d47eba497e76cca95bfacc56ed23b7b513394990135bd6e1]

/-- What the primitives made of the four frames. -/
def record : Record where
  tags := List.zipWith
    (fun body tag =>
      (clientHmac, Protobuf.bytes hbHeader (headerBytes vector) ++ Protobuf.bytes hbBody body,
        tag)) bodies tags
  bodies := List.zipWith (fun plain body => (clientEncrypt, vector, plain, body)) plains bodies

def world : World where
  iv _ := some vector
  writes _ := true

theorem ideal : (completed record).Ideal :=
  completed_ideal (by decide +kernel) (by decide +kernel) (by decide +kernel)

theorem kind : world.Kind :=
  ⟨fun _ => ⟨vector, rfl, by decide +kernel⟩, fun _ => rfl⟩

theorem good : ∀ item ∈ items, item.Good := by
  simp only [items, List.mem_cons, List.not_mem_nil, or_false, forall_eq_or_imp, forall_eq]
  exact ⟨⟨by decide, fun _ => rfl, rfl, by decide, by decide, by decide⟩, by decide +kernel,
    by decide, by decide⟩

end Hi

/-- The file and the sharing frame of the record get there. -/
theorem hi_delivered :
    (∀ item ∈ Hi.items, item.Good) ∧
      EndToEnd (completed Hi.record) Hi.world Link.Hello.helloKeys .client Hi.items :=
  ⟨Hi.good, delivered Hi.ideal Hi.kind (by decide +kernel) Hi.good (by decide)⟩

/-- An empty file with a name of 5 MiB. -/
def longNamed : OutFile :=
  { name := List.replicate (5 * 1024 * 1024) 'a', mime := [], size := 0 }

/-- **A name that is too long.**  The file is sent like any other, nothing goes wrong
on the way, and it does not arrive. -/
theorem long_name_refused :
    (completed Hi.record).Ideal ∧ Hi.world.Kind ∧ longNamed.size = ([] : Bytes).length ∧
      ¬ EndToEnd (completed Hi.record) Hi.world Link.Hello.helloKeys .client
        [.file longNamed 7 ⟨[], []⟩ fun _ => false] := by
  have hname : (asBytes longNamed.name).length = Framing.maxFrame := asBytes_replicate _
  refine ⟨Hi.ideal, Hi.kind, rfl, ?_⟩
  apply not_endToEnd_of_long_name Hi.ideal Hi.kind (by decide +kernel)
  · rw [hname]
  · rw [hname]
    decide
  · exact fun _ => rfl

end Deliver

end Quickshare
