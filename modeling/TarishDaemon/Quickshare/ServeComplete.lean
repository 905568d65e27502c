import Mathlib.Algebra.GroupWithZero.Nat
import TarishDaemon.Quickshare.ServeConsent

/-!
# An accepted offer, to its end

Once the person has said yes, the peer streams the files it announced, in chunks and
in whatever order it likes between them.  The loop ends when the map filled from the
introduction is empty.  `Honest` says what such a peer sends, `Luck` what the world
around it decides, and `supplied` takes a step on what is left of the peer's frames.

The map is filled from the files alone, and a BYTES payload is read as a sharing
frame; a name may be one that is not stored; the assembler holds at most thirty-two
payloads.  Offers that run into these end in an error (`some_offers_refused`).  For the
files of an introduction without texts, under names that can be stored and with never
more than thirty-two of them under way, `offer_completes`.
-/

namespace Quickshare

open Rust Protocol Protocol.Sharing Protocol.Fsm Sharingd
open Protocol.Frames (PayloadHeader PayloadChunk PayloadTransfer)
open Protocol.Payload (InFlight Assembler maxInFlight)

/-- A chunk with the header it is sent under. -/
abbrev Sent := PayloadHeader × PayloadChunk

/-- The chunks of one payload, in the order they are sent. -/
def chunksFor (id : Int) (xs : List Sent) : List PayloadChunk :=
  (xs.filter fun x => x.1.id = id).map Prod.snd

/-- The bytes of some chunks. -/
def bytesIn (xs : List PayloadChunk) : Nat :=
  (xs.map fun x => x.body.length).sum

/-- The rest of a payload of which so much has been sent: each chunk starts where the
one before it ends, and the final one alone says that it is. -/
def Streams : Nat → List PayloadChunk → Prop
  | _, [] => False
  | sent, [x] => x.offset = sent ∧ x.isLast = true
  | sent, x :: y :: xs =>
      x.offset = sent ∧ x.isLast = false ∧ Streams (sent + x.body.length) (y :: xs)

instance decidableStreams : (sent : Nat) → (xs : List PayloadChunk) → Decidable (Streams sent xs)
  | _, [] => .isFalse id
  | sent, [x] => inferInstanceAs (Decidable (x.offset = sent ∧ x.isLast = true))
  | sent, x :: y :: xs =>
      have := decidableStreams (sent + x.body.length) (y :: xs)
      inferInstanceAs (Decidable (x.offset = sent ∧ x.isLast = false ∧
        Streams (sent + x.body.length) (y :: xs)))

/-- One file of the introduction as an honest peer sends it: all under one header, no
more bytes than the header says, and under a name that can be stored. -/
structure HonestFile (f : FileMetadata) (xs : List Sent) (h : PayloadHeader) (sent : Nat) :
    Prop where
  id : h.id = f.payloadId
  isFile : h.payloadType = .file
  size : 0 ≤ h.totalSize
  header : ∀ x ∈ xs, x.1.id = f.payloadId → x.1 = h
  streams : Streams sent (chunksFor f.payloadId xs)
  within : 0 < h.totalSize → ((sent + bytesIn (chunksFor f.payloadId xs) : Nat) : Int) ≤ h.totalSize
  bound : sent + bytesIn (chunksFor f.payloadId xs) < 2 ^ 63
  name : safeLeaf (Serve.pickName f h) ≠ none

/-- At no point are there more than `maxInFlight` payloads under way; `going` are those
that are. -/
def NeverCrowded : List Int → List Sent → Prop
  | _, [] => True
  | going, x :: xs =>
      (x.1.id ∈ going ∨ going.length < maxInFlight) ∧
        NeverCrowded
          (if x.2.isLast then going.erase x.1.id else x.1.id :: going.erase x.1.id) xs

instance decidableNeverCrowded :
    (going : List Int) → (xs : List Sent) → Decidable (NeverCrowded going xs)
  | _, [] => .isTrue trivial
  | going, x :: xs =>
      have := decidableNeverCrowded
        (if x.2.isLast then going.erase x.1.id else x.1.id :: going.erase x.1.id) xs
      inferInstanceAs (Decidable ((x.1.id ∈ going ∨ going.length < maxInFlight) ∧ NeverCrowded
        (if x.2.isLast then going.erase x.1.id else x.1.id :: going.erase x.1.id) xs))

/-- What an honest peer sends for an introduction without texts: its files, the chunks
of one between those of another. -/
structure Honest (i : Introduction) (xs : List Sent) : Prop where
  files : i.files ≠ []
  texts : i.texts = []
  distinct : (i.files.map FileMetadata.payloadId).Nodup
  announced : ∀ x ∈ xs, x.1.id ∈ i.files.map FileMetadata.payloadId
  honest : ∀ f ∈ i.files, ∃ h, HonestFile f xs h 0
  uncrowded : NeverCrowded [] xs

/-- The frame carries the chunk, whoever encoded it. -/
def Carries (plain : Bytes) (x : Sent) : Prop :=
  ∃ control, Frames.parse plain = .ok (.payloadTransfer
    { packetType := .data, header := x.1, chunk := some x.2, control := control })

/-- What a world in which nothing fails still decides: how a handover goes, and how many
of the peer's frames it reads and queues. -/
structure Luck where
  wrote : List Bytes := []
  result : Option Bool := some false
  queues : Nat := 0

/-- The world's answers, with these frames of the peer still to come. -/
def Luck.env (luck : Luck) (plains : List Bytes) : Env :=
  { read := plains.head?
    handover := { wrote := luck.wrote, queued := plains.take luck.queues, result := luck.result } }

/-- What is left of the peer's frames after a step. -/
def Serve.unread (w : Serve) (luck : Luck) (plains : List Bytes) : List Bytes :=
  match w.batch with
  | .beginReceiving _ :: _ =>
      if !w.upgraded && w.bootstrapIsSlow then plains.drop luck.queues else plains
  | _ :: _ => plains
  | [] => if w.pending = [] ∧ w.deferred = [] then plains.tail else plains

/-- One step of the loop on the peer's frames. -/
def supplied (s : Serve × List Bytes) (luck : Luck) : Option (Serve × List Bytes) :=
  (s.1.step (luck.env s.2)).map fun w => (w, s.1.unread luck s.2)

/-- The person has just said yes to `i`.  Everything the peer has sent so far has been
read, and was whole. -/
structure JustAccepted (i : Introduction) (w : Serve) : Prop where
  running : w.outcome = none
  state : w.fsm.state = .transferring
  batch : w.batch = []
  pending : w.pending = [.send (response .accept), .beginReceiving i]
  assembler : w.assembler = {}
  deferred : w.deferred = []

/-- The files fit into the inbox. -/
def HasRoom (i : Introduction) (w : Serve) : Prop :=
  w.host.inbox.keys.length + i.files.length ≤ 10000

theorem assembler_eq_empty_iff (a : Assembler) : a = {} ↔ a.inFlight.keys = [] := by
  constructor
  · rintro rfl
    rfl
  · intro h
    obtain ⟨inFlight⟩ := a
    congr
    exact AList.ext (List.map_eq_nil_iff.mp h)

-- by the keys: the maps themselves are compared through an extensionality the kernel does
-- not evaluate
instance (i : Introduction) (w : Serve) : Decidable (JustAccepted i w) :=
  decidable_of_iff (w.outcome = none ∧ w.fsm.state = .transferring ∧ w.batch = [] ∧
      w.pending = [.send (response .accept), .beginReceiving i] ∧
      w.assembler.inFlight.keys = [] ∧ w.deferred = [])
    ⟨fun ⟨a, b, c, d, e, f⟩ => ⟨a, b, c, d, (assembler_eq_empty_iff _).mpr e, f⟩,
      fun ⟨a, b, c, d, e, f⟩ => ⟨a, b, c, d, (assembler_eq_empty_iff _).mp e, f⟩⟩

instance (i : Introduction) (w : Serve) : Decidable (HasRoom i w) :=
  inferInstanceAs (Decidable (_ ≤ _))

/-! ## Streams -/

variable {w w' : Serve} {id : Int} {x : Sent} {xs : List Sent}

theorem chunksFor_cons_self (x : Sent) (xs : List Sent) :
    chunksFor x.1.id (x :: xs) = x.2 :: chunksFor x.1.id xs := by
  simp [chunksFor]

theorem chunksFor_cons_of_ne (h : x.1.id ≠ id) (xs : List Sent) :
    chunksFor id (x :: xs) = chunksFor id xs := by
  simp [chunksFor, h]

theorem mem_ids_iff : id ∈ xs.map (fun x => x.1.id) ↔ chunksFor id xs ≠ [] := by
  simp [chunksFor, List.filter_eq_nil_iff]

theorem Streams.ne_nil {sent : Nat} {cs : List PayloadChunk} (h : Streams sent cs) : cs ≠ [] := by
  rintro rfl
  exact h

/-- The next chunk of a stream. -/
theorem Streams.head {sent : Nat} {c : PayloadChunk} {cs : List PayloadChunk}
    (h : Streams sent (c :: cs)) :
    c.offset = sent ∧ (c.isLast = true ∧ cs = [] ∨
      c.isLast = false ∧ Streams (sent + c.body.length) cs) := by
  cases cs with
  | nil => exact ⟨h.1, .inl ⟨h.2, rfl⟩⟩
  | cons d cs => exact ⟨h.1, .inr h.2⟩

theorem bytesIn_cons (c : PayloadChunk) (cs : List PayloadChunk) :
    bytesIn (c :: cs) = c.body.length + bytesIn cs := by
  simp [bytesIn]

/-- A chunk of another payload. -/
theorem HonestFile.other {f : FileMetadata} {h : PayloadHeader} {sent : Nat}
    (honest : HonestFile f (x :: xs) h sent) (ne : x.1.id ≠ f.payloadId) :
    HonestFile f xs h sent := by
  have same := chunksFor_cons_of_ne ne xs
  exact { honest with
    header := fun y hy => honest.header y (List.mem_cons_of_mem _ hy)
    streams := by rw [← same]; exact honest.streams
    within := by rw [← same]; exact honest.within
    bound := by rw [← same]; exact honest.bound }

/-- What is still to come begins with the next chunk. -/
theorem HonestFile.upcoming {f : FileMetadata} {h : PayloadHeader} {sent : Nat}
    (honest : HonestFile f (x :: xs) h sent) (mine : x.1.id = f.payloadId) :
    Streams sent (x.2 :: chunksFor f.payloadId xs) ∧
      (0 < h.totalSize → ((sent + x.2.body.length + bytesIn (chunksFor f.payloadId xs) : Nat) :
        Int) ≤ h.totalSize) ∧
      sent + x.2.body.length + bytesIn (chunksFor f.payloadId xs) < 2 ^ 63 := by
  have hchunks : chunksFor f.payloadId (x :: xs) = x.2 :: chunksFor f.payloadId xs := by
    rw [← mine, chunksFor_cons_self]
  have hbytes : sent + bytesIn (chunksFor f.payloadId (x :: xs)) =
      sent + x.2.body.length + bytesIn (chunksFor f.payloadId xs) := by
    rw [hchunks, bytesIn_cons, Nat.add_assoc]
  exact ⟨hchunks ▸ honest.streams, hbytes ▸ honest.within, hbytes ▸ honest.bound⟩

/-- A chunk of this one that is not its last. -/
theorem HonestFile.next {f : FileMetadata} {h : PayloadHeader} {sent : Nat}
    (honest : HonestFile f (x :: xs) h sent) (mine : x.1.id = f.payloadId)
    (more : x.2.isLast = false) : HonestFile f xs h (sent + x.2.body.length) := by
  obtain ⟨hstreams, hwithin, hbound⟩ := honest.upcoming mine
  obtain ⟨-, ⟨hlast, -⟩ | ⟨-, hrest⟩⟩ := hstreams.head
  · rw [more] at hlast
    cases hlast
  · exact { honest with
      header := fun y hy => honest.header y (List.mem_cons_of_mem _ hy)
      streams := hrest
      within := hwithin
      bound := hbound }

/-! ## What a chunk does -/

/-- The two states differ in the disk, the writers and the record at most. -/
structure Alike (w w' : Serve) : Prop where
  outcome : w'.outcome = w.outcome
  batch : w'.batch = w.batch
  pending : w'.pending = w.pending
  deferred : w'.deferred = w.deferred
  fsm : w'.fsm = w.fsm
  assembler : w'.assembler = w.assembler
  expected : w'.expected = w.expected

theorem Alike.trans {w'' : Serve} (h : Alike w w') (h' : Alike w' w'') : Alike w w'' where
  outcome := h'.outcome.trans h.outcome
  batch := h'.batch.trans h.batch
  pending := h'.pending.trans h.pending
  deferred := h'.deferred.trans h.deferred
  fsm := h'.fsm.trans h.fsm
  assembler := h'.assembler.trans h.assembler
  expected := h'.expected.trans h.expected

/-- There is room in the inbox for every file expected that has no writer yet. -/
def Spacious (w : Serve) : Prop :=
  w.host.inbox.keys.length + w.expected.keys.length ≤ 10000 + w.sinks.keys.length

/-- A payload without a writer, so there are more expected than open. -/
theorem sinks_lt_expected (sunk : ∀ id ∈ w.sinks, id ∈ w.expected) (hid : id ∈ w.expected)
    (closed : id ∉ w.sinks) : w.sinks.keys.length < w.expected.keys.length := by
  have hnodup : (id :: w.sinks.keys).Nodup :=
    List.nodup_cons.mpr ⟨fun h => closed (AList.mem_keys.mpr h), w.sinks.keys_nodup⟩
  have hsub : id :: w.sinks.keys ⊆ w.expected.keys := by
    intro j hj
    rcases List.mem_cons.mp hj with rfl | hj
    · exact AList.mem_keys.mp hid
    · exact AList.mem_keys.mp (sunk j (AList.mem_keys.mpr hj))
  exact (List.subperm_of_subset hnodup hsub).length_le

/-- The path holds so little that a chunk still fits. -/
def FitsIn (h : QsHost) (path : Text) (data : Bytes) : Prop :=
  ∃ old, h.inbox.lookup path = some old ∧ old.length + data.length ≤ maxFile

/-- A writer is there or can be had. -/
theorem openSink_ok {e : Env} (header : PayloadHeader) (opens : e.opens = true) {name : Text}
    {data : Bytes} (safe : safeLeaf name ≠ none) (spacious : Spacious w)
    (sunk : ∀ id ∈ w.sinks, id ∈ w.expected) (hid : id ∈ w.expected)
    (fits : ∀ path, w.sinks.lookup id = some path → FitsIn w.host path data)
    (small : data.length ≤ maxFile) :
    ∃ w' path, w.openSink e id header name = .ok (w', path) ∧ Alike w w' ∧ id ∈ w'.sinks ∧
      Spacious w' ∧ FitsIn w'.host path data := by
  unfold Serve.openSink
  cases hsink : w.sinks.lookup id with
  | some path =>
      have hmem : id ∈ w.sinks := AList.lookup_isSome.mp (by rw [hsink]; rfl)
      exact ⟨w, path, rfl, ⟨rfl, rfl, rfl, rfl, rfl, rfl, rfl⟩, hmem, spacious, fits path hsink⟩
  | none =>
      have hclosed : id ∉ w.sinks := AList.lookup_eq_none.mp hsink
      have hlt := sinks_lt_expected sunk hid hclosed
      have hroom : w.host.inbox.keys.length < 10000 := by
        unfold Spacious at spacious
        omega
      obtain ⟨host, path, hcreate⟩ := QsHost.create_ok safe hroom
      obtain ⟨hfree, hhost⟩ := QsHost.create_spec hcreate
      dsimp only
      rw [opens, hcreate]
      refine ⟨_, path, rfl, ⟨rfl, rfl, rfl, rfl, rfl, rfl, rfl⟩, ?_, ?_, ?_⟩
      · exact (AList.mem_insert _).mpr (.inl rfl)
      · unfold Spacious at spacious ⊢
        simp only [Serve.note, hhost, length_insert_of_notMem hfree,
          length_insert_of_notMem hclosed]
        omega
      · refine ⟨[], ?_, by simpa using small⟩
        simp [Serve.note, hhost]

/-- The chunk is written, and a report made of it. -/
theorem writeChunk_ok {e : Env} (id : Int) (disk : e.diskStops = none) {path : Text} {data : Bytes}
    (fits : FitsIn w.host path data) (spacious : Spacious w) (last : Bool) :
    ∃ w', w.writeChunk e id path data last = (if last then w'.complete e id else w') ∧
      Alike w w' ∧ w'.sinks = w.sinks ∧ Spacious w' := by
  obtain ⟨old, hold, hsmall⟩ := fits
  have hok : (w.host.write path data e.diskStops).2 = true := by
    simp only [QsHost.write, hold, disk, Option.getD_some, Option.getD_none, decide_eq_true_eq]
    omega
  have hkeys : (w.host.write path data e.diskStops).1.inbox.keys.length =
      w.host.inbox.keys.length := by
    have hmem : path ∈ w.host.inbox := AList.lookup_isSome.mp (by rw [hold]; rfl)
    exact length_insert_of_mem hmem _
  have hreport : ∀ v : Serve, Alike v (v.report data last) ∧
      (v.report data last).sinks = v.sinks ∧ (v.report data last).host = v.host := by
    intro v
    unfold Serve.report
    dsimp only
    split <;> exact ⟨⟨rfl, rfl, rfl, rfl, rfl, rfl, rfl⟩, rfl, rfl⟩
  unfold Serve.writeChunk
  dsimp only
  rw [if_neg (by rw [hok]; simp)]
  have hwrote : Alike w ({ w with
      host := (w.host.write path data e.diskStops).1 }.note [.wrote id data]) :=
    ⟨rfl, rfl, rfl, rfl, rfl, rfl, rfl⟩
  obtain ⟨hreported, hsinks, hhost⟩ := hreport ({ w with
    host := (w.host.write path data e.diskStops).1 }.note [.wrote id data])
  generalize Serve.report _ data last = v at hreported hsinks hhost ⊢
  have alike := hwrote.trans hreported
  have hspacious : Spacious v := by
    unfold Spacious at spacious ⊢
    rw [hhost, hsinks, alike.expected]
    simp only [Serve.note, hkeys]
    exact spacious
  cases last with
  | false => exact ⟨v, rfl, alike, hsinks, hspacious⟩
  | true =>
      refine ⟨v.note [.delivered id], rfl, alike.trans ?_, hsinks, hspacious⟩
      exact ⟨rfl, rfl, rfl, rfl, rfl, rfl, rfl⟩

/-- A chunk of a file that was announced. -/
theorem fileChunk_ok {e : Env} (opens : e.opens = true) (disk : e.diskStops = none)
    {f : FileMetadata} (hf : w.expected.lookup id = some f) {header : PayloadHeader} {data : Bytes}
    (safe : safeLeaf (Serve.pickName f header) ≠ none) (spacious : Spacious w)
    (sunk : ∀ id ∈ w.sinks, id ∈ w.expected)
    (fits : ∀ path, w.sinks.lookup id = some path → FitsIn w.host path data)
    (small : data.length ≤ maxFile) (last : Bool) :
    ∃ v, Alike w v ∧ Spacious v ∧ id ∈ v.sinks ∧
      w.fileChunk e id data last header = if last then v.complete e id else v := by
  have hid : id ∈ w.expected := AList.lookup_isSome.mp (by rw [hf]; rfl)
  obtain ⟨w₁, path, hopen, alike₁, hsink, spacious₁, fits₁⟩ :=
    openSink_ok header opens safe spacious sunk hid fits small
  obtain ⟨v, hwrite, alike₂, hsinks, spacious₂⟩ :=
    writeChunk_ok id disk fits₁ spacious₁ last
  refine ⟨v, alike₁.trans alike₂, spacious₂, by rw [hsinks]; exact hsink, ?_⟩
  unfold Serve.fileChunk
  rw [hf]
  dsimp only
  rw [hopen]
  exact hwrite

/-- The payload is off the list of what is expected. -/
def Serve.arrived (w : Serve) (id : Int) : Serve :=
  { w with sinks := w.sinks.erase id, expected := w.expected.erase id }

theorem complete_eq {e : Env} (flushes : e.flushes = true) (w : Serve) (id : Int) :
    w.complete e id =
      if (w.expected.erase id).keys = [] then (w.arrived id).feed .transferComplete
      else w.arrived id := by
  unfold Serve.complete
  rw [flushes]
  rfl

theorem Spacious.arrived (spacious : Spacious w) (hsink : id ∈ w.sinks) (hid : id ∈ w.expected) :
    Spacious (w.arrived id) := by
  have hsinks := length_erase_of_mem hsink
  have hexpected := length_erase_of_mem hid
  unfold Spacious Serve.arrived at *
  dsimp only
  omega

/-! ## The transfer -/

/-- Between two chunks: `xs` are still to come. -/
structure Going (w : Serve) (xs : List Sent) : Prop where
  running : w.outcome = none
  batch : w.batch = []
  pending : w.pending = []
  state : w.fsm.state = .transferring
  live : Live w
  due : ∀ id, id ∈ w.expected ↔ id ∈ xs.map fun x => x.1.id
  files : ∀ id f, w.expected.lookup id = some f → f.payloadId = id ∧
    ∃ h sent, HonestFile f xs h sent ∧
      w.assembler.entry h = { header := h, received := (sent : Int) }
  uncrowded : NeverCrowded w.assembler.inFlight.keys xs
  spacious : Spacious w

theorem entry_eq (a : Assembler) (h : PayloadHeader) :
    a.entry h = (a.track h.id).getD { header := h } :=
  rfl

/-- What the assembler does with the next chunk. -/
theorem Going.accept (going : Going w (x :: xs)) {f : FileMetadata} {h : PayloadHeader} {sent : Nat}
    (honest : HonestFile f (x :: xs) h sent) (mine : x.1.id = f.payloadId)
    (hentry : w.assembler.entry h = { header := h, received := (sent : Int) }) :
    w.assembler.acceptChunk x.1 x.2 =
      (if x.2.isLast then w.assembler.remove x.1.id
        else w.assembler.put x.1.id
          { header := h, received := ((sent + x.2.body.length : Nat) : Int) },
        .ok (.fileChunk x.1.id x.2.offset x.2.body x.2.isLast h)) := by
  have hx : x.1 = h := honest.header x (by simp) mine
  obtain ⟨hstreams, hwithin, hbound⟩ := honest.upcoming mine
  have hoffset := hstreams.head.1
  have hsum : saturatingAdd (sent : Int) x.2.body.length =
      ((sent + x.2.body.length : Nat) : Int) := saturatingAdd_natCast (by omega)
  have hcontinues : Assembler.Continues (w.assembler.entry x.1) x.2 := by
    rw [hx, hentry]
    refine ⟨by simp [honest.isFile], hoffset, by omega, ?_⟩
    intro hpos
    have := hwithin hpos
    dsimp only
    rw [hsum]
    omega
  have hroom : w.assembler.HasRoom x.1.id := by
    rcases going.uncrowded.1 with h | h
    · exact .inl (AList.mem_keys.mpr h)
    · exact .inr h
  rw [Assembler.acceptChunk_file hroom (by rw [hx]; exact honest.size) hcontinues]
  simp only [hx, hentry, hsum]

/-- The assembler after the chunk. -/
def took (a : Assembler) (x : Sent) (entry : InFlight) : Assembler :=
  if x.2.isLast then a.remove x.1.id else a.put x.1.id entry

theorem took_keys (a : Assembler) (x : Sent) (entry : InFlight) :
    (took a x entry).inFlight.keys =
      if x.2.isLast then a.inFlight.keys.erase x.1.id
      else x.1.id :: a.inFlight.keys.erase x.1.id := by
  unfold took
  split
  · exact AList.keys_erase _ _
  · exact AList.keys_insert _

theorem entry_took_of_ne (a : Assembler) (entry : InFlight) {h : PayloadHeader}
    (ne : h.id ≠ x.1.id) : (took a x entry).entry h = a.entry h := by
  rw [entry_eq, entry_eq]
  unfold took
  split
  · rw [Assembler.track_remove, Function.update_of_ne ne]
  · rw [Assembler.track_put, Function.update_of_ne ne]

theorem entry_took_self (a : Assembler) (entry : InFlight) {h : PayloadHeader}
    (same : h.id = x.1.id) (more : x.2.isLast = false) :
    (took a x entry).entry h = entry := by
  rw [entry_eq, took, more, same]
  simp

/-- The files that are still expected go on where they are. -/
theorem Going.files_next (going : Going w (x :: xs)) {f : FileMetadata} {h : PayloadHeader}
    {sent : Nat} (honest : HonestFile f (x :: xs) h sent) (mine : x.1.id = f.payloadId)
    {j : Int} {g : FileMetadata} (hg : w.expected.lookup j = some g)
    (hopen : j = x.1.id → w.expected.lookup j = some f ∧ x.2.isLast = false) :
    g.payloadId = j ∧ ∃ h' sent', HonestFile g xs h' sent' ∧
      (took w.assembler x
        { header := h, received := ((sent + x.2.body.length : Nat) : Int) }).entry h' =
        { header := h', received := (sent' : Int) } := by
  obtain ⟨hid, h', sent', honest', hentry'⟩ := going.files j g hg
  refine ⟨hid, ?_⟩
  by_cases hj : j = x.1.id
  · obtain ⟨hf, more⟩ := hopen hj
    cases hg.symm.trans hf
    refine ⟨h, _, honest.next mine more, ?_⟩
    rw [entry_took_self _ _ (by rw [honest.id, mine]) more]
  · refine ⟨h', sent', honest'.other (by rw [hid]; exact fun heq => hj heq.symm), ?_⟩
    rw [entry_took_of_ne _ _ (by rw [honest'.id, hid]; exact hj), hentry']

/-- The loop with the chunk in hand: the assembler has taken it, the disk not yet. -/
def Serve.holding (w : Serve) (x : Sent) (entry : InFlight) : Serve :=
  { w with deferred := w.deferred.tail, assembler := took w.assembler x entry }

/-- What a pass does with the next chunk. -/
theorem Going.turn (going : Going w (x :: xs)) {luck : Luck} {plains : List Bytes} {plain : Bytes}
    (hnext : w.nextPlain (luck.env plains) = some plain) (carries : Carries plain x)
    {f : FileMetadata} {h : PayloadHeader} {sent : Nat} (honest : HonestFile f (x :: xs) h sent)
    (mine : x.1.id = f.payloadId)
    (hentry : w.assembler.entry h = { header := h, received := (sent : Int) }) :
    w.step (luck.env plains) = some (((w.holding x
      { header := h, received := ((sent + x.2.body.length : Nat) : Int) }).fileChunk
        (luck.env plains) x.1.id x.2.body x.2.isLast h).nextPass) := by
  obtain ⟨control, hparse⟩ := carries
  have haccept : w.assembler.accept
      { packetType := .data, header := x.1, chunk := some x.2, control := control } =
      (took w.assembler x { header := h, received := ((sent + x.2.body.length : Nat) : Int) },
        .ok (.fileChunk x.1.id x.2.offset x.2.body x.2.isLast h)) :=
    going.accept honest mine hentry
  simp only [Serve.step, going.running, going.batch, Serve.turn, going.pending, Serve.read, hnext,
    hparse, Serve.handleFrame, haccept, Serve.payloadEvent, Serve.holding]
  rfl

/-- An open writer has the bytes the assembler counted. -/
theorem Going.fits (going : Going w (x :: xs)) {f : FileMetadata} {h : PayloadHeader} {sent : Nat}
    (honest : HonestFile f (x :: xs) h sent) (mine : x.1.id = f.payloadId)
    (hentry : w.assembler.entry h = { header := h, received := (sent : Int) }) {path : Text}
    (hsink : w.sinks.lookup x.1.id = some path) : FitsIn w.host path x.2.body := by
  obtain ⟨o, -, -, -, data, entry, hdata, htrack, tracks⟩ := going.live.files.sink _ path hsink
  have hid : h.id = x.1.id := by rw [honest.id, mine]
  have hsame : entry = { header := h, received := (sent : Int) } := by
    rw [← hentry, entry_eq, hid, htrack]
    rfl
  have hlen := tracks.received
  have hbound := (honest.upcoming mine).2.2
  rw [hsame] at hlen
  refine ⟨data, hdata, ?_⟩
  unfold maxFile
  dsimp only at hlen
  omega

/-- Who is due after the chunk. -/
theorem Going.due_next (going : Going w (x :: xs)) {f : FileMetadata} {h : PayloadHeader}
    {sent : Nat} (honest : HonestFile f (x :: xs) h sent) (mine : x.1.id = f.payloadId) (j : Int) :
    j ∈ xs.map (fun x => x.1.id) ↔
      j ∈ w.expected ∧ (j = x.1.id → x.2.isLast = false) := by
  have hstreams := (honest.upcoming mine).1
  rw [← mine] at hstreams
  rw [going.due j, List.map_cons, List.mem_cons]
  by_cases hj : j = x.1.id
  · subst hj
    rw [mem_ids_iff]
    obtain ⟨-, ⟨hlast, hnil⟩ | ⟨hmore, hrest⟩⟩ := hstreams.head
    · simp [hlast, hnil]
    · simp [hmore, hrest.ne_nil]
  · simp [hj]

/-- A chunk with others to come. -/
theorem Going.next (going : Going w (x :: xs)) {f : FileMetadata} {h : PayloadHeader} {sent : Nat}
    (honest : HonestFile f (x :: xs) h sent) (hf : w.expected.lookup x.1.id = some f)
    (mine : x.1.id = f.payloadId) {v : Serve}
    (running : v.outcome = none) (batch : v.batch = []) (pending : v.pending = [])
    (fsm : v.fsm = w.fsm) (live : Live v)
    (assembler : v.assembler =
      took w.assembler x { header := h, received := ((sent + x.2.body.length : Nat) : Int) })
    (expected : v.expected = if x.2.isLast then w.expected.erase x.1.id else w.expected)
    (spacious : Spacious v) : Going v xs where
  running := running
  batch := batch
  pending := pending
  state := by rw [fsm, going.state]
  live := live
  spacious := spacious
  uncrowded := by
    rw [assembler, took_keys]
    exact going.uncrowded.2
  due j := by
    rw [going.due_next honest mine j, expected]
    cases x.2.isLast with
    | false => simp
    | true => simp [and_comm]
  files j g hg := by
    rw [assembler]
    rw [expected] at hg
    cases hlast : x.2.isLast with
    | false =>
        rw [hlast, if_neg (by simp)] at hg
        exact going.files_next honest mine hg fun hj => ⟨by rw [hj]; exact hf, hlast⟩
    | true =>
        rw [hlast, if_pos rfl] at hg
        have hj : j ≠ x.1.id := by
          rintro rfl
          rw [AList.lookup_erase] at hg
          cases hg
        rw [AList.lookup_erase_ne hj] at hg
        exact going.files_next honest mine hg fun heq => absurd heq hj

/-- **One chunk.**  The transfer goes on, or that was the last of it. -/
theorem Going.step (going : Going w (x :: xs)) {luck : Luck} {plains : List Bytes} {plain : Bytes}
    (hnext : w.nextPlain (luck.env plains) = some plain) (carries : Carries plain x) :
    ∃ w', w.step (luck.env plains) = some w' ∧ w'.deferred = w.deferred.tail ∧
      (xs ≠ [] ∧ Going w' xs ∨ xs = [] ∧ w'.outcome = none ∧ w'.batch = [.done] ∧
        w'.fsm.state = .done) := by
  have hmem : x.1.id ∈ w.expected := (going.due _).mpr (by simp)
  obtain ⟨f, hf⟩ := Option.isSome_iff_exists.mp (AList.lookup_isSome.mpr hmem)
  obtain ⟨hid, h, sent, honest, hentry⟩ := going.files _ f hf
  have hturn := going.turn hnext carries honest hid.symm hentry
  have hdue := going.due_next honest hid.symm
  have hx : x.1 = h := honest.header x (by simp) hid.symm
  have hsmall : x.2.body.length ≤ maxFile := by
    have hbound := (honest.upcoming hid.symm).2.2
    unfold maxFile
    omega
  obtain ⟨v, alike, spacious, hsink, hchunk⟩ := fileChunk_ok
    (w := w.holding x { header := h, received := ((sent + x.2.body.length : Nat) : Int) })
    (e := luck.env plains) rfl rfl hf honest.name going.spacious
    going.live.books.sunk (fun path hpath => going.fits honest hid.symm hentry hpath) hsmall
    x.2.isLast
  rw [hchunk] at hturn
  have hinv := (LiveAt.inv going.live).step hturn
  have hfsm : v.fsm = w.fsm := alike.fsm
  have hexpected : v.expected = w.expected := alike.expected
  have hrunning : v.outcome = none := alike.outcome.trans going.running
  have hpending : v.pending = [] := alike.pending.trans going.pending
  have hdeferred : v.deferred = w.deferred.tail := alike.deferred
  cases hlast : x.2.isLast with
  | false =>
      simp only [hlast, Bool.false_eq_true, if_false] at hturn hinv
      refine ⟨v.nextPass, hturn, hdeferred, .inl ⟨?_, ?_⟩⟩
      · rintro rfl
        exact absurd ((hdue x.1.id).mpr ⟨hmem, fun _ => hlast⟩) List.not_mem_nil
      exact going.next honest hf hid.symm hrunning hpending rfl hfsm (hinv.live hrunning)
        alike.assembler (by rw [hlast]; exact hexpected) spacious
  | true =>
      have hmem' : x.1.id ∈ v.expected := by
        rw [hexpected]
        exact hmem
      have harrived := spacious.arrived hsink hmem'
      simp only [hlast, if_true, complete_eq (e := luck.env plains) rfl] at hturn hinv
      by_cases hempty : (v.expected.erase x.1.id).keys = []
      · rw [if_pos hempty] at hturn
        refine ⟨_, hturn, hdeferred, .inr ⟨?_, hrunning, ?_, ?_⟩⟩
        · -- whoever is still to come would still be expected
          apply List.eq_nil_iff_forall_not_mem.mpr
          intro y hy
          obtain ⟨hin, hne⟩ := (hdue y.1.id).mp (List.mem_map_of_mem hy)
          have hstill : y.1.id ∈ (v.expected.erase x.1.id).keys := by
            rw [← AList.mem_keys, AList.mem_erase, hexpected]
            exact ⟨fun heq => by simp [hlast] at hne; exact hne heq, hin⟩
          rw [hempty] at hstill
          cases hstill
        · simp [Serve.nextPass, Serve.feed, Serve.arrived, hpending, hfsm, Inbound.on, going.state,
            State.isOver]
        · simp [Serve.nextPass, Serve.feed, Serve.arrived, hfsm, Inbound.on, going.state,
            State.isOver]
      · rw [if_neg hempty] at hturn hinv
        have hgoing : Going (v.arrived x.1.id).nextPass xs :=
          going.next honest hf hid.symm hrunning hpending rfl hfsm (hinv.live hrunning)
            alike.assembler (by rw [hlast, if_pos rfl, ← hexpected]; rfl) harrived
        refine ⟨_, hturn, hdeferred, .inl ⟨?_, hgoing⟩⟩
        rintro rfl
        apply hempty
        apply List.eq_nil_iff_forall_not_mem.mpr
        intro j hj
        exact List.not_mem_nil ((hgoing.due j).mp (AList.mem_keys.mpr hj))

/-- So many steps on the peer's frames. -/
def supplies (luck : Nat → Luck) : Nat → Serve × List Bytes → Option (Serve × List Bytes)
  | 0, s => some s
  | n + 1, s => (supplied s (luck 0)).bind (supplies (fun k => luck (k + 1)) n)

theorem supplied_eq {luck : Luck} {plains : List Bytes}
    (h : w.step (luck.env plains) = some w') :
    supplied (w, plains) luck = some (w', w.unread luck plains) := by
  unfold supplied
  rw [h]
  rfl

theorem supplies_succ {luck : Nat → Luck} {n : Nat} {s s' : Serve × List Bytes}
    (h : supplied s (luck 0) = some s') :
    supplies luck (n + 1) s = supplies (fun k => luck (k + 1)) n s' := by
  rw [supplies, h]
  rfl

/-- The next frame comes from the queue a handover left, or from the socket. -/
theorem Going.input (going : Going w xs) {plain : Bytes} {plains rest : List Bytes} (luck : Luck)
    (h : w.deferred ++ plains = plain :: rest) :
    w.nextPlain (luck.env plains) = some plain ∧
      w.deferred.tail ++ w.unread luck plains = rest := by
  unfold Serve.nextPlain Serve.unread
  rw [going.batch, going.pending]
  cases hdeferred : w.deferred with
  | nil =>
      rw [hdeferred, List.nil_append] at h
      subst h
      exact ⟨rfl, rfl⟩
  | cons first later =>
      rw [hdeferred] at h
      obtain ⟨rfl, rfl⟩ := List.cons_eq_cons.mp h
      exact ⟨rfl, rfl⟩

/-- The loop has left with everything, through `Effect::Done`. -/
def Completed (w : Serve) : Prop :=
  w.fsm.state = .done ∧ w.outcome = some (.ok (.received w.written))

/-- `Effect::Done` is performed. -/
theorem supplied_done (running : w.outcome = none) (batch : w.batch = [.done])
    (state : w.fsm.state = .done) (luck : Luck) (plains : List Bytes) :
    ∃ w', supplied (w, plains) luck = some (w', plains) ∧ Completed w' := by
  have hstep : w.step (luck.env plains) = some (({ w with batch := [] }.note
      [.sent (Frames.disconnection true false)]).finishWith (.received w.written)) := by
    simp only [Serve.step, running, batch]
    rfl
  refine ⟨_, by rw [supplied, hstep, Serve.unread, batch]; rfl, ?_⟩
  unfold Completed Serve.finishWith Serve.finish
  split <;> exact ⟨state, rfl⟩

/-- The run: chunk after chunk, to the end. -/
theorem Going.completes (going : Going w xs) (some_left : xs ≠ []) {plains : List Bytes}
    (carries : List.Forall₂ Carries (w.deferred ++ plains) xs) (luck : Nat → Luck) :
    ∃ n w', supplies luck n (w, plains) = some (w', []) ∧ Completed w' := by
  induction xs generalizing w plains luck with
  | nil => exact absurd rfl some_left
  | cons x xs ih =>
      cases hinput : w.deferred ++ plains with
      | nil =>
          rw [hinput] at carries
          cases carries
      | cons plain rest =>
          rw [hinput] at carries
          obtain ⟨hplain, hrest⟩ := List.forall₂_cons.mp carries
          obtain ⟨hnext, hunread⟩ := going.input (luck 0) hinput
          obtain ⟨w₁, hstep, hdeferred, hcases⟩ := going.step hnext hplain
          have hsupplied := supplied_eq hstep
          rw [← hunread, ← hdeferred] at hrest
          rcases hcases with ⟨hne, hgoing⟩ | ⟨rfl, hrunning, hbatch, hstate⟩
          · obtain ⟨n, w', hrun, hdone⟩ := ih hgoing hne hrest fun k => luck (k + 1)
            exact ⟨n + 1, w', by rw [supplies_succ hsupplied]; exact hrun, hdone⟩
          · have hnil : w.unread (luck 0) plains = [] := by
              have := List.forall₂_nil_right_iff.mp hrest
              exact (List.append_eq_nil_iff.mp this).2
            obtain ⟨w', hlast, hdone⟩ := supplied_done hrunning hbatch hstate (luck 1) []
            refine ⟨2, w', ?_, hdone⟩
            rw [supplies_succ hsupplied, hnil, supplies_succ hlast]
            rfl

/-! ## From the answer to the first chunk -/

theorem mem_expect (files : List FileMetadata) (start : HashMap Int FileMetadata) (j : Int) :
    j ∈ files.foldl (fun e f => e.insert f.payloadId f) start ↔
      j ∈ files.map FileMetadata.payloadId ∨ j ∈ start := by
  induction files generalizing start with
  | nil => simp
  | cons f files ih =>
      rw [List.foldl_cons, ih, AList.mem_insert, List.map_cons, List.mem_cons]
      tauto

theorem length_expect (files : List FileMetadata) (start : HashMap Int FileMetadata) :
    (files.foldl (fun e f => e.insert f.payloadId f) start).keys.length ≤
      start.keys.length + files.length := by
  induction files generalizing start with
  | nil => exact Nat.le_refl _
  | cons f files ih =>
      have hle := ih (start.insert f.payloadId f)
      rw [List.foldl_cons, List.length_cons]
      by_cases hmem : f.payloadId ∈ start
      · have := length_insert_of_mem hmem f
        omega
      · have := length_insert_of_notMem hmem f
        omega

/-- With the files of the introduction expected and nothing received yet. -/
theorem Honest.going {i : Introduction} (honest : Honest i xs) (running : w.outcome = none)
    (batch : w.batch = []) (pending : w.pending = []) (state : w.fsm.state = .transferring)
    (live : Live w) (assembler : w.assembler = {})
    (expected : w.expected = i.files.foldl (fun e f => e.insert f.payloadId f) ∅)
    (room : HasRoom i w) : Going w xs where
  running := running
  batch := batch
  pending := pending
  state := state
  live := live
  due j := by
    rw [expected, mem_expect, or_iff_left (AList.notMem_empty j)]
    constructor
    · intro hj
      obtain ⟨f, hf, rfl⟩ := List.mem_map.mp hj
      obtain ⟨h, file⟩ := honest.honest f hf
      exact mem_ids_iff.mpr file.streams.ne_nil
    · intro hj
      obtain ⟨x, hx, rfl⟩ := List.mem_map.mp hj
      exact honest.announced x hx
  files j f hf := by
    rw [expected] at hf
    rcases lookup_expect i.files hf with ⟨hmem, hid⟩ | hnone
    · obtain ⟨h, file⟩ := honest.honest f hmem
      exact ⟨hid, h, 0, file, by rw [assembler]; rfl⟩
    · cases hnone
  uncrowded := by
    rw [assembler]
    exact honest.uncrowded
  spacious := by
    have hlen := length_expect i.files ∅
    rw [AList.keys_empty, List.length_nil] at hlen
    unfold HasRoom at room
    unfold Spacious
    rw [expected]
    omega

theorem writeOrFail_ok {e : Env} (writes : e.writes = none) (w : Serve) (frames : List Bytes) :
    w.writeOrFail e frames = w.note (frames.map .sent) := by
  simp [Serve.writeOrFail, Serve.write, writes]

/-- Receiving begins.  A handover may have read ahead: nothing of that is lost. -/
theorem beginReceiving_ok {i : Introduction} (running : w.outcome = none)
    (batch : w.batch = [.beginReceiving i]) (deferred : w.deferred = []) (luck : Luck)
    (plains : List Bytes) :
    ∃ w', w.step (luck.env plains) = some w' ∧ w'.deferred ++ w.unread luck plains = plains ∧
      w'.outcome = none ∧ w'.batch = [] ∧ w'.pending = w.pending ∧ w'.fsm = w.fsm ∧
      w'.assembler = w.assembler ∧ w'.host = w.host ∧
      w'.expected = i.files.foldl (fun e f => e.insert f.payloadId f) w.expected := by
  unfold Serve.step Serve.unread
  rw [running, batch]
  dsimp only [Serve.perform, Serve.expect]
  refine ⟨_, rfl, ?_⟩
  split
  · refine ⟨?_, rfl, rfl, rfl, rfl, rfl, rfl, rfl⟩
    simp [Serve.offerGroup, deferred, Luck.env]
  · exact ⟨by rw [deferred]; rfl, rfl, rfl, rfl, rfl, rfl, rfl, rfl⟩

/-- Three steps: the queue is taken, the answer goes out, the files are expected. -/
theorem JustAccepted.going {i : Introduction} (accepted : JustAccepted i w) (live : Live w)
    (honest : Honest i xs) (room : HasRoom i w) (luck : Nat → Luck) (plains : List Bytes) :
    ∃ w' rest, (∀ n, supplies luck (n + 3) (w, plains) =
        supplies (fun k => luck (k + 3)) n (w', rest)) ∧
      Going w' xs ∧ w'.deferred ++ rest = plains := by
  obtain ⟨running, state, batch, pending, assembler, deferred⟩ := accepted
  obtain ⟨hexpected, -, -⟩ := live.books.untouched (.inr (by
    rw [Serve.queue, batch, pending]
    simp [Effect.began]))
  have h₁ : w.step ((luck 0).env plains) = some w.nextPass := by
    simp [Serve.step, running, batch, Serve.turn, Luck.env, pending]
  have hbatch : w.nextPass.batch = [.send (response .accept), .beginReceiving i] := pending
  have h₂ : w.nextPass.step ((luck 1).env plains) = some
      ({ w.nextPass with
        batch := [.beginReceiving i]
        nextPayloadId := (wrapBytes w.nextPayloadId (response .accept)).1 }.note
          ((wrapBytes w.nextPayloadId (response .accept)).2.map .sent)) := by
    have hrunning : w.nextPass.outcome = none := running
    simp only [Serve.step, hrunning, hbatch, Serve.perform]
    rw [writeOrFail_ok rfl]
    rfl
  have hinv := ((LiveAt.inv live).step h₁).step h₂
  obtain ⟨w₃, h₃, hinput, hrun₃, hbatch₃, hpending₃, hfsm₃, hasm₃, hhost₃, hexp₃⟩ :=
    beginReceiving_ok (i := i) (w := { w.nextPass with
        batch := [.beginReceiving i]
        nextPayloadId := (wrapBytes w.nextPayloadId (response .accept)).1 }.note
          ((wrapBytes w.nextPayloadId (response .accept)).2.map .sent)) running rfl deferred
      (luck 2) plains
  refine ⟨w₃, _, ?_, ?_, hinput⟩
  · intro n
    rw [supplies_succ (n := n + 2) (supplied_eq h₁)]
    have hunread₁ : w.unread (luck 0) plains = plains := by
      simp [Serve.unread, batch, pending]
    rw [hunread₁, supplies_succ (n := n + 1) (supplied_eq h₂)]
    have hunread₂ : w.nextPass.unread (luck 1) plains = plains := by
      unfold Serve.unread
      rw [hbatch]
    rw [hunread₂, supplies_succ (n := n) (supplied_eq h₃)]
  · refine honest.going hrun₃ hbatch₃ hpending₃ (by rw [hfsm₃]; exact state)
      ((hinv.step h₃).live hrun₃) (hasm₃.trans assembler) ?_ ?_
    · rw [hexp₃, ← hexpected]
      rfl
    · unfold HasRoom at room ⊢
      rw [hhost₃]
      exact room

variable {bootstrap : Upgrade.Medium} {fill : Option RandomFill} {host : Int}
  {inbox : HashMap Text Bytes} {steps : List Env}

/-- **Every accepted offer of files completes.**  Whatever went before, once the person
has said yes to an introduction of files, an honest peer streams them in any order that
keeps at most `maxInFlight` of them under way, and the inbox has room for them: the loop
takes every frame without an error and reaches `Effect::Done`, however a handover goes. -/
theorem offer_completes
    (run : Lts.Run (Lts.ofPartial Serve.step) (.init bootstrap fill host inbox) steps w)
    {i : Introduction} (accepted : JustAccepted i w) (honest : Honest i xs) (room : HasRoom i w)
    {plains : List Bytes} (carries : List.Forall₂ Carries plains xs) (luck : Nat → Luck) :
    ∃ n w', supplies luck n (w, plains) = some (w', []) ∧ Completed w' := by
  have live := (inv_of_run run).live accepted.running
  obtain ⟨w', rest, hsteps, going, hinput⟩ := accepted.going live honest room luck plains
  have hsome : xs ≠ [] := by
    rintro rfl
    obtain ⟨f, hf⟩ := List.exists_mem_of_ne_nil _ honest.files
    obtain ⟨h, file⟩ := honest.honest f hf
    exact file.streams
  rw [← hinput] at carries
  obtain ⟨n, last, hrun, hdone⟩ := going.completes hsome carries fun k => luck (k + 3)
  exact ⟨n + 3, last, by rw [hsteps]; exact hrun, hdone⟩

/-! ## One offer that completes, and two that do not -/

/-- The opening of a connection, up to the answer. -/
def untilYes (i : Introduction) : List Env :=
  [{}, peerFrame 1 (pairedKeyResult .unable), peerFrame 2 (introduction i),
    { asking := { answer := some true } }]

def twoPhotos : Introduction :=
  { files := [{ name := "a.jpg".toList, payloadId := 7, size := 3 },
      { name := "b.jpg".toList, payloadId := 8, size := 1 }] }

def secondHeader : PayloadHeader :=
  { id := 8, payloadType := .file, totalSize := 1 }

/-- The second photo between the two chunks of the first. -/
def twoPhotosSent : List Sent :=
  [(photoHeader, { flags := 0, offset := 0, body := [1, 2] }),
    (secondHeader, { flags := Frames.flagLastChunk, offset := 0, body := [9] }),
    (photoHeader, { flags := Frames.flagLastChunk, offset := 2, body := [3] })]

def wireOf (x : Sent) : Bytes :=
  Frames.payloadData x.1 x.2

theorem twoPhotos_honest : Honest twoPhotos twoPhotosSent where
  files := by decide
  texts := rfl
  distinct := by decide
  announced := by decide
  honest := by
    simp only [twoPhotos, List.mem_cons, List.not_mem_nil, or_false, forall_eq_or_imp, forall_eq]
    refine ⟨⟨photoHeader, ?_⟩, ⟨secondHeader, ?_⟩⟩
    · exact ⟨rfl, rfl, by decide, by decide, by decide, by decide, by decide, by decide +kernel⟩
    · exact ⟨rfl, rfl, by decide, by decide, by decide, by decide, by decide, by decide +kernel⟩
  uncrowded := by decide

theorem twoPhotos_carried : List.Forall₂ Carries (twoPhotosSent.map wireOf) twoPhotosSent := by
  refine .cons ⟨none, ?_⟩ (.cons ⟨none, ?_⟩ (.cons ⟨none, ?_⟩ .nil)) <;> decide +kernel

/-- Over Bluetooth, with a handover that succeeds and reads one frame ahead. -/
theorem twoPhotos_complete :
    ∃ w, Lts.Run (Lts.ofPartial Serve.step) (.init .bluetooth (some someFill) 5 ∅)
        (untilYes twoPhotos) w ∧ JustAccepted twoPhotos w ∧
      ∃ n w', supplies (fun _ => { result := some true, queues := 1 }) n
        (w, twoPhotosSent.map wireOf) = some (w', []) ∧ Completed w' := by
  obtain ⟨w, run, hview⟩ := Lts.run_observe Serve.step
    (fun w => decide (JustAccepted twoPhotos w ∧ HasRoom twoPhotos w))
    (show ((untilYes twoPhotos).foldlM Serve.step (.init .bluetooth (some someFill) 5 ∅)).map _ =
      some true by decide +kernel)
  obtain ⟨accepted, room⟩ := of_decide_eq_true hview
  exact ⟨w, run, accepted,
    offer_completes run accepted twoPhotos_honest room twoPhotos_carried _⟩

/-- Somebody accepts `i`, these frames follow, and the loop returns with an error. -/
def Refused (i : Introduction) (frames : List Env) (err : Error) : Prop :=
  ∃ w, Lts.Run (Lts.ofPartial Serve.step) (.init .wifiLan (some someFill) 5 ∅)
      (untilAnswered i true ++ frames) w ∧
    .asked i true ∈ w.log ∧ w.outcome = some (.error err)

def Serve.error (w : Serve) : Option Error :=
  w.outcome.bind fun
    | .error err => some err
    | .ok _ => none

theorem refused_of_eval {i : Introduction} {frames : List Env} {err : Error}
    (h : ((untilAnswered i true ++ frames).foldlM Serve.step
      (.init .wifiLan (some someFill) 5 ∅)).map
        (fun w => (decide (.asked i true ∈ w.log), w.error)) = some (true, some err)) :
    Refused i frames err := by
  obtain ⟨w, run, hview⟩ := Lts.run_observe Serve.step _ h
  obtain ⟨hasked, herr⟩ := Prod.mk.inj hview
  refine ⟨w, run, of_decide_eq_true hasked, ?_⟩
  obtain ⟨out, hout, hsame⟩ := Option.bind_eq_some_iff.mp herr
  cases out with
  | error e => rw [hout, Option.some.inj hsame]
  | ok o => cases hsame

/-- A text of two bytes. -/
def note : Introduction :=
  { texts := [{ title := "hi".toList, payloadId := 7, size := 2 }] }

/-- A file whose name leaves nothing to store it under. -/
def dots : Introduction :=
  { files := [{ name := "..".toList, payloadId := 7, size := 3 }] }

/-- Thirty-three files of two bytes. -/
def crowd : Introduction :=
  { files := (List.range 33).map fun n =>
      { name := Nat.toDigits 10 n, mimeType := ['a'], payloadId := n, size := 2 } }

/-- The first chunk of each, one after the other. -/
def crowdSent : List Env :=
  (List.range 33).map fun n =>
    peerChunk { id := n, payloadType := .file, totalSize := 2 } 0 [1] false

/-- **Three offers that end in an error.**  A text is accepted and, when it arrives, taken
for a sharing frame.  A name is refused when its file is created.  And thirty-three files
are too many to send all at once. -/
theorem some_offers_refused :
    Refused note [peerFrame 7 (asBytes "hi".toList)]
        (.sharingFrame (.malformed "no v1 frame")) ∧
      Refused dots [peerChunk photoHeader 0 [1, 2, 3] true]
        (.create (.refusedName "..".toList)) ∧
      Refused crowd crowdSent (.payload (.tooManyInFlight 32 maxInFlight)) :=
  ⟨refused_of_eval (by decide +kernel), refused_of_eval (by decide +kernel),
    refused_of_eval (by decide +kernel)⟩

end Quickshare
