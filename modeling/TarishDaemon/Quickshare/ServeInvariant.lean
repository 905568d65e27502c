import TarishDaemon.Lib.Run
import TarishDaemon.Quickshare.ServeTalk

/-!
# What the receive loop keeps true

Next to the conversation (`Talk`) the loop keeps two sets of books.  `Books` is
about payload ids: what is expected was listed in an introduction the person
accepted, and has not been delivered; a writer is open only for what is expected.
`Files` is about the disk: every file opened is on record and in the inbox, a
writer that is open holds exactly the bytes the assembler counted, and a file
without its last chunk either has its writer or lost it to the peer's cancel.

The three hold in every state of a run that has not returned (`Live`).  What is
left of them in a state that has is `Safe`.
-/

namespace Quickshare

open Rust Protocol Protocol.Sharing Protocol.Fsm Sharingd
open Protocol.Frames (PayloadHeader PayloadChunk)
open Protocol.Payload (InFlight)
open Protocol.Payload.Assembler (Continues Accepts accepts_accept)

/-- The person said yes to an introduction that lists `f` under `id`. -/
def Listed (log : List Act) (id : Int) (f : FileMetadata) : Prop :=
  ∃ i, .asked i true ∈ log ∧ f ∈ i.files ∧ f.payloadId = id

/-- Opening and writing are for ids of an accepted introduction whose last chunk is
still to come. -/
def Allowed (before : List Act) (act : Act) : Prop :=
  ∀ id, act.touches = some id → (∃ f, Listed before id f) ∧ .delivered id ∉ before

/-- The file was announced, and its name is the one announced or, where that is
empty, the one in the payload's own header. -/
def Announced (log : List Act) (o : Opened) : Prop :=
  ∃ f, Listed log o.id f ∧ o.name = Serve.pickName f o.header

structure Record (log : List Act) : Prop where
  allowed : History.Justified Allowed log
  announced : ∀ o ∈ openings log, Announced log o

/-- The size in the header of the payload's first chunk, where there is one. -/
def Within (o : Opened) (data : Bytes) : Prop :=
  0 < o.header.totalSize → (data.length : Int) ≤ o.header.totalSize

/-- What holds in every state, returned or not.  A cancel that was carried out
(`discarded`) is the only way a file can be missing, or be short of its last chunk
with no writer and no cancel of the peer's to show for it. -/
structure Safe (log : List Act) (sinks : HashMap Int Text) (host : QsHost)
    (written : List Text) : Prop where
  record : Record log
  offers_le : (offers log).length ≤ 1
  ids : ((openings log).map (·.id)).Nodup
  within : ∀ o ∈ openings log, ∀ data, host.inbox.lookup o.path = some data → Within o data
  names : written = (openings log).map (·.name)
  accounted : .discarded ∉ log → ∀ o ∈ openings log,
    .delivered o.id ∈ log ∨ sinks.lookup o.id = some o.path ∨ .dropped o.id ∈ log
  kept : .discarded ∉ log → ∀ o ∈ openings log, o.path ∈ host.inbox

variable {log acts : List Act} {id : Int}

theorem Listed.mono {f : FileMetadata} (h : Listed log id f) (acts : List Act) :
    Listed (log ++ acts) id f := by
  obtain ⟨i, hi, hf⟩ := h
  exact ⟨i, List.mem_append_left _ hi, hf⟩

theorem Announced.mono {o : Opened} (h : Announced log o) (acts : List Act) :
    Announced (log ++ acts) o := by
  obtain ⟨f, hf, hname⟩ := h
  exact ⟨f, hf.mono acts, hname⟩

theorem Record.note (record : Record log) {a : Act} (allowed : Allowed log a)
    (noOpening : a.opening = none) : Record (log ++ [a]) := by
  refine ⟨record.allowed.concat allowed, ?_⟩
  intro o ho
  have ho' : o ∈ openings log := by simpa [openings, noOpening] using ho
  exact (record.announced o ho').mono _

/-- Anything but opening and writing is allowed. -/
theorem allowed_of_touches {a : Act} (h : a.touches = none) : Allowed log a := by
  intro id hid
  rw [h] at hid
  cases hid

theorem Record.quiet (record : Record log) (quiet : ∀ a ∈ acts, a.isQuiet = true) :
    Record (log ++ acts) := by
  induction acts generalizing log with
  | nil => simpa using record
  | cons a acts ih =>
      have hq := quiet a (List.mem_cons_self ..)
      have one : Record (log ++ [a]) := by
        refine record.note (allowed_of_touches ?_) ?_
        · cases a <;> first | rfl | cases hq
        · cases a <;> first | rfl | cases hq
      simpa using ih one fun b hb => quiet b (List.mem_cons_of_mem _ hb)

section Safe

variable {sinks : HashMap Int Text} {host : QsHost} {written : List Text}

/-- An act that opens no file and asks nobody goes on record. -/
theorem Safe.touch (safe : Safe log sinks host written) {a : Act} (allowed : Allowed log a)
    (noOpening : a.opening = none) (noOffer : a.offer = none) :
    Safe (log ++ [a]) sinks host written := by
  have same : openings (log ++ [a]) = openings log := by simp [openings, noOpening]
  have before : .discarded ∉ log ++ [a] → .discarded ∉ log :=
    fun h hmem => h (List.mem_append_left _ hmem)
  refine ⟨safe.record.note allowed noOpening, ?_, ?_, ?_, ?_, ?_, ?_⟩
  · have offered : offers (log ++ [a]) = offers log := by simp [offers, noOffer]
    rw [offered]
    exact safe.offers_le
  · rw [same]
    exact safe.ids
  · rw [same]
    exact safe.within
  · rw [same]
    exact safe.names
  · rw [same]
    intro h o ho
    rcases safe.accounted (before h) o ho with h | h | h
    · exact .inl (List.mem_append_left _ h)
    · exact .inr (.inl h)
    · exact .inr (.inr (List.mem_append_left _ h))
  · rw [same]
    exact fun h => safe.kept (before h)

theorem Safe.quiet (safe : Safe log sinks host written)
    (quiet : ∀ a ∈ acts, a.isQuiet = true) : Safe (log ++ acts) sinks host written := by
  induction acts generalizing log with
  | nil => simpa using safe
  | cons a acts ih =>
      have hq := quiet a (List.mem_cons_self ..)
      have one : Safe (log ++ [a]) sinks host written := by
        refine safe.touch (allowed_of_touches ?_) ?_ ?_ <;>
          cases a <;> first | rfl | cases hq
      simpa using ih one fun b hb => quiet b (List.mem_cons_of_mem _ hb)

theorem lookup_foldl_erase {paths : List Text} {inbox : HashMap Text Bytes} {path : Text}
    {data : Bytes} (h : (paths.foldl (fun m p => m.erase p) inbox).lookup path = some data) :
    inbox.lookup path = some data := by
  induction paths generalizing inbox with
  | nil => exact h
  | cons p paths ih =>
      have h' := ih h
      have hne : path ≠ p := by
        rintro rfl
        rw [AList.lookup_erase] at h'
        cases h'
      rwa [AList.lookup_erase_ne hne] at h'

/-- Files that were discarded are gone; those that are left are as they were. -/
theorem Safe.discard (safe : Safe log sinks host written) (stuck : List Text) :
    Safe (log ++ [Act.discarded]) ∅ (host.discard stuck) written := by
  have noted : Safe (log ++ [Act.discarded]) sinks host written :=
    safe.touch (allowed_of_touches rfl) rfl rfl
  have now : .discarded ∈ log ++ [Act.discarded] := by simp
  exact { noted with
    within := fun o ho data h => noted.within o ho data (lookup_foldl_erase h)
    accounted := fun h => absurd now h
    kept := fun h => absurd now h }

end Safe

/-! ## Payload ids -/

structure Books (m : Inbound) (queue : List Effect) (log : List Act)
    (expected : HashMap Int FileMetadata) (sinks : HashMap Int Text) : Prop where
  untouched : isEarly m.state = true ∨ queue.filterMap Effect.began ≠ [] →
    expected = ∅ ∧ sinks = ∅ ∧ ∀ a ∈ log, a.isFile = false
  listed : ∀ id f, expected.lookup id = some f → Listed log id f
  undelivered : ∀ id ∈ expected, .delivered id ∉ log
  sunk : ∀ id ∈ sinks, id ∈ expected
  dropped : ∀ id, .dropped id ∈ log → m.state.isOver = true
  finished : .done ∈ queue → sinks = ∅ ∧ ∀ id, .dropped id ∉ log

variable {m m' : Inbound} {queue es : List Effect} {expected : HashMap Int FileMetadata}
  {sinks : HashMap Int Text}

/-- Acts that are not about files. -/
theorem Books.note (books : Books m queue log expected sinks)
    (noFile : ∀ a ∈ acts, a.isFile = false) : Books m queue (log ++ acts) expected sinks := by
  have old : ∀ {a : Act}, a.isFile = true → a ∈ log ++ acts → a ∈ log := by
    intro a file ha
    rcases List.mem_append.mp ha with h | h
    · exact h
    · rw [noFile a h] at file
      cases file
  refine ⟨?_, ?_, ?_, books.sunk, ?_, ?_⟩
  · intro h
    obtain ⟨hexp, hsinks, hlog⟩ := books.untouched h
    refine ⟨hexp, hsinks, ?_⟩
    intro a ha
    rcases List.mem_append.mp ha with h | h
    · exact hlog a h
    · exact noFile a h
  · exact fun id f h => (books.listed id f h).mono _
  · exact fun id h hd => books.undelivered id h (old rfl hd)
  · exact fun id h => books.dropped id (old rfl h)
  · intro h
    obtain ⟨hsinks, hdrop⟩ := books.finished h
    exact ⟨hsinks, fun id hd => hdrop id (old rfl hd)⟩

/-- A queue that asks for no more than it did. -/
theorem Books.sub {rest : List Effect} (books : Books m queue log expected sinks)
    (sub : rest.Sublist queue) : Books m rest log expected sinks := by
  refine { books with untouched := ?_, finished := ?_ }
  · rintro (h | h)
    · exact books.untouched (.inl h)
    · refine books.untouched (.inr fun hnil => h ?_)
      have hsub : (rest.filterMap Effect.began).Sublist (queue.filterMap Effect.began) :=
        sub.filterMap _
      rw [hnil] at hsub
      exact List.sublist_nil.mp hsub
  · exact fun h => books.finished (sub.subset h)

/-- Whatever the machine is told. -/
theorem Books.reply (books : Books m queue log expected sinks) {event : Event}
    (h : Reply m event m' es) (completed : event = .transferComplete → expected = ∅) :
    Books m' (queue ++ es) log expected sinks := by
  have ended : m.state.isOver = true → m'.state.isOver = true := by
    intro hover
    cases h with
    | silent => exact hover
    | fail _ => rfl
    | cancelledHere => rfl
    | cancelledThere => rfl
    | reject _ => rfl
    | complete _ => rfl
    | accept here | claim here | verdict here | offer here _ =>
        rw [here] at hover
        cases hover
  have early : isEarly m'.state = true ∨ es.filterMap Effect.began ≠ [] →
      isEarly m.state = true := by
    intro hearly
    cases h with
    | silent => simpa using hearly
    | accept here | claim here | verdict here | offer here _ =>
        rw [here]
        rfl
    | fail _ | cancelledHere | cancelledThere | reject _ | complete _ =>
        simp [isEarly, Effect.began] at hearly
  have doneNow : .done ∈ es → sinks = ∅ ∧ ∀ id, .dropped id ∉ log := by
    intro hdone
    cases h with
    | reject here =>
        obtain ⟨-, hsinks, hlog⟩ := books.untouched (.inl (by rw [here]; rfl))
        exact ⟨hsinks, fun id hd => by have := hlog _ hd; cases this⟩
    | complete here =>
        refine ⟨?_, ?_⟩
        · apply AList.ext
          rw [AList.empty_entries, List.eq_nil_iff_forall_not_mem]
          intro entry hentry
          have hmem := books.sunk entry.1 (List.mem_map_of_mem hentry)
          rw [completed rfl] at hmem
          exact AList.notMem_empty _ hmem
        · intro id hd
          have hover := books.dropped id hd
          rw [here] at hover
          cases hover
    | silent | fail _ | cancelledHere | cancelledThere => simp at hdone
    | accept _ | claim _ | verdict _ | offer _ _ => simp at hdone
  refine { books with untouched := ?_, dropped := ?_, finished := ?_ }
  · rintro (h | h)
    · exact books.untouched (.inl (early (.inl h)))
    · rw [List.filterMap_append] at h
      by_cases hes : es.filterMap Effect.began = []
      · rw [hes, List.append_nil] at h
        exact books.untouched (.inr h)
      · exact books.untouched (.inl (early (.inr hes)))
  · exact fun id hd => ended (books.dropped id hd)
  · intro hdone
    rcases List.mem_append.mp hdone with hdone | hdone
    · exact books.finished hdone
    · exact doneNow hdone

/-- Opening or writing a file that is expected. -/
theorem Books.touch (books : Books m queue log expected sinks) (hid : id ∈ expected) {a : Act}
    (notDelivered : ∀ id, a ≠ .delivered id) (notDropped : ∀ id, a ≠ .dropped id) :
    Books m queue (log ++ [a]) expected sinks := by
  have nonempty : expected ≠ ∅ := by
    rintro rfl
    exact AList.notMem_empty _ hid
  refine ⟨?_, ?_, ?_, books.sunk, ?_, ?_⟩
  · intro h
    exact absurd (books.untouched h).1 nonempty
  · exact fun id f h => (books.listed id f h).mono _
  · intro id h hd
    rcases List.mem_append.mp hd with hd | hd
    · exact books.undelivered id h hd
    · exact notDelivered id (List.mem_singleton.mp hd).symm
  · intro id hd
    rcases List.mem_append.mp hd with hd | hd
    · exact books.dropped id hd
    · exact absurd (List.mem_singleton.mp hd).symm (notDropped id)
  · intro h
    obtain ⟨hsinks, hdrop⟩ := books.finished h
    refine ⟨hsinks, ?_⟩
    intro id hd
    rcases List.mem_append.mp hd with hd | hd
    · exact hdrop id hd
    · exact notDropped id (List.mem_singleton.mp hd).symm

theorem Books.openSink (books : Books m queue log expected sinks) (hid : id ∈ expected)
    (notDone : .done ∉ queue) (path : Text) :
    Books m queue log expected (sinks.insert id path) := by
  refine { books with untouched := ?_, sunk := ?_, finished := fun h => absurd h notDone }
  · intro h
    rw [(books.untouched h).1] at hid
    exact absurd hid (AList.notMem_empty _)
  · intro j hj
    rcases (AList.mem_insert sinks).mp hj with rfl | hj
    · exact hid
    · exact books.sunk j hj

/-- A writer less. -/
theorem Books.closeSink (books : Books m queue log expected sinks) (id : Int) :
    Books m queue log expected (sinks.erase id) := by
  have none_left : sinks = ∅ → sinks.erase id = ∅ := by
    rintro rfl
    rfl
  refine { books with untouched := ?_, sunk := ?_, finished := ?_ }
  · intro h
    obtain ⟨hexp, hsinks, hlog⟩ := books.untouched h
    exact ⟨hexp, none_left hsinks, hlog⟩
  · exact fun j hj => books.sunk j (AList.mem_erase.mp hj).2
  · intro h
    obtain ⟨hsinks, hdrop⟩ := books.finished h
    exact ⟨none_left hsinks, hdrop⟩

/-- The last chunk of `id` is delivered: it is expected no more. -/
theorem Books.deliver (books : Books m queue log expected sinks) (hid : id ∈ expected) :
    Books m queue (log ++ [Act.delivered id]) (expected.erase id) (sinks.erase id) := by
  have nonempty : expected ≠ ∅ := by
    rintro rfl
    exact AList.notMem_empty _ hid
  have old : ∀ {a : Act}, (∀ j, a ≠ .delivered j) → a ∈ log ++ [Act.delivered id] → a ∈ log := by
    intro a hne ha
    rcases List.mem_append.mp ha with h | h
    · exact h
    · exact absurd (List.mem_singleton.mp h) (hne id)
  refine ⟨?_, ?_, ?_, ?_, ?_, ?_⟩
  · intro h
    exact absurd (books.untouched h).1 nonempty
  · intro j f h
    have hne : j ≠ id := by
      rintro rfl
      rw [AList.lookup_erase] at h
      cases h
    rw [AList.lookup_erase_ne hne] at h
    exact (books.listed j f h).mono _
  · intro j hj hd
    obtain ⟨hne, hj⟩ := AList.mem_erase.mp hj
    rcases List.mem_append.mp hd with hd | hd
    · exact books.undelivered j hj hd
    · exact hne (by simpa using hd)
  · intro j hj
    obtain ⟨hne, hj⟩ := AList.mem_erase.mp hj
    exact AList.mem_erase.mpr ⟨hne, books.sunk j hj⟩
  · exact fun j hd => books.dropped j (old (by simp) hd)
  · intro h
    obtain ⟨hsinks, hdrop⟩ := books.finished h
    exact ⟨by rw [hsinks]; rfl, fun j hd => hdrop j (old (by simp) hd)⟩

/-- A writer is thrown away on the way out. -/
theorem Books.drop (books : Books m queue log expected sinks) (hid : id ∈ sinks)
    (ended : m.state.isOver = true) (notDone : .done ∉ queue) :
    Books m queue (log ++ [Act.dropped id]) expected sinks := by
  have hexp := books.sunk id hid
  refine ⟨?_, ?_, ?_, books.sunk, fun _ _ => ended, fun h => absurd h notDone⟩
  · intro h
    rw [(books.untouched h).1] at hexp
    exact absurd hexp (AList.notMem_empty _)
  · exact fun j f h => (books.listed j f h).mono _
  · intro j hj hd
    rcases List.mem_append.mp hd with hd | hd
    · exact books.undelivered j hj hd
    · simp at hd

theorem lookup_expect (files : List FileMetadata) {j : Int} {f : FileMetadata}
    {start : HashMap Int FileMetadata}
    (h : (files.foldl (fun e f => e.insert f.payloadId f) start).lookup j = some f) :
    f ∈ files ∧ f.payloadId = j ∨ start.lookup j = some f := by
  induction files generalizing start with
  | nil => exact .inr h
  | cons g files ih =>
      rcases ih h with ⟨hmem, hid⟩ | h
      · exact .inl ⟨List.mem_cons_of_mem _ hmem, hid⟩
      · by_cases hj : j = g.payloadId
        · subst hj
          rw [AList.lookup_insert] at h
          cases h
          exact .inl ⟨List.mem_cons_self .., rfl⟩
        · rw [AList.lookup_insert_ne hj] at h
          exact .inr h

/-- Receiving begins: the files of the accepted introduction are expected. -/
theorem Books.expect {i : Introduction}
    (books : Books m (.beginReceiving i :: queue) log expected sinks)
    (talk : Talk m (.beginReceiving i :: queue) log) :
    Books m queue log (i.files.foldl (fun e f => e.insert f.payloadId f) expected) sinks := by
  have begun : (Effect.beginReceiving i :: queue).filterMap Effect.began =
      i :: queue.filterMap Effect.began := rfl
  obtain ⟨rfl, rfl, hlog⟩ := books.untouched (.inr (by rw [begun]; simp))
  have rest : queue.filterMap Effect.began = [] := by
    have hle := talk.began_le
    rw [begun, List.length_cons] at hle
    exact List.eq_nil_of_length_eq_zero (by omega)
  have late : isEarly m.state = false := by
    by_contra h
    have := talk.unbegun (by simpa using h)
    rw [begun] at this
    cases this
  refine ⟨?_, ?_, ?_, ?_, books.dropped, ?_⟩
  · rintro (h | h)
    · rw [late] at h
      cases h
    · exact absurd rest h
  · intro j f h
    rcases lookup_expect i.files h with ⟨hmem, hid⟩ | h
    · exact ⟨i, talk.begins i (by rw [begun]; simp), hmem, hid⟩
    · cases h
  · intro j _ hd
    have := hlog _ hd
    cases this
  · intro j hj
    exact absurd hj (AList.notMem_empty _)
  · exact fun h => books.finished (List.mem_cons_of_mem _ h)

/-! ## Files -/

/-- An open file holds the bytes the assembler counted. -/
structure Tracks (entry : InFlight) (o : Opened) (data : Bytes) : Prop where
  header : entry.header = o.header
  isFile : entry.header.payloadType ≠ .bytes
  received : entry.received = data.length

structure Files (log : List Act) (sinks : HashMap Int Text) (track : Int → Option InFlight)
    (host : QsHost) (written : List Text) : Prop where
  ids : ((openings log).map (·.id)).Nodup
  paths : ((openings log).map (·.path)).Nodup
  created : host.created = (openings log).map (·.path)
  names : written = (openings log).map (·.name)
  present : ∀ o ∈ openings log, ∃ data, host.inbox.lookup o.path = some data ∧
    data.length ≤ maxFile ∧ Within o data
  accounted : ∀ o ∈ openings log, .delivered o.id ∈ log ∨ sinks.lookup o.id = some o.path ∨
    .dropped o.id ∈ log
  sink : ∀ id path, sinks.lookup id = some path → ∃ o ∈ openings log, o.id = id ∧ o.path = path ∧
    ∃ data entry, host.inbox.lookup path = some data ∧ track id = some entry ∧
      Tracks entry o data
  inFlight : ∀ id entry, track id = some entry → entry.header.payloadType ≠ .bytes → id ∈ sinks

variable {track : Int → Option InFlight} {host : QsHost} {written : List Text}

theorem Files.note (files : Files log sinks track host written) (noOpening : openings acts = []) :
    Files (log ++ acts) sinks track host written := by
  have same : openings (log ++ acts) = openings log := by
    rw [openings_append, noOpening, List.append_nil]
  refine ⟨?_, ?_, ?_, ?_, ?_, ?_, ?_, files.inFlight⟩
  · rw [same]
    exact files.ids
  · rw [same]
    exact files.paths
  · rw [same]
    exact files.created
  · rw [same]
    exact files.names
  · rw [same]
    exact files.present
  · rw [same]
    intro o ho
    rcases files.accounted o ho with h | h | h
    · exact .inl (List.mem_append_left _ h)
    · exact .inr (.inl h)
    · exact .inr (.inr (List.mem_append_left _ h))
  · rw [same]
    exact files.sink

/-- A BYTES payload comes or goes: no writer depends on it. -/
theorem Files.other (files : Files log sinks track host written) {entry : Option InFlight}
    (isBytes : ∀ old, track id = some old → old.header.payloadType = .bytes)
    (new : ∀ e, entry = some e → e.header.payloadType = .bytes) :
    Files log sinks (Function.update track id entry) host written := by
  have apart : ∀ j path, sinks.lookup j = some path → j ≠ id := by
    rintro j path hj rfl
    obtain ⟨o, -, -, -, data, old, -, hold, tracks⟩ := files.sink j path hj
    exact tracks.isFile (isBytes old hold)
  refine { files with sink := ?_, inFlight := ?_ }
  · intro j path hj
    rw [Function.update_of_ne (apart j path hj)]
    exact files.sink j path hj
  · intro j e he hfile
    by_cases hj : j = id
    · subst hj
      rw [Function.update_self] at he
      exact absurd (new e he) hfile
    · rw [Function.update_of_ne hj] at he
      exact files.inFlight j e he hfile

/-- Without a writer there is no file in flight under the id. -/
theorem Files.no_flight (files : Files log sinks track host written)
    (closed : sinks.lookup id = none) {entry : InFlight} (h : track id = some entry) :
    entry.header.payloadType = .bytes := by
  by_contra hfile
  exact AList.lookup_eq_none.mp closed (files.inFlight id entry h hfile)

theorem nodup_map_concat {β : Type} {f : Opened → β} {l : List Opened} {o : Opened}
    (nodup : (l.map f).Nodup) (new : ∀ p ∈ l, f p ≠ f o) : ((l ++ [o]).map f).Nodup := by
  rw [List.map_append, List.map_singleton]
  refine List.nodup_append.mpr ⟨nodup, List.nodup_singleton _, ?_⟩
  rintro _ hp _ hq rfl
  obtain ⟨p, hp, heq⟩ := List.mem_map.mp hp
  exact new p hp (heq.trans (List.mem_singleton.mp hq))

/-- A new file, for a payload of which nothing has been received. -/
theorem Files.openFile (files : Files log sinks track host written) {o : Opened}
    {entry : InFlight} (newId : ∀ p ∈ openings log, p.id ≠ o.id)
    (newPath : o.path ∉ host.inbox) (tracks : Tracks entry o []) :
    Files (log ++ [Act.opened o.id o.header o.name o.path]) (sinks.insert o.id o.path)
      (Function.update track o.id (some entry))
      { host with
        inbox := host.inbox.insert o.path []
        created := host.created ++ [o.path] } (written ++ [o.name]) := by
  have opens : openings (log ++ [Act.opened o.id o.header o.name o.path]) =
      openings log ++ [o] := by
    rw [openings_append]
    rfl
  have pathNe : ∀ p ∈ openings log, p.path ≠ o.path := by
    intro p hp heq
    obtain ⟨data, hdata, -⟩ := files.present p hp
    rw [heq] at hdata
    exact newPath (AList.lookup_isSome.mp (by rw [hdata]; rfl))
  refine ⟨?_, ?_, ?_, ?_, ?_, ?_, ?_, ?_⟩
  · rw [opens]
    exact nodup_map_concat files.ids newId
  · rw [opens]
    exact nodup_map_concat files.paths pathNe
  · rw [opens, List.map_append, files.created]
    rfl
  · rw [opens, List.map_append, files.names]
    rfl
  · rw [opens]
    intro p hp
    rcases List.mem_append.mp hp with hp | hp
    · obtain ⟨data, hdata, hrest⟩ := files.present p hp
      exact ⟨data, (AList.lookup_insert_ne (pathNe p hp)).trans hdata, hrest⟩
    · rw [List.mem_singleton.mp hp]
      exact ⟨[], AList.lookup_insert _, Nat.zero_le _, fun hpos => Int.le_of_lt hpos⟩
  · rw [opens]
    intro p hp
    rcases List.mem_append.mp hp with hp | hp
    · rw [AList.lookup_insert_ne (newId p hp)]
      rcases files.accounted p hp with h | h | h
      · exact .inl (List.mem_append_left _ h)
      · exact .inr (.inl h)
      · exact .inr (.inr (List.mem_append_left _ h))
    · rw [List.mem_singleton.mp hp]
      exact .inr (.inl (AList.lookup_insert _))
  · rw [opens]
    intro j path hj
    by_cases hne : j = o.id
    · subst hne
      rw [AList.lookup_insert] at hj
      cases hj
      exact ⟨o, List.mem_append_right _ (List.mem_singleton.mpr rfl), rfl, rfl, [], entry,
        AList.lookup_insert _, Function.update_self .., tracks⟩
    · rw [AList.lookup_insert_ne hne] at hj
      obtain ⟨p, hp, hid, hpath, data, e, hdata, he, htracks⟩ := files.sink j path hj
      refine ⟨p, List.mem_append_left _ hp, hid, hpath, data, e, ?_, ?_, htracks⟩
      · exact (AList.lookup_insert_ne (hpath ▸ pathNe p hp)).trans hdata
      · rw [Function.update_of_ne hne]
        exact he
  · intro j e he hfile
    by_cases hne : j = o.id
    · exact (AList.mem_insert sinks).mpr (.inl hne)
    · rw [Function.update_of_ne hne] at he
      exact (AList.mem_insert sinks).mpr (.inr (files.inFlight j e he hfile))

theorem maxFile_eq : (maxFile : Int) = i64Max := by decide

/-- What a chunk that continues the payload does to its file, whether or not all of
it is written. -/
theorem Files.written_data (files : Files log sinks track host written) {path : Text}
    (hsink : sinks.lookup id = some path) {entry : InFlight} (hentry : track id = some entry)
    {chunk : PayloadChunk} (continues : Continues entry chunk) (stops : Option Nat) :
    ∃ o ∈ openings log, o.id = id ∧ o.path = path ∧ entry.header = o.header ∧ ∃ data,
      (host.write path chunk.body stops).1.inbox.lookup path = some data ∧
        data.length ≤ maxFile ∧ Within o data ∧
        ((host.write path chunk.body stops).2 = true →
          data.length = entry.received + chunk.body.length) := by
  obtain ⟨o, ho, hid, hpath, data, entry', hdata, hentry', tracks⟩ := files.sink id path hsink
  cases hentry.symm.trans hentry'
  obtain ⟨data', hdata', fits, -⟩ := files.present o ho
  rw [hpath, hdata] at hdata'
  cases hdata'
  obtain ⟨n, hn, hnew, hall, hroom⟩ := host.write_data path chunk.body stops
  rw [hdata, Option.getD_some] at hnew hroom
  have room := hroom fits
  have hlen : (data ++ chunk.body.take n).length = data.length + n := by
    rw [List.length_append, List.length_take, Nat.min_eq_left hn]
  refine ⟨o, ho, hid, hpath, tracks.header, _, hnew, by omega, ?_, ?_⟩
  · intro hpos
    rw [← tracks.header] at hpos ⊢
    refine Int.le_trans (le_saturatingAdd ?_ ?_) (continues.within hpos)
    · rw [hlen, tracks.received]
      omega
    · rw [← maxFile_eq]
      omega
  · intro ok
    rw [hlen, tracks.received, hall ok]
    omega

theorem Files.path_ne (files : Files log sinks track host written) {o p : Opened}
    (ho : o ∈ openings log) (hp : p ∈ openings log) (ne : o.id ≠ p.id) : o.path ≠ p.path := by
  intro heq
  have : o = p := List.inj_on_of_nodup_map files.paths ho hp heq
  exact ne (by rw [this])

/-- Even a write that fails part-way leaves every file within its size. -/
theorem Files.within_write (files : Files log sinks track host written) {path : Text}
    (hsink : sinks.lookup id = some path) {entry : InFlight} (hentry : track id = some entry)
    {chunk : PayloadChunk} (continues : Continues entry chunk) (stops : Option Nat) :
    ∀ o ∈ openings log, ∃ data,
      (host.write path chunk.body stops).1.inbox.lookup o.path = some data ∧
        data.length ≤ maxFile ∧ Within o data := by
  obtain ⟨o, ho, hid, hpath, -, data, hdata, fits, within, -⟩ :=
    files.written_data hsink hentry continues stops
  intro p hp
  by_cases hne : p.id = o.id
  · have : p = o := List.inj_on_of_nodup_map files.ids hp ho hne
    rw [this, hpath]
    exact ⟨data, hdata, fits, within⟩
  · have hpaths : p.path ≠ path := hpath ▸ files.path_ne hp ho hne
    rw [host.write_other _ _ hpaths]
    exact files.present p hp

/-- A chunk is written and counted. -/
theorem Files.write (files : Files log sinks track host written) {path : Text}
    (hsink : sinks.lookup id = some path) {entry : InFlight} (hentry : track id = some entry)
    {chunk : PayloadChunk} (continues : Continues entry chunk) {stops : Option Nat}
    (ok : (host.write path chunk.body stops).2 = true) :
    Files log sinks (Function.update track id (some { entry with
        received := saturatingAdd entry.received chunk.body.length }))
      (host.write path chunk.body stops).1 written := by
  obtain ⟨o, ho, hid, hpath, hheader, data, hdata, fits, -, hlen⟩ :=
    files.written_data hsink hentry continues stops
  have counted : saturatingAdd entry.received chunk.body.length = data.length := by
    have sum := hlen ok
    rw [sum]
    apply saturatingAdd_eq
    · omega
    · rw [← maxFile_eq]
      omega
  refine { files with
    present := files.within_write hsink hentry continues stops, sink := ?_, inFlight := ?_ }
  · intro j q hj
    by_cases hne : j = id
    · subst hne
      cases hsink.symm.trans hj
      exact ⟨o, ho, hid, hpath, data, _, hdata, Function.update_self ..,
        hheader, continues.isFile, counted⟩
    · obtain ⟨p, hp, hpid, hppath, old, e, hold, he, htracks⟩ := files.sink j q hj
      have hpaths : q ≠ path := by
        rw [← hppath, ← hpath]
        exact files.path_ne hp ho (by rw [hpid, hid]; exact hne)
      refine ⟨p, hp, hpid, hppath, old, e, ?_, ?_, htracks⟩
      · rw [host.write_other _ _ hpaths]
        exact hold
      · rw [Function.update_of_ne hne]
        exact he
  · intro j e he hfile
    by_cases hne : j = id
    · subst hne
      exact AList.lookup_isSome.mp (by rw [hsink]; rfl)
    · rw [Function.update_of_ne hne] at he
      exact files.inFlight j e he hfile

/-- A writer is closed: its payload is delivered, or given up. -/
theorem Files.close (files : Files log sinks track host written)
    (ended : .delivered id ∈ log ∨ .dropped id ∈ log) :
    Files log (sinks.erase id) (Function.update track id none) host written := by
  refine { files with accounted := ?_, sink := ?_, inFlight := ?_ }
  · intro o ho
    by_cases hne : o.id = id
    · rw [hne]
      rcases ended with h | h
      · exact .inl h
      · exact .inr (.inr h)
    · rw [AList.lookup_erase_ne hne]
      exact files.accounted o ho
  · intro j path hj
    have hne : j ≠ id := by
      rintro rfl
      rw [AList.lookup_erase] at hj
      cases hj
    rw [AList.lookup_erase_ne hne] at hj
    rw [Function.update_of_ne hne]
    exact files.sink j path hj
  · intro j e he hfile
    have hne : j ≠ id := by
      rintro rfl
      rw [Function.update_self] at he
      cases he
    rw [Function.update_of_ne hne] at he
    exact AList.mem_erase.mpr ⟨hne, files.inFlight j e he hfile⟩

end Quickshare
