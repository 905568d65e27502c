import TarishDaemon.Quickshare.ServeInvariant

/-!
# Every step of the receive loop keeps the books

`Live` puts `Talk`, `Books`, `Files` and `Record` together; each operation of the
loop has one lemma here, and `Inv.step` assembles them.  Between the assembler
taking a chunk and the chunk reaching the disk the two disagree, so `LiveAt` is
stated for a bookkeeping of its own and `Live` takes the assembler's.
-/

namespace Quickshare

open Rust Protocol Protocol.Sharing Protocol.Fsm Sharingd
open Protocol.Frames (PayloadHeader PayloadChunk PayloadTransfer)
open Protocol.Payload (InFlight Assembler)
open Protocol.Payload.Assembler (Continues Accepts accepts_accept)

/-- The effects still to be performed. -/
def Serve.queue (w : Serve) : List Effect :=
  w.batch ++ w.pending

structure LiveAt (w : Serve) (track : Int → Option InFlight) : Prop where
  talk : Talk w.fsm w.queue w.log
  books : Books w.fsm w.queue w.log w.expected w.sinks
  files : Files w.log w.sinks track w.host w.written
  record : Record w.log

abbrev Live (w : Serve) : Prop :=
  LiveAt w w.assembler.track

/-- The invariant of a run.  `rest` is what is left of the batch. -/
structure Inv (rest : List Effect) (w : Serve) : Prop where
  safe : Safe w.log w.sinks w.host w.written
  live : w.outcome = none → Live w
  batch : w.batch = rest

variable {w : Serve} {track : Int → Option InFlight} {e : Env} {acts : List Act} {id : Int}

theorem LiveAt.safe (live : LiveAt w track) : Safe w.log w.sinks w.host w.written := by
  refine ⟨live.record, ?_, live.files.ids, ?_, live.files.names,
    fun _ => live.files.accounted, fun _ => ?_⟩
  · have hle := live.talk.asked_le
    rw [List.length_append] at hle
    omega
  · intro o ho data hdata
    obtain ⟨data', hdata', -, within⟩ := live.files.present o ho
    cases hdata.symm.trans hdata'
    exact within
  · intro o ho
    obtain ⟨data, hdata, -⟩ := live.files.present o ho
    exact AList.lookup_isSome.mp (by rw [hdata]; rfl)

theorem Inv.of_live {rest : List Effect} (live : Live w) (hbatch : w.batch = rest) :
    Inv rest w :=
  ⟨live.safe, fun _ => live, hbatch⟩

theorem LiveAt.inv (live : Live w) : Inv w.batch w :=
  .of_live live rfl

theorem LiveAt.live (live : LiveAt w track) (same : w.assembler.track = track) : Live w := by
  subst same
  exact live

theorem LiveAt.note (live : LiveAt w track) (quiet : ∀ a ∈ acts, a.isQuiet = true) :
    LiveAt (w.note acts) track :=
  ⟨live.talk.note (offers_quiet quiet),
    live.books.note fun a ha => isFile_of_isQuiet (quiet a ha),
    live.files.note (openings_quiet quiet), live.record.quiet quiet⟩

/-- A state that has returned has no more to keep. -/
theorem Inv.returned {rest : List Effect} (out : w.outcome.isSome = true)
    (safe : Safe w.log w.sinks w.host w.written) (hbatch : w.batch = rest) : Inv rest w := by
  refine ⟨safe, ?_, hbatch⟩
  intro running
  rw [running] at out
  cases out

theorem sent_quiet (frames : List Bytes) : ∀ a ∈ frames.map Act.sent, a.isQuiet = true := by
  intro a ha
  obtain ⟨frame, -, rfl⟩ := List.mem_map.mp ha
  rfl

theorem LiveAt.write (live : LiveAt w track) (e : Env) (frames : List Bytes) :
    LiveAt (w.write e frames).1 track :=
  live.note (sent_quiet _)

theorem LiveAt.writeOrFail (live : Live w) (e : Env) (frames : List Bytes) :
    Inv w.batch (w.writeOrFail e frames) := by
  have written : Live (w.write e frames).1 := live.write e frames
  unfold Serve.writeOrFail
  dsimp only
  split
  · exact written.inv
  · exact .returned rfl written.safe rfl

theorem finish_eq (w : Serve) :
    ∃ acts : List Act, (∀ a ∈ acts, a.isQuiet = true) ∧ w.finish = w.note acts := by
  unfold Serve.finish
  split
  · exact ⟨[.finished w.transferId], by simp [Act.isQuiet], rfl⟩
  · exact ⟨[], by simp, by simp [Serve.note]⟩

theorem Inv.finish (safe : Safe w.log w.sinks w.host w.written)
    (result : Except Error ServeOutcome) :
    Inv w.batch { w.finish with outcome := some result } := by
  obtain ⟨acts, quiet, heq⟩ := finish_eq w
  rw [heq]
  exact .returned rfl (safe.quiet quiet) rfl

/-- The machine is told something and its effects are queued. -/
theorem LiveAt.feedTalk (live : LiveAt w track) (event : Event)
    (talk : Talk (w.fsm.on event).1 (w.queue ++ (w.fsm.on event).2) w.log)
    (completed : event = .transferComplete → w.expected = ∅) : LiveAt (w.feed event) track := by
  have queue : (w.feed event).queue = w.queue ++ (w.fsm.on event).2 :=
    (List.append_assoc ..).symm
  refine ⟨?_, ?_, live.files, live.record⟩
  · rw [queue]
    exact talk
  · rw [queue]
    exact live.books.reply (reply_on _ _) completed

theorem LiveAt.feed (live : LiveAt w track) (event : Event) (notYes : event ≠ .userAccepted)
    (completed : event = .transferComplete → w.expected = ∅) : LiveAt (w.feed event) track :=
  live.feedTalk event (live.talk.reply (reply_on _ _) notYes) completed

/-! ## Performing an effect -/

/-- An effect that is neither final nor a question leaves the queue. -/
theorem LiveAt.pop {effect : Effect} {rest : List Effect} (live : Live w)
    (hbatch : w.batch = effect :: rest) (stays : isFinal effect = false)
    (noAsk : effect.asked = none) : Live { w with batch := rest } := by
  have queue : w.queue = effect :: (rest ++ w.pending) := by
    rw [Serve.queue, hbatch]
    rfl
  have talk := live.talk
  have books := live.books
  rw [queue] at talk books
  exact ⟨talk.pop stays noAsk, books.sub (List.sublist_cons_self _ _), live.files, live.record⟩

theorem LiveAt.askUser {intro : Introduction} {rest : List Effect} (live : Live w)
    (hbatch : w.batch = .askUser intro :: rest) (e : Env) :
    Inv rest ({ w with batch := rest }.perform e (.askUser intro)) := by
  have queue : w.queue = .askUser intro :: (rest ++ w.pending) := by
    rw [Serve.queue, hbatch]
    rfl
  have talk := live.talk
  have books := live.books
  rw [queue] at talk books
  have here : w.fsm.introduction = some intro :=
    talk.asking intro (by simp [Effect.asked])
  -- the question on record, the answer not yet given to the machine
  have asked : Live ({ w with
      batch := rest
      totalBytes := (max intro.totalSize 0).toNat
      transferId := w.host.id }.note [.asked intro e.asking.ask]) := by
    refine ⟨talk.ask _, ?_, live.files.note rfl, ?_⟩
    · exact (books.sub (List.sublist_cons_self _ _)).note (by simp [Act.isFile])
    · exact live.record.note (allowed_of_touches rfl) rfl
  change Inv rest (Serve.feed _ (if e.asking.ask then .userAccepted else .userRejected))
  cases answer : e.asking.ask with
  | true =>
      rw [answer] at asked
      have told := asked.feedTalk .userAccepted
        (asked.talk.yes here (by simp [Serve.note]) (reply_on _ _)) (by simp)
      exact LiveAt.inv told
  | false =>
      rw [answer] at asked
      exact LiveAt.inv (asked.feed .userRejected (by simp) (by simp))

theorem LiveAt.offerGroup (live : LiveAt w track) (h : Handover) :
    LiveAt (w.offerGroup h) track := by
  have noted := live.note (sent_quiet h.wrote)
  exact ⟨noted.talk, noted.books, noted.files, noted.record⟩

theorem LiveAt.beginReceiving {intro : Introduction} {rest : List Effect} (live : Live w)
    (hbatch : w.batch = .beginReceiving intro :: rest) (e : Env) :
    Inv rest ({ w with batch := rest }.perform e (.beginReceiving intro)) := by
  have queue : w.queue = .beginReceiving intro :: (rest ++ w.pending) := by
    rw [Serve.queue, hbatch]
    rfl
  have talk := live.talk
  have books := live.books
  rw [queue] at talk books
  have expecting : Live (({ w with batch := rest } : Serve).expect intro) :=
    ⟨talk.pop rfl rfl, books.expect talk, live.files, live.record⟩
  unfold Serve.perform
  dsimp only
  split
  · exact (expecting.offerGroup e.handover).inv
  · exact expecting.inv

theorem Inv.perform {effect : Effect} {rest : List Effect} (live : Live w)
    (hbatch : w.batch = effect :: rest) (e : Env) :
    Inv rest ({ w with batch := rest }.perform e effect) := by
  cases effect with
  | send frame =>
      have popped : Live { w with batch := rest } := live.pop hbatch rfl rfl
      exact LiveAt.writeOrFail (w := { w with
        batch := rest
        nextPayloadId := (wrapBytes w.nextPayloadId frame).1 })
        ⟨popped.talk, popped.books, popped.files, popped.record⟩ e _
  | askUser intro => exact live.askUser hbatch e
  | beginSending i => exact (live.pop hbatch rfl rfl).inv
  | beginReceiving intro => exact live.beginReceiving hbatch e
  | done =>
      have written : Safe (({ w with batch := rest } : Serve).write e
          [Frames.disconnection true false]).1.log w.sinks w.host w.written :=
        live.safe.quiet (sent_quiet _)
      unfold Serve.perform
      dsimp only
      split
      · exact Inv.finish (w := ({ w with batch := rest } : Serve).write e _ |>.1) written _
      · exact .returned rfl written rfl
  | cancelled =>
      exact Inv.finish (w := ({ w with
        batch := rest, sinks := ∅, host := w.host.discard e.stuck }.note [.discarded]))
        (live.safe.discard e.stuck) _
  | failed why =>
      exact Inv.finish (w := { w with batch := rest }) live.safe _

/-! ## Receiving a chunk -/

theorem LiveAt.report (live : LiveAt w track) (data : Bytes) (last : Bool) :
    LiveAt (w.report data last) track := by
  unfold Serve.report
  dsimp only
  split
  · have noted : LiveAt (w.note [.progress (w.doneBytes + data.length) w.totalBytes]) track :=
      live.note (by simp [Act.isQuiet])
    exact ⟨noted.talk, noted.books, noted.files, noted.record⟩
  · exact ⟨live.talk, live.books, live.files, live.record⟩

/-- What `report` leaves alone. -/
theorem report_frame (w : Serve) (data : Bytes) (last : Bool) :
    (w.report data last).batch = w.batch ∧ (w.report data last).expected = w.expected ∧
      (w.report data last).sinks = w.sinks ∧ (w.report data last).assembler = w.assembler := by
  unfold Serve.report
  dsimp only
  split <;> exact ⟨rfl, rfl, rfl, rfl⟩

/-- The last chunk is on record: the writer goes, and the id with it. -/
theorem LiveAt.complete (live : LiveAt w track) {id : Int} (hid : id ∈ w.expected)
    (hflight : w.assembler.track = Function.update track id none) (e : Env) :
    Inv w.batch ((w.note [.delivered id]).complete e id) := by
  have record : Record (w.log ++ [Act.delivered id]) :=
    live.record.note (allowed_of_touches rfl) rfl
  have files : Files (w.log ++ [Act.delivered id]) (w.sinks.erase id) w.assembler.track w.host
      w.written := by
    rw [hflight]
    exact (live.files.note rfl).close (.inl (by simp))
  have talk : Talk w.fsm w.queue (w.log ++ [Act.delivered id]) := live.talk.note rfl
  have delivered : Live ({ w with
      sinks := w.sinks.erase id
      expected := w.expected.erase id }.note [.delivered id]) :=
    ⟨talk, live.books.deliver hid, files, record⟩
  unfold Serve.complete
  dsimp only
  split
  · exact .returned rfl delivered.safe rfl
  · split
    next hempty =>
      have none_left : w.expected.erase id = ∅ :=
        AList.ext (List.map_eq_nil_iff.mp hempty)
      exact (delivered.feed .transferComplete (by simp) fun _ => none_left).inv
    next => exact delivered.inv

/-- A payload that is expected may be opened and written. -/
theorem LiveAt.allowed (live : LiveAt w track) (hid : id ∈ w.expected) (act : Act)
    (touches : act.touches = some id) : Allowed w.log act := by
  intro j hj
  cases touches.symm.trans hj
  obtain ⟨f, hf⟩ := Option.isSome_iff_exists.mp (AList.lookup_isSome.mpr hid)
  exact ⟨⟨f, live.books.listed _ f hf⟩, live.books.undelivered _ hid⟩

/-- A chunk that continues its payload goes to its open writer. -/
theorem LiveAt.writeChunk (live : LiveAt w track) (hid : id ∈ w.expected) {path : Text}
    (hsink : w.sinks.lookup id = some path) {entry : InFlight} (hentry : track id = some entry)
    {chunk : PayloadChunk} (continues : Continues entry chunk) {last : Bool}
    (hflight : w.assembler.track = Function.update track id (if last then none else
      some { entry with received := saturatingAdd entry.received chunk.body.length })) (e : Env) :
    Inv w.batch (w.writeChunk e id path chunk.body last) := by
  have record : Record (w.log ++ [Act.wrote id chunk.body]) :=
    live.record.note (live.allowed hid _ rfl) rfl
  unfold Serve.writeChunk
  dsimp only
  split
  next failed =>
      -- part of the chunk may be on disk; nothing is beyond the declared size
      have partWritten : Safe w.log w.sinks (w.host.write path chunk.body e.diskStops).1
          w.written := by
        have left := live.files.within_write hsink hentry continues e.diskStops
        refine { live.safe with within := ?_, kept := ?_ }
        · intro o ho data hdata
          obtain ⟨data', hdata', -, within⟩ := left o ho
          cases hdata.symm.trans hdata'
          exact within
        · intro _ o ho
          obtain ⟨data, hdata, -⟩ := left o ho
          exact AList.lookup_isSome.mp (by rw [hdata]; rfl)
      have safe := partWritten.touch
        (live.allowed hid (.wrote id chunk.body) rfl) rfl rfl
      exact .returned rfl safe rfl
  next ok =>
      have ok : (w.host.write path chunk.body e.diskStops).2 = true := by simpa using ok
      have wrote : LiveAt ({ w with
          host := (w.host.write path chunk.body e.diskStops).1 }.note [.wrote id chunk.body])
          (Function.update track id (some { entry with
            received := saturatingAdd entry.received chunk.body.length })) :=
        ⟨live.talk.note rfl, live.books.touch hid (by simp) (by simp),
          (live.files.write hsink hentry continues ok).note rfl, record⟩
      have reported := wrote.report chunk.body last
      obtain ⟨hbatch, hexp, -, hasm⟩ := report_frame ({ w with
          host := (w.host.write path chunk.body e.diskStops).1 }.note [.wrote id chunk.body])
          chunk.body last
      cases last with
      | true =>
          have still : id ∈ (Serve.report _ chunk.body true).expected := hexp ▸ hid
          have done := reported.complete still
            (by rw [hasm, Function.update_idem]; exact hflight) e
          rw [hbatch] at done
          exact done
      | false =>
          have kept := (reported.live (by rw [hasm]; exact hflight)).inv
          rw [hbatch] at kept
          exact kept

/-- Nothing is read while the machine is over. -/
theorem LiveAt.reading (live : LiveAt w track) (idle : w.queue = []) :
    w.fsm.state.isOver = false := by
  by_contra ended
  obtain ⟨effect, hmem, -⟩ := live.talk.ends (by simpa using ended)
  rw [idle] at hmem
  cases hmem

/-- Nobody has opened a file for an id that is expected and has no writer. -/
theorem LiveAt.not_opened (live : LiveAt w track) (idle : w.queue = [])
    (hid : id ∈ w.expected) (closed : w.sinks.lookup id = none) :
    ∀ p ∈ openings w.log, p.id ≠ id := by
  rintro p hp rfl
  rcases live.files.accounted p hp with h | h | h
  · exact live.books.undelivered _ hid h
  · rw [closed] at h
    cases h
  · have ended := live.books.dropped _ h
    rw [live.reading idle] at ended
    cases ended

theorem LiveAt.openSink (live : LiveAt w track) (idle : w.queue = []) {f : FileMetadata}
    (hf : w.expected.lookup id = some f) (closed : w.sinks.lookup id = none)
    {entry : InFlight} (isFile : entry.header.payloadType ≠ .bytes) (new : entry.received = 0)
    {host : QsHost} {path : Text}
    (created : w.host.create (Serve.pickName f entry.header) e.opens = .ok (host, path)) :
    LiveAt ({ w with
        host := host
        sinks := w.sinks.insert id path
        written := w.written ++ [Serve.pickName f entry.header] }.note
          [.opened id entry.header (Serve.pickName f entry.header) path])
      (Function.update track id (some entry)) := by
  obtain ⟨newPath, rfl⟩ := QsHost.create_spec created
  have hid : id ∈ w.expected := AList.lookup_isSome.mp (by rw [hf]; rfl)
  have listed := live.books.listed id f hf
  have files := live.files.openFile (o := ⟨id, entry.header, Serve.pickName f entry.header, path⟩)
    (live.not_opened idle hid closed) newPath ⟨rfl, isFile, by rw [new]; rfl⟩
  refine ⟨live.talk.note rfl, ?_, files, ?_⟩
  · refine (live.books.touch hid (by simp) (by simp)).openSink hid ?_ path
    rw [idle]
    exact List.not_mem_nil
  · refine ⟨live.record.allowed.concat (live.allowed hid _ rfl), ?_⟩
    intro o ho
    change o ∈ openings (w.log ++ [Act.opened id entry.header _ path]) at ho
    rw [openings_append] at ho
    rcases List.mem_append.mp ho with ho | ho
    · exact (live.record.announced o ho).mono _
    · rw [List.mem_singleton.mp ho]
      exact ⟨f, listed.mono _, rfl⟩

/-- The assembler has taken a chunk of a file and counted it already. -/
theorem LiveAt.fileChunk (live : Live w) (idle : w.queue = []) {header : PayloadHeader}
    {chunk : PayloadChunk} (continues : Continues (w.assembler.entry header) chunk) (last : Bool)
    {a : Assembler} (hflight : a.track = Function.update w.assembler.track header.id
      (if last then none else some { w.assembler.entry header with
        received := saturatingAdd (w.assembler.entry header).received chunk.body.length }))
    (e : Env) :
    Inv w.batch ({ w with assembler := a }.fileChunk e header.id chunk.body last
      (w.assembler.entry header).header) := by
  unfold Serve.fileChunk
  dsimp only
  cases hf : w.expected.lookup header.id with
  | none => exact .returned rfl live.safe rfl
  | some f =>
      have hid : header.id ∈ w.expected := AList.lookup_isSome.mp (by rw [hf]; rfl)
      unfold Serve.openSink
      dsimp only
      cases hsink : w.sinks.lookup header.id with
      | some path =>
          obtain ⟨-, -, -, -, -, entry, -, hentry, -⟩ := live.files.sink _ _ hsink
          have hcurrent : w.assembler.entry header = entry := by
            change (w.assembler.track header.id).getD _ = entry
            rw [hentry]
            rfl
          rw [hcurrent] at continues hflight
          have here : LiveAt { w with assembler := a } w.assembler.track :=
            ⟨live.talk, live.books, live.files, live.record⟩
          exact here.writeChunk hid hsink hentry continues hflight e
      | none =>
          -- a file in flight without a writer is impossible, so the payload is new
          have new : (w.assembler.entry header).received = 0 := by
            change ((w.assembler.track header.id).getD { header := header }).received = 0
            cases hentry : w.assembler.track header.id with
            | none => rfl
            | some entry =>
                refine absurd (live.files.no_flight hsink hentry) ?_
                have hfile := continues.isFile
                change ((w.assembler.track header.id).getD { header := header }).header.payloadType
                  ≠ .bytes at hfile
                rw [hentry] at hfile
                exact hfile
          cases created : w.host.create (Serve.pickName f (w.assembler.entry header).header)
              e.opens with
          | error err =>
              have safe := live.safe.touch (live.allowed hid (.createFailed header.id
                (Serve.pickName f (w.assembler.entry header).header)) rfl) rfl rfl
              exact .returned rfl safe rfl
          | ok made =>
              obtain ⟨host, path⟩ := made
              have opened := live.openSink idle hf hsink continues.isFile new created
              have here := LiveAt.mk (w := { w with
                  assembler := a
                  host := host
                  sinks := w.sinks.insert header.id path
                  written := w.written ++
                    [Serve.pickName f (w.assembler.entry header).header] }.note
                      [.opened header.id (w.assembler.entry header).header
                        (Serve.pickName f (w.assembler.entry header).header) path])
                opened.talk opened.books opened.files opened.record
              refine here.writeChunk hid (AList.lookup_insert _) (Function.update_self ..)
                continues ?_ e
              rw [Function.update_idem]
              exact hflight

/-! ## Reading a frame -/

/-- The assembler forgets an id that has no writer. -/
theorem LiveAt.forget (live : Live w) {a : Assembler} {entry : Option InFlight}
    (htrack : a.track = Function.update w.assembler.track id entry)
    (isBytes : ∀ old, w.assembler.track id = some old → old.header.payloadType = .bytes)
    (new : ∀ en, entry = some en → en.header.payloadType = .bytes) :
    Live { w with assembler := a } := by
  have files : Files w.log w.sinks a.track w.host w.written := by
    rw [htrack]
    exact live.files.other isBytes new
  exact ⟨live.talk, live.books, files, live.record⟩

/-- The entry a BYTES packet found, seen from the bookkeeping. -/
theorem track_isBytes {a : Assembler} {header : PayloadHeader}
    (isBytes : (a.entry header).header.payloadType = .bytes) :
    ∀ old, a.track header.id = some old → old.header.payloadType = .bytes := by
  intro old hold
  change ((a.track header.id).getD { header := header }).header.payloadType = .bytes at isBytes
  rw [hold] at isBytes
  exact isBytes

theorem on_userCancelled {m : Inbound} (live : m.state.isOver = false) :
    m.on .userCancelled = ({ m with state := .cancelled }, [.send cancel, .cancelled]) := by
  rw [Inbound.on, if_neg (by simp [live])]

/-- The peer cancels a payload. -/
theorem LiveAt.cancelPayload (live : Live w) (idle : w.queue = []) {a : Assembler}
    (htrack : a.track = Function.update w.assembler.track id none) :
    Inv w.batch (({ w with assembler := a }.dropSink id).feed .userCancelled) := by
  have running := live.reading idle
  unfold Serve.dropSink
  split
  next hid =>
      have hid : id ∈ w.sinks := hid
      have queue : w.queue ++ (w.fsm.on .userCancelled).2 = [.send cancel, .cancelled] := by
        rw [idle, on_userCancelled running]
        rfl
      -- the machine is told first here; the two do not look at each other
      have books := live.books.reply (reply_on w.fsm .userCancelled) (by simp)
      have dropped := (books.drop hid (by rw [on_userCancelled running]; rfl)
        (by rw [queue]; simp)).closeSink id
      have talk : Talk (w.fsm.on .userCancelled).1 (w.queue ++ (w.fsm.on .userCancelled).2)
          (w.log ++ [Act.dropped id]) :=
        (live.talk.reply (reply_on w.fsm .userCancelled) (by simp)).note rfl
      have files : Files (w.log ++ [Act.dropped id]) (w.sinks.erase id) a.track w.host
          w.written := by
        rw [htrack]
        exact (live.files.note rfl).close (.inr (by simp))
      have record : Record (w.log ++ [Act.dropped id]) :=
        live.record.note (allowed_of_touches rfl) rfl
      have assoc : w.batch ++ (w.pending ++ (w.fsm.on .userCancelled).2) =
          w.queue ++ (w.fsm.on .userCancelled).2 := (List.append_assoc ..).symm
      rw [← assoc] at talk dropped
      exact .of_live ⟨talk, dropped, files, record⟩ rfl
  next hid =>
      have forgot : Live { w with assembler := a } := by
        refine live.forget htrack ?_ (by simp)
        intro old hold
        by_contra hfile
        exact hid (live.files.inFlight id old hold hfile)
      exact (forgot.feed .userCancelled (by simp) (by simp)).inv

theorem LiveAt.payload (live : Live w) (idle : w.queue = []) (pt : PayloadTransfer) (e : Env) :
    Inv w.batch (w.handleFrame e (.payloadTransfer pt)) := by
  have taken := accepts_accept w.assembler pt
  rw [Serve.handleFrame]
  generalize w.assembler.accept pt = result at taken
  obtain ⟨a, event⟩ := result
  dsimp only at taken ⊢
  cases taken with
  | refused err => exact .returned rfl live.safe rfl
  | ignored => exact live.inv
  | cancelled => exact live.cancelPayload idle (Payload.Assembler.track_remove _ _)
  | failed => exact .returned rfl live.safe rfl
  | @buffered entry isBytes same =>
      have kept : Live { w with assembler := w.assembler.put pt.header.id entry } := by
        refine live.forget (Payload.Assembler.track_put _ _ _) (track_isBytes isBytes) ?_
        intro en hen
        cases hen
        rw [same]
        exact isBytes
      exact kept.inv
  | @bytes data isBytes =>
      have kept : Live { w with assembler := w.assembler.remove pt.header.id } :=
        live.forget (Payload.Assembler.track_remove _ _) (track_isBytes isBytes) (by simp)
      unfold Serve.payloadEvent
      dsimp only
      split
      · exact .returned rfl live.safe rfl
      · exact (kept.feed _ (by simp) (by simp)).inv
  | lastChunk continues =>
      exact live.fileChunk idle continues true
        (Payload.Assembler.track_remove _ _) e
  | chunk continues =>
      exact live.fileChunk idle continues false
        (Payload.Assembler.track_put _ _ _) e

theorem LiveAt.pathRequest (live : Live w) (mediums : List Upgrade.Medium) (e : Env) :
    Inv w.batch (w.pathRequest e mediums) := by
  unfold Serve.pathRequest
  split
  · exact live.inv
  split
  · exact live.writeOrFail e _
  split
  · exact live.writeOrFail e _
  split
  · exact live.writeOrFail e _
  have offered := live.offerGroup e.handover
  dsimp only
  split
  · exact .returned rfl offered.safe rfl
  · exact LiveAt.inv (w := w.offerGroup e.handover) offered

theorem LiveAt.disconnected (live : Live w) (requestSafe : Bool) (e : Env) :
    Inv w.batch (w.disconnected e requestSafe) := by
  unfold Serve.disconnected
  dsimp only
  split
  · exact Inv.finish (w := (w.write e _).1) (live.write e _).safe _
  · exact Inv.finish live.safe _

theorem LiveAt.handleFrame (live : Live w) (idle : w.queue = []) (frame : Frames.Frame)
    (e : Env) : Inv w.batch (w.handleFrame e frame) := by
  cases frame with
  | payloadTransfer pt => exact live.payload idle pt e
  | bandwidthUpgrade body =>
      rw [Serve.handleFrame]
      split
      · exact live.pathRequest _ e
      · exact live.inv
      · exact live.inv
  | keepAlive ack seqNum =>
      cases ack with
      | false => exact live.writeOrFail e _
      | true => exact live.inv
  | disconnection requestSafe ackSafe => exact live.disconnected requestSafe e
  | connectionRequest r => exact live.inv
  | connectionResponse r => exact live.inv
  | unknown ty => exact live.inv

theorem LiveAt.read (live : Live w) (idle : w.queue = []) (e : Env) :
    Inv w.batch (w.read e) := by
  unfold Serve.read
  split
  · exact .returned rfl live.safe rfl
  · dsimp only
    split
    · exact .returned rfl live.safe rfl
    · exact LiveAt.handleFrame (w := { w with deferred := w.deferred.tail })
        ⟨live.talk, live.books, live.files, live.record⟩ idle _ e

/-- With the batch done, what is pending is the next one. -/
theorem Inv.nextPass (inv : Inv [] w) : Inv w.pending w.nextPass := by
  refine ⟨inv.safe, ?_, rfl⟩
  intro running
  have live := inv.live running
  have queue : w.nextPass.queue = w.queue := by
    rw [Serve.queue, Serve.queue, inv.batch]
    exact List.append_nil _
  refine ⟨?_, ?_, live.files, live.record⟩
  · rw [queue]
    exact live.talk
  · rw [queue]
    exact live.books

theorem LiveAt.turn (live : Live w) (hbatch : w.batch = []) (e : Env) :
    Inv (w.turn e).batch (w.turn e) := by
  unfold Serve.turn
  split
  · have fed := (live.feed .userCancelled (by simp) (by simp)).inv
    exact Inv.nextPass (hbatch ▸ fed)
  split
  · exact Inv.nextPass (hbatch ▸ live.inv)
  next hpending =>
      have idle : w.queue = [] := by
        rw [Serve.queue, hbatch]
        simpa using hpending
      exact Inv.nextPass (hbatch ▸ live.read idle e)

/-- **One step.** -/
theorem Inv.step {w' : Serve} (inv : Inv w.batch w) (h : w.step e = some w') :
    Inv w'.batch w' := by
  cases Serve.steps_of_step h with
  | effect effect rest running hbatch =>
      have done := Inv.perform (inv.live running) hbatch e
      exact ⟨done.safe, done.live, rfl⟩
  | turn running hbatch => exact (inv.live running).turn hbatch e

theorem inv_init (bootstrap : Upgrade.Medium) (fill : Option RandomFill) (host : Int)
    (inbox : HashMap Text Bytes) :
    Inv (Serve.init bootstrap fill host inbox).batch (Serve.init bootstrap fill host inbox) := by
  have start : ∃ m es, ({} : Inbound).start fill = (m, es) ∧ m.introduction = none ∧
      es.filterMap Effect.asked = [] ∧ es.filterMap Effect.began = [] ∧ Effect.done ∉ es ∧
      (m.state.isOver = true → ∃ e ∈ es, isFinal e = true) := by
    unfold Inbound.start
    cases h : pairedKeyEncryption fill with
    | ok frame => exact ⟨_, _, rfl, rfl, rfl, rfl, by simp, by simp [State.isOver]⟩
    | error err =>
        exact ⟨_, _, rfl, rfl, rfl, rfl, by simp, fun _ => ⟨_, List.mem_singleton.mpr rfl, rfl⟩⟩
  obtain ⟨m, es, hstart, -, hasked, hbegan, hdone, hends⟩ := start
  have fields : (Serve.init bootstrap fill host inbox).fsm = m ∧
      (Serve.init bootstrap fill host inbox).queue = es := by
    rw [Serve.queue, Serve.init, hstart]
    exact ⟨rfl, List.append_nil _⟩
  apply LiveAt.inv
  refine ⟨?_, ?_, ?_, ?_⟩
  · rw [fields.1, fields.2]
    refine ⟨?_, fun _ => hasked, ?_, ?_, ?_, fun _ => hbegan, hends⟩
    · change (([] : List Introduction) ++ es.filterMap Effect.asked).length ≤ 1
      rw [hasked]
      exact Nat.zero_le 1
    · rw [hasked]
      exact fun i hi => absurd hi List.not_mem_nil
    · rw [hbegan]
      exact Nat.zero_le 1
    · rw [hbegan]
      exact fun i hi => absurd hi List.not_mem_nil
  · rw [fields.1, fields.2]
    refine ⟨fun _ => ⟨rfl, rfl, fun a ha => absurd ha List.not_mem_nil⟩, ?_, ?_, ?_, ?_,
      fun h => absurd h hdone⟩
    · intro id f h
      cases h
    · exact fun id h => absurd h (AList.notMem_empty id)
    · exact fun id h => absurd h (AList.notMem_empty id)
    · exact fun id h => absurd h List.not_mem_nil
  · refine ⟨List.nodup_nil, List.nodup_nil, rfl, rfl, ?_, ?_, ?_, ?_⟩
    · exact fun o h => absurd h List.not_mem_nil
    · exact fun o h => absurd h List.not_mem_nil
    · intro id path h
      cases h
    · intro id entry h
      cases h
  · exact ⟨History.justified_nil, fun o h => absurd h List.not_mem_nil⟩

/-- **Every run.** -/
theorem inv_of_run {bootstrap : Upgrade.Medium} {fill : Option RandomFill} {host : Int}
    {inbox : HashMap Text Bytes} {steps : List Env}
    (run : Lts.Run (Lts.ofPartial Serve.step) (.init bootstrap fill host inbox) steps w) :
    Inv w.batch w :=
  run.invariant (fun w => Inv w.batch w) (inv_init bootstrap fill host inbox)
    fun _ _ _ inv h => inv.step h

end Quickshare
