import TarishDaemon.Quickshare.ServeTally
import TarishDaemon.Quickshare.ServeWhole

/-!
# The status of a receive

`receiveOnSocket` tells the app one status per receive, and computes it from what `serve`
returned: names mean success.  A peer that hangs up in the middle of a file is answered
with the names so far, and a Disconnection that cannot be written turns a receive with
every file in place into an error.

`receiveStatus_iff` is the step in which the loop returns: the status says success just
where everything arrived, exactly if the step is `honest`.
-/

namespace Quickshare

open Rust Protocol Protocol.Sharing Protocol.Fsm Sharingd
open Protocol.Frames (PayloadHeader PayloadTransfer)

def statusOk : Int := 0
def statusFailed : Int := -1
def statusDeclined : Int := -2
def statusCancelled : Int := -3

/-- What `receiveOnSocket` tells the app. -/
def receiveStatus : Except Error ServeOutcome → Int
  | .ok (.received names) => if names ≠ [] then statusOk else statusDeclined
  | .ok .cancelled => statusCancelled
  | .error _ => statusFailed

namespace Serve

def honestRead (w : Serve) (e : Env) : Bool :=
  match w.nextPlain e with
  | none => true
  | some plain =>
      match Frames.parse plain with
      | .ok (.disconnection _ _) => decide (w.written = [])
      | .ok _ | .error _ => true

/-- Whether a step returns, if it returns, with what the status will say.  The two that
may not: the Disconnection at the end, which goes out or not, and the peer's, which ends
the loop wherever it is. -/
def honest (w : Serve) (e : Env) : Bool :=
  match w.batch with
  | .done :: _ => (agreed w.log).all fun i => decide (i.texts = []) == !e.breaks 1
  | _ :: _ => true
  | [] => e.cancelled || decide (w.pending ≠ []) || w.honestRead e

end Serve

variable {w w' : Serve} {e : Env} {log acts : List Act} {expected : HashMap Int FileMetadata}

/-! ## Steps -/

/-- What a step leaves: the tally, or the end of the loop with a status other than success
and something missing. -/
structure Onward (w : Serve) : Prop where
  running : w.outcome = none → w.Tallied
  returned : ∀ r, w.outcome = some r → receiveStatus r ≠ statusOk ∧ ¬ w.Arrived

theorem Onward.of_tallied (running : w.outcome = none) (tally : w.Tallied) : Onward w := by
  refine ⟨fun _ => tally, ?_⟩
  intro r hr
  rw [running] at hr
  cases hr

theorem Onward.of_returned {r : Except Error ServeOutcome} (out : w.outcome = some r)
    (failed : receiveStatus r ≠ statusOk) (behind : ¬ w.Arrived) : Onward w := by
  refine ⟨?_, ?_⟩
  · intro running
    rw [running] at out
    cases out
  · intro r' hr'
    cases out.symm.trans hr'
    exact ⟨failed, behind⟩

theorem receiveStatus_error (err : Error) : receiveStatus (.error err) ≠ statusOk := by
  simp [receiveStatus, statusFailed, statusOk]

theorem Onward.of_fail {err : Error} (out : w.outcome = some (.error err))
    (behind : ¬ w.Arrived) : Onward w :=
  .of_returned out (receiveStatus_error err) behind

theorem delivered_notMem_quiet (quiet : ∀ a ∈ acts, a.isQuiet = true) (id : Int) :
    .delivered id ∉ acts := by
  intro h
  cases quiet _ h

theorem allThere_quiet (quiet : ∀ a ∈ acts, a.isQuiet = true) :
    AllThere (log ++ acts) expected ↔ AllThere log expected :=
  allThere_note (offers_quiet quiet) (delivered_notMem_quiet quiet)

theorem behind_quiet (quiet : ∀ a ∈ acts, a.isQuiet = true) (behind : ¬ AllThere log expected) :
    ¬ AllThere (log ++ acts) expected := by
  rw [allThere_quiet quiet]
  exact behind

/-- Unless the end is all that is left to do, something is missing. -/
theorem LiveAt.behind {track : Int → Option Protocol.Payload.InFlight} (live : LiveAt w track)
    (tally : w.Tallied) (hqueue : w.queue ≠ [.done]) : ¬ w.Arrived := by
  by_cases hdone : .done ∈ w.queue
  · intro harrived
    obtain ⟨i, hi, -⟩ := harrived
    rcases tally.finishing hdone with hnone | ⟨h, -⟩
    · rw [hnone] at hi
      cases hi
    · exact hqueue h
  · exact not_allThere live.safe.offers_le tally.announced live.books.listed
      (tally.outstanding hdone)

theorem Onward.writeOrFail (tally : w.Tallied) (running : w.outcome = none)
    (behind : ¬ w.Arrived) (e : Env) (frames : List Bytes) : Onward (w.writeOrFail e frames) := by
  unfold Serve.writeOrFail
  dsimp only
  split
  · exact .of_tallied running (tally.quiet (sent_quiet _))
  · exact .of_fail rfl (behind_quiet (sent_quiet _) behind)

/-- The slot is given back on the way out. -/
theorem Onward.finish (behind : ¬ w.Arrived) {r : Except Error ServeOutcome}
    (failed : receiveStatus r ≠ statusOk) : Onward { w.finish with outcome := some r } := by
  obtain ⟨acts, quiet, heq⟩ := finish_eq w
  rw [heq]
  exact .of_returned rfl failed (behind_quiet quiet behind)

/-- Every effect but the end. -/
theorem Onward.perform {effect : Effect} {rest : List Effect} (live : Live w)
    (tally : w.Tallied) (running : w.outcome = none) (hbatch : w.batch = effect :: rest)
    (notDone : effect ≠ .done) (e : Env) : Onward ({ w with batch := rest }.perform e effect) := by
  have queue : w.queue = effect :: (rest ++ w.pending) := by
    rw [Serve.queue, hbatch]
    rfl
  have behind : ¬ w.Arrived := by
    apply live.behind tally
    rw [queue]
    exact fun h => notDone (List.cons.inj h).1
  have talk := live.talk
  have books := live.books
  have here : Tally w.fsm (effect :: (rest ++ w.pending)) w.log w.expected w.written :=
    queue ▸ tally
  rw [queue] at talk books
  cases effect with
  | send frame =>
      exact Onward.writeOrFail (w := { w with
        batch := rest
        nextPayloadId := (wrapBytes w.nextPayloadId frame).1 }) (here.pop (by simp)) running
        behind e _
  | askUser i =>
      obtain ⟨hnone, hasks, asked⟩ := here.ask talk e.asking.ask
      have told : Tally (w.fsm.on (if e.asking.ask then .userAccepted else .userRejected)).1
          (rest ++ w.pending ++
            (w.fsm.on (if e.asking.ask then .userAccepted else .userRejected)).2)
          (w.log ++ [.asked i e.asking.ask]) w.expected w.written := by
        refine asked.on ?_ fun hno => ⟨?_, hasks⟩
        · cases e.asking.ask <;> simp
        · cases answer : e.asking.ask with
          | true =>
              rw [answer] at hno
              simp at hno
          | false =>
              rw [← hnone]
              simp [agreed, Act.agreed]
      rw [List.append_assoc] at told
      exact .of_tallied running told
  | beginSending i => exact .of_tallied running (here.pop (by simp))
  | beginReceiving i =>
      have expecting := here.begin talk books
      unfold Serve.perform
      dsimp only
      split
      · exact .of_tallied running (expecting.quiet (sent_quiet _))
      · exact .of_tallied running expecting
  | done => exact absurd rfl notDone
  | cancelled =>
      refine Onward.finish (w := { w with
        batch := rest, sinks := ∅, host := w.host.discard e.stuck }.note [.discarded])
        (r := .ok .cancelled) ?_ (by decide)
      change ¬ AllThere (w.log ++ [Act.discarded]) w.expected
      rw [allThere_note rfl (by simp)]
      exact behind
  | failed why => exact Onward.finish (w := { w with batch := rest }) behind (receiveStatus_error _)

/-! ## Reading -/

theorem ne_empty_of_mem {id : Int} (h : id ∈ expected) : expected ≠ ∅ := by
  rintro rfl
  exact AList.notMem_empty id h

/-- While something is expected, something is missing. -/
theorem behind_of_expected {id : Int} (once : (offers log).length ≤ 1)
    (announced : ∀ i ∈ agreed log, i.files ≠ [] ∨ i.texts ≠ [])
    (listed : ∀ id f, expected.lookup id = some f → Listed log id f) (hid : id ∈ expected) :
    ¬ AllThere log expected := by
  exact not_allThere once announced listed fun heq => absurd heq (ne_empty_of_mem hid)

theorem Begun.deliver (begun : Begun log expected) (id : Int) :
    Begun (log ++ [.delivered id]) (expected.erase id) := by
  have noted : Begun (log ++ [.delivered id]) expected := begun.note rfl
  refine ⟨noted.1, ?_⟩
  intro i hi f hf
  rcases noted.2 i hi f hf with h | h
  · by_cases hfid : f.payloadId = id
    · refine .inr (List.mem_append_right _ ?_)
      rw [hfid]
      exact List.mem_singleton.mpr rfl
    · exact .inl (AList.mem_erase.mpr ⟨hfid, h⟩)
  · exact .inr h

/-- The last chunk is on record: the file is struck off, and with the last of them the
machine is told. -/
theorem Onward.complete {id : Int} (tally : w.Tallied) (running : w.outcome = none)
    (idle : w.queue = []) (here : w.fsm.state = .transferring) (hwritten : w.written ≠ [])
    (once : (offers w.log).length ≤ 1)
    (listed : ∀ id f, w.expected.lookup id = some f → Listed w.log id f) (hid : id ∈ w.expected)
    (e : Env) : Onward ((w.note [.delivered id]).complete e id) := by
  have some_left := ne_empty_of_mem hid
  have notDone : .done ∉ w.queue := by
    rw [idle]
    exact List.not_mem_nil
  have touched : Tally w.fsm w.queue (w.log ++ [.delivered id]) w.expected w.written :=
    tally.touch some_left notDone rfl _
  have begun : Begun (w.log ++ [.delivered id]) (w.expected.erase id) := by
    rcases tally.accounted with h | ⟨hempty, -⟩
    · exact h.deliver id
    · exact absurd hempty some_left
  unfold Serve.complete
  dsimp only
  split
  · refine .of_fail rfl (behind_of_expected ?_ touched.announced ?_ hid)
    · change (offers (w.log ++ [Act.delivered id])).length ≤ 1
      have same : offers (w.log ++ [Act.delivered id]) = offers w.log :=
        (offers_append ..).trans (List.append_nil _)
      rw [same]
      exact once
    · exact fun j f h => (listed j f h).mono _
  split
  next hempty =>
      have none_left : w.expected.erase id = ∅ := AList.ext (List.map_eq_nil_iff.mp hempty)
      have done := Tally.completed tally.introduced touched.announced (none_left ▸ begun)
        hwritten here
      refine .of_tallied running ?_
      change Tally _ (w.batch ++ (w.pending ++ _)) _ (w.expected.erase id) _
      rw [← List.append_assoc, none_left]
      change Tally _ (w.queue ++ _) _ _ _
      rw [idle, List.nil_append]
      exact done
  next hmore =>
      refine .of_tallied running { touched with
        accounted := .inl begun
        outstanding := ?_
        finishing := fun h => absurd h notDone }
      intro _ hempty
      refine absurd ?_ hmore
      change (w.expected.erase id).keys = []
      rw [show w.expected.erase id = ∅ from hempty]
      rfl

/-- `report` counts, and leaves on record at most a progress report. -/
theorem report_eq (w : Serve) (data : Bytes) (last : Bool) :
    ∃ (acts : List Act) (done reported : Nat), (∀ a ∈ acts, a.isQuiet = true) ∧
      w.report data last =
        { w with log := w.log ++ acts, doneBytes := done, reportedBytes := reported } := by
  unfold Serve.report
  dsimp only
  split
  · exact ⟨_, _, _, by simp [Act.isQuiet], rfl⟩
  · exact ⟨[], _, w.reportedBytes, by simp, by rw [List.append_nil]⟩

theorem Onward.writeChunk {id : Int} (tally : w.Tallied) (running : w.outcome = none)
    (idle : w.queue = []) (here : w.fsm.state = .transferring) (hwritten : w.written ≠ [])
    (once : (offers w.log).length ≤ 1)
    (listed : ∀ id f, w.expected.lookup id = some f → Listed w.log id f) (hid : id ∈ w.expected)
    (path : Text) (data : Bytes) (last : Bool) (e : Env) :
    Onward (w.writeChunk e id path data last) := by
  have some_left := ne_empty_of_mem hid
  have notDone : .done ∉ w.queue := by
    rw [idle]
    exact List.not_mem_nil
  have wrote : Tally w.fsm w.queue (w.log ++ [.wrote id data]) w.expected w.written :=
    tally.touch some_left notDone rfl _
  have behind := behind_of_expected once tally.announced listed hid
  unfold Serve.writeChunk
  dsimp only
  split
  · refine .of_fail rfl ?_
    change ¬ AllThere (w.log ++ [.wrote id data]) w.expected
    rw [allThere_note rfl (by simp)]
    exact behind
  obtain ⟨acts, done, reported, quiet, heq⟩ := report_eq ({ w with
    host := (w.host.write path data e.diskStops).1 }.note [.wrote id data]) data last
  have tallied : Tally w.fsm w.queue (w.log ++ [.wrote id data] ++ acts) w.expected w.written :=
    wrote.quiet quiet
  have same : offers (w.log ++ [.wrote id data] ++ acts) = offers w.log := by
    rw [offers_append, offers_append, offers_quiet quiet, List.append_nil]
    simp [offers, Act.offer]
  rw [heq]
  split
  · refine Onward.complete (w := { w with
        host := (w.host.write path data e.diskStops).1
        log := w.log ++ [.wrote id data] ++ acts, doneBytes := done, reportedBytes := reported })
      tallied running idle here hwritten ?_ ?_ hid e
    · change (offers (w.log ++ [.wrote id data] ++ acts)).length ≤ 1
      rw [same]
      exact once
    · exact fun j f h => ((listed j f h).mono _).mono _
  · exact .of_tallied running tallied

/-- While something is expected and nothing is left to do, the transfer is on. -/
theorem LiveAt.transferring {track : Int → Option Protocol.Payload.InFlight}
    (live : LiveAt w track) (idle : w.queue = []) {id : Int} (hid : id ∈ w.expected) :
    w.fsm.state = .transferring := by
  have notOver := live.reading idle
  have notEarly : isEarly w.fsm.state ≠ true := by
    intro early
    rw [(live.books.untouched (.inl early)).1] at hid
    exact AList.notMem_empty id hid
  cases hstate : w.fsm.state with
  | transferring => rfl
  | pairedKey | introduction | awaitingUser =>
      rw [hstate] at notEarly
      exact absurd rfl notEarly
  | done | failed | cancelled =>
      rw [hstate] at notOver
      cases notOver

/-- A chunk of a file. -/
theorem Onward.fileChunk {track : Int → Option Protocol.Payload.InFlight} (live : LiveAt w track)
    (tally : w.Tallied) (running : w.outcome = none) (idle : w.queue = []) (e : Env) (id : Int)
    (data : Bytes) (last : Bool) (header : PayloadHeader) :
    Onward (w.fileChunk e id data last header) := by
  have behind : ¬ w.Arrived := by
    apply live.behind tally
    rw [idle]
    simp
  have once := live.safe.offers_le
  have listed := live.books.listed
  unfold Serve.fileChunk
  cases hf : w.expected.lookup id with
  | none => exact .of_fail rfl behind
  | some f =>
      have hid : id ∈ w.expected := AList.lookup_isSome.mp (by rw [hf]; rfl)
      have here := live.transferring idle hid
      unfold Serve.openSink
      dsimp only
      cases hsink : w.sinks.lookup id with
      | some path =>
          have hwritten : w.written ≠ [] := by
            obtain ⟨o, ho, -⟩ := live.files.sink id path hsink
            rw [live.files.names]
            exact List.ne_nil_of_mem (List.mem_map_of_mem ho)
          exact Onward.writeChunk tally running idle here hwritten once listed hid path data last e
      | none =>
          cases w.host.create (Serve.pickName f header) e.opens with
          | error err =>
              refine .of_fail rfl ?_
              change ¬ AllThere (w.log ++ [Act.createFailed id _]) w.expected
              rw [allThere_note rfl (by simp)]
              exact behind
          | ok made =>
              obtain ⟨host, path⟩ := made
              have some_left := ne_empty_of_mem hid
              dsimp only
              refine Onward.writeChunk ?_ ?_ ?_ ?_ ?_ ?_ ?_ ?_ path data last e
              · refine tally.touch some_left ?_ rfl _
                rw [idle]
                exact List.not_mem_nil
              · exact running
              · exact idle
              · exact here
              · simp [Serve.note]
              · change (offers (w.log ++ [Act.opened id header _ path])).length ≤ 1
                have same : offers (w.log ++ [Act.opened id header (Serve.pickName f header)
                    path]) = offers w.log := (offers_append ..).trans (List.append_nil _)
                rw [same]
                exact once
              · exact fun j g h => (listed j g h).mono _
              · exact hid

/-- The peer cancels a payload. -/
theorem Onward.cancelPayload {track : Int → Option Protocol.Payload.InFlight}
    (live : LiveAt w track) (tally : w.Tallied) (running : w.outcome = none)
    (idle : w.queue = []) (id : Int) : Onward ((w.dropSink id).feed .userCancelled) := by
  have fed : ∀ {log : List Act}, Tally w.fsm w.queue log w.expected w.written →
      Tally (w.fsm.on .userCancelled).1 (w.batch ++ (w.pending ++ (w.fsm.on .userCancelled).2))
        log w.expected w.written := by
    intro log tally
    rw [← List.append_assoc]
    exact tally.on (by simp) (by simp)
  unfold Serve.dropSink
  split
  next hid =>
      have hexp : id ∈ w.expected := live.books.sunk id hid
      refine .of_tallied running (fed ?_)
      refine tally.touch (ne_empty_of_mem hexp) ?_ rfl _
      rw [idle]
      exact List.not_mem_nil
  next => exact .of_tallied running (fed tally)

theorem Onward.payload (live : Live w) (tally : w.Tallied) (running : w.outcome = none)
    (idle : w.queue = []) (pt : PayloadTransfer) (e : Env) :
    Onward (w.handleFrame e (.payloadTransfer pt)) := by
  have behind : ¬ w.Arrived := by
    apply live.behind tally
    rw [idle]
    simp
  rw [Serve.handleFrame]
  generalize w.assembler.accept pt = result
  obtain ⟨a, event⟩ := result
  have here : LiveAt { w with assembler := a } w.assembler.track :=
    ⟨live.talk, live.books, live.files, live.record⟩
  cases event with
  | error err => exact .of_fail rfl behind
  | ok event =>
      cases event with
      | bytes id data =>
          unfold Serve.payloadEvent
          dsimp only
          cases Sharing.parse data with
          | error err => exact .of_fail rfl behind
          | ok frame =>
              have told := tally.on (show Event.frame frame ≠ .transferComplete by simp) (by simp)
              rw [Serve.queue, List.append_assoc] at told
              exact .of_tallied running told
      | fileChunk id offset data last header =>
          exact Onward.fileChunk here tally running idle e id data last header
      | cancelled id => exact Onward.cancelPayload here tally running idle id
      | failed id => exact .of_fail rfl behind
      | pending => exact .of_tallied running tally

theorem Onward.pathRequest (tally : w.Tallied) (running : w.outcome = none)
    (behind : ¬ w.Arrived) (mediums : List Upgrade.Medium) (e : Env) :
    Onward (w.pathRequest e mediums) := by
  unfold Serve.pathRequest
  split
  · exact .of_tallied running tally
  split
  · exact .writeOrFail tally running behind e _
  split
  · exact .writeOrFail tally running behind e _
  split
  · exact .writeOrFail tally running behind e _
  dsimp only
  split
  · exact .of_fail rfl (behind_quiet (sent_quiet _) behind)
  · exact .of_tallied running (tally.quiet (sent_quiet _))

/-- Every frame but a Disconnection. -/
theorem Onward.handleFrame (live : Live w) (tally : w.Tallied) (running : w.outcome = none)
    (idle : w.queue = []) {frame : Frames.Frame}
    (stays : ∀ requestSafe ackSafe, frame ≠ .disconnection requestSafe ackSafe) (e : Env) :
    Onward (w.handleFrame e frame) := by
  have behind : ¬ w.Arrived := by
    apply live.behind tally
    rw [idle]
    simp
  cases frame with
  | payloadTransfer pt => exact .payload live tally running idle pt e
  | bandwidthUpgrade body =>
      rw [Serve.handleFrame]
      split
      · exact .pathRequest tally running behind _ e
      · exact .of_tallied running tally
      · exact .of_tallied running tally
  | keepAlive ack seqNum =>
      cases ack with
      | false => exact .writeOrFail tally running behind e _
      | true => exact .of_tallied running tally
  | disconnection requestSafe ackSafe => exact absurd rfl (stays _ _)
  | connectionRequest r => exact .of_tallied running tally
  | connectionResponse r => exact .of_tallied running tally
  | unknown ty => exact .of_tallied running tally

/-! ## The step that returns -/

/-- What a step leaves where it may also be the end of a whole receive: the status is
right exactly if the step is honest. -/
structure Reports (w : Serve) (honest : Bool) : Prop where
  running : w.outcome = none → w.Tallied
  returned : ∀ r, w.outcome = some r →
    ((receiveStatus r = statusOk ↔ w.Arrived) ↔ honest = true)

theorem Onward.reports (onward : Onward w) : Reports w true := by
  refine ⟨onward.running, ?_⟩
  intro r hr
  obtain ⟨failed, behind⟩ := onward.returned r hr
  simp [failed, behind]

theorem Reports.nextPass {honest : Bool} (reports : Reports w honest) (hbatch : w.batch = []) :
    Reports w.nextPass honest := by
  refine ⟨?_, reports.returned⟩
  intro running
  have tally := reports.running running
  have queue : w.nextPass.queue = w.queue := by
    rw [Serve.queue, Serve.queue, hbatch]
    exact List.append_nil _
  change Tally w.fsm w.nextPass.queue w.log w.expected w.written
  rw [queue]
  exact tally

theorem receiveStatus_received (names : List Text) :
    receiveStatus (.ok (.received names)) = statusOk ↔ names ≠ [] := by
  unfold receiveStatus
  dsimp only
  split
  next h => exact ⟨fun _ => h, fun _ => rfl⟩
  next h => exact ⟨fun hstatus => absurd hstatus (by decide), fun hne => absurd hne h⟩

/-- The slot is given back and the names are returned. -/
theorem Reports.finish {honest : Bool}
    (right : (w.written ≠ [] ↔ w.Arrived) ↔ honest = true) :
    Reports (w.finishWith (.received w.written)) honest := by
  obtain ⟨acts, quiet, heq⟩ := finish_eq w
  unfold Serve.finishWith
  rw [heq]
  apply Reports.mk
  · intro h
    cases h
  intro r hr
  cases hr
  change (_ ↔ AllThere (w.log ++ acts) w.expected) ↔ _
  rw [receiveStatus_received, allThere_quiet quiet]
  exact right

/-- The peer disconnects: what is there is called received. -/
theorem Reports.disconnected (behind : ¬ w.Arrived) (requestSafe : Bool) (e : Env) :
    Reports (w.disconnected e requestSafe) (decide (w.written = [])) := by
  have right : ∀ {log : List Act}, ¬ AllThere log w.expected →
      ((w.written ≠ [] ↔ AllThere log w.expected) ↔ decide (w.written = []) = true) := by
    intro log behind
    simp [behind]
  unfold Serve.disconnected
  dsimp only
  split
  · exact Reports.finish (w := (w.write e _).1) (right (behind_quiet (sent_quiet _) behind))
  · exact Reports.finish (right behind)

theorem Reports.read (live : Live w) (tally : w.Tallied) (running : w.outcome = none)
    (idle : w.queue = []) (e : Env) : Reports (w.read e) (w.honestRead e) := by
  have behind : ¬ w.Arrived := by
    apply live.behind tally
    rw [idle]
    simp
  unfold Serve.read Serve.honestRead
  cases w.nextPlain e with
  | none => exact (Onward.of_fail (w := w.fail .transport) rfl behind).reports
  | some plain =>
      have here : Live { w with deferred := w.deferred.tail } :=
        ⟨live.talk, live.books, live.files, live.record⟩
      dsimp only
      cases Frames.parse plain with
      | error err =>
          exact (Onward.of_fail (w := { w with deferred := w.deferred.tail }.fail (.frame err)) rfl
            behind).reports
      | ok frame =>
          cases frame with
          | disconnection requestSafe ackSafe =>
              exact Reports.disconnected (w := { w with deferred := w.deferred.tail }) behind _ e
          | payloadTransfer pt =>
              exact (Onward.handleFrame here tally running idle (by simp) e).reports
          | bandwidthUpgrade body =>
              exact (Onward.handleFrame here tally running idle (by simp) e).reports
          | keepAlive ack seqNum =>
              exact (Onward.handleFrame here tally running idle (by simp) e).reports
          | connectionRequest r =>
              exact (Onward.handleFrame here tally running idle (by simp) e).reports
          | connectionResponse r =>
              exact (Onward.handleFrame here tally running idle (by simp) e).reports
          | unknown ty =>
              exact (Onward.handleFrame here tally running idle (by simp) e).reports

theorem Reports.turn (live : Live w) (tally : w.Tallied) (running : w.outcome = none)
    (hbatch : w.batch = []) (e : Env) : Reports (w.turn e) (w.honest e) := by
  unfold Serve.turn
  split
  next hcancel =>
      have plain : w.honest e = true := by simp [Serve.honest, hbatch, hcancel]
      have told := tally.on (show Event.userCancelled ≠ .transferComplete by simp) (by simp)
      rw [Serve.queue, List.append_assoc] at told
      have fed : Onward (w.feed .userCancelled) := .of_tallied running told
      rw [plain]
      exact fed.reports.nextPass hbatch
  split
  next hpending =>
      have plain : w.honest e = true := by simp [Serve.honest, hbatch, hpending]
      rw [plain]
      exact (Onward.of_tallied running tally).reports.nextPass hbatch
  next hcancel hpending =>
      have idle : w.queue = [] := by
        rw [Serve.queue, hbatch]
        simpa using hpending
      have same : w.honest e = w.honestRead e := by
        simp [Serve.honest, hbatch, hcancel, show w.pending = [] by simpa using hpending]
      have left : (w.read e).batch = [] := (live.read idle e).batch.trans hbatch
      rw [same]
      exact (Reports.read live tally running idle e).nextPass left

/-- One frame goes out unless the socket fails at once. -/
theorem write_one (w : Serve) (e : Env) (frame : Bytes) :
    (w.write e [frame]).2 = !e.breaks 1 := by
  unfold Serve.write Env.breaks
  rw [Bool.eq_iff_iff]
  simp
  omega

/-- Where the person said yes and everything is there, all that can be missing is a
text. -/
theorem allThere_iff (once : (offers log).length ≤ 1) (begun : Begun log ∅) {i : Introduction}
    (hi : i ∈ agreed log) : AllThere log ∅ ↔ i.texts = [] := by
  constructor
  · intro harrived
    obtain ⟨j, hj, htexts, -⟩ := harrived
    rw [asked_unique once (mem_agreed.mp hi) (mem_agreed.mp hj)]
    exact htexts
  · intro htexts
    refine ⟨i, hi, htexts, ?_⟩
    intro f hf
    refine ⟨?_, AList.notMem_empty _⟩
    exact (begun.2 i hi f hf).resolve_left (AList.notMem_empty _)

/-- The Disconnection at the end. -/
theorem Reports.done {rest : List Effect} (live : Live w) (tally : w.Tallied)
    (hbatch : w.batch = .done :: rest) (e : Env) :
    Reports ({ w with batch := rest }.perform e .done) (w.honest e) := by
  have queue : w.queue = .done :: (rest ++ w.pending) := by
    rw [Serve.queue, hbatch]
    rfl
  have honest : w.honest e =
      (agreed w.log).all fun i => decide (i.texts = []) == !e.breaks 1 := by
    unfold Serve.honest
    rw [hbatch]
  -- the two exits, once it is known what each should say
  suffices right : (e.breaks 1 = false → ((w.written ≠ [] ↔ w.Arrived) ↔ w.honest e = true)) ∧
      (e.breaks 1 = true → (¬ w.Arrived ↔ w.honest e = true)) by
    unfold Serve.perform
    dsimp only
    split
    next hok =>
        rw [write_one] at hok
        refine Reports.finish (w := ({ w with batch := rest } : Serve).write e _ |>.1) ?_
        change (w.written ≠ [] ↔ AllThere (w.log ++ _) w.expected) ↔ _
        rw [allThere_quiet (sent_quiet _)]
        exact right.1 (by simpa using hok)
    next hfail =>
        rw [write_one] at hfail
        apply Reports.mk
        · intro h
          cases h
        intro r hr
        cases hr
        change (_ ↔ AllThere (w.log ++ _) w.expected) ↔ _
        rw [allThere_quiet (sent_quiet _)]
        simpa [receiveStatus_error] using right.2 (by simpa using hfail)
  rcases tally.finishing (by rw [queue]; exact List.mem_cons_self ..) with
    hnone | ⟨-, hempty, hwritten, begun⟩
  · have behind : ¬ w.Arrived := by
      intro harrived
      obtain ⟨i, hi, -⟩ := harrived
      rw [hnone] at hi
      cases hi
    have nothing : w.written = [] := by
      rcases tally.accounted with h | ⟨-, hlog⟩
      · exact absurd hnone h.1
      · rw [live.files.names, openings_eq_nil hlog]
        rfl
    rw [honest, hnone]
    simp [behind, nothing]
  · obtain ⟨i, hi⟩ := List.exists_mem_of_ne_nil _ begun.1
    have once := live.safe.offers_le
    have arrived : w.Arrived ↔ i.texts = [] := by
      unfold Serve.Arrived
      rw [hempty]
      exact allThere_iff once (hempty ▸ begun) hi
    have only : w.honest e = (decide (i.texts = []) == !e.breaks 1) := by
      rw [honest, Bool.eq_iff_iff, List.all_eq_true]
      constructor
      · exact fun h => h i hi
      · intro h j hj
        rw [asked_unique once (mem_agreed.mp hj) (mem_agreed.mp hi)]
        exact h
    rw [only, arrived]
    constructor
    · intro holds
      simp [holds, hwritten]
    · intro breaks
      simp [breaks]

/-- **One step.** -/
theorem Reports.step (live : Live w) (tally : w.Tallied) (h : w.step e = some w') :
    Reports w' (w.honest e) := by
  cases Serve.steps_of_step h with
  | effect effect rest running hbatch =>
      by_cases hdone : effect = .done
      · subst hdone
        exact .done live tally hbatch e
      · have onward := Onward.perform live tally running hbatch hdone e
        have plain : w.honest e = true := by
          unfold Serve.honest
          rw [hbatch]
          cases effect with
          | done => exact absurd rfl hdone
          | send | askUser | beginReceiving | beginSending | cancelled | failed => rfl
        rw [plain]
        exact onward.reports
  | turn running hbatch => exact .turn live tally running hbatch e

/-! ## Whole runs -/

theorem tallied_init (bootstrap : Upgrade.Medium) (fill : Option RandomFill) (id : Int)
    (inbox : HashMap Text Bytes) : (Serve.init bootstrap fill id inbox).Tallied := by
  have start : ∃ m es, ({} : Inbound).start fill = (m, es) ∧ m.introduction = none ∧
      .done ∉ es ∧ ∀ i, .askUser i ∉ es := by
    unfold Inbound.start
    cases pairedKeyEncryption fill with
    | ok frame => exact ⟨_, _, rfl, rfl, by simp, by simp⟩
    | error err => exact ⟨_, _, rfl, rfl, by simp, by simp⟩
  obtain ⟨m, es, hstart, hintro, hdone, hask⟩ := start
  have fields : (Serve.init bootstrap fill id inbox).fsm = m ∧
      (Serve.init bootstrap fill id inbox).queue = es := by
    rw [Serve.queue, Serve.init, hstart]
    exact ⟨rfl, List.append_nil _⟩
  unfold Serve.Tallied
  rw [fields.1, fields.2]
  exact {
    introduced := by simp [hintro]
    announced := fun i h => by cases h
    accounted := .inr ⟨rfl, fun a h => by cases h⟩
    outstanding := fun _ _ id h => by cases h
    finishing := fun h => absurd h hdone
    done := fun h => absurd h hdone
    asking := fun i h => absurd h (hask i) }

/-- **The status.**  In the step in which the loop returns, whatever came before, the
status says success just where everything arrived, exactly if the step is honest. -/
theorem receiveStatus_iff {bootstrap : Upgrade.Medium} {fill : Option RandomFill} {id : Int}
    {inbox : HashMap Text Bytes} {steps : List Env}
    (run : Lts.Run (Lts.ofPartial Serve.step) (.init bootstrap fill id inbox) steps w)
    (h : w.step e = some w') {r : Except Error ServeOutcome} (out : w'.outcome = some r) :
    (receiveStatus r = statusOk ↔ w'.Arrived) ↔ w.honest e = true := by
  have both : Inv w.batch w ∧ (w.outcome = none → w.Tallied) := by
    refine run.invariant (fun w => Inv w.batch w ∧ (w.outcome = none → w.Tallied)) ?_ ?_
    · exact ⟨inv_init _ _ _ _, fun _ => tallied_init _ _ _ _⟩
    · intro u a u' kept hstep
      have running := Serve.running_of_step hstep
      exact ⟨kept.1.step hstep, (Reports.step (kept.1.live running) (kept.2 running) hstep).running⟩
  have running := Serve.running_of_step h
  exact (Reports.step (both.1.live running) (both.2 running) h).returned r out

/-! ## The id -/

theorem host_id_writeOrFail (w : Serve) (e : Env) (frames : List Bytes) :
    (w.writeOrFail e frames).host.id = w.host.id := by
  unfold Serve.writeOrFail
  dsimp only
  split <;> rfl

theorem host_id_finish (w : Serve) : w.finish.host.id = w.host.id := by
  unfold Serve.finish
  split <;> rfl

theorem host_id_perform (w : Serve) (e : Env) (effect : Effect) :
    (w.perform e effect).host.id = w.host.id := by
  cases effect with
  | send frame => exact host_id_writeOrFail _ e _
  | askUser i => rfl
  | beginSending i => rfl
  | beginReceiving i =>
      unfold Serve.perform
      dsimp only
      split <;> rfl
  | done =>
      unfold Serve.perform
      dsimp only
      split
      · exact host_id_finish _
      · rfl
  | cancelled => exact host_id_finish _
  | failed why => exact host_id_finish _

theorem host_id_writeChunk (w : Serve) (e : Env) (id : Int) (path : Text) (data : Bytes)
    (last : Bool) : (w.writeChunk e id path data last).host.id = w.host.id := by
  obtain ⟨acts, done, reported, -, heq⟩ := report_eq ({ w with
    host := (w.host.write path data e.diskStops).1 }.note [.wrote id data]) data last
  unfold Serve.writeChunk
  dsimp only
  rw [heq]
  split
  · rfl
  split
  · unfold Serve.complete
    dsimp only
    split
    · rfl
    split <;> rfl
  · rfl

theorem host_id_fileChunk (w : Serve) (e : Env) (id : Int) (data : Bytes) (last : Bool)
    (header : PayloadHeader) : (w.fileChunk e id data last header).host.id = w.host.id := by
  unfold Serve.fileChunk Serve.openSink
  split
  · rfl
  next f hf =>
      cases w.sinks.lookup id with
      | some path => exact host_id_writeChunk w e id path data last
      | none =>
          dsimp only
          cases hmade : w.host.create (Serve.pickName f header) e.opens with
          | error err => rfl
          | ok made =>
              obtain ⟨host, path⟩ := made
              obtain ⟨-, rfl⟩ := QsHost.create_spec hmade
              exact host_id_writeChunk _ e id path data last

theorem host_id_handleFrame (w : Serve) (e : Env) (frame : Frames.Frame) :
    (w.handleFrame e frame).host.id = w.host.id := by
  cases frame with
  | payloadTransfer pt =>
      rw [Serve.handleFrame]
      generalize w.assembler.accept pt = result
      obtain ⟨a, event⟩ := result
      cases event with
      | error err => rfl
      | ok event =>
          cases event with
          | bytes id data =>
              unfold Serve.payloadEvent
              dsimp only
              split <;> rfl
          | fileChunk id offset data last header => exact host_id_fileChunk _ e id data last header
          | cancelled id =>
              change (Serve.dropSink _ id).host.id = _
              unfold Serve.dropSink
              split <;> rfl
          | failed id => rfl
          | pending => rfl
  | bandwidthUpgrade body =>
      rw [Serve.handleFrame]
      split
      · unfold Serve.pathRequest
        split
        · rfl
        split
        · exact host_id_writeOrFail _ e _
        split
        · exact host_id_writeOrFail _ e _
        split
        · exact host_id_writeOrFail _ e _
        dsimp only
        split <;> rfl
      · rfl
      · rfl
  | keepAlive ack seqNum =>
      cases ack with
      | false => exact host_id_writeOrFail _ e _
      | true => rfl
  | disconnection requestSafe ackSafe =>
      rw [Serve.handleFrame]
      unfold Serve.disconnected Serve.finishWith
      dsimp only
      split
      · exact host_id_finish _
      · exact host_id_finish _
  | connectionRequest r => rfl
  | connectionResponse r => rfl
  | unknown ty => rfl

/-- The host keeps the id it was made with. -/
theorem host_id_step (h : w.step e = some w') : w'.host.id = w.host.id := by
  cases Serve.steps_of_step h with
  | effect effect rest _ _ => exact host_id_perform { w with batch := rest } e effect
  | turn _ _ =>
      unfold Serve.turn
      split
      · rfl
      split
      · rfl
      change (w.read e).host.id = w.host.id
      unfold Serve.read
      split
      · rfl
      dsimp only
      split
      · rfl
      · exact host_id_handleFrame _ e _

end Quickshare
