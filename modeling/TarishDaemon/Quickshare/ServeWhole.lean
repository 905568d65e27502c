import TarishDaemon.Quickshare.ServeConsent

/-!
# Whether a receive leaves only whole files

The loop writes straight to the inbox and discards what it opened on one exit
only, the cancel.  Every other exit leaves the files as they are.  `careful` reads
off the state before a step and the world's answers whether the step takes such an
exit, and asks that no file is short of its last chunk there; it asks further that
the disk takes what is written, that a cancel can remove what it has to, and that a
new file gets the name it is reported under.  In runs of careful steps the loop
returns with whole files only (`careful_returns_whole`).
-/

namespace Quickshare

open Rust Protocol Protocol.Sharing Protocol.Fsm Sharingd
open Protocol.Frames (PayloadHeader)

/-- Every file of the run that is still in the inbox was delivered up to its last
chunk, and every name returned is the name of such a file. -/
structure Whole (w : Serve) : Prop where
  files : ∀ o ∈ openings w.log, o.path ∈ w.host.inbox → .delivered o.id ∈ w.log
  names : ∀ names, w.outcome = some (.ok (.received names)) → ∀ name ∈ names,
    ∃ o ∈ openings w.log, o.path = inboxPath name ∧ o.path ∈ w.host.inbox ∧
      .delivered o.id ∈ w.log

/-! ## Which steps are careful -/

def Act.drop : Act → Option Int
  | .dropped id => some id
  | _ => none

/-- The payloads whose writer the peer's cancel threw away. -/
def drops (log : List Act) : List Int :=
  log.filterMap Act.drop

/-- No writer is open and none was thrown away. -/
def Serve.settled (w : Serve) : Bool :=
  decide (w.sinks.keys = []) && decide (drops w.log = [])

/-- The socket fails within the next `n` frames. -/
def Env.breaks (e : Env) (n : Nat) : Bool :=
  decide (e.writes.getD n < n)

/-- What the payload's open file holds. -/
def Serve.held (w : Serve) (id : Int) : Bytes :=
  ((w.sinks.lookup id).bind fun path => w.host.inbox.lookup path).getD []

/-- The disk takes the whole chunk; and where it is the last one and flushing fails,
no other writer is open. -/
def Serve.lands (w : Serve) (e : Env) (id : Int) (data : Bytes) (last : Bool) : Bool :=
  decide (data.length ≤ e.diskStops.getD data.length) &&
    decide ((w.held id).length + data.length ≤ maxFile) &&
    (!last || e.flushes || decide ((w.sinks.erase id).keys = []))

/-- The file keeps the name it is reported under. -/
def Serve.keepsName (w : Serve) (name : Text) : Bool :=
  decide (safeLeaf name = some name) && decide (inboxPath name ∉ w.host.inbox)

def Serve.carefulChunk (w : Serve) (e : Env) (id : Int) (data : Bytes) (last : Bool)
    (header : PayloadHeader) : Bool :=
  match w.expected.lookup id with
  | none => w.settled
  | some f =>
      match w.sinks.lookup id with
      | some _ => w.lands e id data last
      | none =>
          match w.host.create (pickName f header) e.opens with
          | .error _ => w.settled
          | .ok _ => w.keepsName (pickName f header) && w.lands e id data last

def Serve.carefulPayload (w : Serve) (e : Env) : Except Payload.Error Payload.Event → Bool
  | .error _ => w.settled
  | .ok (.failed _) => w.settled
  | .ok (.bytes _ data) =>
      match Sharing.parse data with
      | .error _ => w.settled
      | .ok _ => true
  | .ok (.fileChunk id _ data last header) => w.carefulChunk e id data last header
  | .ok (.cancelled _) => true
  | .ok .pending => true

def Serve.carefulRequest (w : Serve) (e : Env) (mediums : List Upgrade.Medium) : Bool :=
  if w.upgraded then true
  else if !w.bootstrapIsSlow || decide (maxUpgradeAttempts ≤ w.upgradeAttempts) ||
      decide (.wifiDirect ∉ mediums) then !e.breaks 1 || w.settled
  else e.handover.result.isSome || w.settled

def Serve.carefulFrame (w : Serve) (e : Env) : Frames.Frame → Bool
  | .payloadTransfer pt => w.carefulPayload e (w.assembler.accept pt).2
  | .bandwidthUpgrade body =>
      match Upgrade.parse body with
      | .ok (.pathRequest mediums) => w.carefulRequest e mediums
      | .ok _ | .error _ => true
  | .keepAlive false _ => !e.breaks 1 || w.settled
  | .disconnection _ _ => w.settled
  | .keepAlive true _ | .connectionRequest _ | .connectionResponse _ | .unknown _ => true

def Serve.carefulRead (w : Serve) (e : Env) : Bool :=
  match w.nextPlain e with
  | none => w.settled
  | some plain =>
      match Frames.parse plain with
      | .error _ => w.settled
      | .ok frame => w.carefulFrame e frame

/-- Whether a step leaves, if it leaves, with nothing half done. -/
def Serve.careful (w : Serve) (e : Env) : Bool :=
  match w.batch with
  | .send _ :: _ => !e.breaks 2 || w.settled
  | .failed _ :: _ => w.settled
  | .cancelled :: _ =>
      (openings w.log).all fun o =>
        decide (.delivered o.id ∈ w.log) || !e.stuck.contains o.path
  | .askUser _ :: _ | .beginSending _ :: _ | .beginReceiving _ :: _ | .done :: _ => true
  | [] => e.cancelled || decide (w.pending ≠ []) || w.carefulRead e

/-! ## What a careful step leaves -/

structure Clean (log : List Act) : Prop where
  named : ∀ o ∈ openings log, o.path = inboxPath o.name
  kept : .discarded ∉ log

/-- A state from which nothing is missing: where the loop has returned, it left
settled and reported the names it wrote. -/
structure Fine (w : Serve) : Prop where
  clean : Clean w.log
  settled : w.outcome.isSome = true → w.settled = true
  reported : ∀ names, w.outcome = some (.ok (.received names)) → names = w.written

variable {w : Serve} {e : Env} {log acts : List Act}

theorem Clean.note (clean : Clean log) (noOpening : openings acts = [])
    (kept : .discarded ∉ acts) : Clean (log ++ acts) := by
  refine ⟨?_, ?_⟩
  · rw [openings_append, noOpening, List.append_nil]
    exact clean.named
  · intro h
    rcases List.mem_append.mp h with h | h
    · exact clean.kept h
    · exact kept h

theorem Clean.quiet (clean : Clean log) (quiet : ∀ a ∈ acts, a.isQuiet = true) :
    Clean (log ++ acts) := by
  refine clean.note (openings_quiet quiet) ?_
  intro h
  have := quiet _ h
  cases this

theorem drops_eq_nil (none : ∀ id, .dropped id ∉ log) : drops log = [] := by
  apply List.filterMap_eq_nil_iff.mpr
  intro a ha
  cases a with
  | dropped id => exact absurd ha (none id)
  | _ => rfl

theorem drops_quiet (quiet : ∀ a ∈ acts, a.isQuiet = true) : drops acts = [] := by
  apply drops_eq_nil
  intro id h
  have := quiet _ h
  cases this

theorem drops_append (log acts : List Act) : drops (log ++ acts) = drops log ++ drops acts :=
  List.filterMap_append

theorem settled_iff : w.settled = true ↔ w.sinks.keys = [] ∧ drops w.log = [] := by
  simp [Serve.settled]

theorem settled_note (settled : w.settled = true) (noDrop : drops acts = []) :
    (w.note acts).settled = true := by
  obtain ⟨hsinks, hlog⟩ := settled_iff.mp settled
  refine settled_iff.mpr ⟨hsinks, ?_⟩
  change drops (w.log ++ acts) = []
  rw [drops_append, hlog, noDrop]
  rfl

/-- A step that goes on. -/
theorem Fine.running (clean : Clean w.log) (h : w.outcome = none) : Fine w := by
  refine ⟨clean, ?_, ?_⟩
  · rw [h]
    exact fun h => absurd h (by simp)
  · rw [h]
    exact fun _ h => absurd h (by simp)

theorem Fine.fail (clean : Clean w.log) (settled : w.settled = true) (err : Error) :
    Fine (w.fail err) :=
  ⟨clean, fun _ => settled, fun _ h => by cases h⟩

theorem Fine.finish (clean : Clean w.log) (settled : w.settled = true)
    {result : Except Error ServeOutcome}
    (reported : ∀ names, result = .ok (.received names) → names = w.written) :
    Fine { w.finish with outcome := some result } := by
  obtain ⟨acts, quiet, heq⟩ := finish_eq w
  rw [heq]
  refine ⟨clean.quiet quiet, fun _ => ?_, fun names h => ?_⟩
  · exact settled_note settled (drops_quiet quiet)
  · exact reported names (by simpa using h)

/-- What the state says once the loop has returned. -/
theorem Fine.whole (fine : Fine w) (inv : Inv w.batch w) (out : w.outcome.isSome = true) :
    Whole w := by
  have settled := settled_iff.mp (fine.settled out)
  have delivered : ∀ o ∈ openings w.log, .delivered o.id ∈ w.log := by
    intro o ho
    rcases inv.safe.accounted fine.clean.kept o ho with h | h | h
    · exact h
    · have hmem : o.id ∈ w.sinks := AList.lookup_isSome.mp (by rw [h]; rfl)
      rw [AList.mem_keys, settled.1] at hmem
      cases hmem
    · have hmem : o.id ∈ drops w.log := List.mem_filterMap.mpr ⟨_, h, rfl⟩
      rw [settled.2] at hmem
      cases hmem
  refine ⟨fun o ho _ => delivered o ho, ?_⟩
  intro names hout name hname
  rw [fine.reported names hout, inv.safe.names] at hname
  obtain ⟨o, ho, rfl⟩ := List.mem_map.mp hname
  exact ⟨o, ho, fine.clean.named o ho, inv.safe.kept fine.clean.kept o ho, delivered o ho⟩

/-! ## Step by step -/

theorem write_ok {n : Nat} {frames : List Bytes} (len : frames.length = n)
    (holds : e.breaks n = false) : (w.write e frames).2 = true := by
  simp only [Env.breaks, decide_eq_false_iff_not, Nat.not_lt] at holds
  simp only [Serve.write, decide_eq_true_eq]
  rw [← len] at holds
  omega

theorem Fine.writeOrFail {n : Nat} {frames : List Bytes} (clean : Clean w.log)
    (running : w.outcome = none) (len : frames.length = n)
    (careful : (!e.breaks n || w.settled) = true) : Fine (w.writeOrFail e frames) := by
  have written : Clean (w.write e frames).1.log := clean.quiet (sent_quiet _)
  unfold Serve.writeOrFail
  dsimp only
  split
  next => exact .running written running
  next failed =>
      have broke : e.breaks n = true := by
        by_contra h
        exact failed (write_ok len (by simpa using h))
      rw [broke] at careful
      exact .fail written (settled_note careful (drops_quiet (sent_quiet _))) _

theorem Fine.nextPass (fine : Fine w) : Fine w.nextPass :=
  ⟨fine.clean, fine.settled, fine.reported⟩

/-- With nothing open but `id`, and that at its last chunk. -/
theorem Fine.complete {id : Int} (clean : Clean w.log) (running : w.outcome = none)
    (noDrop : drops w.log = [])
    (alone : e.flushes = true ∨ (w.sinks.erase id).keys = []) : Fine (w.complete e id) := by
  unfold Serve.complete
  dsimp only
  split
  next failed =>
      have hkeys : (w.sinks.erase id).keys = [] := by
        rcases alone with h | h
        · rw [h] at failed
          cases failed
        · exact h
      exact Fine.fail (w := { w with sinks := w.sinks.erase id }) clean
        (settled_iff.mpr ⟨hkeys, noDrop⟩) _
  next =>
      split
      · exact .running clean running
      · exact .running clean running

/-- `report` leaves on record at most a progress report. -/
theorem report_log (w : Serve) (data : Bytes) (last : Bool) :
    ∃ acts : List Act, (∀ a ∈ acts, a.isQuiet = true) ∧
      (w.report data last).log = w.log ++ acts ∧ (w.report data last).outcome = w.outcome := by
  unfold Serve.report
  dsimp only
  split
  · exact ⟨_, by simp [Act.isQuiet], rfl, rfl⟩
  · exact ⟨[], by simp, (List.append_nil _).symm, rfl⟩

theorem Fine.writeChunk {id : Int} {path : Text} {data : Bytes} {last : Bool}
    (clean : Clean w.log) (running : w.outcome = none) (noDrop : drops w.log = [])
    (ok : (w.host.write path data e.diskStops).2 = true)
    (alone : last = true → e.flushes = true ∨ (w.sinks.erase id).keys = []) :
    Fine (w.writeChunk e id path data last) := by
  unfold Serve.writeChunk
  dsimp only
  rw [if_neg (by rw [ok]; simp)]
  have wrote : Clean (w.log ++ [Act.wrote id data]) := clean.note rfl (by simp)
  obtain ⟨acts, quiet, hlog, hout⟩ := report_log ({ w with
    host := (w.host.write path data e.diskStops).1 }.note [.wrote id data]) data last
  have reported : Clean ((w.log ++ [Act.wrote id data]) ++ acts) := wrote.quiet quiet
  rw [show w.log ++ [Act.wrote id data] ++ acts = _ from hlog.symm] at reported
  obtain ⟨-, -, hsinks, -⟩ := report_frame ({ w with
    host := (w.host.write path data e.diskStops).1 }.note [.wrote id data]) data last
  split
  next hlast =>
      refine Fine.complete (reported.note rfl (by simp)) (hout.trans running) ?_ ?_
      · change drops (Serve.log _ ++ [Act.delivered id]) = []
        rw [drops_append, hlog, drops_append, drops_quiet quiet]
        change drops (w.log ++ [Act.wrote id data]) ++ [] ++ [] = []
        rw [drops_append, noDrop]
        rfl
      · rcases alone hlast with h | h
        · exact .inl h
        · exact .inr ((congrArg (fun s => (AList.erase id s).keys) hsinks).trans h)
  next => exact .running reported (hout.trans running)

/-- The disk takes the chunk. -/
theorem write_lands {h : QsHost} {path : Text} {data : Bytes} {stops : Option Nat}
    (takes : data.length ≤ stops.getD data.length)
    (room : ((h.inbox.lookup path).getD []).length + data.length ≤ maxFile) :
    (h.write path data stops).2 = true := by
  simp only [QsHost.write, decide_eq_true_eq]
  omega

theorem Fine.fileChunk {id : Int} {data : Bytes} {last : Bool} {header : PayloadHeader}
    (clean : Clean w.log) (running : w.outcome = none) (noDrop : drops w.log = [])
    (careful : w.carefulChunk e id data last header = true) :
    Fine (w.fileChunk e id data last header) := by
  unfold Serve.carefulChunk at careful
  unfold Serve.fileChunk
  cases hf : w.expected.lookup id with
  | none =>
      rw [hf] at careful
      exact .fail clean careful _
  | some f =>
      simp only [hf] at careful
      dsimp only
      unfold Serve.openSink
      cases hsink : w.sinks.lookup id with
      | some path =>
          simp only [hsink, Serve.lands, Serve.held, Option.bind_some, Bool.and_eq_true,
            Bool.or_eq_true, Bool.not_eq_true', decide_eq_true_eq] at careful
          obtain ⟨⟨takes, room⟩, alone⟩ := careful
          refine Fine.writeChunk clean running noDrop (write_lands takes room) ?_
          rintro rfl
          simpa using alone
      | none =>
          simp only [hsink] at careful
          dsimp only
          cases created : w.host.create (Serve.pickName f header) e.opens with
          | error err =>
              rw [created] at careful
              exact .fail (w := w.note [.createFailed id (Serve.pickName f header)])
                (clean.note rfl (by simp)) (settled_note careful rfl) _
          | ok made =>
              obtain ⟨host, path⟩ := made
              simp only [created, Serve.lands, Serve.held, hsink, Serve.keepsName,
                Option.bind_none, Option.getD_none, List.length_nil, Bool.and_eq_true,
                Bool.or_eq_true, Bool.not_eq_true', decide_eq_true_eq] at careful
              obtain ⟨⟨safe, free⟩, ⟨takes, room⟩, alone⟩ := careful
              obtain ⟨-, hhost⟩ := QsHost.create_spec created
              have named := QsHost.create_path created safe free
              have opened : Clean (w.log ++
                  [.opened id header (Serve.pickName f header) path]) := by
                refine ⟨?_, ?_⟩
                · rw [openings_append]
                  intro o ho
                  rcases List.mem_append.mp ho with ho | ho
                  · exact clean.named o ho
                  · rw [List.mem_singleton.mp ho]
                    exact named
                · have := clean.kept
                  simpa using this
              refine Fine.writeChunk (w := Serve.note _ _) opened running ?_
                (write_lands takes ?_) ?_
              · change drops (w.log ++ [Act.opened id header (Serve.pickName f header) path]) = []
                rw [drops_append, noDrop]
                rfl
              · change ((host.inbox.lookup path).getD []).length + data.length ≤ maxFile
                rw [hhost]
                dsimp only
                rw [AList.lookup_insert]
                exact room
              · rintro rfl
                have alone : e.flushes = true ∨ (w.sinks.erase id).keys = [] := by
                  simpa using alone
                rcases alone with h | h
                · exact .inl h
                · refine .inr ?_
                  change ((w.sinks.insert id path).erase id).keys = []
                  rw [AList.keys_erase, AList.keys_insert, List.erase_cons_head, ← AList.keys_erase]
                  exact h

theorem Fine.payload {pt : Frames.PayloadTransfer} (clean : Clean w.log)
    (running : w.outcome = none) (noDrop : drops w.log = [])
    (careful : w.carefulPayload e (w.assembler.accept pt).2 = true) :
    Fine (w.handleFrame e (.payloadTransfer pt)) := by
  rw [Serve.handleFrame]
  generalize w.assembler.accept pt = result at careful
  obtain ⟨a, event⟩ := result
  cases event with
  | error err => exact Fine.fail (w := { w with assembler := a }) clean careful _
  | ok event =>
      cases event with
      | bytes id data =>
          unfold Serve.carefulPayload at careful
          unfold Serve.payloadEvent
          dsimp only at careful ⊢
          cases hparse : Sharing.parse data with
          | error err =>
              rw [hparse] at careful
              exact Fine.fail (w := { w with assembler := a }) clean careful _
          | ok frame => exact .running clean running
      | fileChunk id offset data last header =>
          exact Fine.fileChunk (w := { w with assembler := a }) clean running noDrop careful
      | cancelled id =>
          have dropped : Clean (w.log ++ [Act.dropped id]) := clean.note rfl (by simp)
          change Fine ((Serve.dropSink _ id).feed .userCancelled)
          unfold Serve.dropSink
          split
          · exact .running dropped running
          · exact .running clean running
      | failed id => exact Fine.fail (w := { w with assembler := a }) clean careful _
      | pending => exact .running clean running

theorem Fine.request {mediums : List Upgrade.Medium} (clean : Clean w.log)
    (running : w.outcome = none) (careful : w.carefulRequest e mediums = true) :
    Fine (w.pathRequest e mediums) := by
  have offered : Clean (w.offerGroup e.handover).log := clean.quiet (sent_quiet _)
  unfold Serve.carefulRequest at careful
  unfold Serve.pathRequest
  split
  next => exact .running clean running
  next upgraded =>
      rw [if_neg upgraded] at careful
      split
      next slow =>
          rw [if_pos (by simp [slow])] at careful
          exact .writeOrFail clean running rfl careful
      next slow =>
          split
          next tried =>
              rw [if_pos (by simp [tried])] at careful
              exact .writeOrFail clean running rfl careful
          next tried =>
              split
              next other =>
                  rw [if_pos (by simp [other])] at careful
                  exact .writeOrFail clean running rfl careful
              next direct =>
                  rw [if_neg (by simpa [slow] using ⟨by omega, not_not.mp direct⟩)] at careful
                  dsimp only
                  split
                  next broke =>
                      rw [broke] at careful
                      exact .fail offered (settled_note (w := { w with
                        upgradeAttempts := _, deferred := _, upgraded := _ }) careful
                          (drops_quiet (sent_quiet _))) _
                  next => exact .running offered running

theorem Fine.handleFrame {frame : Frames.Frame} (clean : Clean w.log)
    (running : w.outcome = none) (noDrop : drops w.log = [])
    (careful : w.carefulFrame e frame = true) : Fine (w.handleFrame e frame) := by
  cases frame with
  | payloadTransfer pt => exact .payload clean running noDrop careful
  | bandwidthUpgrade body =>
      unfold Serve.carefulFrame at careful
      unfold Serve.handleFrame
      dsimp only at careful ⊢
      split
      next mediums hparse =>
          rw [hparse] at careful
          exact .request clean running careful
      next => exact .running clean running
      next => exact .running clean running
  | keepAlive ack seqNum =>
      cases ack with
      | false => exact .writeOrFail clean running rfl careful
      | true => exact .running clean running
  | disconnection requestSafe ackSafe =>
      have settled : w.settled = true := careful
      change Fine (w.disconnected e requestSafe)
      unfold Serve.disconnected
      dsimp only
      split
      · refine Fine.finish (w := (w.write e _).1) (clean.quiet (sent_quiet _))
          (settled_note settled (drops_quiet (sent_quiet _))) ?_
        intro names h
        cases h
        rfl
      · refine Fine.finish clean settled ?_
        intro names h
        cases h
        rfl
  | connectionRequest r => exact .running clean running
  | connectionResponse r => exact .running clean running
  | unknown ty => exact .running clean running

theorem Fine.read (clean : Clean w.log) (running : w.outcome = none) (noDrop : drops w.log = [])
    (careful : w.carefulRead e = true) : Fine (w.read e) := by
  unfold Serve.carefulRead at careful
  unfold Serve.read
  split
  next hplain =>
      rw [hplain] at careful
      exact .fail clean careful _
  next plain hplain =>
      simp only [hplain] at careful
      dsimp only
      split
      next err hparse =>
          rw [hparse] at careful
          exact Fine.fail (w := { w with deferred := w.deferred.tail }) clean careful _
      next frame hparse =>
          simp only [hparse] at careful
          exact Fine.handleFrame (w := { w with deferred := w.deferred.tail }) clean running
            noDrop careful

theorem Fine.turn (live : Live w) (clean : Clean w.log) (running : w.outcome = none)
    (hbatch : w.batch = []) (careful : w.careful e = true) : Fine (w.turn e) := by
  unfold Serve.careful at careful
  simp only [hbatch] at careful
  unfold Serve.turn
  split
  next => exact (Fine.running (w := w.feed .userCancelled) clean running).nextPass
  next notCancelled =>
      split
      next => exact (Fine.running clean running).nextPass
      next hpending =>
          have idle : w.queue = [] := by
            rw [Serve.queue, hbatch]
            simpa using hpending
          have noDrop : drops w.log = [] := by
            apply drops_eq_nil
            intro id h
            have ended := live.books.dropped id h
            rw [live.reading idle] at ended
            cases ended
          have here : w.carefulRead e = true := by
            simpa [notCancelled, not_not.mp hpending] using careful
          exact (Fine.read clean running noDrop here).nextPass

/-- The one exit that discards. -/
theorem Live.cancelled_whole {rest : List Effect} (live : Live w)
    (hbatch : w.batch = .cancelled :: rest) (careful : w.careful e = true) :
    Whole ({ w with batch := rest }.perform e .cancelled) := by
  unfold Serve.careful at careful
  simp only [hbatch, List.all_eq_true, Bool.or_eq_true, decide_eq_true_eq, Bool.not_eq_true',
    List.contains_eq_mem, decide_eq_false_iff_not] at careful
  obtain ⟨acts, quiet, heq⟩ := finish_eq ({ w with
    batch := rest, sinks := ∅, host := w.host.discard e.stuck }.note [.discarded])
  change Whole { Serve.finish _ with outcome := _ }
  rw [heq]
  have same : openings ((w.log ++ [Act.discarded]) ++ acts) = openings w.log := by
    rw [openings_append, openings_append, openings_quiet quiet]
    simp [openings, Act.opening]
  refine ⟨?_, fun names h => by cases h⟩
  intro o ho hin
  have ho : o ∈ openings w.log := same ▸ ho
  rcases careful o ho with h | free
  · exact List.mem_append_left _ (List.mem_append_left _ h)
  · refine absurd hin (QsHost.discard_removes ?_ free)
    rw [live.files.created]
    exact List.mem_map_of_mem ho

theorem Fine.perform {effect : Effect} {rest : List Effect} (live : Live w)
    (clean : Clean w.log) (running : w.outcome = none) (hbatch : w.batch = effect :: rest)
    (notCancel : effect ≠ .cancelled) (careful : w.careful e = true) :
    Fine ({ w with batch := rest }.perform e effect) := by
  unfold Serve.careful at careful
  cases effect with
  | send frame =>
      simp only [hbatch] at careful
      exact Fine.writeOrFail (w := { w with
        batch := rest, nextPayloadId := (wrapBytes w.nextPayloadId frame).1 })
        clean running rfl careful
  | askUser intro =>
      exact .running (w := Serve.feed _ _) (clean.note rfl (by simp)) running
  | beginSending i => exact .running clean running
  | beginReceiving intro =>
      have offered : Clean (w.log ++ e.handover.wrote.map .sent) := clean.quiet (sent_quiet _)
      unfold Serve.perform
      dsimp only
      split
      · exact .running offered running
      · exact .running clean running
  | done =>
      -- nothing is open: the queue says the last file has been delivered
      have hdone : Effect.done ∈ w.queue := by
        rw [Serve.queue, hbatch]
        simp
      obtain ⟨hsinks, hdrop⟩ := live.books.finished hdone
      have settled : ({ w with batch := rest } : Serve).settled = true :=
        settled_iff.mpr ⟨by rw [hsinks]; rfl, drops_eq_nil hdrop⟩
      have cleaned : Clean (({ w with batch := rest } : Serve).write e
          [Frames.disconnection true false]).1.log := clean.quiet (sent_quiet _)
      have written : (({ w with batch := rest } : Serve).write e
          [Frames.disconnection true false]).1.settled = true :=
        settled_note settled (drops_quiet (sent_quiet _))
      unfold Serve.perform
      dsimp only
      split
      · refine Fine.finish (w := (({ w with batch := rest } : Serve).write e _).1)
          cleaned written ?_
        intro names h
        cases h
        rfl
      · exact Fine.fail (w := (({ w with batch := rest } : Serve).write e _).1)
          cleaned written _
  | cancelled => exact absurd rfl notCancel
  | failed why =>
      simp only [hbatch] at careful
      exact Fine.finish (w := { w with batch := rest }) clean careful (fun _ h => by cases h)

/-- What a run of careful steps keeps. -/
structure Kept (w : Serve) : Prop where
  inv : Inv w.batch w
  fine : w.outcome = none → Clean w.log
  whole : w.outcome.isSome = true → Whole w

theorem Kept.of_fine (inv : Inv w.batch w) (fine : Fine w) : Kept w :=
  ⟨inv, fun _ => fine.clean, fine.whole inv⟩

theorem Kept.step {w' : Serve} (kept : Kept w) (h : w.step e = some w')
    (careful : w.careful e = true) : Kept w' := by
  have inv := kept.inv.step h
  have running := Serve.running_of_step h
  have live := kept.inv.live running
  have clean := kept.fine running
  cases Serve.steps_of_step h with
  | effect effect rest _ hbatch =>
      by_cases hcancel : effect = .cancelled
      · subst hcancel
        exact ⟨inv, nofun, fun _ => live.cancelled_whole hbatch careful⟩
      · exact .of_fine inv (Fine.perform live clean running hbatch hcancel careful)
  | turn _ hbatch => exact .of_fine inv (Fine.turn live clean running hbatch careful)

/-! ## Whole runs -/

variable {bootstrap : Upgrade.Medium} {fill : Option RandomFill} {host : Int}
  {inbox : HashMap Text Bytes} {steps : List Env}

/-- **A finished receive.**  In every run of careful steps that returns, whether with
files, cancelled or with an error, the files still in the inbox are whole and the
names returned are theirs. -/
theorem careful_returns_whole
    (run : Lts.Run (Lts.Restrict (Lts.ofPartial Serve.step) fun w e => w.careful e = true)
      (.init bootstrap fill host inbox) steps w)
    (returned : w.outcome.isSome = true) : Whole w := by
  have kept : Kept w := by
    apply run.invariant Kept
    · exact ⟨inv_init bootstrap fill host inbox, fun _ => ⟨nofun, nofun⟩, nofun⟩
    · rintro s e s' kept ⟨step, careful⟩
      exact kept.step step careful
  exact kept.whole returned

/-- A photo of three bytes in two chunks, every step careful. -/
theorem photoReceived_whole :
    ∃ w, Lts.Run (Lts.Restrict (Lts.ofPartial Serve.step) fun w e => w.careful e = true)
        (.init .wifiLan (some someFill) 5 ∅) photoReceived w ∧
      w.outcome = some (.ok (.received ["a.jpg".toList])) ∧ Whole w := by
  obtain ⟨w, run, hout⟩ := Lts.run_observe
    (Lts.guarded Serve.step fun w e => w.careful e = true) Serve.outcome
    (show (photoReceived.foldlM (Lts.guarded Serve.step fun w e => w.careful e = true)
        (.init .wifiLan (some someFill) 5 ∅)).map Serve.outcome =
      some (some (.ok (.received ["a.jpg".toList]))) by decide +kernel)
  exact ⟨w, run.of_guarded, hout, careful_returns_whole run.of_guarded (by rw [hout]; rfl)⟩

/-- The peer hangs up after two of the three bytes. -/
def hungUp : List Env :=
  untilAnswered photo true ++
    [peerChunk photoHeader 0 [1, 2] false, { read := some (Frames.disconnection false false) }]

/-- The photo is reported as received, with a byte missing. -/
theorem hungUp_not_whole :
    ∃ w, Lts.Run (Lts.ofPartial Serve.step) (.init .wifiLan (some someFill) 5 ∅) hungUp w ∧
      w.outcome = some (.ok (.received ["a.jpg".toList])) ∧
      w.host.inbox.lookup (inboxPath "a.jpg".toList) = some [1, 2] ∧ ¬ Whole w := by
  obtain ⟨w, run, hview⟩ := Lts.run_observe Serve.step
    (fun w => (w.outcome, w.host.inbox.lookup (inboxPath "a.jpg".toList),
      w.log.all fun a => decide (a ≠ .delivered 7), openings w.log))
    (show (hungUp.foldlM Serve.step (.init .wifiLan (some someFill) 5 ∅)).map _ =
      some (some (.ok (.received ["a.jpg".toList])), some [1, 2], true,
        [⟨7, photoHeader, "a.jpg".toList, inboxPath "a.jpg".toList⟩]) by decide +kernel)
  obtain ⟨hout, hrest⟩ := Prod.mk.inj hview
  obtain ⟨hdata, hrest⟩ := Prod.mk.inj hrest
  obtain ⟨hlog, hopen⟩ := Prod.mk.inj hrest
  refine ⟨w, run, hout, hdata, ?_⟩
  intro whole
  have hin : inboxPath "a.jpg".toList ∈ w.host.inbox :=
    AList.lookup_isSome.mp (by rw [hdata]; rfl)
  have hdelivered := whole.files _ (by rw [hopen]; exact List.mem_singleton.mpr rfl) hin
  simpa using List.all_eq_true.mp hlog _ hdelivered

end Quickshare
