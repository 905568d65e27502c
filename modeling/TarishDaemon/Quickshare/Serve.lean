import TarishDaemon.Protocol.Fsm
import TarishDaemon.Protocol.Payload
import TarishDaemon.Protocol.Upgrade
import TarishDaemon.Sharingd.Inbox

/-!
# Serving one connection

The message loop of `serve`, from the moment the encrypted channel is up.  A pass
of the loop performs the effects of the sharing machine one by one, looks whether
the user cancelled, and only with nothing left to do reads one frame.  A step of
the model is one effect, or the rest of a pass.

Whatever the code asks of the world during a step is in `Env`: what the socket
gives or refuses, the person's answer, the disk.  A handover to a faster socket is
one such answer too: of the loop's own variables it only extends `deferred`, so
what it queued and how it ended says all there is.

`log` records what the loop did to the world, oldest first.  No branch reads it.
-/

namespace Quickshare

open Rust Protocol Protocol.Sharing Protocol.Fsm Sharingd
open Protocol.Frames (PayloadHeader PayloadChunk PayloadType)
open Protocol.Payload (Assembler)

def maxUpgradeAttempts : Nat := 2

/-- A sharing frame as a BYTES payload: the body and the terminator apart. -/
def wrapBytes (nextId : Int) (frame : Bytes) : Int × List Bytes :=
  let id := nextId + 1
  let header : PayloadHeader :=
    { id := id, payloadType := .bytes, totalSize := frame.length }
  (id,
    [Frames.payloadData header { flags := 0, offset := 0, body := frame },
      Frames.payloadData header { flags := Frames.flagLastChunk, offset := frame.length }])

/-- The errors the loop returns with. -/
inductive Error
  /-- A read, a write, or a frame that does not decrypt. -/
  | transport
  | frame (e : Frames.Error)
  | payload (e : Payload.Error)
  | sharingFrame (e : Sharing.Error)
  | unannounced (id : Int)
  | create (e : CreateError)
  | disk
  | peerError (id : Int)
  | sharingRefused (why : String)
  deriving DecidableEq, Repr

inductive ServeOutcome
  | received (names : List Text)
  | cancelled
  deriving DecidableEq, Repr

/-- What a person is asked through, and what comes of it. -/
structure Asking where
  autoAccept : Bool := false
  clients : Nat := 1
  answer : Option Bool := none
  deriving DecidableEq, Repr

/-- `QsHost::ask`.  Nobody to ask, or nobody answering, is a refusal. -/
def Asking.ask (q : Asking) : Bool :=
  if q.autoAccept then true
  else if q.clients = 0 then false
  else q.answer.getD false

/-- What `offer_group` did: the frames it wrote, the frames it read and queued,
and its result, where `none` is an error. -/
structure Handover where
  wrote : List Bytes := []
  queued : List Bytes := []
  result : Option Bool := some false
  deriving DecidableEq, Repr

/-- The world's answers during one step. -/
structure Env where
  /-- How many frames the socket takes before a write fails, if one does. -/
  writes : Option Nat := none
  /-- The next frame, decrypted; `none` where reading or decrypting fails. -/
  read : Option Bytes := none
  cancelled : Bool := false
  asking : Asking := {}
  handover : Handover := {}
  opens : Bool := true
  /-- How many bytes the disk takes before a write fails, if one does. -/
  diskStops : Option Nat := none
  flushes : Bool := true
  /-- The paths `remove_file` fails on. -/
  stuck : List Text := []
  deriving DecidableEq, Repr

inductive Act
  | sent (frame : Bytes)
  | asked (i : Introduction) (accepted : Bool)
  | opened (id : Int) (header : PayloadHeader) (name path : Text)
  /-- `create` was called and failed. -/
  | createFailed (id : Int) (name : Text)
  | wrote (id : Int) (data : Bytes)
  /-- The chunk flagged last was written. -/
  | delivered (id : Int)
  | progress (done total : Nat)
  /-- The peer cancelled the payload and its writer was thrown away. -/
  | dropped (id : Int)
  | discarded
  | finished (id : Int)
  deriving DecidableEq, Repr

structure Serve where
  bootstrapIsSlow : Bool
  fsm : Inbound
  /-- What is left of the batch being performed. -/
  batch : List Effect
  pending : List Effect := []
  host : QsHost
  deferred : List Bytes := []
  upgraded : Bool := false
  upgradeAttempts : Nat := 0
  assembler : Assembler := {}
  nextPayloadId : Int := 1
  sinks : HashMap Int Text := ∅
  expected : HashMap Int FileMetadata := ∅
  written : List Text := []
  doneBytes : Nat := 0
  totalBytes : Nat := 0
  reportedBytes : Nat := 0
  transferId : Int := 0
  log : List Act := []
  outcome : Option (Except Error ServeOutcome) := none

namespace Serve

/-- The variables at the top of the loop.  The transport the connection came in on,
the random bytes of the paired-key frame and what is in the inbox already are
given. -/
def init (bootstrap : Upgrade.Medium) (fill : Option RandomFill) (id : Int)
    (inbox : HashMap Text Bytes) : Serve :=
  let (fsm, batch) := ({} : Inbound).start fill
  { bootstrapIsSlow := decide (bootstrap = .bluetooth)
    fsm := fsm
    batch := batch
    host := { id := id, inbox := inbox } }

def note (w : Serve) (acts : List Act) : Serve :=
  { w with log := w.log ++ acts }

def fail (w : Serve) (e : Error) : Serve :=
  { w with outcome := some (.error e) }

/-- `if transfer_id != 0 { transfers.finish(transfer_id) }`. -/
def finish (w : Serve) : Serve :=
  if w.transferId ≠ 0 then w.note [.finished w.transferId] else w

def finishWith (w : Serve) (o : ServeOutcome) : Serve :=
  { w.finish with outcome := some (.ok o) }

/-- `pending.extend(fsm.on(event))`. -/
def feed (w : Serve) (event : Event) : Serve :=
  { w with
    fsm := (w.fsm.on event).1
    pending := w.pending ++ (w.fsm.on event).2 }

/-- Encrypt and write frames, and whether every one of them went out. -/
def write (w : Serve) (e : Env) (frames : List Bytes) : Serve × Bool :=
  let n := min frames.length (e.writes.getD frames.length)
  (w.note ((frames.take n).map .sent), decide (n = frames.length))

/-- Write frames, and leave with the error where one fails. -/
def writeOrFail (w : Serve) (e : Env) (frames : List Bytes) : Serve :=
  let (w, ok) := w.write e frames
  if ok then w else w.fail .transport

/-- `offer_group`, on the loop's own variables. -/
def offerGroup (w : Serve) (h : Handover) : Serve :=
  { w with
    upgradeAttempts := w.upgradeAttempts + 1
    deferred := w.deferred ++ h.queued
    upgraded := w.upgraded || decide (h.result = some true)
    log := w.log ++ h.wrote.map .sent }

/-- `expected.insert(f.payload_id, f)` for every file of the introduction. -/
def expect (w : Serve) (i : Introduction) : Serve :=
  { w with expected := i.files.foldl (fun m f => m.insert f.payloadId f) w.expected }

/-- One effect of the batch. -/
def perform (w : Serve) (e : Env) : Effect → Serve
  | .send frame =>
      { w with nextPayloadId := (wrapBytes w.nextPayloadId frame).1 }.writeOrFail e
        (wrapBytes w.nextPayloadId frame).2
  | .askUser intro =>
      let accepted := e.asking.ask
      ({ w with
        totalBytes := (max intro.totalSize 0).toNat
        transferId := w.host.id }.note [.asked intro accepted]).feed
          (if accepted then .userAccepted else .userRejected)
  | .beginReceiving intro =>
      let w := w.expect intro
      -- an error of the handover is not fatal here
      if !w.upgraded && w.bootstrapIsSlow then w.offerGroup e.handover else w
  | .beginSending _ => w
  | .done =>
      let (w, ok) := w.write e [Frames.disconnection true false]
      if ok then w.finishWith (.received w.written) else w.fail .transport
  | .cancelled =>
      ({ w with sinks := ∅, host := w.host.discard e.stuck }.note [.discarded]).finishWith
        .cancelled
  | .failed why => w.finish.fail (.sharingRefused why)

/-- The writer of a payload: the one open, or a new file. -/
def openSink (w : Serve) (e : Env) (id : Int) (header : PayloadHeader) (name : Text) :
    Except Error (Serve × Text) :=
  match w.sinks.lookup id with
  | some path => .ok (w, path)
  | none =>
      match w.host.create name e.opens with
      | .error err => .error (.create err)
      | .ok (host, path) =>
          .ok ({ w with
            host := host
            sinks := w.sinks.insert id path
            written := w.written ++ [name] }.note [.opened id header name path], path)

/-- Count the bytes of a chunk, and report on steps of about one percent. -/
def report (w : Serve) (data : Bytes) (last : Bool) : Serve :=
  let done := w.doneBytes + data.length
  let step := max (w.totalBytes / 100) (512 * 1024)
  if last || decide (w.reportedBytes = 0) || decide (step ≤ done - w.reportedBytes) then
    { w with doneBytes := done, reportedBytes := done }.note [.progress done w.totalBytes]
  else { w with doneBytes := done }

/-- The last chunk of a payload is on disk. -/
def complete (w : Serve) (e : Env) (id : Int) : Serve :=
  let w := { w with sinks := w.sinks.erase id }
  if !e.flushes then w.fail .disk
  else
    let w := { w with expected := w.expected.erase id }
    if w.expected.keys = [] then w.feed .transferComplete else w

/-- The name a file is created from. -/
def pickName (m : FileMetadata) (header : PayloadHeader) : Text :=
  if m.name = [] then header.fileName else m.name

/-- Write a chunk to its open writer. -/
def writeChunk (w : Serve) (e : Env) (id : Int) (path : Text) (data : Bytes) (last : Bool) :
    Serve :=
  let (host, ok) := w.host.write path data e.diskStops
  let w := { w with host := host }.note [.wrote id data]
  if !ok then w.fail .disk
  else
    let w := w.report data last
    if last then (w.note [.delivered id]).complete e id else w

/-- A chunk of a file.  One that nobody announced is refused. -/
def fileChunk (w : Serve) (e : Env) (id : Int) (data : Bytes) (last : Bool)
    (header : PayloadHeader) : Serve :=
  match w.expected.lookup id with
  | none => w.fail (.unannounced id)
  | some m =>
      match w.openSink e id header (pickName m header) with
      | .error err => (w.note [.createFailed id (pickName m header)]).fail err
      | .ok (w, path) => w.writeChunk e id path data last

/-- The peer cancelled a payload: its writer goes, its file stays. -/
def dropSink (w : Serve) (id : Int) : Serve :=
  if id ∈ w.sinks then { w with sinks := w.sinks.erase id }.note [.dropped id] else w

def payloadEvent (w : Serve) (e : Env) : Payload.Event → Serve
  | .bytes _ data =>
      match Sharing.parse data with
      | .error err => w.fail (.sharingFrame err)
      | .ok frame => w.feed (.frame frame)
  | .fileChunk id _ data last header => w.fileChunk e id data last header
  | .cancelled id => (w.dropSink id).feed .userCancelled
  | .failed id => w.fail (.peerError id)
  | .pending => w

/-- A sender asking us to go faster. -/
def pathRequest (w : Serve) (e : Env) (mediums : List Upgrade.Medium) : Serve :=
  if w.upgraded then w
  else if !w.bootstrapIsSlow then w.writeOrFail e [Upgrade.failure]
  else if maxUpgradeAttempts ≤ w.upgradeAttempts then w.writeOrFail e [Upgrade.failure]
  else if .wifiDirect ∉ mediums then w.writeOrFail e [Upgrade.failure]
  else
    let w := w.offerGroup e.handover
    -- here the error is fatal
    if e.handover.result = none then w.fail .transport else w

/-- The answer to a disconnection is written if it can be. -/
def disconnected (w : Serve) (e : Env) (requestSafe : Bool) : Serve :=
  let w := if requestSafe then (w.write e [Frames.disconnection false true]).1 else w
  w.finishWith (.received w.written)

def handleFrame (w : Serve) (e : Env) : Frames.Frame → Serve
  | .payloadTransfer pt =>
      match w.assembler.accept pt with
      | (assembler, .error err) => { w with assembler := assembler }.fail (.payload err)
      | (assembler, .ok event) => { w with assembler := assembler }.payloadEvent e event
  | .bandwidthUpgrade body =>
      match Upgrade.parse body with
      | .ok (.pathRequest mediums) => w.pathRequest e mediums
      | .ok _ | .error _ => w
  | .keepAlive false seqNum => w.writeOrFail e [Frames.keepAlive true seqNum]
  | .keepAlive true _ => w
  | .disconnection requestSafe _ => w.disconnected e requestSafe
  | .connectionRequest _ | .connectionResponse _ | .unknown _ => w

/-- The frame a pass reads: what a handover queued comes first. -/
def nextPlain (w : Serve) (e : Env) : Option Bytes :=
  match w.deferred with
  | plain :: _ => some plain
  | [] => e.read

def read (w : Serve) (e : Env) : Serve :=
  match w.nextPlain e with
  | none => w.fail .transport
  | some plain =>
      let w := { w with deferred := w.deferred.tail }
      match Frames.parse plain with
      | .error err => w.fail (.frame err)
      | .ok frame => w.handleFrame e frame

/-- `let batch = std::mem::take(&mut pending)`. -/
def nextPass (w : Serve) : Serve :=
  { w with batch := w.pending, pending := [] }

/-- The rest of a pass, with every effect of its batch performed. -/
def turn (w : Serve) (e : Env) : Serve :=
  if e.cancelled then (w.feed .userCancelled).nextPass
  else if w.pending ≠ [] then w.nextPass
  else (w.read e).nextPass

/-- One step of a connection that has not returned. -/
def step (w : Serve) (e : Env) : Option Serve :=
  match w.outcome with
  | some _ => none
  | none =>
      match w.batch with
      | effect :: rest => some ({ w with batch := rest }.perform e effect)
      | [] => some (w.turn e)

/-- What a step is made of. -/
inductive Steps (w : Serve) (e : Env) : Serve → Prop
  | effect (effect : Effect) (rest : List Effect) (running : w.outcome = none)
      (batch : w.batch = effect :: rest) : Steps w e ({ w with batch := rest }.perform e effect)
  | turn (running : w.outcome = none) (batch : w.batch = []) : Steps w e (w.turn e)

/-- **Inversion.** -/
theorem steps_of_step {w w' : Serve} {e : Env} (h : w.step e = some w') : w.Steps e w' := by
  unfold step at h
  split at h
  next => cases h
  next running =>
    split at h
    next effect rest batch =>
      cases h
      exact .effect effect rest running batch
    next batch =>
      cases h
      exact .turn running batch

theorem running_of_step {w w' : Serve} {e : Env} (h : w.step e = some w') : w.outcome = none := by
  cases steps_of_step h with
  | effect _ _ running _ => exact running
  | turn running _ => exact running

end Serve

end Quickshare
