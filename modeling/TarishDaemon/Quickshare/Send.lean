import TarishDaemon.Quickshare.Serve

/-!
# Sending files

`send`, from the peer's connection response on.  The loop is the receiving one seen
from the other side: it performs the effects of the sending machine, and with nothing
left to do reads one frame.  In its first pass it also asks for a faster medium and
has a person confirm the PIN.  Streaming the files happens inside one effect and reads
nothing from the peer; here each chunk of it is a step.

The world's answers during a step are in `SendEnv`, as they are in `Env` for the
receiving side.  Waiting for an upgrade and taking one up are such answers: of the
loop's own variables they only extend `deferred`.

`log` records what the loop did and heard, oldest first.  No branch reads it.
-/

namespace Quickshare

open Rust Protocol Protocol.Sharing Protocol.Fsm
open Protocol.Frames (PayloadHeader PayloadChunk)
open Protocol.Payload (Assembler)

/-- Bytes in a chunk of a file. -/
def chunk : Nat := 512 * 1024

/-- A file to send.  What its reader gives is the world's answer. -/
structure OutFile where
  name : Text
  mime : Text
  size : Int
  deriving DecidableEq, Repr

/-- The errors `send` returns with. -/
inductive SendError
  /-- A read, a write, or a frame that does not decrypt. -/
  | transport
  | declined (r : Frames.Response)
  | notAResponse
  | keys
  | randomness
  | frame (e : Frames.Error)
  | payload (e : Payload.Error)
  | sharingFrame (e : Sharing.Error)
  /-- Reading one of the files. -/
  | file
  | sharingRefused (why : String)
  deriving DecidableEq, Repr

/-- How the connection came up. -/
structure Handshake where
  /-- The peer's connection response; `none` where the exchange fails before it. -/
  response : Option Bytes
  derives : Bool := true
  /-- The numbers the random source gives before it fails. -/
  draws : List Int
  fill : Option RandomFill

/-- The world's answers during one step. -/
structure SendEnv where
  /-- How many frames the socket takes before a write fails, if one does. -/
  writes : Option Nat := none
  /-- The next frame, decrypted; `none` where reading or decrypting fails. -/
  read : Option Bytes := none
  cancelled : Bool := false
  confirmed : Bool := true
  handover : Handover := {}
  /-- What one read of the file after another gives; `none` is an error, and past
  the end there is nothing more. -/
  reads : List (Option Bytes) := []
  deriving DecidableEq, Repr

inductive SendAct
  | sent (frame : Bytes)
  /-- A sharing frame of the peer went to the machine. -/
  | heard (frame : Sharing.Frame)
  | progress (done total : Nat)
  /-- The terminator of the file went out. -/
  | streamed (f : OutFile) (id : Int)
  /-- `TransferComplete` went to the machine. -/
  | completed
  deriving DecidableEq, Repr

/-- Where the streaming of the files stands. -/
structure Stream where
  /-- The file being sent and those after it, with their payload ids. -/
  left : List (OutFile × Int)
  offset : Int := 0
  eof : Bool := false
  done : Nat := 0
  deriving DecidableEq, Repr

structure Send where
  bootstrap : Upgrade.Medium
  files : List OutFile
  payloadIds : List Int := []
  total : Nat := 0
  peerSafeDisconnect : Bool := false
  fsm : Outbound
  /-- What is left of the batch being performed. -/
  batch : List Effect := []
  pending : List Effect := []
  streaming : Option Stream := none
  assembler : Assembler := {}
  nextPayloadId : Int := 1
  pinChecked : Bool := false
  solicited : Bool := false
  /-- Whether an answer to our upgrade request is still awaited. -/
  upgradeDeadline : Bool := false
  deferred : List Bytes := []
  log : List SendAct := []
  outcome : Option (Except SendError Bool) := none

/-- The peer's connection response, and whether it can be told goodbye. -/
def Handshake.peerSafeDisconnect (h : Handshake) : Except SendError Bool :=
  match h.response with
  | none => .error .transport
  | some theirResponse =>
      match Frames.parse theirResponse with
      | .error err => .error (.frame err)
      | .ok (.connectionResponse r) =>
          if r.response ≠ .accept then .error (.declined r.response)
          else if !h.derives then .error .keys
          else .ok (decide (1 ≤ r.safeToDisconnectVersion))
      | .ok _ => .error .notAResponse

/-- What the peer is told about one file. -/
def OutFile.metadata (f : OutFile) (id : Int) : FileMetadata :=
  { name := f.name
    fileType := .ofMime f.mime
    payloadId := id
    size := f.size
    mimeType := f.mime
    id := id }

/-- The file list. -/
def offer (files : List OutFile) (payloadIds : List Int) : Introduction :=
  { files := (files.zip payloadIds).map fun (f, id) => f.metadata id
    startTransfer := true }

/-- Fill a buffer of the given size from one read after another. -/
def fillBuffer (room : Nat) : List (Option Bytes) → Option Bytes
  | [] => some []
  | got :: rest =>
      if room = 0 then some []
      else
        match got with
        | none => none
        | some piece =>
            let piece := piece.take room
            if piece = [] then some []
            else (fillBuffer (room - piece.length) rest).map (piece ++ ·)

namespace Send

/-- The variables at the top of the loop; or the error where it is not reached. -/
def init (bootstrap : Upgrade.Medium) (files : List OutFile) (h : Handshake) : Send :=
  let blank : Send := { bootstrap := bootstrap, files := files, fsm := { introduction := {} } }
  match h.peerSafeDisconnect with
  | .error err => { blank with outcome := some (.error err) }
  | .ok peerSafeDisconnect =>
      if h.draws.length < files.length then { blank with outcome := some (.error .randomness) }
      else
        let payloadIds := h.draws.take files.length
        let introduction := offer files payloadIds
        let (fsm, batch) := ({ introduction := introduction } : Outbound).start h.fill
        { blank with
          payloadIds := payloadIds
          total := (max introduction.totalSize 0).toNat
          peerSafeDisconnect := peerSafeDisconnect
          fsm := fsm
          batch := batch }

def note (w : Send) (acts : List SendAct) : Send :=
  { w with log := w.log ++ acts }

def fail (w : Send) (e : SendError) : Send :=
  { w with outcome := some (.error e) }

def finish (w : Send) (ok : Bool) : Send :=
  { w with outcome := some (.ok ok) }

/-- `pending.extend(fsm.on(event))`. -/
def feed (w : Send) (event : Event) : Send :=
  { w with
    fsm := (w.fsm.on event).1
    pending := w.pending ++ (w.fsm.on event).2 }

/-- Encrypt and write frames, and whether every one of them went out. -/
def write (w : Send) (e : SendEnv) (frames : List Bytes) : Send × Bool :=
  let n := min frames.length (e.writes.getD frames.length)
  (w.note ((frames.take n).map .sent), decide (n = frames.length))

/-- Write frames, and leave with the error where one fails. -/
def writeOrFail (w : Send) (e : SendEnv) (frames : List Bytes) : Send :=
  let (w, ok) := w.write e frames
  if ok then w else w.fail .transport

/-- `wait_for_upgrade` and `adopt`, on the loop's own variables. -/
def handOver (w : Send) (h : Handover) : Send :=
  let w := { w with deferred := w.deferred ++ h.queued }.note (h.wrote.map .sent)
  if h.result = none then w.fail .transport else w

/-- The goodbye, where the peer can take one. -/
def finishCleanly (w : Send) (e : SendEnv) : Send × Bool :=
  if w.peerSafeDisconnect then w.write e [Frames.disconnection true false] else (w, true)

/-- One effect of the batch. -/
def perform (w : Send) (e : SendEnv) : Effect → Send
  | .send frame =>
      { w with nextPayloadId := (wrapBytes w.nextPayloadId frame).1 }.writeOrFail e
        (wrapBytes w.nextPayloadId frame).2
  | .beginSending _ =>
      let streaming : Send :=
        { w with upgradeDeadline := false, streaming := some { left := w.files.zip w.payloadIds } }
      if w.upgradeDeadline then streaming.handOver e.handover else streaming
  | .done =>
      let (w, ok) := w.finishCleanly e
      if ok then w.finish (decide (w.fsm.state = .done) && decide (0 < w.total))
      else w.fail .transport
  | .cancelled => w.finish false
  | .failed why => w.fail (.sharingRefused why)
  | .askUser _ | .beginReceiving _ => w

/-- The next chunk of the file being sent, or its terminator, or the end of it all. -/
def stream (w : Send) (e : SendEnv) (s : Stream) : Send :=
  match s.left with
  | [] => ({ w with streaming := none }.note [.completed]).feed .transferComplete
  | (f, id) :: rest =>
      let header : PayloadHeader :=
        { id := id, payloadType := .file, totalSize := f.size, fileName := f.name }
      if s.eof then
        let (w, ok) := w.write e
          [Frames.payloadData header { flags := Frames.flagLastChunk, offset := s.offset }]
        if ok then
          { w with streaming := some { left := rest, done := s.done } }.note [.streamed f id]
        else w.fail .transport
      else if e.cancelled then { w with streaming := none }.feed .userCancelled
      else
        match fillBuffer chunk e.reads with
        | none => w.fail .file
        | some [] => { w with streaming := some { s with eof := true } }
        | some body =>
            let (w, ok) := w.write e
              [Frames.payloadData header { flags := 0, offset := s.offset, body := body }]
            let done := s.done + body.length
            if ok then
              { w with
                streaming := some { s with
                  offset := s.offset + body.length
                  eof := decide (body.length < chunk)
                  done := done } }.note [.progress done w.total]
            else w.fail .transport

/-- Ask for a faster medium, from a slow one only. -/
def solicit (w : Send) (e : SendEnv) : Send :=
  let w := { w with solicited := true }
  if w.bootstrap = .bluetooth then
    let (w, ok) := w.write e [Upgrade.pathRequest [.wifiDirect]]
    if ok then { w with upgradeDeadline := true } else w.fail .transport
  else w

/-- Have a person confirm the PIN.  The goodbye is written if it can be. -/
def checkPin (w : Send) (e : SendEnv) : Send :=
  let w := { w with pinChecked := true }
  if e.confirmed then w
  else (w.write e [Frames.disconnection w.peerSafeDisconnect false]).1.finish false

def onUpgradeFrame (w : Send) (e : SendEnv) (body : Bytes) : Send :=
  match Upgrade.parse body with
  | .ok (.pathAvailable _) => w.handOver e.handover
  | .ok _ | .error _ => w

def handleFrame (w : Send) (e : SendEnv) : Frames.Frame → Send
  | .payloadTransfer pt =>
      match w.assembler.accept pt with
      | (assembler, .error err) => { w with assembler := assembler }.fail (.payload err)
      | (assembler, .ok (.bytes _ data)) =>
          let w := { w with assembler := assembler }
          match Sharing.parse data with
          | .error err => w.fail (.sharingFrame err)
          | .ok frame => (w.note [.heard frame]).feed (.frame frame)
      | (assembler, .ok _) => { w with assembler := assembler }
  | .keepAlive false seqNum => w.writeOrFail e [Frames.keepAlive true seqNum]
  | .keepAlive true _ => w
  | .disconnection requestSafe _ =>
      let w := if requestSafe then (w.write e [Frames.disconnection false true]).1 else w
      w.finish false
  | .bandwidthUpgrade body => { w.onUpgradeFrame e body with upgradeDeadline := false }
  | .connectionRequest _ | .connectionResponse _ | .unknown _ => w

/-- The frame a pass reads: what was queued comes first. -/
def nextPlain (w : Send) (e : SendEnv) : Option Bytes :=
  match w.deferred with
  | plain :: _ => some plain
  | [] => e.read

def read (w : Send) (e : SendEnv) : Send :=
  match w.nextPlain e with
  | none => w.fail .transport
  | some plain =>
      let w := { w with deferred := w.deferred.tail }
      match Frames.parse plain with
      | .error err => w.fail (.frame err)
      | .ok frame => w.handleFrame e frame

/-- `let batch = std::mem::take(&mut pending)`. -/
def nextPass (w : Send) : Send :=
  { w with batch := w.pending, pending := [] }

/-- The rest of a pass, once the first pass has asked its questions. -/
def turn (w : Send) (e : SendEnv) : Send :=
  if e.cancelled then (w.feed .userCancelled).nextPass
  else if w.pending ≠ [] then w.nextPass
  else (w.read e).nextPass

/-- One step of a send that has not returned. -/
def step (w : Send) (e : SendEnv) : Option Send :=
  match w.outcome with
  | some _ => none
  | none =>
      match w.streaming with
      | some s => some (w.stream e s)
      | none =>
          match w.batch with
          | effect :: rest => some ({ w with batch := rest }.perform e effect)
          | [] =>
              if !w.solicited then some (w.solicit e)
              else if !w.pinChecked then some (w.checkPin e)
              else some (w.turn e)

/-- What a step is made of. -/
inductive Steps (w : Send) (e : SendEnv) : Send → Prop
  | stream (s : Stream) (running : w.outcome = none) (here : w.streaming = some s) :
      Steps w e (w.stream e s)
  | effect (effect : Effect) (rest : List Effect) (running : w.outcome = none)
      (idle : w.streaming = none) (batch : w.batch = effect :: rest) :
      Steps w e ({ w with batch := rest }.perform e effect)
  | solicit (running : w.outcome = none) (idle : w.streaming = none) (batch : w.batch = [])
      (unasked : w.solicited = false) : Steps w e (w.solicit e)
  | checkPin (running : w.outcome = none) (idle : w.streaming = none) (batch : w.batch = [])
      (asked : w.solicited = true) (unchecked : w.pinChecked = false) : Steps w e (w.checkPin e)
  | turn (running : w.outcome = none) (idle : w.streaming = none) (batch : w.batch = [])
      (asked : w.solicited = true) (checked : w.pinChecked = true) : Steps w e (w.turn e)

/-- **Inversion.** -/
theorem steps_of_step {w w' : Send} {e : SendEnv} (h : w.step e = some w') : w.Steps e w' := by
  unfold step at h
  split at h
  next => cases h
  next running =>
    split at h
    next s here =>
      cases h
      exact .stream s running here
    next idle =>
      split at h
      next effect rest batch =>
        cases h
        exact .effect effect rest running idle batch
      next batch =>
        split at h
        next unasked =>
          cases h
          exact .solicit running idle batch (by simpa using unasked)
        next asked =>
          have asked : w.solicited = true := by simpa using asked
          split at h
          next unchecked =>
            cases h
            exact .checkPin running idle batch asked (by simpa using unchecked)
          next checked =>
            cases h
            exact .turn running idle batch asked (by simpa using checked)

theorem running_of_step {w w' : Send} {e : SendEnv} (h : w.step e = some w') :
    w.outcome = none := by
  cases steps_of_step h with
  | stream _ running _ => exact running
  | effect _ _ running _ _ => exact running
  | solicit running _ _ _ => exact running
  | checkPin running _ _ _ _ => exact running
  | turn running _ _ _ _ => exact running

end Send

end Quickshare
