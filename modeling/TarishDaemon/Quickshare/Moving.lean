import TarishDaemon.Lib.Fallible
import TarishDaemon.Protocol.FramesWire
import TarishDaemon.Protocol.Handover
import TarishDaemon.Protocol.SecureMessage
import TarishDaemon.Quickshare.Serve

/-!
# Moving to another socket

`offer_group` on the receiving side, `adopt` and `wait_for_upgrade` on the sending
one.  The conversation goes on over the old socket while the new one comes up, so each
of them reads the old socket: `drain_old` while the host waits, the two release loops
once LAST_WRITE is out, and `wait_for_upgrade` for the offer itself.

What the network and the clients do is in `Offering` and `Adopting`.  A loop that waits
with a deadline is given what its waits come to, one after another; the list ends where
the time is up, or where what `drain_old` waits for is there.

A frame is recorded in `wrote` as it was before it was sealed, and of the channel only
the receiving half is followed.  No branch reads `wrote` or `seen`.
-/

namespace Quickshare

open Rust Protocol Fallible
open Protocol.Upgrade (Channel UpgradePath)

def handoverDeferCap : Nat := 8 * 1024 * 1024

/-- What one wait for a frame comes to.  A frame arrives if the peer has written one. -/
inductive Poll
  | quiet
  | broke
  | arrives
  deriving DecidableEq, Repr

inductive Heard
  | quiet
  | broke
  | frame (plain : Bytes)
  deriving DecidableEq, Repr

/-- What becomes of a wire that is taken off the socket. -/
inductive Fate
  /-- The frame is the main loop's. -/
  | kept (plain : Bytes)
  /-- The release exchange is over it. -/
  | released (plain : Bytes)
  /-- `wait_for_upgrade` ends on it. -/
  | met (plain : Bytes)
  /-- It does not decrypt. -/
  | garbled
  deriving DecidableEq, Repr

def Fate.plain : Fate → Option Bytes
  | .kept plain | .released plain | .met plain => some plain
  | .garbled => none

def Fate.forLoop : Fate → Option Bytes
  | .kept plain => some plain
  | .released _ | .met _ | .garbled => none

/-- The old socket during a handover, and what the handover did. -/
structure Moving where
  channel : SecureChannel
  /-- The wires the peer has written, or will, that are not read yet. -/
  left : List Bytes
  held : Nat := 0
  /-- What the handover adds to the loop's queue. -/
  deferred : List Bytes := []
  wrote : List (Channel × Bytes) := []
  /-- The wires taken off the socket. -/
  seen : List (Bytes × Fate) := []
  /-- Both halves of the socket have been replaced. -/
  moved : Bool := false
  deriving DecidableEq, Repr

/-- A wire has been taken off the socket.  A frame that the handover does not handle
itself is queued for the main loop. -/
def Moving.take (m : Moving) (channel : SecureChannel) (left : List Bytes) (wire : Bytes)
    (fate : Fate) : Moving :=
  { m with
    channel := channel
    left := left
    deferred := m.deferred ++ fate.forLoop.toList
    seen := m.seen ++ [(wire, fate)] }

/-- Wait for a frame and decrypt it.  `judge` says whose it is. -/
def nextWithin (c : Crypto) (judge : Bytes → Fate) (p : Poll) : Fallible Moving Heard :=
  fun m =>
    match p, m.left with
    | .broke, _ => (some .broke, m)
    | .quiet, _ | .arrives, [] => (some .quiet, m)
    | .arrives, wire :: left =>
        match m.channel.decrypt c wire with
        | (.error _, channel) => (none, m.take channel left wire .garbled)
        | (.ok plain, channel) => (some (.frame plain), m.take channel left wire (judge plain))

/-- Encrypt and write a frame, or leave with the error. -/
def write (goes : Bool) (on : Channel) (frame : Bytes) : Fallible Moving Unit :=
  if goes then modify fun m => { m with wrote := m.wrote ++ [(on, frame)] } else fail

/-- `*input = new_in; *out = new_out`. -/
def moveOver : Fallible Moving Unit :=
  modify fun m => { m with moved := true }

/-! ## The host -/

/-- Each wait of `drain_old`.  Once the socket has broken, or the cap is reached, a wait
is a sleep. -/
def drainOld (c : Crypto) : List Poll → Bool → Fallible Moving Unit
  | [], _ => pure ()
  | p :: polls, spent => do
      if spent || decide (handoverDeferCap ≤ (← get).held) then
        drainOld c polls spent
      else
        match ← nextWithin c .kept p with
        | .frame plain =>
            modify fun m => { m with held := m.held + plain.length }
            drainOld c polls spent
        | .quiet => drainOld c polls spent
        | .broke => drainOld c polls true

/-- A frame read while the old socket is being released. -/
def releaseFate (plain : Bytes) : Fate :=
  match Upgrade.read plain with
  | some .lastWriteToPrior | some (.safeToClosePrior _) => .released plain
  | _ => .kept plain

/-- Each wait of the release exchange, on the host's side. -/
def releaseHost (c : Crypto) : List Poll → Fallible Moving Unit
  | [] => pure ()
  | p :: polls => do
      match ← nextWithin c releaseFate p with
      | .quiet => pure ()
      | .broke => fail
      | .frame plain =>
          match Upgrade.read plain with
          | some (.safeToClosePrior _) => pure ()
          | _ => releaseHost c polls

structure WifiGroup where
  ssid : Text
  passphrase : Text
  goAddress : Text
  frequency : Int
  deriving DecidableEq, Repr

def WifiGroup.path (group : WifiGroup) (port : Int) : UpgradePath :=
  { medium := .wifiDirect
    wifi := some
      { ssid := group.ssid
        password := group.passphrase
        port := port
        gateway := group.goAddress
        frequency := group.frequency }
    lan := none
    supportsIntroductionAck := true
    supportsDisablingEncryption := false }

/-- What `offer_group` meets. -/
structure Offering where
  listens : Bool := true
  port : Int := 0
  /-- The waits until the client has answered. -/
  groupPolls : List Poll := []
  group : Option WifiGroup := none
  pathGoes : Bool := true
  /-- The waits until somebody connects. -/
  joinPolls : List Poll := []
  joined : Bool := true
  /-- `sock.try_clone()`. -/
  clones : Bool := true
  /-- The first frame on the new socket, in plaintext. -/
  intro : Heard := .quiet
  ackGoes : Bool := true
  lastGoes : Bool := true
  release : List Poll := []
  safeGoes : Bool := true
  /-- Whether the UPGRADE_FAILURE goes out that answers a failure. -/
  failureGoes : Bool := true
  deriving DecidableEq, Repr

/-- `offer_group` up to the LAST_WRITE, and whether it got there. -/
def offerPath (c : Crypto) (e : Offering) : Fallible Moving Bool := do
  if !e.listens then
    write e.failureGoes .old Upgrade.failure
    return false
  drainOld c e.groupPolls false
  let some group := e.group | do
    write e.failureGoes .old Upgrade.failure
    return false
  write e.pathGoes .old (Upgrade.pathAvailable (group.path e.port))
  drainOld c e.joinPolls false
  if !e.joined then
    write e.failureGoes .old Upgrade.failure
    return false
  else if !e.clones then fail
  else
    match e.intro with
    | .broke => fail
    | .quiet =>
        write e.failureGoes .old Upgrade.failure
        return false
    | .frame intro =>
        match Upgrade.read intro with
        | some (.clientIntroduction _) =>
            write e.ackGoes .new Upgrade.clientIntroductionAck
            write e.lastGoes .old Upgrade.lastWriteToPrior
            return true
        | _ =>
            write e.failureGoes .old Upgrade.failure
            return false

def offerGroup (c : Crypto) (e : Offering) : Fallible Moving Bool := do
  if ← offerPath c e then
    releaseHost c e.release
    -- it goes out either way, also where the sender said nothing
    write e.safeGoes .old (Upgrade.safeToClosePrior Upgrade.staFrequencyNotSet)
    moveOver
    return true
  else return false

/-! ## The joiner -/

/-- Our SAFE_TO_CLOSE, where it has not gone out yet. -/
def releaseOld (goes weReleased : Bool) : Fallible Moving Unit :=
  if weReleased then pure ()
  else write goes .old (Upgrade.safeToClosePrior Upgrade.staFrequencyNotSet)

/-- Each wait of the release exchange, on the joiner's side, and whether it has sent its
own SAFE_TO_CLOSE. -/
def releaseJoiner (c : Crypto) (safeGoes : Bool) : List Poll → Bool → Fallible Moving Bool
  | [], weReleased => pure weReleased
  | p :: polls, weReleased => do
      match ← nextWithin c releaseFate p with
      | .quiet => return weReleased
      | .broke => fail
      | .frame plain =>
          match Upgrade.read plain with
          | some (.safeToClosePrior _) => return weReleased
          | some .lastWriteToPrior =>
              releaseOld safeGoes weReleased
              releaseJoiner c safeGoes polls true
          | _ => releaseJoiner c safeGoes polls weReleased

/-- What `acquire` comes to: an error, `None`, or a connected socket. -/
inductive Acquired
  | failed
  | declined
  | connected
  deriving DecidableEq, Repr

/-- What `wait_for_upgrade` and `adopt` meet. -/
structure Adopting where
  endpointId : Text := []
  /-- The waits of `wait_for_upgrade`, and whether the send was cancelled before. -/
  waits : List (Bool × Poll) := []
  acquired : Acquired := .connected
  /-- Whether the UPGRADE_FAILURE goes out that declines the offer. -/
  declineGoes : Bool := true
  /-- `sock.try_clone()`. -/
  clones : Bool := true
  introGoes : Bool := true
  /-- The first frame on the new socket, in plaintext. -/
  ack : Heard := .quiet
  lastGoes : Bool := true
  release : List Poll := []
  safeGoes : Bool := true
  /-- Whether the UPGRADE_FAILURE goes out that answers an error. -/
  failureGoes : Bool := true
  deriving DecidableEq, Repr

/-- The ack of our introduction, where the offer says that one is sent. -/
def awaitAck (e : Adopting) (path : UpgradePath) : Fallible Moving Unit :=
  if path.supportsIntroductionAck then
    match e.ack with
    | .quiet | .broke => fail
    | .frame reply =>
        if Upgrade.read reply = some .clientIntroductionAck then pure () else fail
  else pure ()

/-- `adopt` up to the LAST_WRITE, and whether it got there. -/
def adoptPath (e : Adopting) (path : UpgradePath) : Fallible Moving Bool := do
  match e.acquired with
  | .failed => fail
  | .declined =>
      write e.declineGoes .old Upgrade.failure
      return false
  | .connected =>
      if !e.clones then fail
      else
        write e.introGoes .new (Upgrade.clientIntroduction e.endpointId)
        awaitAck e path
        write e.lastGoes .old Upgrade.lastWriteToPrior
        return true

def adopt (c : Crypto) (e : Adopting) (path : UpgradePath) : Fallible Moving Bool := do
  if ← adoptPath e path then
    let weReleased ← releaseJoiner c e.safeGoes e.release false
    releaseOld e.safeGoes weReleased
    moveOver
    return true
  else return false

def onUpgradeFrame (c : Crypto) (e : Adopting) (body : Bytes) : Fallible Moving Unit := do
  match Upgrade.parse body with
  | .ok (.pathAvailable path) =>
      match ← attempt (adopt c e path) with
      | some _ => pure ()
      -- the old socket is taken to be good still
      | none => write e.failureGoes .old Upgrade.failure
  | .ok _ | .error _ => pure ()

/-- A frame read while an offer is awaited. -/
def waitFate (plain : Bytes) : Fate :=
  match Frames.parse plain with
  | .ok (.bandwidthUpgrade _) | .error _ => .met plain
  | .ok _ => .kept plain

def waitForUpgrade (c : Crypto) (e : Adopting) : List (Bool × Poll) → Fallible Moving Unit
  | [] => pure ()
  | (cancelled, p) :: waits => do
      if cancelled then
        return
      match ← nextWithin c waitFate p with
      | .quiet => waitForUpgrade c e waits
      | .broke => fail
      | .frame plain =>
          match Frames.parse plain with
          | .error _ => fail
          | .ok (.bandwidthUpgrade body) => onUpgradeFrame c e body
          | .ok _ => waitForUpgrade c e waits

end Quickshare
