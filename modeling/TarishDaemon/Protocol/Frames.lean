import TarishDaemon.Protocol.Protobuf

/-!
# Offline frames

The message layer of a connection: connection requests and responses, keep-alives,
disconnections, bandwidth-upgrade bodies and the payload chunks that carry
everything else.  A frame of a type this build does not know parses to `unknown`;
a field that is missing is read as its default.
-/

namespace Protocol

open Rust

namespace Frames

-- OfflineFrame
def ofVersion : Nat := 1
def ofV1 : Nat := 2
def versionV1 : Nat := 1

-- V1Frame
def v1Type : Nat := 1
def v1ConnectionRequest : Nat := 2
def v1ConnectionResponse : Nat := 3
def v1PayloadTransfer : Nat := 4
def v1BandwidthUpgrade : Nat := 5
def v1KeepAlive : Nat := 6
def v1Disconnection : Nat := 7

-- V1Frame.FrameType
def tConnectionRequest : Nat := 1
def tConnectionResponse : Nat := 2
def tPayloadTransfer : Nat := 3
def tBandwidthUpgrade : Nat := 4
def tKeepAlive : Nat := 5
def tDisconnection : Nat := 6

-- ConnectionRequestFrame
def crEndpointId : Nat := 1
def crEndpointName : Nat := 2
def crHandshakeData : Nat := 3
def crNonce : Nat := 4
def crMediums : Nat := 5
def crEndpointInfo : Nat := 6
def crKeepaliveInterval : Nat := 8
def crKeepaliveTimeout : Nat := 9

-- ConnectionResponseFrame
def rspStatus : Nat := 1
def rspHandshakeData : Nat := 2
def rspResponse : Nat := 3
def rspOsInfo : Nat := 4
def rspMultiplexBitmask : Nat := 5
def rspSafeToDisconnect : Nat := 7
def rspKeepaliveTimeout : Nat := 9

def osTypeField : Nat := 1

-- PayloadTransferFrame
def ptPacketType : Nat := 1
def ptPayloadHeader : Nat := 2
def ptPayloadChunk : Nat := 3
def ptControlMessage : Nat := 4

-- PayloadTransferFrame.PayloadHeader
def phId : Nat := 1
def phType : Nat := 2
def phTotalSize : Nat := 3
def phIsSensitive : Nat := 4
def phFileName : Nat := 5
def phParentFolder : Nat := 6

-- PayloadTransferFrame.PayloadChunk
def pcFlags : Nat := 1
def pcOffset : Nat := 2
def pcBody : Nat := 3

-- PayloadTransferFrame.ControlMessage
def cmEvent : Nat := 1
def cmOffset : Nat := 2

-- DisconnectionFrame
def dcRequestSafe : Nat := 1
def dcAckSafe : Nat := 2

-- KeepAliveFrame
def kaAck : Nat := 1
def kaSeqNum : Nat := 2

def multiplexSocketBitmaskNone : Nat := 0

def ourSafeToDisconnectVersion : Nat := 1

def keepAliveTimeoutMillis : Nat := 600000

/-- What the peer said about our connection request. -/
inductive Response
  | unknown
  | accept
  | reject
  deriving DecidableEq, Repr

def Response.ofU64 : Nat → Response
  | 1 => .accept
  | 2 => .reject
  | _ => .unknown

def Response.toU64 : Response → Nat
  | .unknown => 0
  | .accept => 1
  | .reject => 2

inductive OsType
  | unknown
  | android
  | chromeOs
  | windows
  | apple
  | linux
  deriving DecidableEq, Repr

def OsType.ofU64 : Nat → OsType
  | 1 => .android
  | 2 => .chromeOs
  | 3 => .windows
  | 4 => .apple
  | 100 => .linux
  | _ => .unknown

def OsType.toU64 : OsType → Nat
  | .unknown => 0
  | .android => 1
  | .chromeOs => 2
  | .windows => 3
  | .apple => 4
  | .linux => 100

/-- BYTES carries the sharing protocol's own frames; FILE carries a file. -/
inductive PayloadType
  | unknown
  | bytes
  | file
  | stream
  deriving DecidableEq, Repr

def PayloadType.ofU64 : Nat → PayloadType
  | 1 => .bytes
  | 2 => .file
  | 3 => .stream
  | _ => .unknown

def PayloadType.toU64 : PayloadType → Nat
  | .unknown => 0
  | .bytes => 1
  | .file => 2
  | .stream => 3

inductive PacketType
  | unknown
  | data
  | control
  | payloadAck
  deriving DecidableEq, Repr

def PacketType.ofU64 : Nat → PacketType
  | 1 => .data
  | 2 => .control
  | 3 => .payloadAck
  | _ => .unknown

def PacketType.toU64 : PacketType → Nat
  | .unknown => 0
  | .data => 1
  | .control => 2
  | .payloadAck => 3

/-- Set on the final chunk of a payload. -/
def flagLastChunk : Nat := 1

structure ConnectionRequest where
  endpointId : Text := []
  endpointName : Text := []
  endpointInfo : Bytes := []
  handshakeData : Bytes := []
  nonce : Int := 0
  mediums : List Nat := []
  keepAliveIntervalMillis : Option Nat := none
  keepAliveTimeoutMillis : Option Nat := none
  deriving DecidableEq, Repr

structure ConnectionResponse where
  response : Response
  osType : OsType
  handshakeData : Bytes
  safeToDisconnectVersion : Nat
  deriving DecidableEq, Repr

structure PayloadHeader where
  id : Int := 0
  payloadType : PayloadType := .unknown
  totalSize : Int := 0
  isSensitive : Bool := false
  fileName : Text := []
  parentFolder : Text := []
  deriving DecidableEq, Repr

structure PayloadChunk where
  flags : Nat := 0
  offset : Int := 0
  body : Bytes := []
  deriving DecidableEq, Repr

def PayloadChunk.isLast (c : PayloadChunk) : Bool :=
  decide (c.flags &&& flagLastChunk ≠ 0)

structure PayloadTransfer where
  packetType : PacketType
  header : PayloadHeader
  chunk : Option PayloadChunk
  /-- Event and offset of a control message: 1 is an error, 2 a cancel. -/
  control : Option (Nat × Int)
  deriving DecidableEq, Repr

inductive Frame
  | connectionRequest (r : ConnectionRequest)
  | connectionResponse (r : ConnectionResponse)
  | payloadTransfer (pt : PayloadTransfer)
  | keepAlive (ack : Bool) (seqNum : Nat)
  | disconnection (requestSafe ackSafe : Bool)
  | bandwidthUpgrade (body : Bytes)
  | unknown (ty : Nat)
  deriving DecidableEq, Repr

inductive Error
  | protobuf (e : Protobuf.Error)
  | malformed (what : String)
  deriving DecidableEq, Repr

/-! ## Encoding -/

def offline (frameType field : Nat) (body : Bytes) : Bytes :=
  let v1 := Protobuf.varint v1Type frameType ++ Protobuf.bytes field body
  Protobuf.varint ofVersion versionV1 ++ Protobuf.bytes ofV1 v1

def connectionResponse (response : Response) (os : OsType) : Bytes :=
  offline tConnectionResponse v1ConnectionResponse
    (Protobuf.varint rspStatus (if response = .accept then 0 else 1) ++
      Protobuf.varint rspResponse response.toU64 ++
      Protobuf.bytes rspOsInfo (Protobuf.varint osTypeField os.toU64) ++
      Protobuf.varint rspMultiplexBitmask multiplexSocketBitmaskNone ++
      Protobuf.varint rspSafeToDisconnect ourSafeToDisconnectVersion ++
      Protobuf.varint rspKeepaliveTimeout keepAliveTimeoutMillis)

/-- One DATA packet.  The header is repeated on every chunk. -/
def payloadData (header : PayloadHeader) (chunk : PayloadChunk) : Bytes :=
  let h := Protobuf.varint phId (toU64 header.id) ++
    Protobuf.varint phType header.payloadType.toU64 ++
    Protobuf.varint phTotalSize (toU64 header.totalSize) ++
    Protobuf.varint phIsSensitive header.isSensitive.toNat ++
    (if header.fileName ≠ [] then Protobuf.bytes phFileName (asBytes header.fileName) else []) ++
    (if header.parentFolder ≠ [] then
      Protobuf.bytes phParentFolder (asBytes header.parentFolder) else [])
  let c := Protobuf.varint pcFlags chunk.flags ++
    Protobuf.varint pcOffset (toU64 chunk.offset) ++
    Protobuf.bytes pcBody chunk.body
  offline tPayloadTransfer v1PayloadTransfer
    (Protobuf.varint ptPacketType PacketType.data.toU64 ++
      Protobuf.bytes ptPayloadHeader h ++ Protobuf.bytes ptPayloadChunk c)

def bandwidthUpgrade (body : Bytes) : Bytes :=
  offline tBandwidthUpgrade v1BandwidthUpgrade body

def keepAlive (ack : Bool) (seqNum : Nat) : Bytes :=
  offline tKeepAlive v1KeepAlive
    (Protobuf.varint kaAck ack.toNat ++ Protobuf.varint kaSeqNum seqNum)

def disconnection (requestSafe ackSafe : Bool) : Bytes :=
  offline tDisconnection v1Disconnection
    ((if requestSafe then Protobuf.varint dcRequestSafe 1 else []) ++
      (if ackSafe then Protobuf.varint dcAckSafe 1 else []))

/-! ## Decoding -/

def varintField (b : Bytes) (field : Nat) : Except Error (Option Nat) :=
  match Protobuf.firstVarint b field with
  | .error e => .error (.protobuf e)
  | .ok v => .ok v

def bytesField (b : Bytes) (field : Nat) : Except Error (Option Bytes) :=
  match Protobuf.firstBytes b field with
  | .error e => .error (.protobuf e)
  | .ok v => .ok v

def varintOr0 (b : Bytes) (field : Nat) : Except Error Nat := do
  return (← varintField b field).getD 0

def bytesOrEmpty (b : Bytes) (field : Nat) : Except Error Bytes := do
  return (← bytesField b field).getD []

def textOrEmpty (b : Bytes) (field : Nat) : Except Error Text := do
  return ((← bytesField b field).map fromUtf8Lossy).getD []

def connectionRequestField (out : ConnectionRequest) :
    Protobuf.Field → Except Error ConnectionRequest
  | .bytes field v =>
      if field = crEndpointId then .ok { out with endpointId := fromUtf8Lossy v }
      else if field = crEndpointName then .ok { out with endpointName := fromUtf8Lossy v }
      else if field = crEndpointInfo then .ok { out with endpointInfo := v }
      else if field = crHandshakeData then .ok { out with handshakeData := v }
      else .ok out
  | .varint field v =>
      if field = crNonce then .ok { out with nonce := toI64 v }
      else if field = crMediums then .ok { out with mediums := out.mediums ++ [v] }
      else if field = crKeepaliveInterval then .ok { out with keepAliveIntervalMillis := some v }
      else if field = crKeepaliveTimeout then .ok { out with keepAliveTimeoutMillis := some v }
      else .ok out

def parseConnectionRequest (b : Bytes) : Except Error ConnectionRequest :=
  Protobuf.readFields .protobuf connectionRequestField b {}

def parseConnectionResponse (b : Bytes) : Except Error ConnectionResponse := do
  let response ← match ← varintField b rspResponse with
    | some v => pure (Response.ofU64 v)
    -- the deprecated status field, where 0 meant accepted
    | none => match ← varintField b rspStatus with
      | some 0 => pure .accept
      | some _ => pure .reject
      | none => pure .unknown
  let osType ← match ← bytesField b rspOsInfo with
    | some os => pure (OsType.ofU64 (← varintOr0 os osTypeField))
    | none => pure .unknown
  let handshakeData ← bytesOrEmpty b rspHandshakeData
  let safeToDisconnectVersion ← varintOr0 b rspSafeToDisconnect
  return { response, osType, handshakeData, safeToDisconnectVersion }

def parsePayloadHeader (h : Bytes) : Except Error PayloadHeader := do
  let id ← varintOr0 h phId
  let payloadType ← varintOr0 h phType
  let totalSize ← varintOr0 h phTotalSize
  let isSensitive ← varintOr0 h phIsSensitive
  let fileName ← textOrEmpty h phFileName
  let parentFolder ← textOrEmpty h phParentFolder
  return {
    id := toI64 id
    payloadType := .ofU64 payloadType
    totalSize := toI64 totalSize
    isSensitive := decide (isSensitive ≠ 0)
    fileName := fileName
    parentFolder := parentFolder }

def parsePayloadChunk (c : Bytes) : Except Error PayloadChunk := do
  let flags ← varintOr0 c pcFlags
  let offset ← varintOr0 c pcOffset
  let body ← bytesOrEmpty c pcBody
  return { flags := flags, offset := toI64 offset, body := body }

def parseControl (c : Bytes) : Except Error (Nat × Int) := do
  let event ← varintOr0 c cmEvent
  let offset ← varintOr0 c cmOffset
  return (event, toI64 offset)

def parsePayloadTransfer (b : Bytes) : Except Error PayloadTransfer := do
  let packetType ← varintOr0 b ptPacketType
  let header ← match ← bytesField b ptPayloadHeader with
    | some h => parsePayloadHeader h
    | none => pure {}
  let chunk ← match ← bytesField b ptPayloadChunk with
    | some c => some <$> parsePayloadChunk c
    | none => pure none
  let control ← match ← bytesField b ptControlMessage with
    | some c => some <$> parseControl c
    | none => pure none
  return { packetType := .ofU64 packetType, header, chunk, control }

/-- One field of the V1 frame: its type, and its body under whatever number. -/
def v1Field (seen : Option Nat × Option Bytes) :
    Protobuf.Field → Except Error (Option Nat × Option Bytes)
  | .varint field v => .ok (if field = v1Type then (some v, seen.2) else seen)
  | .bytes _ v => .ok (seen.1, some v)

def parse (b : Bytes) : Except Error Frame := do
  let v1 ← match ← bytesField b ofV1 with
    | some v1 => .ok v1
    | none => .error (.malformed "no v1 frame")
  let (ty, body) ← Protobuf.readFields .protobuf v1Field v1 (none, none)
  let ty ← match ty with
    | some ty => .ok ty
    | none => .error (.malformed "no frame type")
  let body := body.getD []
  if ty = tConnectionRequest then return .connectionRequest (← parseConnectionRequest body)
  else if ty = tConnectionResponse then return .connectionResponse (← parseConnectionResponse body)
  else if ty = tPayloadTransfer then return .payloadTransfer (← parsePayloadTransfer body)
  else if ty = tKeepAlive then
    let ack ← varintOr0 body kaAck
    let seqNum ← varintOr0 body kaSeqNum
    return .keepAlive (decide (ack ≠ 0)) seqNum
  else if ty = tDisconnection then
    -- the body under its own number, not the last one seen
    let b ← bytesOrEmpty v1 v1Disconnection
    let requestSafe ← varintOr0 b dcRequestSafe
    let ackSafe ← varintOr0 b dcAckSafe
    return .disconnection (decide (requestSafe ≠ 0)) (decide (ackSafe ≠ 0))
  else if ty = tBandwidthUpgrade then return .bandwidthUpgrade body
  else return .unknown ty

example : parse (disconnection true false) = .ok (.disconnection true false) := by
  decide +kernel

end Frames

end Protocol
