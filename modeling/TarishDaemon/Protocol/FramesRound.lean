import TarishDaemon.Protocol.FramesWire

/-!
# Every offline frame there and back

The builders of the message layer, each as one case of `Built` with what it is given, and
the frame that the parser is to make of it.

**The parser gives every built frame back** (`parse_built`), with what is fixed or left
out in it at the value the receiver takes it for.
-/

namespace Protocol

open Rust Protobuf

namespace Frames

def crMediumMetadata : Nat := 7
def crConnectionsDevice : Nat := 12

-- MediumMetadata
def mmSupports5ghz : Nat := 1
def mmSupports6ghz : Nat := 4
def mmMobileRadio : Nat := 5
def mmApFrequency : Nat := 6

/-- `-1i32 as i64 as u64`: no access point. -/
def apFrequencyNone : Nat := toU64 (-1)

-- ConnectionsDevice
def cdEndpointId : Nat := 1
def cdEndpointType : Nat := 2
def cdEndpointInfo : Nat := 4

def endpointTypeConnections : Nat := 1

/-! ## The builders -/

/-- What this device's radios can do. -/
def mediumMetadata : Bytes :=
  Protobuf.varint mmSupports5ghz 0 ++ Protobuf.varint mmSupports6ghz 0 ++
    Protobuf.varint mmMobileRadio 0 ++ Protobuf.varint mmApFrequency apFrequencyNone

/-- The endpoint once more, inside a oneof. -/
def connectionsDevice (endpointId : Text) (endpointInfo : Bytes) : Bytes :=
  Protobuf.bytes cdEndpointId (asBytes endpointId) ++
    Protobuf.varint cdEndpointType endpointTypeConnections ++
    Protobuf.bytes cdEndpointInfo endpointInfo

/-- A number that is left out when there is none. -/
def varintIfSome (field : Nat) : Option Nat → Bytes
  | some v => Protobuf.varint field v
  | none => []

def connectionRequest (req : ConnectionRequest) : Bytes :=
  offline tConnectionRequest v1ConnectionRequest
    (Protobuf.bytes crEndpointId (asBytes req.endpointId) ++
      Protobuf.bytes crEndpointName (asBytes req.endpointName) ++
      Protobuf.bytes crHandshakeData req.handshakeData ++
      Protobuf.varint crNonce (toU64 req.nonce) ++
      req.mediums.flatMap (Protobuf.varint crMediums) ++
      Protobuf.bytes crEndpointInfo req.endpointInfo ++
      Protobuf.bytes crMediumMetadata mediumMetadata ++
      varintIfSome crKeepaliveInterval req.keepAliveIntervalMillis ++
      varintIfSome crKeepaliveTimeout req.keepAliveTimeoutMillis ++
      Protobuf.bytes crConnectionsDevice (connectionsDevice req.endpointId req.endpointInfo))

/-- One CONTROL packet.  Only three fields of the header go with it. -/
def payloadControl (header : PayloadHeader) (event : Nat) (offset : Int) : Bytes :=
  let h := Protobuf.varint phId (toU64 header.id) ++
    Protobuf.varint phType header.payloadType.toU64 ++
    Protobuf.varint phTotalSize (toU64 header.totalSize)
  let cm := Protobuf.varint cmEvent event ++ Protobuf.varint cmOffset (toU64 offset)
  offline tPayloadTransfer v1PayloadTransfer
    (Protobuf.varint ptPacketType PacketType.control.toU64 ++
      Protobuf.bytes ptPayloadHeader h ++ Protobuf.bytes ptControlMessage cm)

/-- A frame to build, with what its builder is given. -/
inductive Built
  | connectionRequest (req : ConnectionRequest)
  | connectionResponse (response : Response) (os : OsType)
  | payloadData (header : PayloadHeader) (chunk : PayloadChunk)
  | payloadControl (header : PayloadHeader) (event : Nat) (offset : Int)
  | bandwidthUpgrade (body : Bytes)
  | keepAlive (ack : Bool) (seqNum : Nat)
  | disconnection (requestSafe ackSafe : Bool)
  deriving DecidableEq, Repr

namespace Built

def build : Built → Bytes
  | connectionRequest req => Frames.connectionRequest req
  | connectionResponse response os => Frames.connectionResponse response os
  | payloadData header chunk => Frames.payloadData header chunk
  | payloadControl header event offset => Frames.payloadControl header event offset
  | bandwidthUpgrade body => Frames.bandwidthUpgrade body
  | keepAlive ack seqNum => Frames.keepAlive ack seqNum
  | disconnection requestSafe ackSafe => Frames.disconnection requestSafe ackSafe

/-- The frame that arrives. -/
def frame : Built → Frame
  | connectionRequest req => .connectionRequest req
  | connectionResponse response os =>
      .connectionResponse
        { response
          osType := os
          handshakeData := []
          safeToDisconnectVersion := ourSafeToDisconnectVersion }
  | payloadData header chunk =>
      .payloadTransfer { packetType := .data, header, chunk := some chunk, control := none }
  | payloadControl header event offset =>
      .payloadTransfer
        { packetType := .control
          header :=
            { id := header.id
              payloadType := header.payloadType
              totalSize := header.totalSize }
          chunk := none
          control := some (event, offset) }
  | bandwidthUpgrade body => .bandwidthUpgrade body
  | keepAlive ack seqNum => .keepAlive ack seqNum
  | disconnection requestSafe ackSafe => .disconnection requestSafe ackSafe

/-- What the source's types promise of the values. -/
def Typed : Built → Prop
  | connectionRequest req =>
      (-2 ^ 63 ≤ req.nonce ∧ req.nonce < 2 ^ 63) ∧ (∀ m ∈ req.mediums, m < 2 ^ 64) ∧
        (∀ v, req.keepAliveIntervalMillis = some v → v < 2 ^ 64) ∧
        ∀ v, req.keepAliveTimeoutMillis = some v → v < 2 ^ 64
  | connectionResponse _ _ => True
  | payloadData header chunk => header.Fits ∧ chunk.Fits
  | payloadControl header event offset =>
      header.Fits ∧ event < 2 ^ 64 ∧ -2 ^ 63 ≤ offset ∧ offset < 2 ^ 63
  | bandwidthUpgrade _ => True
  | keepAlive _ seqNum => seqNum < 2 ^ 64
  | disconnection _ _ => True

end Built

/-! ## A frame and its body -/

theorem length_lt_of_offline {frameType field : Nat} {body : Bytes}
    (hlen : (offline frameType field body).length < 2 ^ 64) : body.length < 2 ^ 64 := by
  refine lt_of_le_of_lt ?_ hlen
  simp only [offline, Protobuf.bytes, List.length_append]
  omega

/-! ## Connection requests -/

/-- A number that is left out when there is none. -/
def optionField (n : Nat) : Option Nat → List Field
  | some v => [.varint n v]
  | none => []

theorem encode_optionField (n : Nat) (v : Option Nat) :
    encode (optionField n v) = varintIfSome n v := by
  cases v with
  | none => rfl
  | some v => simp [optionField, varintIfSome, Field.encode]

def requestFields (req : ConnectionRequest) : List Field :=
  [.bytes crEndpointId (asBytes req.endpointId), .bytes crEndpointName (asBytes req.endpointName),
    .bytes crHandshakeData req.handshakeData, .varint crNonce (toU64 req.nonce)] ++
    req.mediums.map (Field.varint crMediums) ++
    [.bytes crEndpointInfo req.endpointInfo, .bytes crMediumMetadata mediumMetadata] ++
    optionField crKeepaliveInterval req.keepAliveIntervalMillis ++
    optionField crKeepaliveTimeout req.keepAliveTimeoutMillis ++
    [.bytes crConnectionsDevice (connectionsDevice req.endpointId req.endpointInfo)]

theorem connectionRequest_eq (req : ConnectionRequest) :
    connectionRequest req =
      offline tConnectionRequest v1ConnectionRequest (encode (requestFields req)) := by
  have hmediums : encode (req.mediums.map (Field.varint crMediums)) =
      req.mediums.flatMap (Protobuf.varint crMediums) := by
    rw [encode, List.flatMap_map]
    rfl
  simp only [connectionRequest, requestFields, encode_append, encode_optionField, hmediums]
  simp [Field.encode]

theorem optionField_typed {n : Nat} (hn : n < 2 ^ 32) {v : Option Nat}
    (hv : ∀ x, v = some x → x < 2 ^ 64) : ∀ f ∈ optionField n v, f.Typed := by
  cases v with
  | none => exact fun f hf => absurd hf List.not_mem_nil
  | some x =>
      intro f hf
      rw [List.mem_singleton.mp hf]
      exact ⟨hn, hv x rfl⟩

theorem requestFields_typed {req : ConnectionRequest} (h : (Built.connectionRequest req).Typed) :
    ∀ f ∈ requestFields req, f.Typed := by
  obtain ⟨-, hmediums, hinterval, htimeout⟩ := h
  have hnonce := toU64_lt req.nonce
  intro f hf
  simp only [requestFields, List.mem_append, List.mem_cons, List.not_mem_nil, or_false] at hf
  rcases hf with ((((hf | hf) | hf) | hf) | hf) | hf
  · rcases hf with rfl | rfl | rfl | rfl
    · exact (by decide : crEndpointId < 2 ^ 32)
    · exact (by decide : crEndpointName < 2 ^ 32)
    · exact (by decide : crHandshakeData < 2 ^ 32)
    · exact ⟨by decide, hnonce⟩
  · obtain ⟨m, hm, rfl⟩ := List.mem_map.mp hf
    exact ⟨by decide, hmediums m hm⟩
  · rcases hf with rfl | rfl
    · exact (by decide : crEndpointInfo < 2 ^ 32)
    · exact (by decide : crMediumMetadata < 2 ^ 32)
  · exact optionField_typed (by decide) hinterval f hf
  · exact optionField_typed (by decide) htimeout f hf
  · rw [hf]
    exact (by decide : crConnectionsDevice < 2 ^ 32)

/-- Reading the mediums one after the other. -/
theorem foldlM_mediums (mediums : List Nat) (out : ConnectionRequest) :
    (mediums.map (Field.varint crMediums)).foldlM connectionRequestField out =
      .ok { out with mediums := out.mediums ++ mediums } := by
  induction mediums generalizing out with
  | nil => simp [pure, Except.pure]
  | cons m mediums ih =>
      have hfield : connectionRequestField out (.varint crMediums m) =
          .ok { out with mediums := out.mediums ++ [m] } := rfl
      rw [List.map_cons, List.foldlM_cons, hfield]
      have hrest := ih { out with mediums := out.mediums ++ [m] }
      rw [List.append_assoc, List.singleton_append] at hrest
      exact hrest

theorem foldlM_interval (v : Option Nat) {out : ConnectionRequest}
    (hnone : out.keepAliveIntervalMillis = none) :
    (optionField crKeepaliveInterval v).foldlM connectionRequestField out =
      .ok { out with keepAliveIntervalMillis := v } := by
  cases v with
  | none =>
      have hout : out = { out with keepAliveIntervalMillis := none } := by rw [← hnone]
      exact congrArg Except.ok hout
  | some v => rfl

theorem foldlM_timeout (v : Option Nat) {out : ConnectionRequest}
    (hnone : out.keepAliveTimeoutMillis = none) :
    (optionField crKeepaliveTimeout v).foldlM connectionRequestField out =
      .ok { out with keepAliveTimeoutMillis := v } := by
  cases v with
  | none =>
      have hout : out = { out with keepAliveTimeoutMillis := none } := by rw [← hnone]
      exact congrArg Except.ok hout
  | some v => rfl

/-- Reading what stands before the mediums. -/
theorem foldlM_first (endpointId endpointName : Text) (handshakeData : Bytes) (nonce : Nat) :
    [Field.bytes crEndpointId (asBytes endpointId), .bytes crEndpointName (asBytes endpointName),
      .bytes crHandshakeData handshakeData, .varint crNonce nonce].foldlM
        connectionRequestField {} =
      .ok
        { endpointId := endpointId
          endpointName := endpointName
          handshakeData := handshakeData
          nonce := toI64 nonce } := by
  have hid := fromUtf8Lossy_asBytes endpointId
  have hname := fromUtf8Lossy_asBytes endpointName
  -- the bytes of the two texts are not to be looked into
  generalize asBytes endpointId = idBytes at hid ⊢
  generalize asBytes endpointName = nameBytes at hname ⊢
  subst hid hname
  rfl

theorem parseConnectionRequest_encode {req : ConnectionRequest}
    (h : (Built.connectionRequest req).Typed)
    (hlen : (encode (requestFields req)).length < 2 ^ 64) :
    parseConnectionRequest (encode (requestFields req)) = .ok req := by
  have fits := fits_of_length (requestFields_typed h) hlen
  obtain ⟨⟨hlo, hhi⟩, -⟩ := h
  have hnonce := toI64_toU64 hlo hhi
  have hmiddle : ∀ out : ConnectionRequest,
      [Field.bytes crEndpointInfo req.endpointInfo,
        .bytes crMediumMetadata mediumMetadata].foldlM connectionRequestField out =
        .ok { out with endpointInfo := req.endpointInfo } := by
    intro out
    simp [connectionRequestField, crEndpointId, crEndpointName, crEndpointInfo, crHandshakeData,
      crMediumMetadata, bind, Except.bind, pure, Except.pure]
  have hlast : ∀ out : ConnectionRequest,
      [Field.bytes crConnectionsDevice
        (connectionsDevice req.endpointId req.endpointInfo)].foldlM connectionRequestField out =
        .ok out := by
    intro out
    simp [connectionRequestField, crEndpointId, crEndpointName, crEndpointInfo, crHandshakeData,
      crConnectionsDevice, bind, Except.bind, pure, Except.pure]
  rw [parseConnectionRequest, readFields_encode _ _ _ fits, requestFields]
  simp only [List.foldlM_append, foldlM_first, hnonce, foldlM_mediums, hmiddle, bind, Except.bind]
  rw [foldlM_interval _ rfl]
  dsimp only
  rw [foldlM_timeout _ rfl]
  dsimp only
  rw [hlast]
  rfl

theorem parse_connectionRequest {req : ConnectionRequest}
    (h : (Built.connectionRequest req).Typed)
    (hlen : (connectionRequest req).length < 2 ^ 64) :
    parse (connectionRequest req) = .ok (.connectionRequest req) := by
  rw [connectionRequest_eq] at hlen ⊢
  obtain ⟨hbytes, hv1⟩ := v1_of_offline (by decide) (by decide) hlen
  have hreq := parseConnectionRequest_encode h (length_lt_of_offline hlen)
  unfold parse
  rw [hbytes]
  simp only [bind, Except.bind]
  rw [hv1]
  simp only [Option.getD_some, if_true, hreq, pure, Except.pure]

/-! ## The small frames -/

theorem parse_connectionResponse (response : Response) (os : OsType) :
    parse (connectionResponse response os) =
      .ok (Built.connectionResponse response os).frame := by
  cases response <;> cases os <;> decide +kernel

theorem parse_keepAlive {ack : Bool} {seqNum : Nat} (hseq : seqNum < 2 ^ 64) :
    parse (keepAlive ack seqNum) = .ok (.keepAlive ack seqNum) := by
  have hbool : ack.toNat < 2 ^ 64 := by cases ack <;> decide
  have hbody : Protobuf.varint kaAck ack.toNat ++ Protobuf.varint kaSeqNum seqNum =
      encode [.varint kaAck ack.toNat, .varint kaSeqNum seqNum] := by
    simp [Field.encode]
  have hsize := encode_length_le [.varint kaAck ack.toNat, .varint kaSeqNum seqNum]
  simp only [List.foldr_cons, List.foldr_nil, Field.size] at hsize
  have hlen := offline_length_le tKeepAlive v1KeepAlive
    (encode [.varint kaAck ack.toNat, .varint kaSeqNum seqNum])
  rw [keepAlive, hbody]
  obtain ⟨hbytes, hv1⟩ := v1_of_offline (by decide) (by decide)
    (show (offline tKeepAlive v1KeepAlive
      (encode [.varint kaAck ack.toNat, .varint kaSeqNum seqNum])).length < 2 ^ 64 by omega)
  have typed : ∀ f ∈ [Field.varint kaAck ack.toNat, .varint kaSeqNum seqNum], f.Typed := by
    simpa [Field.Typed, kaAck, kaSeqNum] using ⟨hbool, hseq⟩
  have fits := fits_of_length typed (by omega)
  have hack := (varintOr0_encode _ fits kaAck).trans (show _ = .ok ack.toNat from rfl)
  have hnum := (varintOr0_encode _ fits kaSeqNum).trans (show _ = .ok seqNum from rfl)
  unfold parse
  rw [hbytes]
  simp only [bind, Except.bind]
  rw [hv1]
  generalize encode [.varint kaAck ack.toNat, .varint kaSeqNum seqNum] = body at hack hnum
  cases ack <;>
    simp [tKeepAlive, tConnectionRequest, tConnectionResponse, tPayloadTransfer, hack, hnum, pure,
      Except.pure]

theorem parse_disconnection (requestSafe ackSafe : Bool) :
    parse (disconnection requestSafe ackSafe) = .ok (.disconnection requestSafe ackSafe) := by
  cases requestSafe <;> cases ackSafe <;> decide +kernel

/-! ## Control packets -/

def controlHeaderFields (h : PayloadHeader) : List Field :=
  [.varint phId (toU64 h.id), .varint phType h.payloadType.toU64,
    .varint phTotalSize (toU64 h.totalSize)]

def controlFields (h : PayloadHeader) (event : Nat) (offset : Int) : List Field :=
  [.varint ptPacketType PacketType.control.toU64,
    .bytes ptPayloadHeader (encode (controlHeaderFields h)),
    .bytes ptControlMessage (encode [.varint cmEvent event, .varint cmOffset (toU64 offset)])]

theorem payloadControl_eq (h : PayloadHeader) (event : Nat) (offset : Int) :
    payloadControl h event offset =
      offline tPayloadTransfer v1PayloadTransfer (encode (controlFields h event offset)) := by
  simp [payloadControl, controlFields, controlHeaderFields, Field.encode]

theorem parsePayloadHeader_control {h : PayloadHeader} (hh : h.Fits)
    (hlen : (encode (controlHeaderFields h)).length < 2 ^ 64) :
    parsePayloadHeader (encode (controlHeaderFields h)) =
      .ok { id := h.id, payloadType := h.payloadType, totalSize := h.totalSize } := by
  have hid := toU64_lt h.id
  have hsize := toU64_lt h.totalSize
  have htype := h.payloadType.toU64_lt
  have typed : ∀ f ∈ controlHeaderFields h, f.Typed := by
    simpa [controlHeaderFields, Field.Typed, phId, phType, phTotalSize] using ⟨hid, htype, hsize⟩
  have fits := fits_of_length typed hlen
  obtain ⟨⟨hlo, hhi⟩, hlo', hhi'⟩ := hh
  simp only [parsePayloadHeader, varintOr0_encode _ fits, textOrEmpty_encode _ fits, bind,
    Except.bind, pure, Except.pure]
  simp [controlHeaderFields, phId, phType, phTotalSize, phIsSensitive, toI64_toU64 hlo hhi,
    toI64_toU64 hlo' hhi', PayloadType.ofU64_toU64]

theorem parseControl_encode {event : Nat} {offset : Int} (hevent : event < 2 ^ 64)
    (hlo : -2 ^ 63 ≤ offset) (hhi : offset < 2 ^ 63) :
    parseControl (encode [.varint cmEvent event, .varint cmOffset (toU64 offset)]) =
      .ok (event, offset) := by
  have hsize := encode_length_le [.varint cmEvent event, .varint cmOffset (toU64 offset)]
  simp only [List.foldr_cons, List.foldr_nil, Field.size] at hsize
  have typed : ∀ f ∈ [Field.varint cmEvent event, .varint cmOffset (toU64 offset)], f.Typed := by
    simpa [Field.Typed, cmEvent, cmOffset] using ⟨hevent, toU64_lt offset⟩
  have fits := fits_of_length typed (by omega)
  simp only [parseControl, varintOr0_encode _ fits, bind, Except.bind, pure, Except.pure]
  simp [cmEvent, cmOffset, toI64_toU64 hlo hhi]

theorem parse_payloadControl {h : PayloadHeader} {event : Nat} {offset : Int} (hh : h.Fits)
    (hevent : event < 2 ^ 64) (hlo : -2 ^ 63 ≤ offset) (hhi : offset < 2 ^ 63) :
    parse (payloadControl h event offset) =
      .ok (Built.payloadControl h event offset).frame := by
  have hhead : (encode (controlHeaderFields h)).length ≤ 60 := encode_length_le _
  have hmessage : (encode [.varint cmEvent event, .varint cmOffset (toU64 offset)]).length ≤ 40 :=
    encode_length_le _
  have hfields := encode_length_le (controlFields h event offset)
  simp only [controlFields, List.foldr_cons, List.foldr_nil, Field.size] at hfields
  have hlen := offline_length_le tPayloadTransfer v1PayloadTransfer
    (encode (controlFields h event offset))
  simp only [controlFields] at hlen
  have typed : ∀ f ∈ controlFields h event offset, f.Typed := by
    simp [controlFields, Field.Typed, ptPacketType, ptPayloadHeader, ptControlMessage,
      PacketType.toU64]
  have fits := fits_of_length typed (by simp only [controlFields]; omega)
  have hheader : lastBytes ptPayloadHeader (controlFields h event offset) =
      some (encode (controlHeaderFields h)) := by
    simp [controlFields, ptPayloadHeader, ptControlMessage]
  have hcontrol : lastBytes ptControlMessage (controlFields h event offset) =
      some (encode [.varint cmEvent event, .varint cmOffset (toU64 offset)]) := by
    simp [controlFields]
  have hchunk : lastBytes ptPayloadChunk (controlFields h event offset) = none := by
    simp [controlFields, ptPayloadHeader, ptPayloadChunk, ptControlMessage]
  have hpacket : lastVarint ptPacketType (controlFields h event offset) =
      some PacketType.control.toU64 := by
    simp [controlFields]
  have htransfer : parsePayloadTransfer (encode (controlFields h event offset)) = .ok
      { packetType := .control
        header := { id := h.id, payloadType := h.payloadType, totalSize := h.totalSize }
        chunk := none
        control := some (event, offset) } := by
    simp only [parsePayloadTransfer, varintOr0_encode _ fits, bytesField_encode _ fits, hheader,
      hcontrol, hchunk, hpacket, parsePayloadHeader_control hh (by omega),
      parseControl_encode hevent hlo hhi, bind, Except.bind, pure, Except.pure, Option.getD_some,
      Functor.map, Except.map]
    rfl
  rw [payloadControl_eq]
  obtain ⟨hbytes, hv1⟩ := v1_of_offline (by decide) (by decide)
    (show (offline tPayloadTransfer v1PayloadTransfer
      (encode (controlFields h event offset))).length < 2 ^ 64 by
        simp only [controlFields]; omega)
  unfold parse
  rw [hbytes]
  simp only [bind, Except.bind]
  rw [hv1]
  simp [tPayloadTransfer, tConnectionRequest, tConnectionResponse, htransfer, pure, Except.pure,
    Built.frame]

/-! ## Every frame -/

/-- **Every frame that is built is read back.**  `memory` is what a `Vec` of the source can
hold. -/
theorem parse_built (m : Built) (typed : m.Typed) (memory : m.build.length < 2 ^ 64) :
    parse m.build = .ok m.frame := by
  cases m with
  | connectionRequest req => exact parse_connectionRequest typed memory
  | connectionResponse response os => exact parse_connectionResponse response os
  | payloadData header chunk => exact parse_payloadData header chunk typed.1 typed.2 memory
  | payloadControl header event offset =>
      exact parse_payloadControl typed.1 typed.2.1 typed.2.2.1 typed.2.2.2
  | bandwidthUpgrade body => exact parse_bandwidthUpgrade memory
  | keepAlive ack seqNum => exact parse_keepAlive typed
  | disconnection requestSafe ackSafe => exact parse_disconnection requestSafe ackSafe

/-- A request over two mediums, with a negative nonce. -/
def sampleRequest : ConnectionRequest where
  endpointId := "ABCD".toList
  endpointName := "Größe".toList
  handshakeData := [1, 2]
  nonce := -5
  mediums := [5, 2 ^ 64 - 1]
  keepAliveTimeoutMillis := some 600000

theorem parse_built_sampleRequest :
    parse (Built.connectionRequest sampleRequest).build =
      .ok (Built.connectionRequest sampleRequest).frame :=
  parse_built (.connectionRequest sampleRequest)
    ⟨by decide, by decide, by simp [sampleRequest], by simp [sampleRequest]⟩
    (by decide +kernel)

end Frames

end Protocol
