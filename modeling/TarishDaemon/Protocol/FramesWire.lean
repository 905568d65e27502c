import TarishDaemon.Protocol.Upgrade
import TarishDaemon.Protocol.Wire

/-!
# Offline frames there and back

What the builders of the message layer put out, the parsers of the message layer
take in: payload chunks, and the frames of the bandwidth upgrade.  The one
assumption is what the source's types promise: values in range, and a frame that
fits in memory.
-/

namespace Protocol

open Rust Protobuf

namespace Frames

/-- The fields of the V1 frame. -/
def v1Fields (frameType field : Nat) (body : Bytes) : List Field :=
  [.varint v1Type frameType, .bytes field body]

theorem offline_eq_encode (frameType field : Nat) (body : Bytes) :
    offline frameType field body =
      encode [.varint ofVersion versionV1,
        .bytes ofV1 (encode (v1Fields frameType field body))] := by
  simp [offline, v1Fields, Field.encode]

theorem bytesField_encode (fs : List Field) (hfs : ∀ f ∈ fs, f.Fits) (n : Nat) :
    bytesField (encode fs) n = .ok (lastBytes n fs) := by
  rw [bytesField, firstBytes_encode fs hfs]

theorem varintField_encode (fs : List Field) (hfs : ∀ f ∈ fs, f.Fits) (n : Nat) :
    varintField (encode fs) n = .ok (lastVarint n fs) := by
  rw [varintField, firstVarint_encode fs hfs]

theorem varintOr0_encode (fs : List Field) (hfs : ∀ f ∈ fs, f.Fits) (n : Nat) :
    varintOr0 (encode fs) n = .ok ((lastVarint n fs).getD 0) := by
  rw [varintOr0, varintField_encode fs hfs]
  rfl

theorem bytesOrEmpty_encode (fs : List Field) (hfs : ∀ f ∈ fs, f.Fits) (n : Nat) :
    bytesOrEmpty (encode fs) n = .ok ((lastBytes n fs).getD []) := by
  rw [bytesOrEmpty, bytesField_encode fs hfs]
  rfl

theorem textOrEmpty_encode (fs : List Field) (hfs : ∀ f ∈ fs, f.Fits) (n : Nat) :
    textOrEmpty (encode fs) n = .ok (((lastBytes n fs).map fromUtf8Lossy).getD []) := by
  rw [textOrEmpty, bytesField_encode fs hfs]
  rfl

/-- What the parser finds in an offline frame: the type and the body. -/
theorem v1_of_offline {frameType field : Nat} {body : Bytes} (ht : frameType < 2 ^ 64)
    (hfield : field < 2 ^ 32) (hlen : (offline frameType field body).length < 2 ^ 64) :
    bytesField (offline frameType field body) ofV1 =
        .ok (some (encode (v1Fields frameType field body))) ∧
      readFields .protobuf v1Field (encode (v1Fields frameType field body)) (none, none) =
        .ok (some frameType, some body) := by
  rw [offline_eq_encode] at hlen ⊢
  have houter := fits_of_length (by simp [Field.Typed, ofVersion, versionV1, ofV1]) hlen
  have hmem : Field.bytes ofV1 (encode (v1Fields frameType field body)) ∈
      [.varint ofVersion versionV1, .bytes ofV1 (encode (v1Fields frameType field body))] := by
    simp
  have hinnerLen : (encode (v1Fields frameType field body)).length < 2 ^ 64 :=
    lt_of_le_of_lt (length_le_encode hmem) hlen
  have hinner := fits_of_length
    (by simpa [v1Fields, Field.Typed, v1Type] using ⟨ht, hfield⟩) hinnerLen
  constructor
  · rw [bytesField_encode _ houter]
    rfl
  · rw [readFields_encode _ _ _ hinner]
    rfl

theorem parse_bandwidthUpgrade {body : Bytes} (hlen : (bandwidthUpgrade body).length < 2 ^ 64) :
    parse (bandwidthUpgrade body) = .ok (.bandwidthUpgrade body) := by
  obtain ⟨hbytes, hv1⟩ := v1_of_offline (by decide) (by decide) hlen
  unfold parse bandwidthUpgrade
  rw [hbytes]
  simp only [bind, Except.bind]
  rw [hv1]
  rfl

/-- A frame has one type and one body. -/
theorem offline_inj {frameType frameType' field field' : Nat} {body body' : Bytes}
    (ht : frameType < 2 ^ 64) (ht' : frameType' < 2 ^ 64) (hfield : field < 2 ^ 32)
    (hfield' : field' < 2 ^ 32) (hlen : (offline frameType' field' body').length < 2 ^ 64)
    (h : offline frameType field body = offline frameType' field' body') :
    frameType = frameType' ∧ body = body' := by
  obtain ⟨hbytes, hv1⟩ := v1_of_offline ht hfield (h ▸ hlen)
  obtain ⟨hbytes', hv1'⟩ := v1_of_offline ht' hfield' hlen
  rw [h, hbytes'] at hbytes
  have hsame : encode (v1Fields frameType' field' body') = encode (v1Fields frameType field body) :=
    by simpa using hbytes
  rw [hsame, hv1] at hv1'
  simpa using hv1'

theorem offline_length_le (frameType field : Nat) (body : Bytes) :
    (offline frameType field body).length ≤ body.length + 80 := by
  have hversion := varint_length_le ofVersion versionV1
  have htype := varint_length_le v1Type frameType
  have hbody := bytes_length_le field body
  have houter := bytes_length_le ofV1
    (Protobuf.varint v1Type frameType ++ Protobuf.bytes field body)
  simp only [List.length_append] at houter
  simp only [offline, List.length_append]
  omega

/-! ### Payload chunks -/

def PayloadHeader.Fits (h : PayloadHeader) : Prop :=
  (-2 ^ 63 ≤ h.id ∧ h.id < 2 ^ 63) ∧ -2 ^ 63 ≤ h.totalSize ∧ h.totalSize < 2 ^ 63

def PayloadChunk.Fits (c : PayloadChunk) : Prop :=
  c.flags < 2 ^ 64 ∧ -2 ^ 63 ≤ c.offset ∧ c.offset < 2 ^ 63

theorem PayloadType.ofU64_toU64 (t : PayloadType) : PayloadType.ofU64 t.toU64 = t := by
  cases t <;> rfl

theorem PayloadType.toU64_lt (t : PayloadType) : t.toU64 < 2 ^ 64 := by
  cases t <;> decide

/-- A text that is left out when it is empty. -/
def textField (n : Nat) (t : Text) : List Field :=
  if t ≠ [] then [.bytes n (asBytes t)] else []

theorem encode_textField (n : Nat) (t : Text) :
    encode (textField n t) = if t ≠ [] then Protobuf.bytes n (asBytes t) else [] := by
  unfold textField
  split <;> simp [Field.encode]

@[simp] theorem lastVarint_textField (n m : Nat) (t : Text) :
    lastVarint n (textField m t) = none := by
  unfold textField
  split <;> simp

/-- Left out or not, it reads back. -/
@[simp] theorem lastBytes_textField (n : Nat) (t : Text) :
    ((lastBytes n (textField n t)).map fromUtf8Lossy).getD [] = t := by
  unfold textField
  split
  · simp [fromUtf8Lossy_asBytes]
  next h => exact (not_not.mp h).symm

theorem lastBytes_textField_of_ne {n m : Nat} (h : m ≠ n) (t : Text) :
    lastBytes n (textField m t) = none := by
  unfold textField
  split <;> simp [h]

def headerFields (h : PayloadHeader) : List Field :=
  [Field.varint phId (toU64 h.id), .varint phType h.payloadType.toU64,
    .varint phTotalSize (toU64 h.totalSize), .varint phIsSensitive h.isSensitive.toNat] ++
    (textField phFileName h.fileName ++ textField phParentFolder h.parentFolder)

def chunkFields (c : PayloadChunk) : List Field :=
  [.varint pcFlags c.flags, .varint pcOffset (toU64 c.offset), .bytes pcBody c.body]

def transferFields (h : PayloadHeader) (c : PayloadChunk) : List Field :=
  [.varint ptPacketType PacketType.data.toU64, .bytes ptPayloadHeader (encode (headerFields h)),
    .bytes ptPayloadChunk (encode (chunkFields c))]

theorem payloadData_eq (h : PayloadHeader) (c : PayloadChunk) :
    payloadData h c = offline tPayloadTransfer v1PayloadTransfer (encode (transferFields h c)) := by
  simp only [payloadData, transferFields, headerFields, chunkFields, encode_append,
    encode_textField]
  simp [Field.encode]

theorem textField_typed {n : Nat} (hn : n < 2 ^ 32) (t : Text) :
    ∀ f ∈ textField n t, f.Typed := by
  intro f hf
  unfold textField at hf
  split at hf
  · rw [List.mem_singleton.mp hf]
    exact hn
  · cases hf

theorem headerFields_typed (h : PayloadHeader) : ∀ f ∈ headerFields h, f.Typed := by
  have hbool : h.isSensitive.toNat < 2 ^ 64 := by cases h.isSensitive <;> decide
  have hid := toU64_lt h.id
  have hsize := toU64_lt h.totalSize
  have htype := h.payloadType.toU64_lt
  intro f hf
  simp only [headerFields, List.mem_append, List.mem_cons, List.not_mem_nil, or_false] at hf
  rcases hf with (rfl | rfl | rfl | rfl) | hf | hf
  · exact ⟨by decide, hid⟩
  · exact ⟨by decide, htype⟩
  · exact ⟨by decide, hsize⟩
  · exact ⟨by decide, hbool⟩
  · exact textField_typed (by decide) _ f hf
  · exact textField_typed (by decide) _ f hf

theorem parsePayloadHeader_encode (h : PayloadHeader) (hh : h.Fits)
    (hlen : (encode (headerFields h)).length < 2 ^ 64) :
    parsePayloadHeader (encode (headerFields h)) = .ok h := by
  have fits := fits_of_length (headerFields_typed h) hlen
  have id : lastVarint phId (headerFields h) = some (toU64 h.id) := by
    simp [headerFields, phId, phType, phTotalSize, phIsSensitive]
  have type : lastVarint phType (headerFields h) = some h.payloadType.toU64 := by
    simp [headerFields, phType, phTotalSize, phIsSensitive]
  have size : lastVarint phTotalSize (headerFields h) = some (toU64 h.totalSize) := by
    simp [headerFields, phTotalSize, phIsSensitive]
  have sensitive : lastVarint phIsSensitive (headerFields h) = some h.isSensitive.toNat := by
    simp [headerFields]
  have name : ((lastBytes phFileName (headerFields h)).map fromUtf8Lossy).getD [] =
      h.fileName := by
    have hother := lastBytes_textField_of_ne (n := phFileName) (m := phParentFolder) (by decide)
      h.parentFolder
    simp [headerFields, hother]
  have folder : ((lastBytes phParentFolder (headerFields h)).map fromUtf8Lossy).getD [] =
      h.parentFolder := by
    have hother := lastBytes_textField_of_ne (n := phParentFolder) (m := phFileName) (by decide)
      h.fileName
    simp [headerFields, hother]
  have bool : decide (h.isSensitive.toNat ≠ 0) = h.isSensitive := by
    cases h.isSensitive <;> rfl
  obtain ⟨⟨hid, hid'⟩, hsize, hsize'⟩ := hh
  simp only [parsePayloadHeader, varintOr0_encode _ fits, textOrEmpty_encode _ fits, id, type,
    size, sensitive, name, folder, Option.getD_some, bind, Except.bind, pure, Except.pure,
    toI64_toU64 hid hid', toI64_toU64 hsize hsize', PayloadType.ofU64_toU64, bool]

theorem parsePayloadChunk_encode (c : PayloadChunk) (hc : c.Fits)
    (hlen : (encode (chunkFields c)).length < 2 ^ 64) :
    parsePayloadChunk (encode (chunkFields c)) = .ok c := by
  obtain ⟨hflags, hoffset, hoffset'⟩ := hc
  have typed : ∀ f ∈ chunkFields c, f.Typed := by
    simp only [chunkFields, List.mem_cons, List.not_mem_nil, or_false, forall_eq_or_imp,
      forall_eq, Field.Typed]
    exact ⟨⟨by decide, hflags⟩, ⟨by decide, toU64_lt c.offset⟩, by decide⟩
  have fits := fits_of_length typed hlen
  have flags : lastVarint pcFlags (chunkFields c) = some c.flags := by
    simp [chunkFields, pcFlags, pcOffset]
  have offset : lastVarint pcOffset (chunkFields c) = some (toU64 c.offset) := by
    simp [chunkFields]
  have body : lastBytes pcBody (chunkFields c) = some c.body := by
    simp [chunkFields]
  simp only [parsePayloadChunk, varintOr0_encode _ fits, bytesOrEmpty_encode _ fits, flags, offset,
    body, Option.getD_some, bind, Except.bind, pure, Except.pure, toI64_toU64 hoffset hoffset']

theorem headerFields_length (h : PayloadHeader) :
    (encode (headerFields h)).length ≤
      (asBytes h.fileName).length + (asBytes h.parentFolder).length + 120 := by
  have hid := varint_length_le phId (toU64 h.id)
  have htype := varint_length_le phType h.payloadType.toU64
  have hsize := varint_length_le phTotalSize (toU64 h.totalSize)
  have hsensitive := varint_length_le phIsSensitive h.isSensitive.toNat
  have text : ∀ (n : Nat) (t : Text),
      (encode (textField n t)).length ≤ (asBytes t).length + 20 := by
    intro n t
    rw [encode_textField]
    split
    · exact bytes_length_le n _
    · exact Nat.zero_le _
  have hname := text phFileName h.fileName
  have hfolder := text phParentFolder h.parentFolder
  simp only [headerFields, encode_append, encode_cons, encode_nil, Field.encode,
    List.length_append, List.length_nil]
  omega

/-- A chunk on the wire is its body, the names and a little more. -/
theorem payloadData_length_le (h : PayloadHeader) (c : PayloadChunk) :
    (payloadData h c).length ≤
      c.body.length + (asBytes h.fileName).length + (asBytes h.parentFolder).length + 400 := by
  have hframe := offline_length_le tPayloadTransfer v1PayloadTransfer (encode (transferFields h c))
  have hpacket := varint_length_le ptPacketType PacketType.data.toU64
  have hheader := bytes_length_le ptPayloadHeader (encode (headerFields h))
  have hchunk := bytes_length_le ptPayloadChunk (encode (chunkFields c))
  have hfields := headerFields_length h
  have hflags := varint_length_le pcFlags c.flags
  have hoffset := varint_length_le pcOffset (toU64 c.offset)
  have hbody := bytes_length_le pcBody c.body
  rw [payloadData_eq]
  simp only [transferFields, chunkFields, encode_cons, encode_nil, Field.encode,
    List.length_append, List.length_nil] at hframe hchunk ⊢
  omega

theorem fileName_length_le (h : PayloadHeader) (c : PayloadChunk) :
    (asBytes h.fileName).length ≤ (payloadData h c).length := by
  by_cases hname : h.fileName = []
  · rw [hname]
    exact Nat.zero_le _
  · have hfield : Field.bytes phFileName (asBytes h.fileName) ∈ headerFields h := by
      simp [headerFields, textField, hname]
    have hheader := length_le_encode hfield
    have htransfer : (encode (headerFields h)).length ≤ (encode (transferFields h c)).length :=
      length_le_encode (n := ptPayloadHeader) (by simp [transferFields])
    rw [payloadData_eq]
    simp only [offline, Protobuf.bytes, List.length_append]
    omega

theorem body_length_le (h : PayloadHeader) (c : PayloadChunk) :
    c.body.length ≤ (payloadData h c).length := by
  have hfield : c.body.length ≤ (encode (chunkFields c)).length :=
    length_le_encode (n := pcBody) (by simp [chunkFields])
  have htransfer : (encode (chunkFields c)).length ≤ (encode (transferFields h c)).length :=
    length_le_encode (n := ptPayloadChunk) (by simp [transferFields])
  rw [payloadData_eq]
  simp only [offline, Protobuf.bytes, List.length_append]
  omega

/-- **A chunk there and back.** -/
theorem parse_payloadData (h : PayloadHeader) (c : PayloadChunk) (hh : h.Fits) (hc : c.Fits)
    (hlen : (payloadData h c).length < 2 ^ 64) :
    parse (payloadData h c) = .ok (.payloadTransfer
      { packetType := .data, header := h, chunk := some c, control := none }) := by
  rw [payloadData_eq] at hlen ⊢
  obtain ⟨hbytes, hv1⟩ := v1_of_offline (by decide) (by decide) hlen
  have hinner : (encode (transferFields h c)).length < 2 ^ 64 := by
    refine lt_of_le_of_lt ?_ hlen
    simp only [offline, Protobuf.bytes, List.length_append]
    omega
  have typed : ∀ f ∈ transferFields h c, f.Typed := by
    simp [transferFields, Field.Typed, ptPacketType, ptPayloadHeader, ptPayloadChunk,
      PacketType.toU64]
  have fits := fits_of_length typed hinner
  have header : lastBytes ptPayloadHeader (transferFields h c) =
      some (encode (headerFields h)) := by
    simp [transferFields, ptPayloadHeader, ptPayloadChunk]
  have chunk : lastBytes ptPayloadChunk (transferFields h c) = some (encode (chunkFields c)) := by
    simp [transferFields]
  have control : lastBytes ptControlMessage (transferFields h c) = none := by
    simp [transferFields, ptPayloadHeader, ptPayloadChunk, ptControlMessage]
  have packet : lastVarint ptPacketType (transferFields h c) = some PacketType.data.toU64 := by
    simp [transferFields]
  have hheader := parsePayloadHeader_encode h hh (lt_of_le_of_lt
    (length_le_encode (n := ptPayloadHeader) (by simp [transferFields])) hinner)
  have hchunk := parsePayloadChunk_encode c hc (lt_of_le_of_lt
    (length_le_encode (n := ptPayloadChunk) (by simp [transferFields])) hinner)
  have transfer : parsePayloadTransfer (encode (transferFields h c)) = .ok
      { packetType := .data, header := h, chunk := some c, control := none } := by
    simp only [parsePayloadTransfer, varintOr0_encode _ fits, bytesField_encode _ fits, header,
      chunk, control, packet, hheader, hchunk, bind, Except.bind, pure, Except.pure,
      Option.getD_some, Functor.map, Except.map]
    rfl
  unfold parse
  rw [hbytes]
  simp only [bind, Except.bind]
  rw [hv1]
  simp [tPayloadTransfer, tConnectionRequest, tConnectionResponse, transfer, pure, Except.pure]

end Frames

namespace Upgrade

open Frames

/-- A value of the source's `i32`. -/
def IsI32 (x : Int) : Prop :=
  -2 ^ 31 ≤ x ∧ x < 2 ^ 31

structure WifiCredentials.Fits (c : WifiCredentials) : Prop where
  port : IsI32 c.port
  frequency : IsI32 c.frequency

def LanSocket.Fits (l : LanSocket) : Prop :=
  IsI32 l.port

/-- What the source's types promise of an offer. -/
structure UpgradePath.Fits (path : UpgradePath) : Prop where
  wifi : ∀ c, path.wifi = some c → c.Fits
  lan : ∀ l, path.lan = some l → l.Fits
  length : (pathAvailable path).length < 2 ^ 64

theorem Medium.ofU64_toU64 (m : Medium) : Medium.ofU64 m.toU64 = m := by
  cases m <;> rfl

theorem Medium.toU64_lt (m : Medium) : m.toU64 < 2 ^ 64 := by
  cases m <;> decide

def wifiFields (c : WifiCredentials) (direct : Bool) : List Field :=
  if direct then
    [.bytes wdSsid (asBytes c.ssid), .bytes wdPassword (asBytes c.password),
      .varint wdPort (toU64 c.port), .varint wdFrequency (toU64 c.frequency),
      .bytes wdGateway (asBytes c.gateway)]
  else
    [.bytes hsSsid (asBytes c.ssid), .bytes hsPassword (asBytes c.password),
      .varint hsPort (toU64 c.port), .bytes hsGateway (asBytes c.gateway),
      .varint hsFrequency (toU64 c.frequency)]

theorem encodeWifi_eq_encode (c : WifiCredentials) (direct : Bool) :
    encodeWifi c direct = encode (wifiFields c direct) := by
  cases direct <;> simp [encodeWifi, wifiFields, Field.encode]

theorem parseWifi_encodeWifi (c : WifiCredentials) (direct : Bool) (hc : c.Fits)
    (hlen : (encodeWifi c direct).length < 2 ^ 64) :
    parseWifi (encodeWifi c direct) direct = .ok c := by
  rw [encodeWifi_eq_encode] at hlen ⊢
  have hport := toU64_lt c.port
  have hfreq := toU64_lt c.frequency
  have hfs : ∀ f ∈ wifiFields c direct, f.Fits := by
    apply fits_of_length ?_ hlen
    cases direct <;> simp [wifiFields, Field.Typed, wdSsid, wdPassword, wdPort, wdFrequency,
      wdGateway, hsSsid, hsPassword, hsPort, hsGateway, hsFrequency] <;> omega
  unfold parseWifi
  rw [textOrEmpty_encode _ hfs, textOrEmpty_encode _ hfs, varintOr0_encode _ hfs,
    bytesField_encode _ hfs, varintField_encode _ hfs]
  have hp := toI32_toU64 hc.port.1 hc.port.2
  have hf := toI32_toU64 hc.frequency.1 hc.frequency.2
  cases direct
  · simp [bind, Except.bind, pure, Except.pure, wifiFields, hsSsid,
      hsPassword, hsPort, hsGateway, hsFrequency, fromUtf8Lossy_asBytes, hp, hf]
  · simp [bind, Except.bind, pure, Except.pure, wifiFields, wdSsid,
      wdPassword, wdPort, wdGateway, wdFrequency, fromUtf8Lossy_asBytes, hp, hf]

theorem parseLan_encodeLan (l : LanSocket) (hl : l.Fits) (hlen : (encodeLan l).length < 2 ^ 64) :
    parseLan (encodeLan l) = .ok l := by
  have heq : encodeLan l = encode [.bytes lanIp l.ip, .varint lanPort (toU64 l.port)] := by
    simp [encodeLan, Field.encode]
  rw [heq] at hlen ⊢
  have hport := toU64_lt l.port
  have hfs := fits_of_length (by simpa [Field.Typed, lanIp, lanPort] using hport) hlen
  unfold parseLan
  rw [bytesOrEmpty_encode _ hfs, varintOr0_encode _ hfs]
  have hp := toI32_toU64 hl.1 hl.2
  simp [bind, Except.bind, pure, Except.pure, lanIp, lanPort, hp]

def pathFields (path : UpgradePath) : List Field :=
  let direct := decide (path.medium = .wifiDirect)
  [Field.varint upMedium path.medium.toU64] ++
    (match path.wifi with
      | some c =>
          [Field.bytes (if direct then upWifiDirect else upWifiHotspot) (encodeWifi c direct)]
      | none => []) ++
    (match path.lan with
      | some l => [Field.bytes upWifiLan (encodeLan l)]
      | none => []) ++
    [Field.varint upSupportsDisablingEncryption path.supportsDisablingEncryption.toNat,
      .varint upSupportsIntroductionAck path.supportsIntroductionAck.toNat]

theorem pathInfo_eq_encode (path : UpgradePath) : pathInfo path = encode (pathFields path) := by
  unfold pathInfo pathFields
  cases path.wifi <;> cases path.lan <;> simp [Field.encode]

theorem pathFields_typed (path : UpgradePath) : ∀ f ∈ pathFields path, f.Typed := by
  have hmedium := path.medium.toU64_lt
  have hack : path.supportsIntroductionAck.toNat < 2 ^ 64 := by
    cases path.supportsIntroductionAck <;> decide
  have hdis : path.supportsDisablingEncryption.toNat < 2 ^ 64 := by
    cases path.supportsDisablingEncryption <;> decide
  intro f hf
  unfold pathFields at hf
  simp only [List.mem_append, List.mem_cons, List.not_mem_nil, or_false] at hf
  rcases hf with ((rfl | hf) | hf) | rfl | rfl
  · exact ⟨by decide, hmedium⟩
  · split at hf
    · rw [List.mem_singleton.mp hf]
      simp only [Field.Typed]
      split <;> decide
    · cases hf
  · split at hf
    · rw [List.mem_singleton.mp hf]
      exact (by decide : upWifiLan < 2 ^ 32)
    · cases hf
  · exact ⟨by decide, hdis⟩
  · exact ⟨by decide, hack⟩

/-- The numbers of an offer, as they are read back. -/
theorem lastVarint_pathFields (path : UpgradePath) :
    lastVarint upMedium (pathFields path) = some path.medium.toU64 ∧
      lastVarint upSupportsIntroductionAck (pathFields path) =
        some path.supportsIntroductionAck.toNat ∧
      lastVarint upSupportsDisablingEncryption (pathFields path) =
        some path.supportsDisablingEncryption.toNat := by
  obtain ⟨medium, wifi, lan, ack, disabling⟩ := path
  cases wifi <;> cases lan <;>
    simp [pathFields, upMedium, upSupportsDisablingEncryption, upSupportsIntroductionAck]

theorem lastBytes_lan (path : UpgradePath) :
    lastBytes upWifiLan (pathFields path) = path.lan.map encodeLan := by
  obtain ⟨medium, wifi, lan, ack, disabling⟩ := path
  by_cases hdirect : medium = .wifiDirect
  · cases wifi <;> cases lan <;> simp [pathFields, hdirect, upWifiLan, upWifiDirect]
  · cases wifi <;> cases lan <;> simp [pathFields, hdirect, upWifiLan, upWifiHotspot]

/-- The credentials stand under one number or the other, as the medium has it. -/
theorem lastBytes_wifi (path : UpgradePath) :
    lastBytes upWifiDirect (pathFields path) =
        (if path.medium = .wifiDirect then path.wifi.map (encodeWifi · true) else none) ∧
      lastBytes upWifiHotspot (pathFields path) =
        (if path.medium = .wifiDirect then none else path.wifi.map (encodeWifi · false)) := by
  obtain ⟨medium, wifi, lan, ack, disabling⟩ := path
  by_cases hdirect : medium = .wifiDirect
  · cases wifi <;> cases lan <;>
      simp [pathFields, hdirect, upWifiLan, upWifiDirect, upWifiHotspot]
  · cases wifi <;> cases lan <;>
      simp [pathFields, hdirect, upWifiLan, upWifiDirect, upWifiHotspot]

theorem decide_toNat_ne_zero (b : Bool) : decide (b.toNat ≠ 0) = b := by
  cases b <;> rfl

theorem parsePath_pathInfo (path : UpgradePath) (hwifi : ∀ c, path.wifi = some c → c.Fits)
    (hlan : ∀ l, path.lan = some l → l.Fits) (hlen : (pathInfo path).length < 2 ^ 64) :
    parsePath (pathInfo path) = .ok path := by
  rw [pathInfo_eq_encode] at hlen ⊢
  have hfs := fits_of_length (pathFields_typed path) hlen
  have hbelow : ∀ {n v}, .bytes n v ∈ pathFields path → v.length < 2 ^ 64 :=
    fun h => lt_of_le_of_lt (length_le_encode h) hlen
  obtain ⟨hmedium, hack, hdisabling⟩ := lastVarint_pathFields path
  obtain ⟨hunder, helse⟩ := lastBytes_wifi path
  have hparseWifi : ∀ c, path.wifi = some c →
      parseWifi (encodeWifi c (decide (path.medium = .wifiDirect)))
        (decide (path.medium = .wifiDirect)) = .ok c := by
    intro c hc
    refine parseWifi_encodeWifi c _ (hwifi c hc) (hbelow
      (n := if decide (path.medium = .wifiDirect) then upWifiDirect else upWifiHotspot) ?_)
    simp [pathFields, hc]
  have hparseLan : ∀ l, path.lan = some l → parseLan (encodeLan l) = .ok l := by
    intro l hl
    refine parseLan_encodeLan l (hlan l hl) (hbelow (n := upWifiLan) ?_)
    simp [pathFields, hl]
  unfold parsePath
  rw [varintOr0_encode _ hfs, bytesField_encode _ hfs, bytesField_encode _ hfs,
    bytesField_encode _ hfs, varintOr0_encode _ hfs, varintOr0_encode _ hfs, hmedium, hack,
    hdisabling, hunder, helse, lastBytes_lan path]
  simp only [bind, Except.bind, pure, Except.pure, Option.getD_some, Medium.ofU64_toU64,
    decide_toNat_ne_zero]
  clear hmedium hack hdisabling hunder helse hbelow hfs hlen
  obtain ⟨medium, wifi, lan, ack, disabling⟩ := path
  by_cases hdirect : medium = .wifiDirect
  · have hread : ∀ c, wifi = some c → parseWifi (encodeWifi c true) true = .ok c := by
      simpa [hdirect] using hparseWifi
    cases wifi <;> cases lan <;> simp_all [Functor.map, Except.map]
  · have hread : ∀ c, wifi = some c → parseWifi (encodeWifi c false) false = .ok c := by
      simpa [hdirect] using hparseWifi
    cases wifi <;> cases lan <;> simp_all [Functor.map, Except.map]

/-- What a peer makes of a frame of the negotiation: the offline frame around it is
taken off and its body parsed. -/
def read (b : Bytes) : Option Frame :=
  match Frames.parse b with
  | .ok (.bandwidthUpgrade body) => (parse body).toOption
  | _ => none

/-- Reading a frame that was built around the fields `fs`. -/
theorem read_bandwidthUpgrade {fs : List Field}
    (hlen : (bandwidthUpgrade (encode fs)).length < 2 ^ 64) :
    read (bandwidthUpgrade (encode fs)) = (parse (encode fs)).toOption := by
  rw [read, parse_bandwidthUpgrade hlen]

theorem length_le_bandwidthUpgrade (body : Bytes) :
    body.length ≤ (bandwidthUpgrade body).length := by
  rw [bandwidthUpgrade, offline_eq_encode]
  have hinner : body.length ≤
      (encode (v1Fields tBandwidthUpgrade v1BandwidthUpgrade body)).length :=
    length_le_encode (n := v1BandwidthUpgrade) (by simp [v1Fields])
  have hmem : Field.bytes ofV1 (encode (v1Fields tBandwidthUpgrade v1BandwidthUpgrade body)) ∈
      [.varint ofVersion versionV1,
        .bytes ofV1 (encode (v1Fields tBandwidthUpgrade v1BandwidthUpgrade body))] := by
    simp
  have houter := length_le_encode hmem
  omega

/-- The body of a negotiation frame that carries one message. -/
def eventBody (event field : Nat) (message : Bytes) : Bytes :=
  encode [.varint bwEventType event, .bytes field message]

/-- What there is to read in such a frame. -/
theorem read_event {event field : Nat} {message : Bytes} (he : event < 2 ^ 64)
    (hfield : field < 2 ^ 32)
    (hlen : (bandwidthUpgrade (eventBody event field message)).length < 2 ^ 64) :
    read (bandwidthUpgrade (eventBody event field message)) =
        (parse (eventBody event field message)).toOption ∧
      varintField (eventBody event field message) bwEventType = .ok (some event) ∧
      bytesField (eventBody event field message) field = .ok (some message) ∧
      message.length < 2 ^ 64 := by
  have hbody := lt_of_le_of_lt (length_le_bandwidthUpgrade _) hlen
  have hfs := fits_of_length (by simpa [Field.Typed, bwEventType] using ⟨he, hfield⟩) hbody
  refine ⟨read_bandwidthUpgrade hlen, ?_, ?_, ?_⟩
  · exact varintField_encode _ hfs _
  · rw [eventBody, bytesField_encode _ hfs]
    simp
  · exact lt_of_le_of_lt (length_le_encode (n := field) (by simp)) hbody

theorem read_pathAvailable {path : UpgradePath} (h : path.Fits) :
    read (pathAvailable path) = some (.pathAvailable path) := by
  have heq : pathAvailable path =
      bandwidthUpgrade (eventBody eUpgradePathAvailable bwUpgradePathInfo (pathInfo path)) := by
    simp [pathAvailable, eventBody, Field.encode]
  have hlen := h.length
  rw [heq] at hlen ⊢
  obtain ⟨hread, hevent, hbytes, hinfo⟩ := read_event (by decide) (by decide) hlen
  have hpath := parsePath_pathInfo path h.wifi h.lan hinfo
  rw [hread, parse, hevent]
  simp [bind, Except.bind, pure, Except.pure, hbytes, hpath, Except.toOption]

theorem read_clientIntroduction {id : Text} (hlen : (clientIntroduction id).length < 2 ^ 64) :
    read (clientIntroduction id) = some (.clientIntroduction id) := by
  have heq : clientIntroduction id = bandwidthUpgrade (eventBody eClientIntroduction
      bwClientIntroduction (encode
        [.bytes ciEndpointId (asBytes id), .varint ciSupportsDisablingEncryption 0])) := by
    simp [clientIntroduction, eventBody, Field.encode]
  rw [heq] at hlen ⊢
  obtain ⟨hread, hevent, hbytes, hinner⟩ := read_event (by decide) (by decide) hlen
  have hfs := fits_of_length (by simp [Field.Typed, ciEndpointId,
    ciSupportsDisablingEncryption]) hinner
  have htext := textOrEmpty_encode _ hfs ciEndpointId
  simp only [show lastBytes ciEndpointId [.bytes ciEndpointId (asBytes id),
    .varint ciSupportsDisablingEncryption 0] = some (asBytes id) from rfl, Option.map_some,
    Option.getD_some, fromUtf8Lossy_asBytes] at htext
  rw [hread]
  generalize eventBody eClientIntroduction bwClientIntroduction _ = body at hevent hbytes
  rw [parse, hevent]
  simp [-encode_cons, bind, Except.bind, pure, Except.pure, eClientIntroduction,
    eUpgradePathAvailable, bytesOrEmpty, hbytes, htext, Except.toOption]

theorem read_safeToClosePrior (sta : Int) :
    read (safeToClosePrior sta) = some (.safeToClosePrior (toI32 (toU64 sta))) := by
  have heq : safeToClosePrior sta = bandwidthUpgrade (eventBody eSafeToClosePrior bwSafeToClose
      (encode [.varint scStaFrequency (toU64 sta)])) := by
    simp [safeToClosePrior, eventBody, Field.encode]
  have hlen : (safeToClosePrior sta).length < 2 ^ 64 := by
    have hmessage : (Protobuf.varint scStaFrequency (toU64 sta)).length ≤ 20 :=
      varint_length_le _ _
    have hbody := bytes_length_le bwSafeToClose (Protobuf.varint scStaFrequency (toU64 sta))
    have hevent := varint_length_le bwEventType eSafeToClosePrior
    have hframe := offline_length_le tBandwidthUpgrade v1BandwidthUpgrade
      (Protobuf.varint bwEventType eSafeToClosePrior ++
        Protobuf.bytes bwSafeToClose (Protobuf.varint scStaFrequency (toU64 sta)))
    rw [List.length_append] at hframe
    rw [safeToClosePrior, bandwidthUpgrade]
    omega
  rw [heq] at hlen ⊢
  obtain ⟨hread, hevent, hbytes, hinner⟩ := read_event (by decide) (by decide) hlen
  have hfs := fits_of_length (by simpa [Field.Typed, scStaFrequency] using toU64_lt sta) hinner
  have hvalue := varintOr0_encode _ hfs scStaFrequency
  rw [show lastVarint scStaFrequency [.varint scStaFrequency (toU64 sta)] = some (toU64 sta)
    from rfl, Option.getD_some] at hvalue
  rw [hread]
  generalize eventBody eSafeToClosePrior bwSafeToClose _ = body at hevent hbytes
  rw [parse, hevent]
  simp [-encode_cons, bind, Except.bind, pure, Except.pure, eSafeToClosePrior, eClientIntroduction,
    eUpgradePathAvailable, eClientIntroductionAck, eLastWriteToPrior, bytesOrEmpty, hbytes,
    hvalue, Except.toOption]

theorem read_clientIntroductionAck :
    read clientIntroductionAck = some .clientIntroductionAck := by
  decide +kernel

theorem read_lastWriteToPrior : read lastWriteToPrior = some .lastWriteToPrior := by
  decide +kernel

theorem read_failure : read failure = some .failure := by
  decide +kernel

theorem lastWriteToPrior_length : lastWriteToPrior.length < 2 ^ 64 := by
  decide

/-- Frames of another type are no LAST_WRITE. -/
theorem offline_ne_lastWriteToPrior {frameType field : Nat} {body : Bytes}
    (ht : frameType < 2 ^ 64) (hfield : field < 2 ^ 32) (hne : frameType ≠ tBandwidthUpgrade) :
    offline frameType field body ≠ lastWriteToPrior := by
  intro h
  exact hne (offline_inj ht (by decide) hfield (by decide) lastWriteToPrior_length h).1

theorem bandwidthUpgrade_ne_lastWriteToPrior {body : Bytes}
    (hne : body ≠ Protobuf.varint bwEventType eLastWriteToPrior) :
    bandwidthUpgrade body ≠ lastWriteToPrior := by
  intro h
  exact hne (offline_inj (by decide) (by decide) (by decide) (by decide)
    lastWriteToPrior_length h).2

end Upgrade

end Protocol
