import Mathlib.Data.List.Sort
import TarishDaemon.Protocol.Frames

/-!
# Bandwidth-upgrade frames

The negotiation that moves a conversation onto a faster socket.  Both peers'
message loops dispatch on these frames; what the handover itself does to the
radio and the sockets is outside the daemon.
-/

namespace Protocol

open Rust Frames

namespace Upgrade

-- BandwidthUpgradeNegotiationFrame
def bwEventType : Nat := 1
def bwUpgradePathInfo : Nat := 2
def bwClientIntroduction : Nat := 3
def bwClientIntroductionAck : Nat := 4
def bwSafeToClose : Nat := 5

-- EventType
def eUpgradePathAvailable : Nat := 1
def eLastWriteToPrior : Nat := 2
def eSafeToClosePrior : Nat := 3
def eClientIntroduction : Nat := 4
def eUpgradeFailure : Nat := 5
def eClientIntroductionAck : Nat := 6
def eUpgradePathRequest : Nat := 7

-- UpgradePathInfo
def upMedium : Nat := 1
def upWifiHotspot : Nat := 2
def upWifiLan : Nat := 3
def upWifiDirect : Nat := 6
def upSupportsDisablingEncryption : Nat := 7
def upSupportsIntroductionAck : Nat := 9
def upUpgradePathRequest : Nat := 10

-- UpgradePathRequest
def uprMediums : Nat := 1
def uprMediumMetadata : Nat := 2

-- MediumMetadata and MediumRole
def mmMediumRole : Nat := 12
def mmSupportedWifiDirectAuth : Nat := 13
def mrWifiDirectGroupOwner : Nat := 1
def mrWifiDirectGroupClient : Nat := 2

def wifiDirectWithPassword : Nat := 1

-- WifiHotspotCredentials
def hsSsid : Nat := 1
def hsPassword : Nat := 2
def hsPort : Nat := 3
def hsGateway : Nat := 4
def hsFrequency : Nat := 5

-- WifiDirectCredentials
def wdSsid : Nat := 1
def wdPassword : Nat := 2
def wdPort : Nat := 3
def wdFrequency : Nat := 4
def wdGateway : Nat := 5

-- WifiLanSocket
def lanIp : Nat := 1
def lanPort : Nat := 2

-- ClientIntroduction
def ciEndpointId : Nat := 1
def ciSupportsDisablingEncryption : Nat := 2

def scStaFrequency : Nat := 1

/-- The schema's "no hint" for `SafeToClosePriorChannel.sta_frequency`. -/
def staFrequencyNotSet : Int := -1

inductive Medium
  | unknown
  | bluetooth
  | wifiHotspot
  | ble
  | wifiLan
  | wifiAware
  | wifiDirect
  | awdl
  deriving DecidableEq, Repr

def Medium.ofU64 : Nat → Medium
  | 2 => .bluetooth
  | 3 => .wifiHotspot
  | 4 => .ble
  | 5 => .wifiLan
  | 6 => .wifiAware
  | 8 => .wifiDirect
  | 13 => .awdl
  | _ => .unknown

def Medium.toU64 : Medium → Nat
  | .unknown => 0
  | .bluetooth => 2
  | .wifiHotspot => 3
  | .ble => 4
  | .wifiLan => 5
  | .wifiAware => 6
  | .wifiDirect => 8
  | .awdl => 13

structure WifiCredentials where
  ssid : Text
  password : Text
  port : Int
  gateway : Text
  frequency : Int
  deriving DecidableEq, Repr

structure LanSocket where
  ip : Bytes
  port : Int
  deriving DecidableEq, Repr

/-- The offer: which medium, and how to get onto it. -/
structure UpgradePath where
  medium : Medium
  wifi : Option WifiCredentials
  lan : Option LanSocket
  supportsIntroductionAck : Bool
  supportsDisablingEncryption : Bool
  deriving DecidableEq, Repr

inductive Frame
  | pathRequest (mediums : List Medium)
  | pathAvailable (path : UpgradePath)
  | clientIntroduction (endpointId : Text)
  | clientIntroductionAck
  | lastWriteToPrior
  | safeToClosePrior (staFrequency : Int)
  | failure
  | unknown (event : Nat)
  deriving DecidableEq, Repr

/-! ## Encoding -/

/-- Ask the peer for a faster medium.  The mediums go out packed, in ascending
order. -/
def pathRequest (mediums : List Medium) : Bytes :=
  let packed := (mediums.insertionSort fun a b => a.toU64 ≤ b.toU64).flatMap
    fun m => Protobuf.putVarint m.toU64
  let role := Protobuf.varint mrWifiDirectGroupOwner 1 ++
    Protobuf.varint mrWifiDirectGroupClient 1
  let metadata := if .wifiDirect ∈ mediums then
      Protobuf.bytes mmMediumRole role ++
        Protobuf.bytes mmSupportedWifiDirectAuth [UInt8.ofNat wifiDirectWithPassword]
    else []
  let req := Protobuf.bytes uprMediums packed ++ Protobuf.bytes uprMediumMetadata metadata
  bandwidthUpgrade (Protobuf.varint bwEventType eUpgradePathRequest ++
    Protobuf.bytes bwUpgradePathInfo (Protobuf.bytes upUpgradePathRequest req))

def encodeWifi (c : WifiCredentials) (direct : Bool) : Bytes :=
  if direct then
    Protobuf.bytes wdSsid (asBytes c.ssid) ++ Protobuf.bytes wdPassword (asBytes c.password) ++
      Protobuf.varint wdPort (toU64 c.port) ++ Protobuf.varint wdFrequency (toU64 c.frequency) ++
      Protobuf.bytes wdGateway (asBytes c.gateway)
  else
    Protobuf.bytes hsSsid (asBytes c.ssid) ++ Protobuf.bytes hsPassword (asBytes c.password) ++
      Protobuf.varint hsPort (toU64 c.port) ++ Protobuf.bytes hsGateway (asBytes c.gateway) ++
      Protobuf.varint hsFrequency (toU64 c.frequency)

def encodeLan (l : LanSocket) : Bytes :=
  Protobuf.bytes lanIp l.ip ++ Protobuf.varint lanPort (toU64 l.port)

/-- The `UpgradePathInfo` of an offer. -/
def pathInfo (path : UpgradePath) : Bytes :=
  let direct := decide (path.medium = .wifiDirect)
  Protobuf.varint upMedium path.medium.toU64 ++
    (match path.wifi with
      | some c => Protobuf.bytes (if direct then upWifiDirect else upWifiHotspot)
          (encodeWifi c direct)
      | none => []) ++
    (match path.lan with
      | some l => Protobuf.bytes upWifiLan (encodeLan l)
      | none => []) ++
    Protobuf.varint upSupportsDisablingEncryption path.supportsDisablingEncryption.toNat ++
    Protobuf.varint upSupportsIntroductionAck path.supportsIntroductionAck.toNat

def pathAvailable (path : UpgradePath) : Bytes :=
  bandwidthUpgrade (Protobuf.varint bwEventType eUpgradePathAvailable ++
    Protobuf.bytes bwUpgradePathInfo (pathInfo path))

def clientIntroduction (endpointId : Text) : Bytes :=
  bandwidthUpgrade (Protobuf.varint bwEventType eClientIntroduction ++
    Protobuf.bytes bwClientIntroduction (Protobuf.bytes ciEndpointId (asBytes endpointId) ++
      Protobuf.varint ciSupportsDisablingEncryption 0))

def clientIntroductionAck : Bytes :=
  bandwidthUpgrade (Protobuf.varint bwEventType eClientIntroductionAck ++
    Protobuf.bytes bwClientIntroductionAck [])

def lastWriteToPrior : Bytes :=
  bandwidthUpgrade (Protobuf.varint bwEventType eLastWriteToPrior)

def safeToClosePrior (staFrequency : Int) : Bytes :=
  bandwidthUpgrade (Protobuf.varint bwEventType eSafeToClosePrior ++
    Protobuf.bytes bwSafeToClose (Protobuf.varint scStaFrequency (toU64 staFrequency)))

def failure : Bytes :=
  bandwidthUpgrade (Protobuf.varint bwEventType eUpgradeFailure)

/-! ## Decoding -/

/-- The loops of `parse_packed_mediums`: `v` and `shift` are the varint being read.
It gives up, with what it has, on a varint that breaks off or runs too long. -/
def parsePackedLoop : Bytes → Nat → Nat → List Medium → List Medium
  | [], _, _, out => out
  | b :: rest, v, shift, out =>
      let v := v ||| ((b.toNat % 128) <<< shift) % 2 ^ 64
      if b.toNat < 128 then
        match Medium.ofU64 v with
        | .unknown => parsePackedLoop rest 0 0 out
        | m => parsePackedLoop rest 0 0 (out ++ [m])
      else if shift + 7 > 63 then out
      else parsePackedLoop rest v (shift + 7) out

def parsePackedMediums (packed : Bytes) : List Medium :=
  parsePackedLoop packed 0 0 []

def parseWifi (b : Bytes) (direct : Bool) : Except Error WifiCredentials := do
  let ssid ← textOrEmpty b (if direct then wdSsid else hsSsid)
  let password ← textOrEmpty b (if direct then wdPassword else hsPassword)
  let port ← varintOr0 b (if direct then wdPort else hsPort)
  let gateway ← bytesField b (if direct then wdGateway else hsGateway)
  -- read last, and an error in it reads as "not stated"
  let frequency := match varintField b (if direct then wdFrequency else hsFrequency) with
    | .ok (some v) => toI32 v
    | .ok none | .error _ => -1
  return {
    ssid := ssid
    password := password
    port := toI32 port
    gateway := (gateway.map fromUtf8Lossy).getD "0.0.0.0".toList
    frequency := frequency }

def parseLan (s : Bytes) : Except Error LanSocket := do
  let ip ← bytesOrEmpty s lanIp
  let port ← varintOr0 s lanPort
  return { ip := ip, port := toI32 port }

def parsePath (info : Bytes) : Except Error UpgradePath := do
  let medium ← varintOr0 info upMedium
  let wifi ← match ← bytesField info upWifiDirect with
    | some c => some <$> parseWifi c true
    | none => match ← bytesField info upWifiHotspot with
      | some c => some <$> parseWifi c false
      | none => pure none
  let lan ← match ← bytesField info upWifiLan with
    | some s => some <$> parseLan s
    | none => pure none
  let ack ← varintOr0 info upSupportsIntroductionAck
  let disabling ← varintOr0 info upSupportsDisablingEncryption
  return {
    medium := .ofU64 medium
    wifi := wifi
    lan := lan
    supportsIntroductionAck := decide (ack ≠ 0)
    supportsDisablingEncryption := decide (disabling ≠ 0) }

/-- The body of a negotiation frame.  The errors are those of the offline frame
around it: a protobuf error, or a field that has to be there and is not. -/
def parse (body : Bytes) : Except Error Frame := do
  let event ← match ← varintField body bwEventType with
    | some event => .ok event
    | none => .error (.malformed "no event type")
  if event = eUpgradePathAvailable then
    match ← bytesField body bwUpgradePathInfo with
    | some info => return .pathAvailable (← parsePath info)
    | none => .error (.malformed "no upgrade path info")
  else if event = eClientIntroduction then
    let ci ← bytesOrEmpty body bwClientIntroduction
    return .clientIntroduction (← textOrEmpty ci ciEndpointId)
  else if event = eClientIntroductionAck then return .clientIntroductionAck
  else if event = eLastWriteToPrior then return .lastWriteToPrior
  else if event = eSafeToClosePrior then
    let sc ← bytesOrEmpty body bwSafeToClose
    return .safeToClosePrior (toI32 (← varintOr0 sc scStaFrequency))
  else if event = eUpgradePathRequest then
    let info ← bytesOrEmpty body bwUpgradePathInfo
    let req ← bytesOrEmpty info upUpgradePathRequest
    return .pathRequest (parsePackedMediums (← bytesOrEmpty req uprMediums))
  else if event = eUpgradeFailure then return .failure
  else return .unknown event

end Upgrade

end Protocol
