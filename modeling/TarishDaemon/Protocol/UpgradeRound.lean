import TarishDaemon.Protocol.FramesRound

/-!
# Every frame of the negotiation there and back

The builders of the bandwidth upgrade, each as one case of `Built` with what it is given,
and the frame that the peer is to make of it once the envelope is off.

**Every frame is read as what it was built as** (`parse_upgradeBody`): an offer with its
credentials under either number, a request as its mediums in ascending order.
-/

namespace Protocol

open Rust Protobuf

namespace Frames

/-- The inner bytes of a bandwidth-upgrade frame, or `none` if it is not one. -/
def upgradeBody (b : Bytes) : Option Bytes :=
  match parse b with
  | .ok (.bandwidthUpgrade body) => some body
  | .ok _ | .error _ => none

end Frames

namespace Upgrade

open Frames

/-- A frame to build, with what its builder is given. -/
inductive Built
  | pathRequest (mediums : List Medium)
  | pathAvailable (path : UpgradePath)
  | clientIntroduction (endpointId : Text)
  | clientIntroductionAck
  | lastWriteToPrior
  | safeToClosePrior (staFrequency : Int)
  | failure
  deriving DecidableEq, Repr

namespace Built

def build : Built → Bytes
  | pathRequest mediums => Upgrade.pathRequest mediums
  | pathAvailable path => Upgrade.pathAvailable path
  | clientIntroduction endpointId => Upgrade.clientIntroduction endpointId
  | clientIntroductionAck => Upgrade.clientIntroductionAck
  | lastWriteToPrior => Upgrade.lastWriteToPrior
  | safeToClosePrior staFrequency => Upgrade.safeToClosePrior staFrequency
  | failure => Upgrade.failure

/-- The frame that arrives. -/
def frame : Built → Frame
  | pathRequest mediums =>
      .pathRequest ((mediums.insertionSort fun a b => a.toU64 ≤ b.toU64).filter (· ≠ .unknown))
  | pathAvailable path => .pathAvailable path
  | clientIntroduction endpointId => .clientIntroduction endpointId
  | clientIntroductionAck => .clientIntroductionAck
  | lastWriteToPrior => .lastWriteToPrior
  | safeToClosePrior staFrequency => .safeToClosePrior staFrequency
  | failure => .failure

/-- What the source's types promise of the values: ports and frequencies are `i32`s. -/
def Typed : Built → Prop
  | pathAvailable path => (∀ c, path.wifi = some c → c.Fits) ∧ ∀ l, path.lan = some l → l.Fits
  | safeToClosePrior staFrequency => IsI32 staFrequency
  | pathRequest _ | clientIntroduction _ | clientIntroductionAck | lastWriteToPrior
  | failure => True

end Built

/-! ## The mediums of a request -/

/-- One medium is one byte, and one turn of the outer loop. -/
theorem parsePackedLoop_medium (m : Medium) (rest : Bytes) (out : List Medium) :
    parsePackedLoop (putVarint m.toU64 ++ rest) 0 0 out =
      parsePackedLoop rest 0 0 (out ++ [m].filter (· ≠ .unknown)) := by
  have hbyte : putVarint m.toU64 = [UInt8.ofNat m.toU64] := by cases m <;> rfl
  rw [hbyte, List.singleton_append]
  cases m with
  | unknown =>
      have hkept : out ++ [Medium.unknown].filter (· ≠ .unknown) = out := List.append_nil out
      rw [hkept]
      rfl
  | bluetooth | wifiHotspot | ble | wifiLan | wifiAware | wifiDirect | awdl => rfl

theorem parsePackedLoop_mediums (mediums : List Medium) (out : List Medium) :
    parsePackedLoop (mediums.flatMap fun m => putVarint m.toU64) 0 0 out =
      out ++ mediums.filter (· ≠ .unknown) := by
  induction mediums generalizing out with
  | nil => exact (List.append_nil out).symm
  | cons m mediums ih =>
      rw [List.flatMap_cons, parsePackedLoop_medium, ih, List.append_assoc,
        ← List.filter_append, List.singleton_append]

theorem parsePackedMediums_flatMap (mediums : List Medium) :
    parsePackedMediums (mediums.flatMap fun m => putVarint m.toU64) =
      mediums.filter (· ≠ .unknown) :=
  parsePackedLoop_mediums mediums []

/-- The packed mediums, as they go out. -/
def packedMediums (mediums : List Medium) : Bytes :=
  (mediums.insertionSort fun a b => a.toU64 ≤ b.toU64).flatMap fun m => putVarint m.toU64

/-- The role and the authentication that go with Wi-Fi Direct. -/
def requestMetadata (mediums : List Medium) : Bytes :=
  if .wifiDirect ∈ mediums then
    Protobuf.bytes mmMediumRole (Protobuf.varint mrWifiDirectGroupOwner 1 ++
        Protobuf.varint mrWifiDirectGroupClient 1) ++
      Protobuf.bytes mmSupportedWifiDirectAuth [UInt8.ofNat wifiDirectWithPassword]
  else []

def requestFields (mediums : List Medium) : List Field :=
  [.bytes uprMediums (packedMediums mediums),
    .bytes uprMediumMetadata (requestMetadata mediums)]

theorem pathRequest_eq (mediums : List Medium) :
    pathRequest mediums = bandwidthUpgrade (eventBody eUpgradePathRequest bwUpgradePathInfo
      (encode [.bytes upUpgradePathRequest (encode (requestFields mediums))])) := by
  simp [pathRequest, eventBody, requestFields, packedMediums, requestMetadata, Field.encode]

theorem read_pathRequest {mediums : List Medium}
    (hlen : (pathRequest mediums).length < 2 ^ 64) :
    read (pathRequest mediums) = some (Built.pathRequest mediums).frame := by
  rw [pathRequest_eq] at hlen ⊢
  obtain ⟨hread, hevent, hbytes, hinfo⟩ := read_event (by decide) (by decide) hlen
  have hinfoFits := fits_of_length (by simp [Field.Typed, upUpgradePathRequest]) hinfo
  have hreqLen : (encode (requestFields mediums)).length < 2 ^ 64 :=
    lt_of_le_of_lt (length_le_encode (n := upUpgradePathRequest) (by simp)) hinfo
  have hreqFits := fits_of_length
    (by simp [requestFields, Field.Typed, uprMediums, uprMediumMetadata]) hreqLen
  have hreq := bytesOrEmpty_encode _ hinfoFits upUpgradePathRequest
  rw [show lastBytes upUpgradePathRequest
    [.bytes upUpgradePathRequest (encode (requestFields mediums))] =
      some (encode (requestFields mediums)) from rfl, Option.getD_some] at hreq
  have hpacked := bytesOrEmpty_encode _ hreqFits uprMediums
  rw [show lastBytes uprMediums (requestFields mediums) = some (packedMediums mediums) from rfl,
    Option.getD_some] at hpacked
  have hmediums := parsePackedMediums_flatMap
    (mediums.insertionSort fun a b => a.toU64 ≤ b.toU64)
  rw [← packedMediums] at hmediums
  rw [hread]
  generalize encode (requestFields mediums) = req at hreq hpacked hbytes hevent
  generalize encode [.bytes upUpgradePathRequest req] = info at hreq hbytes hevent
  generalize eventBody eUpgradePathRequest bwUpgradePathInfo info = body at hbytes hevent
  have hinfoField : bytesOrEmpty body bwUpgradePathInfo = .ok info := by
    rw [bytesOrEmpty, hbytes]
    rfl
  rw [parse, hevent]
  simp [bind, Except.bind, pure, Except.pure, eUpgradePathRequest, eUpgradePathAvailable,
    eClientIntroduction, eClientIntroductionAck, eLastWriteToPrior, eSafeToClosePrior, hinfoField,
    hreq, hpacked, hmediums, Except.toOption, Built.frame]

/-! ## Every frame -/

/-- What is read of a frame stands in its body. -/
theorem upgradeBody_of_read {b : Bytes} {f : Frame} (h : read b = some f) :
    ∃ body, upgradeBody b = some body ∧ parse body = .ok f := by
  unfold read at h
  split at h
  · next body hbody =>
      refine ⟨body, by rw [upgradeBody, hbody], ?_⟩
      cases hparse : parse body with
      | ok g =>
          rw [hparse] at h
          exact congrArg Except.ok (Option.some.inj h)
      | error e =>
          rw [hparse] at h
          cases h
  · cases h

/-- **Every frame of the negotiation is read as what it was built as**, and so as no other.
`memory` is what a `Vec` of the source can hold. -/
theorem parse_upgradeBody (m : Built) (typed : m.Typed) (memory : m.build.length < 2 ^ 64) :
    ∃ body, upgradeBody m.build = some body ∧ parse body = .ok m.frame := by
  apply upgradeBody_of_read
  cases m with
  | pathRequest mediums => exact read_pathRequest memory
  | pathAvailable path =>
      exact read_pathAvailable { wifi := typed.1, lan := typed.2, length := memory }
  | clientIntroduction endpointId => exact read_clientIntroduction memory
  | clientIntroductionAck => exact read_clientIntroductionAck
  | lastWriteToPrior => exact read_lastWriteToPrior
  | safeToClosePrior staFrequency =>
      have hsta : toI32 (toU64 staFrequency) = staFrequency := toI32_toU64 typed.1 typed.2
      have hread := read_safeToClosePrior staFrequency
      rw [hsta] at hread
      exact hread
  | failure => exact read_failure

/-- An offer over Wi-Fi Direct, with a port and a frequency below zero. -/
def sampleOffer : UpgradePath where
  medium := .wifiDirect
  wifi := some
    { ssid := "DIRECT-Büro".toList
      password := "geheim".toList
      port := -1
      gateway := "192.168.49.1".toList
      frequency := -2 ^ 31 }
  lan := some { ip := [10, 0, 0, 1], port := 8080 }
  supportsIntroductionAck := true
  supportsDisablingEncryption := false

theorem sampleOffer_typed : (Built.pathAvailable sampleOffer).Typed := by
  constructor
  · intro c hc
    cases hc
    exact ⟨⟨by decide, by decide⟩, by decide, by decide⟩
  · intro l hl
    cases hl
    exact ⟨by decide, by decide⟩

theorem parse_upgradeBody_sampleOffer :
    ∃ body, upgradeBody (Built.pathAvailable sampleOffer).build = some body ∧
      parse body = .ok (.pathAvailable sampleOffer) :=
  parse_upgradeBody (.pathAvailable sampleOffer) sampleOffer_typed (by decide +kernel)

end Upgrade

end Protocol
