import TarishDaemon.Quickshare.Moving
import TarishDaemon.Rust.Net
import TarishDaemon.Rust.Radix

/-!
# Where an upgrade leads

An offer carries the credentials of a network, with the address of a gateway as text,
or an address on the LAN as octets.  `acquire` connects to the latter, once
`is_plausible_peer` holds of it; with the former it asks a client to join the network
and to connect, and looks at the port only.

`isPlausiblePeer_iff` is the filter: private addresses, also where they come as mapped
ones, and no others.  `acquire_aims_iff` says when everything an offer leads to has
passed it.
-/

namespace Quickshare

open Rust Protocol
open Protocol.Upgrade (Medium UpgradePath)

/-- Could this plausibly be a peer on a network we are attached to?  The IPv4 half. -/
def isPlausiblePeerV4 (a : Octets 4) : Bool :=
  if Ipv4Addr.isLoopback a || Ipv4Addr.isUnspecified a || Ipv4Addr.isMulticast a ||
      Ipv4Addr.isBroadcast a || Ipv4Addr.isLinkLocal a || Ipv4Addr.isDocumentation a then false
  else Ipv4Addr.isPrivate a

def isPlausiblePeer : IpAddr → Bool
  | .v4 a => isPlausiblePeerV4 a
  | .v6 a =>
      if Ipv6Addr.isLoopback a || Ipv6Addr.isUnspecified a || Ipv6Addr.isMulticast a then false
      else if a.get 0 == 0xfe && (a.get 1 &&& 0xc0) == 0x80 then false
      else
        match Ipv6Addr.toIpv4Mapped a with
        -- the mapped address is checked as what it stands for
        | some m => isPlausiblePeerV4 m
        | none => (a.get 0 &&& 0xfe) == 0xfc

/-! ## The filter -/

theorem isPlausiblePeerV4_iff (a : Octets 4) :
    isPlausiblePeerV4 a = true ↔ (IpAddr.v4 a).scope = .privateUse := by
  simp only [isPlausiblePeerV4, IpAddr.scope, Ipv4Addr.isLoopback, Ipv4Addr.isUnspecified,
    Ipv4Addr.isMulticast, Ipv4Addr.isBroadcast, Ipv4Addr.isLinkLocal, Ipv4Addr.isDocumentation,
    Ipv4Addr.isPrivate]
  by_cases hzero : a.bytes = [0, 0, 0, 0]
  · simp [hzero]
  by_cases hones : a.bytes = [255, 255, 255, 255]
  · simp [hones]
  simp only [hzero, hones, if_false, Bool.or_eq_true, Bool.and_eq_true, beq_iff_eq,
    decide_eq_true_eq, or_false]
  split_ifs <;> simp <;> omega

theorem and_fe_eq_fc : ∀ n < 256, n &&& 0xfe = 0xfc ↔ 0xfc ≤ n ∧ n < 0xfe := by
  decide +kernel

theorem and_c0_eq_80 : ∀ n < 256, n &&& 0xc0 = 0x80 ↔ 0x80 ≤ n ∧ n < 0xc0 := by
  decide +kernel

/-- A mapped address is none of those that the IPv6 branch refuses. -/
theorem isPlausiblePeer_mapped {a : Octets 16} {m : Octets 4}
    (h : Ipv6Addr.toIpv4Mapped a = some m) :
    isPlausiblePeer (.v6 a) = isPlausiblePeerV4 m := by
  have hprefix : a.bytes.take 12 = Ipv6Addr.mappedPrefix := by
    unfold Ipv6Addr.toIpv4Mapped at h
    split at h
    next hprefix => exact hprefix
    next => cases h
  have first : a.get 0 = 0 := Ipv6Addr.get_of_mapped hprefix (by decide)
  have marked : a.get 10 = 255 := Ipv6Addr.get_of_mapped hprefix (by decide)
  have notLoopback : a.bytes ≠ List.replicate 15 0 ++ [1] := by
    intro hbytes
    rw [Octets.get_of_bytes hbytes] at marked
    cases marked
  have notUnspecified : a.bytes ≠ List.replicate 16 0 := by
    intro hbytes
    rw [Octets.get_of_bytes hbytes] at marked
    cases marked
  simp only [isPlausiblePeer, Ipv6Addr.isLoopback, Ipv6Addr.isUnspecified, Ipv6Addr.isMulticast,
    first, h, beq_eq_false_iff_ne.mpr notLoopback, beq_eq_false_iff_ne.mpr notUnspecified]
  rfl

theorem isPlausiblePeer_unmapped {a : Octets 16} (h : Ipv6Addr.toIpv4Mapped a = none) :
    isPlausiblePeer (.v6 a) = true ↔ (IpAddr.v6 a).scope = .privateUse := by
  simp only [isPlausiblePeer, IpAddr.scope, h, Ipv6Addr.isLoopback, Ipv6Addr.isUnspecified,
    Ipv6Addr.isMulticast]
  by_cases hzero : a.bytes = List.replicate 16 0
  · simp [hzero]
  by_cases hloop : a.bytes = List.replicate 15 0 ++ [1]
  · simp [hloop]
  have hfc := and_fe_eq_fc (a.get 0) (a.get_lt 0)
  have hfe := and_c0_eq_80 (a.get 1) (a.get_lt 1)
  simp only [hzero, hloop, if_false, Bool.or_eq_true, Bool.and_eq_true, beq_iff_eq, hfe, false_or]
  split_ifs <;> simp <;> omega

/-- **The filter.**  What passes is an address for private use, or a mapped one. -/
theorem isPlausiblePeer_iff (ip : IpAddr) :
    isPlausiblePeer ip = true ↔ ip.canonical.scope = .privateUse := by
  cases ip with
  | v4 a => exact isPlausiblePeerV4_iff a
  | v6 a =>
      cases hmapped : Ipv6Addr.toIpv4Mapped a with
      | none =>
          simp only [IpAddr.canonical, hmapped]
          exact isPlausiblePeer_unmapped hmapped
      | some m =>
          simp only [IpAddr.canonical, hmapped, isPlausiblePeer_mapped hmapped]
          exact isPlausiblePeerV4_iff m

/-! ## The offer -/

/-- A network a peer has stood up for us, and where to reach it once we are on it. -/
structure WifiJoin where
  medium : Medium
  ssid : Text
  passphrase : Text
  /-- Empty where the peer named no address. -/
  gateway : Text
  port : Nat
  frequency : Int
  deriving DecidableEq, Repr

/-- What `acquire` asks for. -/
inductive Outgoing
  | joinWifi (req : WifiJoin)
  | connect (ip : IpAddr) (port : Nat)
  deriving DecidableEq, Repr

/-- Whether the client hands back a socket, and whether a connection comes about. -/
structure Network where
  joins : WifiJoin → Bool
  connects : IpAddr → Nat → Bool

/-- `u16::try_from`. -/
def toPort (port : Int) : Option Nat :=
  if 0 ≤ port ∧ port ≤ 65535 then some port.toNat else none

def toIp (ip : Bytes) : Option IpAddr :=
  match Octets.tryFrom 4 ip, Octets.tryFrom 16 ip with
  | some a, _ => some (.v4 a)
  | none, some a => some (.v6 a)
  | none, none => none

/-- The schema's default, which is not an address to connect to. -/
def unspecifiedGateway : Text := ['0', '.', '0', '.', '0', '.', '0']

/-- What `acquire` comes to, and what it asked for. -/
def acquire (net : Network) (path : UpgradePath) : Acquired × Option Outgoing :=
  match path.wifi with
  | some w =>
      match toPort w.port with
      | none => (.declined, none)
      | some port =>
          let gateway := if w.gateway = unspecifiedGateway then [] else w.gateway
          let req : WifiJoin :=
            { medium := path.medium
              ssid := w.ssid
              passphrase := w.password
              gateway := gateway
              port := port
              frequency := w.frequency }
          (if net.joins req then .connected else .declined, some (.joinWifi req))
  | none =>
      match path.lan with
      | none => (.declined, none)
      | some lan =>
          match toIp lan.ip, toPort lan.port with
          | some ip, some port =>
              if !isPlausiblePeer ip then (.declined, none)
              else (if net.connects ip port then .connected else .failed, some (.connect ip port))
          | _, _ => (.declined, none)

/-- The address a request is for.  `reads` is what the client makes of a gateway; where there
is none it takes the network's own. -/
def Outgoing.aim (reads : Text → Option IpAddr) : Outgoing → Option IpAddr
  | .joinWifi req => if req.gateway = [] then none else reads req.gateway
  | .connect ip _ => some ip

/-- The gateway that an offer names, where the client is to be asked. -/
def namedGateway (path : UpgradePath) : Option Text :=
  match path.wifi with
  | none => none
  | some w =>
      if (0 ≤ w.port ∧ w.port ≤ 65535) ∧ w.gateway ≠ unspecifiedGateway ∧ w.gateway ≠ [] then
        some w.gateway
      else none

section Aim

variable {net : Network} {path : UpgradePath} {reads : Text → Option IpAddr} {out : Outgoing}
  {ip : IpAddr} {gateway : Text}

/-- A named gateway is asked for as it was named. -/
theorem acquire_named (h : namedGateway path = some gateway) :
    ∃ req : WifiJoin, (acquire net path).2 = some (.joinWifi req) ∧ req.gateway = gateway ∧
      gateway ≠ [] := by
  unfold namedGateway at h
  split at h
  next => cases h
  next w hwifi =>
    split at h
    next hnamed =>
      obtain ⟨hport, hgateway, hne⟩ := hnamed
      cases h
      simp only [acquire, hwifi, toPort, if_pos hport, if_neg hgateway]
      exact ⟨_, rfl, rfl, hne⟩
    next => cases h

/-- What an offer leads to is the gateway it names, or it has passed the filter. -/
theorem acquire_aim (asked : (acquire net path).2 = some out) (aimed : out.aim reads = some ip) :
    (∃ gateway, namedGateway path = some gateway ∧ reads gateway = some ip) ∨
      isPlausiblePeer ip = true := by
  unfold acquire at asked
  split at asked
  next w hwifi =>
    left
    split at asked
    next => cases asked
    next port hport =>
      cases asked
      have hrange : 0 ≤ w.port ∧ w.port ≤ 65535 := by
        unfold toPort at hport
        split at hport
        next hrange => exact hrange
        next => cases hport
      by_cases hgateway : w.gateway = unspecifiedGateway
      · simp [Outgoing.aim, hgateway] at aimed
      · by_cases hempty : w.gateway = []
        · simp [Outgoing.aim, hempty] at aimed
        · refine ⟨w.gateway, ?_, ?_⟩
          · simp only [namedGateway, hwifi]
            rw [if_pos ⟨hrange, hgateway, hempty⟩]
          · simpa [Outgoing.aim, hgateway, hempty] using aimed
  next hwifi =>
    right
    split at asked
    next => cases asked
    next lan hlan =>
      split at asked
      next addr port hip hport =>
        split at asked
        next => cases asked
        next hplausible =>
          cases asked
          cases aimed
          simpa using hplausible
      next => cases asked

/-- **Where the daemon can be aimed.**  Whatever the client makes of a gateway, everything an
offer leads to has passed the filter if and only if the gateway it names would; and what
passes is for private use. -/
theorem acquire_aims_iff (reads : Text → Option IpAddr) (net : Network) (path : UpgradePath) :
    ((∀ out ip, (acquire net path).2 = some out → out.aim reads = some ip →
        isPlausiblePeer ip = true) ↔
      ∀ gateway ip, namedGateway path = some gateway → reads gateway = some ip →
        isPlausiblePeer ip = true) ∧
      ∀ ip, isPlausiblePeer ip = true ↔ ip.canonical.scope = .privateUse := by
  refine ⟨?_, isPlausiblePeer_iff⟩
  constructor
  · intro filtered gateway ip hnamed hreads
    obtain ⟨req, hasked, hgateway, hne⟩ := @acquire_named net path gateway hnamed
    apply filtered (.joinWifi req) ip hasked
    simp only [Outgoing.aim, hgateway, if_neg hne]
    exact hreads
  · intro gateways out ip hasked haimed
    rcases acquire_aim hasked haimed with ⟨gateway, hnamed, hreads⟩ | passed
    · exact gateways gateway ip hnamed hreads
    · exact passed

/-- Four decimal numbers with dots between them. -/
def dottedQuad (t : Text) : Option IpAddr := do
  let numbers ← (t.splitOn '.').mapM (fromStrRadix 10 256)
  (Octets.tryFrom 4 (numbers.map UInt8.ofNat)).map .v4

/-- A hotspot whose gateway is this very device. -/
def loopbackOffer : UpgradePath :=
  { medium := .wifiHotspot
    wifi := some { ssid := ['a'], password := ['b'], port := 22, frequency := 0
                   gateway := ['1', '2', '7', '.', '0', '.', '0', '.', '1'] }
    lan := none, supportsIntroductionAck := true, supportsDisablingEncryption := false }

/-- The client is asked to connect to the gateway it was offered. -/
theorem not_filtered_loopbackOffer :
    ¬ ∀ (reads : Text → Option IpAddr) (net : Network) (path : UpgradePath) out ip,
      (acquire net path).2 = some out → out.aim reads = some ip → isPlausiblePeer ip = true := by
  intro claim
  have passed := claim dottedQuad ⟨fun _ => true, fun _ _ => true⟩ loopbackOffer
    (.joinWifi { medium := .wifiHotspot, ssid := ['a'], passphrase := ['b'], port := 22
                 frequency := 0, gateway := ['1', '2', '7', '.', '0', '.', '0', '.', '1'] })
    (.v4 ⟨[127, 0, 0, 1], rfl⟩) rfl (by decide +kernel)
  exact absurd passed (by decide)

end Aim

end Quickshare
