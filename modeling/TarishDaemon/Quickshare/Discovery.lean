import TarishDaemon.Quickshare.Endpoint
import TarishDaemon.Sharingd.Said

/-!
# Discovery on the LAN

A browser folds the records of a packet into its table of peers, one by one; a responder
answers with the four records that a peer is found by.

A record changes the entry of an instance by what it tells and by nothing else
(`absorb_lookup`), so a table is as many entries, each with its own view of the packet.
-/

namespace Quickshare

open Rust Layout
open Sharingd Sharingd.Dns

abbrev Ipv4Addr := Octets 4

structure QsPeer where
  endpointId : Text
  inst : Text
  host : Text
  port : UInt16
  addr : Option Ipv4Addr
  name : Option Text
  lastSeen : Nat
  deriving DecidableEq, Repr

/-! ## Browsing -/

/-- The loop of `name_from_txt`.  Every entry takes a byte at least. -/
def nameFromTxtLoop : Nat → Bytes → Option Text
  | 0, _ => none
  | _ + 1, [] => none
  | fuel + 1, len :: rest =>
      if len.toNat > rest.length then none
      else
        let entry := rest.take len.toNat
        let later := rest.drop len.toNat
        match entry.findIdx? fun c => c == 61 with
        | none => nameFromTxtLoop fuel later
        | some eq =>
            if entry.take eq ≠ asBytes txtEndpointInfo then nameFromTxtLoop fuel later
            else do
              let raw ← base64AnyDecode (entry.drop (eq + 1))
              let info ← EndpointInfo.parse raw
              info.deviceName

def nameFromTxt (rdata : Bytes) : Option Text :=
  nameFromTxtLoop rdata.length rdata

def QsPeer.discovered (id : Octets endpointIdLen) (inst : Text) (now : Nat) : QsPeer where
  endpointId := fromUtf8Lossy id.bytes
  inst := inst
  host := []
  port := 0
  addr := none
  name := none
  lastSeen := now

namespace QsBrowser

section

variable (packet : Bytes) (now : Nat)

/-- What `absorb` does with one record. -/
def absorbRecord (peers : HashMap Text QsPeer) (r : Dns.Record) : HashMap Text QsPeer :=
  if r.rtype = typePtr ∧ r.name = serviceType then
    match readName packet r.rdataAt with
    | none => peers
    | some (inst, _) =>
        match endpointIdFromInstance inst with
        | none => peers
        | some id =>
            let p := (peers.lookup inst).getD (QsPeer.discovered id inst now)
            peers.insert inst { p with lastSeen := now }
  else if r.rtype = typeSrv ∧ r.rdata.length ≥ 6 then
    peers.modify r.name fun p =>
      { p with port := srvPort r.rdata, host := srvHost packet r, lastSeen := now }
  else if r.rtype = typeTxt then
    peers.modify r.name fun p =>
      { p with name := (nameFromTxt r.rdata).or p.name, lastSeen := now }
  else if r.rtype = typeA then
    match Octets.tryFrom 4 r.rdata with
    | none => peers
    | some a =>
        -- the host is named, not the instance
        peers.mapValues fun p =>
          if p.host ≠ [] ∧ p.host = r.name then { p with addr := some a, lastSeen := now } else p
  else peers

/-- The clock is read once for a packet. -/
def absorb (records : List Dns.Record) (peers : HashMap Text QsPeer) : HashMap Text QsPeer :=
  records.foldl (absorbRecord packet now) peers

/-- What `poll` does with a packet. -/
def receive (peers : HashMap Text QsPeer) : HashMap Text QsPeer :=
  match parse packet with
  | none => peers
  | some msg => absorb packet now msg.records peers

end

/-- What `expire` leaves. -/
def keeps (olderThan now : Nat) (p : QsPeer) : Bool :=
  now - p.lastSeen < olderThan

def expire (olderThan now : Nat) (peers : HashMap Text QsPeer) : HashMap Text QsPeer :=
  peers.retain (keeps olderThan now)

def peers (table : HashMap Text QsPeer) : List QsPeer :=
  table.entries.map fun e => e.2

/-! ### What a record tells -/

/-- What is taken from a record. -/
def told (packet : Bytes) (r : Dns.Record) : Option (Told Ipv4Addr) :=
  if r.rtype = typePtr ∧ r.name = serviceType then
    match readName packet r.rdataAt with
    | none => none
    | some (inst, _) => (endpointIdFromInstance inst).map fun _ => .found inst
  else if r.rtype = typeSrv ∧ r.rdata.length ≥ 6 then
    some (.served r.name (srvPort r.rdata) (srvHost packet r))
  else if r.rtype = typeTxt then some (.described r.name (nameFromTxt r.rdata))
  else if r.rtype = typeA then (Octets.tryFrom 4 r.rdata).map fun a => .located r.name a
  else none

/-- A peer of which nothing is known but its instance. -/
def fresh (inst : Text) (now : Nat) : QsPeer where
  endpointId := ((endpointIdFromInstance inst).map fun id => fromUtf8Lossy id.bytes).getD []
  inst := inst
  host := []
  port := 0
  addr := none
  name := none
  lastSeen := now

/-- What one entry makes of it. -/
def hear (now : Nat) (k : Text) : Told Ipv4Addr → Option QsPeer → Option QsPeer
  | .found inst, entry =>
      if k = inst then some { entry.getD (fresh inst now) with lastSeen := now } else entry
  | .served inst port host, entry =>
      if k = inst then entry.map fun p => { p with port, host, lastSeen := now } else entry
  | .described inst name, entry =>
      if k = inst then entry.map fun p => { p with name := name.or p.name, lastSeen := now }
      else entry
  | .located host addr, entry =>
      entry.map fun p =>
        if p.host ≠ [] ∧ p.host = host then { p with addr := some addr, lastSeen := now } else p

/-- A record that tells nothing leaves the entry as it is. -/
def hears (now : Nat) (k : Text) (entry : Option QsPeer) (t : Option (Told Ipv4Addr)) :
    Option QsPeer :=
  t.elim entry fun t => hear now k t entry

/-- **One record, one entry.** -/
theorem absorbRecord_lookup (packet : Bytes) (now : Nat) (peers : HashMap Text QsPeer)
    (r : Dns.Record) (k : Text) :
    (absorbRecord packet now peers r).lookup k =
      hears now k (peers.lookup k) (told packet r) := by
  unfold absorbRecord told
  split
  · cases readName packet r.rdataAt with
    | none => rfl
    | some found =>
        obtain ⟨inst, behind⟩ := found
        simp only
        cases hid : endpointIdFromInstance inst with
        | none => rfl
        | some id =>
            have hfresh : QsPeer.discovered id inst now = fresh inst now := by
              rw [QsPeer.discovered, fresh, hid]
              rfl
            simp only [Option.map_some, hears, Option.elim_some, hear, hfresh]
            by_cases hk : k = inst
            · subst hk
              rw [AList.lookup_insert, if_pos rfl]
            · rw [AList.lookup_insert_ne hk, if_neg hk]
  · split
    · simp only [hears, Option.elim_some, hear, HashMap.lookup_modify]
      split
      · rename_i hk
        rw [hk]
      · rfl
    · split
      · simp only [hears, Option.elim_some, hear, HashMap.lookup_modify]
        split
        · rename_i hk
          rw [hk]
        · rfl
      · split
        · cases Octets.tryFrom 4 r.rdata with
          | none => rfl
          | some a =>
              simp only [Option.map_some, hears, Option.elim_some, hear, HashMap.lookup_mapValues]
        · rfl

/-- **A packet, one entry.** -/
theorem absorb_lookup (packet : Bytes) (now : Nat) (records : List Dns.Record)
    (peers : HashMap Text QsPeer) (k : Text) :
    (absorb packet now records peers).lookup k =
      (records.map (told packet)).foldl (hears now k) (peers.lookup k) := by
  unfold absorb
  induction records generalizing peers with
  | nil => rfl
  | cons r records ih =>
      rw [List.foldl_cons, ih, absorbRecord_lookup, List.map_cons, List.foldl_cons]

/-- What is taken from a record as it was meant. -/
def toldBy : Said → Option (Told Ipv4Addr)
  | .ptr owner target =>
      if owner.text = serviceType then
        (endpointIdFromInstance target.text).map fun _ => .found target.text
      else none
  | .srv owner _ _ port host => some (.served owner.text port host.text)
  | .txt owner rdata _ => some (.described owner.text (nameFromTxt rdata))
  | .a owner addr => some (.located owner.text addr)
  | .aaaa _ _ => none

theorem told_announced (packet : Bytes) (r : Dns.Record) (x : Dns.Announced)
    (readAs : x.answer.ReadAs packet r) : told packet r = toldBy x.said := by
  obtain ⟨said, ttl, flush⟩ := x
  obtain ⟨hname, htype, -, hrdata, hstands⟩ := readAs
  rw [hrdata] at hstands
  cases said with
  | ptr owner target =>
      replace htype : r.rtype = typePtr := htype
      replace hname : r.name = owner.text := hname
      have hread := readName_encodeName target hstands
      have hother : typePtr ≠ typeSrv ∧ typePtr ≠ typeTxt ∧ typePtr ≠ typeA := by decide
      simp only [told, toldBy, htype, hname, hread, hother, true_and, false_and, if_false]
  | srv owner priority weight port host =>
      replace htype : r.rtype = typeSrv := htype
      replace hname : r.name = owner.text := hname
      replace hrdata : r.rdata = (Said.srv owner priority weight port host).rdata := hrdata
      have hport := srvPort_rdata owner priority weight port host
      have hhost : srvHost packet r = host.text := srvHost_rdata owner hstands
      have hlen : (Said.srv owner priority weight port host).rdata.length ≥ 6 := by
        simp only [Said.rdata, List.length_append, beBytes_length]
        omega
      have hother : typeSrv ≠ typePtr := by decide
      simp only [told, toldBy, htype, hname, hhost, hrdata, hport, hlen, hother, true_and,
        false_and, if_false, if_true]
  | txt owner rdata fits =>
      replace htype : r.rtype = typeTxt := htype
      replace hname : r.name = owner.text := hname
      replace hrdata : r.rdata = rdata := hrdata
      have hother : typeTxt ≠ typePtr ∧ typeTxt ≠ typeSrv := by decide
      simp only [told, toldBy, htype, hname, hrdata, hother, false_and, if_false, if_true]
  | a owner addr =>
      replace htype : r.rtype = typeA := htype
      replace hname : r.name = owner.text := hname
      replace hrdata : r.rdata = addr.bytes := hrdata
      have hother : typeA ≠ typePtr ∧ typeA ≠ typeSrv ∧ typeA ≠ typeTxt := by decide
      simp only [told, toldBy, htype, hname, hrdata, hother, false_and, if_false, if_true,
        Octets.tryFrom_bytes, Option.map_some]
  | aaaa owner addr =>
      replace htype : r.rtype = typeAaaa := htype
      have hother : typeAaaa ≠ typePtr ∧ typeAaaa ≠ typeSrv ∧ typeAaaa ≠ typeTxt ∧
          typeAaaa ≠ typeA := by decide
      simp only [told, toldBy, htype, hother, false_and, if_false]

end QsBrowser

/-! ## Advertising -/

structure QsIdentity where
  endpointId : Octets endpointIdLen
  endpointInfo : Bytes
  deriving DecidableEq, Repr

/-- The id and the metadata are drawn at random. -/
def QsIdentity.new (deviceName : Text) (id : Octets endpointIdLen)
    (metadata : Octets metadataLen) : QsIdentity where
  endpointId := id
  endpointInfo := EndpointInfo.encode
    { version := 0, hidden := false, deviceType := .phone, metadata, deviceName := some deviceName }

structure QsResponder where
  inst : Text
  host : Text
  addr : Ipv4Addr
  endpointInfo : Bytes
  port : UInt16
  deriving DecidableEq, Repr

def ttlSecs : UInt32 := 120

def hostPrefix : Text := "tarish-".toList

def hostSuffix : Text := ".local".toList

namespace QsResponder

/-- `addr` is the address of the interface.  The label is base64, so that only ASCII is put
into lower case. -/
def new (addr : Ipv4Addr) (ident : QsIdentity) (port : UInt16) : QsResponder :=
  let label := instanceName ident.endpointId
  {
    inst := label ++ '.' :: serviceType
    host := hostPrefix ++ (label.map Char.toLower ++ hostSuffix)
    addr
    endpointInfo := ident.endpointInfo
    port
  }

variable (r : QsResponder)

def txt : Bytes :=
  let entry := asBytes (txtEndpointInfo ++ '=' :: base64urlEncode r.endpointInfo)
  UInt8.ofNat entry.length :: entry

/-- Priority and weight are zero. -/
def srv : Bytes :=
  beBytes 2 0 ++ (beBytes 2 0 ++ (beBytes 2 r.port.toNat ++ encodeName r.host))

def answersWithTtl (ttl : UInt32) : List Bytes :=
  [record serviceType typePtr ttl (encodeName r.inst) false,
    record r.inst typeSrv ttl r.srv true,
    record r.inst typeTxt ttl r.txt true,
    record r.host typeA ttl r.addr.bytes true]

def answers : List Bytes :=
  r.answersWithTtl ttlSecs

/-- What `stop_advertising` sends. -/
def goodbye : Bytes :=
  response (r.answersWithTtl 0)

end QsResponder

end Quickshare
