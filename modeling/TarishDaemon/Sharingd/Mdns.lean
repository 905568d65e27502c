import TarishDaemon.Sharingd.Said

/-!
# Discovery on AWDL

The browser of AirDrop peers.  Beside who is there it keeps how long each peer is good
for: until when by its own records, how many questions it owes an answer to, and whether
it has said goodbye.

As on the LAN, a record changes an entry by what it tells and by nothing else
(`absorb_lookup`).
-/

namespace Sharingd.Mdns

open Rust Layout Dns

abbrev Ipv6Addr := Octets 16

/-- Times are in nanoseconds. -/
def second : Nat := 1000000000

def airdropService : Text := "_airdrop._tcp.local".toList

structure Peer where
  inst : Text
  host : Text
  port : UInt16
  addr : Option Ipv6Addr
  lastSeen : Nat
  /-- By the TTL that the peer gave. -/
  expiresAt : Nat
  unanswered : Nat
  unreceptiveSince : Option Nat
  withdrawn : Bool
  deriving DecidableEq, Repr

/-- Who we are: the name the browser was built with, the one the interface would give now,
and the address it has now. -/
structure Own where
  inst : Text
  stable : Text
  addr : Option Ipv6Addr
  deriving DecidableEq, Repr

namespace Own

variable (me : Own)

def fullInstance : Text :=
  me.inst ++ '.' :: airdropService

def isSelfInstance (inst : Text) : Bool :=
  inst = me.fullInstance ∨ inst = me.stable ++ '.' :: airdropService

def isSelfAddr (a : Ipv6Addr) : Bool :=
  me.addr = some a

end Own

def ttlOf (r : Record) : Nat :=
  if r.ttl = 0 then second else min (max r.ttl.toNat 30) 300 * second

namespace Browser

section

variable (me : Own) (packet : Bytes) (now : Nat)

/-- Any record of a peer but the pointer: a goodbye shortens the lease, all else can only
lengthen it. -/
def heardAt (r : Record) (p : Peer) : Peer :=
  let t := now + ttlOf r
  { p with
    lastSeen := now
    unanswered := 0
    expiresAt := if r.ttl = 0 then t else max p.expiresAt t }

/-- What `absorb` does with one record. -/
def absorbRecord (peers : HashMap Text Peer) (r : Record) : HashMap Text Peer :=
  if r.rtype = typePtr ∧ r.name = airdropService then
    match readName packet r.rdataAt with
    | none => peers
    | some (inst, _) =>
        if me.isSelfInstance inst then peers
        else
          let e := (peers.lookup inst).getD {
            inst
            host := []
            port := 0
            addr := none
            lastSeen := now
            expiresAt := now + ttlOf r
            unanswered := 0
            unreceptiveSince := none
            withdrawn := false
          }
          peers.insert inst { e with
            lastSeen := now
            unanswered := 0
            expiresAt := now + ttlOf r
            withdrawn := e.withdrawn || r.ttl == 0 }
  else if r.rtype = typeTxt then peers.modify r.name (heardAt now r)
  else if r.rtype = typeSrv then
    if r.rdata.length ≥ 6 then
      peers.modify r.name fun p =>
        { heardAt now r p with
          port := srvPort r.rdata
          host := srvHost packet r
          withdrawn := p.withdrawn || r.ttl == 0 }
    else peers
  else if r.rtype = typeAaaa then
    match Octets.tryFrom 16 r.rdata with
    | none => peers
    | some addr =>
        -- an entry that has collected under our own address is us
        if me.isSelfAddr addr then peers.retain fun p => p.host ≠ r.name
        else
          peers.mapValues fun p =>
            if p.host ≠ [] ∧ p.host = r.name then { heardAt now r p with addr := some addr } else p
  else peers

/-- The clock is read once for a packet. -/
def absorb (records : List Record) (peers : HashMap Text Peer) : HashMap Text Peer :=
  records.foldl (absorbRecord me packet now) peers

/-- What `poll` does with a packet. -/
def receive (peers : HashMap Text Peer) : HashMap Text Peer :=
  match parse packet with
  | none => peers
  | some msg => absorb me packet now msg.records peers

end

/-! ### Expiry -/

def lostUnanswered : Nat := 3

def lostAfter : Nat := 60 * second

/-- Whether silence may remove a peer, and since when. -/
structure Gate where
  probeEviction : Bool
  evictionSince : Option Nat
  deriving DecidableEq, Repr

def Gate.ripe (g : Gate) (now : Nat) : Bool :=
  g.probeEviction && g.evictionSince.any fun t => now - t ≥ lostAfter

/-- What `expire` leaves. -/
def keeps (g : Gate) (minGrace now : Nat) (p : Peer) : Bool :=
  let silent := now - p.lastSeen
  if g.ripe now && (p.unanswered ≥ lostUnanswered && silent ≥ lostAfter) then false
  else if p.withdrawn && now ≥ p.expiresAt then false
  else if !g.ripe now then true
  else now < p.expiresAt || silent < minGrace

def expire (g : Gate) (minGrace now : Nat) (peers : HashMap Text Peer) : HashMap Text Peer :=
  peers.retain (keeps g minGrace now)

/-! ### What a record tells -/

/-- What is taken from a record: our own instance is not, and of a TXT record only that it
came. -/
def told (me : Own) (packet : Bytes) (r : Record) : Option (Told Ipv6Addr) :=
  if r.rtype = typePtr ∧ r.name = airdropService then
    match readName packet r.rdataAt with
    | none => none
    | some (inst, _) => if me.isSelfInstance inst then none else some (.found inst)
  else if r.rtype = typeTxt then some (.described r.name none)
  else if r.rtype = typeSrv then
    if r.rdata.length ≥ 6 then some (.served r.name (srvPort r.rdata) (srvHost packet r)) else none
  else if r.rtype = typeAaaa then
    (Octets.tryFrom 16 r.rdata).map fun addr => .located r.name addr
  else none

/-- A peer of which nothing is known but its instance. -/
def fresh (inst : Text) (now lease : Nat) : Peer where
  inst := inst
  host := []
  port := 0
  addr := none
  lastSeen := now
  expiresAt := now + lease
  unanswered := 0
  unreceptiveSince := none
  withdrawn := false

/-- What one entry makes of it. -/
def hear (me : Own) (now : Nat) (k : Text) (r : Record) :
    Told Ipv6Addr → Option Peer → Option Peer
  | .found inst, entry =>
      if k = inst then
        let e := entry.getD (fresh inst now (ttlOf r))
        some { e with
          lastSeen := now
          unanswered := 0
          expiresAt := now + ttlOf r
          withdrawn := e.withdrawn || r.ttl == 0 }
      else entry
  | .described inst _, entry => if k = inst then entry.map (heardAt now r) else entry
  | .served inst port host, entry =>
      if k = inst then
        entry.map fun p =>
          { heardAt now r p with port, host, withdrawn := p.withdrawn || r.ttl == 0 }
      else entry
  | .located host addr, entry =>
      if me.isSelfAddr addr then entry.filter fun p => p.host ≠ host
      else
        entry.map fun p =>
          if p.host ≠ [] ∧ p.host = host then { heardAt now r p with addr := some addr } else p

/-- A record that tells nothing leaves the entry as it is. -/
def hears (me : Own) (packet : Bytes) (now : Nat) (k : Text) (entry : Option Peer) (r : Record) :
    Option Peer :=
  (told me packet r).elim entry fun t => hear me now k r t entry

/-- **One record, one entry.** -/
theorem absorbRecord_lookup (me : Own) (packet : Bytes) (now : Nat) (peers : HashMap Text Peer)
    (r : Record) (k : Text) :
    (absorbRecord me packet now peers r).lookup k =
      hears me packet now k (peers.lookup k) r := by
  unfold absorbRecord hears told
  split
  · cases readName packet r.rdataAt with
    | none => rfl
    | some found =>
        obtain ⟨inst, behind⟩ := found
        simp only
        split
        · rfl
        · simp only [Option.elim_some, hear]
          by_cases hk : k = inst
          · subst hk
            rw [AList.lookup_insert, if_pos rfl]
            rfl
          · rw [AList.lookup_insert_ne hk, if_neg hk]
  · split
    · simp only [Option.elim_some, hear, HashMap.lookup_modify]
      split
      · rename_i hk
        rw [hk]
      · rfl
    · split
      · split
        · simp only [Option.elim_some, hear, HashMap.lookup_modify]
          split
          · rename_i hk
            rw [hk]
          · rfl
        · rfl
      · split
        · cases Octets.tryFrom 16 r.rdata with
          | none => rfl
          | some addr =>
              simp only [Option.map_some, Option.elim_some, hear]
              split
              · rw [HashMap.lookup_retain]
              · rw [HashMap.lookup_mapValues]
        · rfl

/-- **A packet, one entry.** -/
theorem absorb_lookup (me : Own) (packet : Bytes) (now : Nat) (records : List Record)
    (peers : HashMap Text Peer) (k : Text) :
    (absorb me packet now records peers).lookup k =
      records.foldl (hears me packet now k) (peers.lookup k) := by
  unfold absorb
  induction records generalizing peers with
  | nil => rfl
  | cons r records ih => rw [List.foldl_cons, ih, absorbRecord_lookup, List.foldl_cons]

/-- What is taken from a record as it was meant. -/
def toldBy (me : Own) : Said → Option (Told Ipv6Addr)
  | .ptr owner target =>
      if owner.text = airdropService then
        if me.isSelfInstance target.text then none else some (.found target.text)
      else none
  | .srv owner _ _ port host => some (.served owner.text port host.text)
  | .txt owner _ _ => some (.described owner.text none)
  | .a _ _ => none
  | .aaaa owner addr => some (.located owner.text addr)

theorem told_announced (me : Own) (packet : Bytes) (r : Record) (x : Announced)
    (readAs : x.answer.ReadAs packet r) : told me packet r = toldBy me x.said := by
  obtain ⟨said, ttl, flush⟩ := x
  obtain ⟨hname, htype, -, hrdata, hstands⟩ := readAs
  rw [hrdata] at hstands
  cases said with
  | ptr owner target =>
      replace htype : r.rtype = typePtr := htype
      replace hname : r.name = owner.text := hname
      have hread := readName_encodeName target hstands
      have hother : typePtr ≠ typeSrv ∧ typePtr ≠ typeTxt ∧ typePtr ≠ typeAaaa := by decide
      simp only [told, toldBy, htype, hname, hread, hother, true_and, if_false]
  | srv owner priority weight port host =>
      replace htype : r.rtype = typeSrv := htype
      replace hname : r.name = owner.text := hname
      replace hrdata : r.rdata = (Said.srv owner priority weight port host).rdata := hrdata
      have hport := srvPort_rdata owner priority weight port host
      have hhost : srvHost packet r = host.text := srvHost_rdata owner hstands
      have hlen : (Said.srv owner priority weight port host).rdata.length ≥ 6 := by
        simp only [Said.rdata, List.length_append, beBytes_length]
        omega
      have hother : typeSrv ≠ typePtr ∧ typeSrv ≠ typeTxt := by decide
      simp only [told, toldBy, htype, hname, hhost, hrdata, hport, hlen, hother, false_and,
        if_false, if_true]
  | txt owner rdata fits =>
      replace htype : r.rtype = typeTxt := htype
      replace hname : r.name = owner.text := hname
      have hother : typeTxt ≠ typePtr := by decide
      simp only [told, toldBy, htype, hname, hother, false_and, if_false, if_true]
  | a owner addr =>
      replace htype : r.rtype = typeA := htype
      have hother : typeA ≠ typePtr ∧ typeA ≠ typeTxt ∧ typeA ≠ typeSrv ∧ typeA ≠ typeAaaa := by
        decide
      simp only [told, toldBy, htype, hother, false_and, if_false]
  | aaaa owner addr =>
      replace htype : r.rtype = typeAaaa := htype
      replace hname : r.name = owner.text := hname
      replace hrdata : r.rdata = addr.bytes := hrdata
      have hother : typeAaaa ≠ typePtr ∧ typeAaaa ≠ typeTxt ∧ typeAaaa ≠ typeSrv := by decide
      simp only [told, toldBy, htype, hname, hrdata, hother, false_and, if_false, if_true,
        Octets.tryFrom_bytes, Option.map_some]

end Browser

end Sharingd.Mdns
