import TarishDaemon.Sharingd.DnsRound

/-!
# What a service says of itself

The records a service is found by, before they are written: its type points at an instance
(PTR), the instance at a host and a port (SRV) and at what it is like (TXT), the host at
an address (A, AAAA).

A browser reads a record as one of four things, `Told`; which one is a matter of the
browser, and a table of peers is changed by nothing else.
-/

namespace Sharingd.Dns

open Rust Layout

/-- A name that fits into a packet. -/
structure Name where
  labels : List Text
  isLabel : ∀ label ∈ labels, IsLabel label
  short : (asBytes (joinLabels labels)).length ≤ 254

namespace Name

def text (n : Name) : Text :=
  joinLabels n.labels

/-- A dot takes as much room as the length of a label. -/
theorem dotted_length (labels : List Text) :
    (asBytes (labels.flatMap fun label => '.' :: label)).length =
      (labels.flatMap encodeLabel).length := by
  induction labels with
  | nil => rfl
  | cons label labels ih =>
      have hdot : asBytes ('.' :: label) = 46 :: asBytes label := rfl
      rw [List.flatMap_cons, List.flatMap_cons, asBytes_append, hdot]
      simp only [encodeLabel, List.length_append, List.length_cons, ih]

theorem encodeName_length (n : Name) : (encodeName n.text).length ≤ 256 := by
  obtain ⟨labels, isLabel, short⟩ := n
  unfold text
  rw [encodeName_joinLabels isLabel]
  cases labels with
  | nil => decide
  | cons label labels =>
      rw [joinLabels_cons, asBytes_append, List.length_append, dotted_length] at short
      simp only [List.flatMap_cons, encodeLabel, List.length_append, List.length_cons,
        List.length_nil]
      omega

end Name

inductive Said
  | ptr (owner : Name) (target : Name)
  | srv (owner : Name) (priority weight port : UInt16) (host : Name)
  | txt (owner : Name) (rdata : Bytes) (fits : rdata.length ≤ 65535)
  | a (owner : Name) (addr : Octets 4)
  | aaaa (owner : Name) (addr : Octets 16)

namespace Said

def owner : Said → Name
  | ptr owner _ => owner
  | srv owner _ _ _ _ => owner
  | txt owner _ _ => owner
  | a owner _ => owner
  | aaaa owner _ => owner

def rtype : Said → UInt16
  | ptr _ _ => typePtr
  | srv _ _ _ _ _ => typeSrv
  | txt _ _ _ => typeTxt
  | a _ _ => typeA
  | aaaa _ _ => typeAaaa

def rdata : Said → Bytes
  | ptr _ target => encodeName target.text
  | srv _ priority weight port host =>
      beBytes 2 priority.toNat ++ (beBytes 2 weight.toNat ++
        (beBytes 2 port.toNat ++ encodeName host.text))
  | txt _ rdata _ => rdata
  | a _ addr => addr.bytes
  | aaaa _ addr => addr.bytes

theorem rdata_length (s : Said) : s.rdata.length ≤ 65535 := by
  cases s with
  | ptr owner target =>
      have h := target.encodeName_length
      simp only [rdata]
      omega
  | srv owner priority weight port host =>
      have h := host.encodeName_length
      simp only [rdata, List.length_append, beBytes_length]
      omega
  | txt owner rdata fits => exact fits
  | a owner addr => simp [rdata, addr.sized]
  | aaaa owner addr => simp [rdata, addr.sized]

end Said

/-- A record as it is announced. -/
structure Announced where
  said : Said
  ttl : UInt32
  flush : Bool

namespace Announced

def answer (x : Announced) : Answer where
  labels := x.said.owner.labels
  rtype := x.said.rtype
  ttl := x.ttl
  rdata := x.said.rdata
  flush := x.flush
  isLabel := x.said.owner.isLabel
  short := x.said.owner.short
  fits := x.said.rdata_length

def packet (xs : List Announced) : Bytes :=
  response (xs.map fun x => x.answer.written)

/-- **An announcement is taken as it was meant**, by a reader that takes each record as it
was meant. -/
theorem told_packet {T : Type} {told : Bytes → Record → T} {toldBy : Announced → T}
    (meant : ∀ packet r x, x.answer.ReadAs packet r → told packet r = toldBy x)
    (xs : List Announced) (few : xs.length ≤ 128) :
    ∃ records, parse (packet xs) = some { questions := [], records } ∧
      records.map (told (packet xs)) = xs.map toldBy := by
  have hfew : (xs.map answer).length ≤ 128 := by rwa [List.length_map]
  have hpacket : response ((xs.map answer).map Answer.written) = packet xs := by
    rw [packet, List.map_map]
    rfl
  have stands : Stands (packet xs) 0 (response ((xs.map answer).map Answer.written)) := by
    rw [hpacket]
    exact stands_self _
  obtain ⟨records, hparse, allRead⟩ := parse_stands hfew stands
  refine ⟨records, hparse, ?_⟩
  generalize packet xs = packet at allRead
  clear hparse hpacket few hfew stands
  rw [List.forall₂_map_left_iff] at allRead
  induction allRead with
  | nil => rfl
  | cons readAs rest ih => rw [List.map_cons, List.map_cons, meant _ _ _ readAs, ih]

end Announced

/-! ## Reading the data -/

theorem readName_encodeName {buf : Bytes} {a : Nat} (n : Name)
    (stands : Stands buf a (encodeName n.text)) :
    readName buf a = some (n.text, a + (encodeName n.text).length) :=
  readName_stands n.isLabel n.short stands

/-- The port in the data of an SRV record. -/
def srvPort (rdata : Bytes) : UInt16 :=
  UInt16.ofNat ((rdata.getD 4 0).toNat * 256 + (rdata.getD 5 0).toNat)

/-- The host, read behind it; one that cannot be read is empty. -/
def srvHost (packet : Bytes) (r : Record) : Text :=
  ((readName packet (r.rdataAt + 6)).map Prod.fst).getD []

theorem beBytes_two (n : Nat) :
    beBytes 2 n = [UInt8.ofNat (n / 256 % 256), UInt8.ofNat (n % 256)] := rfl

theorem srvPort_rdata (owner : Name) (priority weight port : UInt16) (host : Name) :
    srvPort (Said.srv owner priority weight port host).rdata = port := by
  have hhi := toNat_ofNat_byte (n := port.toNat / 256 % 256) (Nat.mod_lt _ (by decide))
  have hlo := toNat_ofNat_byte (n := port.toNat % 256) (Nat.mod_lt _ (by decide))
  have hport := port.toNat_lt
  simp only [srvPort, Said.rdata, beBytes_two, List.cons_append, List.nil_append,
    List.getD_cons_succ, List.getD_cons_zero, hhi, hlo]
  apply UInt16.toNat_inj.mp
  rw [UInt16.toNat_ofNat']
  omega

theorem srvHost_rdata {packet : Bytes} {r : Record} (owner : Name)
    {priority weight port : UInt16} {host : Name}
    (stands : Stands packet r.rdataAt (Said.srv owner priority weight port host).rdata) :
    srvHost packet r = host.text := by
  have hname := readName_encodeName host stands.right.right.right
  simp only [beBytes_length] at hname
  rw [srvHost, hname]
  rfl

/-- What a browser takes from a record. -/
inductive Told (Addr : Type)
  | found (inst : Text)
  | served (inst : Text) (port : UInt16) (host : Text)
  | described (inst : Text) (name : Option Text)
  | located (host : Text) (addr : Addr)
  deriving DecidableEq, Repr

end Sharingd.Dns
