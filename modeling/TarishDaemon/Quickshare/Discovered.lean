import TarishDaemon.Quickshare.Discovery

/-!
# Two devices discover each other

What a responder answers is what it says of itself, name by name (`answersWithTtl_said`);
a browser that knows nobody takes the four records as they were meant and lists one peer
(`devices_discover`).
-/

namespace Quickshare

open Rust
open Sharingd Sharingd.Dns

namespace QsResponder

/-- Characters of one byte. -/
theorem asBytes_length_of_ascii {t : Text}
    (ascii : ∀ c ∈ t, (String.utf8EncodeChar c).length = 1) : (asBytes t).length = t.length := by
  induction t with
  | nil => rfl
  | cons c t ih =>
      have hcons : asBytes (c :: t) = String.utf8EncodeChar c ++ asBytes t := rfl
      rw [hcons, List.length_append, ascii c List.mem_cons_self,
        ih fun d hd => ascii d (List.mem_cons_of_mem _ hd), List.length_cons, Nat.add_comm]

theorem base64_ascii (raw : Bytes) : (asBytes (base64urlEncode raw)).length =
    (base64urlEncode raw).length := by
  have hall : (b64url.all fun c => (String.utf8EncodeChar c).length == 1) = true := by
    decide +kernel
  apply asBytes_length_of_ascii
  intro c hc
  exact eq_of_beq (List.all_eq_true.mp hall c (base64urlEncode_digits raw c hc))

def serviceLabels : List Text :=
  ["_FC9F5ED42C8A".toList, "_tcp".toList, "local".toList]

theorem isLabel_service : ∀ label ∈ serviceLabels, IsLabel label := by
  decide +kernel

theorem isLabel_instance (id : Octets endpointIdLen) : IsLabel (instanceName id) where
  nonempty := by
    intro hnil
    have hlen := instanceName_length id
    rw [hnil] at hlen
    cases hlen
  noDot := instanceName_noDot id
  short := by
    have hlen := instanceName_length id
    have hbytes := base64_ascii (pcp :: (id.bytes ++ (serviceIdHashPrefix ++ [0, 0])))
    rw [← instanceName] at hbytes
    omega

def hostLabel (id : Octets endpointIdLen) : Text :=
  hostPrefix ++ (instanceName id).map Char.toLower

theorem hostLabel_length (id : Octets endpointIdLen) : (asBytes (hostLabel id)).length = 21 := by
  have hall : (b64url.all fun c => (String.utf8EncodeChar c.toLower).length == 1) = true := by
    decide +kernel
  have hprefix : (asBytes hostPrefix).length = 7 := by decide +kernel
  have hlen := instanceName_length id
  have hlower : (asBytes ((instanceName id).map Char.toLower)).length = 14 := by
    rw [← hlen, ← List.length_map Char.toLower]
    apply asBytes_length_of_ascii
    intro c hc
    obtain ⟨d, hd, rfl⟩ := List.mem_map.mp hc
    exact eq_of_beq (List.all_eq_true.mp hall d (base64urlEncode_digits _ d hd))
  have hsplit : asBytes (hostLabel id) =
      asBytes hostPrefix ++ asBytes ((instanceName id).map Char.toLower) :=
    asBytes_append _ _
  have hsum := congrArg List.length hsplit
  rw [List.length_append] at hsum
  omega

theorem isLabel_host (id : Octets endpointIdLen) : IsLabel (hostLabel id) where
  nonempty := by
    intro hnil
    have hlen := hostLabel_length id
    rw [hnil] at hlen
    cases hlen
  noDot := by
    have hall : (b64url.all fun c => c.toLower != '.') = true := by decide +kernel
    intro hmem
    rcases List.mem_append.mp hmem with hmem | hmem
    · revert hmem
      decide
    · obtain ⟨d, hd, hdot⟩ := List.mem_map.mp hmem
      have hnot := List.all_eq_true.mp hall d (base64urlEncode_digits _ d hd)
      rw [hdot] at hnot
      cases hnot
  short := by
    have hlen := hostLabel_length id
    omega

/-! ## The names -/

def serviceName : Name where
  labels := serviceLabels
  isLabel := isLabel_service
  short := by decide +kernel

theorem serviceName_text : serviceName.text = serviceType := by
  decide +kernel

theorem serviceDotted : (serviceLabels.flatMap fun label => '.' :: label) = '.' :: serviceType := by
  decide +kernel

theorem serviceDotted_length : (asBytes ('.' :: serviceType)).length = 25 := by
  decide +kernel

def instName (id : Octets endpointIdLen) : Name where
  labels := instanceName id :: serviceLabels
  isLabel := by
    intro label hmem
    rcases List.mem_cons.mp hmem with rfl | hmem
    · exact isLabel_instance id
    · exact isLabel_service label hmem
  short := by
    have hshort := (isLabel_instance id).short
    rw [joinLabels_cons, serviceDotted, asBytes_append, List.length_append, serviceDotted_length]
    omega

theorem instName_text (id : Octets endpointIdLen) :
    (instName id).text = instanceName id ++ '.' :: serviceType := by
  rw [Name.text, instName, joinLabels_cons, serviceDotted]

theorem isLabel_local : IsLabel "local".toList :=
  isLabel_service _ (List.mem_cons_of_mem _ (List.mem_cons_of_mem _ List.mem_cons_self))

theorem localDotted_length : (asBytes hostSuffix).length = 6 := by
  decide +kernel

def hostName (id : Octets endpointIdLen) : Name where
  labels := [hostLabel id, "local".toList]
  isLabel := by
    intro label hmem
    rcases List.mem_cons.mp hmem with rfl | hmem
    · exact isLabel_host id
    · rw [List.mem_singleton.mp hmem]
      exact isLabel_local
  short := by
    have hlen := hostLabel_length id
    have hdotted : (["local".toList].flatMap fun label => '.' :: label) = hostSuffix := rfl
    rw [joinLabels_cons, hdotted, asBytes_append, List.length_append, localDotted_length]
    omega

theorem hostName_text (id : Octets endpointIdLen) :
    (hostName id).text = hostPrefix ++ ((instanceName id).map Char.toLower ++ hostSuffix) := by
  have hdotted : (["local".toList].flatMap fun label => '.' :: label) = hostSuffix := rfl
  rw [Name.text, hostName, joinLabels_cons, hdotted, hostLabel, List.append_assoc]

/-! ## The answers -/

section Answers

variable (name : Text) (id : Octets endpointIdLen) (metadata : Octets metadataLen)
  (addr : Ipv4Addr) (port : UInt16)

/-- The responder of a device of this name. -/
def named : QsResponder :=
  new addr (QsIdentity.new name id metadata) port

def info : EndpointInfo where
  version := 0
  hidden := false
  deviceType := .phone
  metadata := metadata
  deviceName := some name

theorem info_length (short : (asBytes name).length ≤ 92) :
    (info name metadata).encode.length ≤ 110 := by
  have hlen : (info name metadata).encode.length = 18 + (asBytes name).length :=
    EndpointInfo.encode_length rfl rfl (by omega)
  omega

theorem entry_bytes (raw : Bytes) : asBytes (txtEndpointInfo ++ '=' :: base64urlEncode raw) =
    110 :: 61 :: asBytes (base64urlEncode raw) := rfl

/-- The entry of the TXT record fits behind one byte. -/
theorem entry_length (short : (asBytes name).length ≤ 92) :
    (asBytes (txtEndpointInfo ++
      '=' :: base64urlEncode (info name metadata).encode)).length ≤ 149 := by
  have hinfo := info_length name metadata short
  rw [entry_bytes, List.length_cons, List.length_cons, base64_ascii, base64urlEncode_length]
  omega

/-- **The name is read from the TXT record.** -/
theorem nameFromTxt_txt (short : (asBytes name).length ≤ 92) :
    nameFromTxt (named name id metadata addr port).txt = some name := by
  have hentry := entry_length name metadata short
  have hlen := toNat_ofNat_byte (n := (asBytes (txtEndpointInfo ++
    '=' :: base64urlEncode (info name metadata).encode)).length) (by omega)
  have hname : (info name metadata).deviceName = some name := rfl
  have hparse := EndpointInfo.parse_encode rfl hname (by omega)
  have htxt : (named name id metadata addr port).txt =
      UInt8.ofNat (asBytes (txtEndpointInfo ++
        '=' :: base64urlEncode (info name metadata).encode)).length ::
        asBytes (txtEndpointInfo ++ '=' :: base64urlEncode (info name metadata).encode) := rfl
  have hposition : (asBytes (txtEndpointInfo ++
      '=' :: base64urlEncode (info name metadata).encode)).findIdx? (fun c => c == 61) =
        some 1 := by
    rw [entry_bytes]
    simp [List.findIdx?_cons]
  have hkey : (asBytes (txtEndpointInfo ++
      '=' :: base64urlEncode (info name metadata).encode)).take 1 = asBytes txtEndpointInfo := rfl
  have hvalue : (asBytes (txtEndpointInfo ++
      '=' :: base64urlEncode (info name metadata).encode)).drop (1 + 1) =
        asBytes (base64urlEncode (info name metadata).encode) := rfl
  rw [nameFromTxt, htxt, List.length_cons, nameFromTxtLoop, hlen, if_neg (lt_irrefl _),
    List.take_length]
  simp only [hposition, hkey, hvalue, base64AnyDecode_encode, hparse, ne_eq, not_true_eq_false,
    if_false, Option.bind_eq_bind, Option.bind_some]
  rfl

/-- The four records, as the responder means them. -/
def saidBy (short : (asBytes name).length ≤ 92) : List Said :=
  [.ptr serviceName (instName id),
    .srv (instName id) 0 0 port (hostName id),
    .txt (instName id) (named name id metadata addr port).txt (by
      have hentry := entry_length name metadata short
      have htxt : (named name id metadata addr port).txt.length =
        (asBytes (txtEndpointInfo ++
          '=' :: base64urlEncode (info name metadata).encode)).length + 1 := rfl
      omega),
    .a (hostName id) addr]

/-- All but the pointer are the responder's own. -/
def announcedBy (short : (asBytes name).length ≤ 92) (ttl : UInt32) : List Dns.Announced :=
  (saidBy name id metadata addr port short).zipWith (fun said flush => { said, ttl, flush })
    [false, true, true, true]

theorem answersWithTtl_said (short : (asBytes name).length ≤ 92) (ttl : UInt32) :
    (named name id metadata addr port).answersWithTtl ttl =
      (announcedBy name id metadata addr port short ttl).map fun x => x.answer.written := by
  have hservice := serviceName_text
  have hinst := instName_text id
  have hhost := hostName_text id
  unfold Name.text at hservice hinst hhost
  simp only [announcedBy, saidBy, List.zipWith_cons_cons, List.zipWith_nil_right, List.map_cons,
    List.map_nil, Answer.written, Dns.Announced.answer, Said.owner, Said.rtype, Said.rdata,
    Name.text, hservice, hinst, hhost]
  rfl

end Answers

end QsResponder

/-! ## The peer -/

theorem fromUtf8Lossy_ascii {bs : Bytes} (ascii : ∀ b ∈ bs, b.toNat < 0x80) :
    fromUtf8Lossy bs = bs.map fun b => Char.ofNat b.toNat := by
  induction bs with
  | nil => rfl
  | cons b bs ih =>
      rw [fromUtf8Lossy_one bs (ascii b List.mem_cons_self),
        ih fun c hc => ascii c (List.mem_cons_of_mem _ hc), List.map_cons]

/-- What a browser should make of a device. -/
def QsPeer.describing (name : Text) (id : Octets endpointIdLen) (addr : Ipv4Addr) (port : UInt16)
    (now : Nat) : QsPeer where
  endpointId := id.bytes.map fun b => Char.ofNat b.toNat
  inst := instanceName id ++ '.' :: serviceType
  host := hostPrefix ++ ((instanceName id).map Char.toLower ++ hostSuffix)
  port := port
  addr := some addr
  name := some name
  lastSeen := now

open QsResponder QsBrowser

theorem fresh_endpointId {id : Octets endpointIdLen}
    (alphabet : ∀ b ∈ id.bytes, b ∈ endpointIdAlphabet) (now : Nat) :
    (fresh (instName id).text now).endpointId = id.bytes.map fun b => Char.ofNat b.toNat := by
  have hall : ∀ b ∈ endpointIdAlphabet, b.toNat < 0x80 := by decide +kernel
  rw [fresh, instName_text, endpointIdFromInstance_instanceName]
  exact fromUtf8Lossy_ascii fun b hb => hall b (alphabet b hb)

theorem hostName_ne_nil (id : Octets endpointIdLen) : (hostName id).text ≠ [] := by
  rw [hostName_text]
  exact List.append_ne_nil_of_left_ne_nil (by decide) _

/-- The four records heard by one entry. -/
theorem hears_saidBy {name : Text} {id : Octets endpointIdLen}
    (alphabet : ∀ b ∈ id.bytes, b ∈ endpointIdAlphabet) (metadata : Octets metadataLen)
    (addr : Ipv4Addr) (port : UInt16) (short : (asBytes name).length ≤ 92) (now : Nat) (k : Text) :
    ((saidBy name id metadata addr port short).map toldBy).foldl (hears now k) none =
      if k = instanceName id ++ '.' :: serviceType then
        some (QsPeer.describing name id addr port now)
      else none := by
  have hfound : endpointIdFromInstance (instName id).text = some id := by
    rw [instName_text, endpointIdFromInstance_instanceName]
  have hid := fresh_endpointId alphabet now
  have hhost := hostName_ne_nil id
  have hname := nameFromTxt_txt name id metadata addr port short
  rw [← instName_text]
  by_cases hk : k = (instName id).text
  · subst hk
    have hinst : (fresh (instName id).text now).inst = instanceName id ++ '.' :: serviceType :=
      instName_text id
    have hpeer : QsPeer.describing name id addr port now =
        { fresh (instName id).text now with
          host := (hostName id).text, port := port, addr := some addr, name := some name } := by
      simp only [QsPeer.describing, hid, hinst, hostName_text]
      rfl
    simp [saidBy, toldBy, serviceName_text, hfound, hname, hears, hear, hhost, hpeer]
    rfl
  · simp [saidBy, toldBy, serviceName_text, hfound, hears, hear, hk]

/-- **Two devices discover each other**: from the answers of a responder a browser that knew
nobody lists the responder's device and no other. -/
theorem devices_discover (id : Octets endpointIdLen)
    (alphabet : ∀ b ∈ id.bytes, b ∈ endpointIdAlphabet) (name : Text)
    (short : (asBytes name).length ≤ 92) (metadata : Octets metadataLen) (addr : Ipv4Addr)
    (port : UInt16) (now : Nat) :
    peers (receive (response (QsResponder.new addr (QsIdentity.new name id metadata) port).answers)
      now ∅) = [QsPeer.describing name id addr port now] := by
  have hanswers := answersWithTtl_said name id metadata addr port short ttlSecs
  have hfew : (announcedBy name id metadata addr port short ttlSecs).length ≤ 128 := by
    simp [announcedBy, saidBy]
  obtain ⟨records, hparse, htold⟩ := Dns.Announced.told_packet told_announced
    (announcedBy name id metadata addr port short ttlSecs) hfew
  have hsaid : (announcedBy name id metadata addr port short ttlSecs).map
      (fun x => toldBy x.said) = (saidBy name id metadata addr port short).map toldBy := rfl
  rw [hsaid] at htold
  rw [Dns.Announced.packet, ← hanswers] at hparse htold
  have hlookup : ∀ k, (receive (response ((named name id metadata addr port).answersWithTtl
      ttlSecs)) now ∅).lookup k = if k = instanceName id ++ '.' :: serviceType then
        some (QsPeer.describing name id addr port now) else none := by
    intro k
    rw [receive, hparse, absorb_lookup, htold, AList.lookup_empty]
    exact hears_saidBy alphabet metadata addr port short now k
  have hentries := HashMap.entries_of_lookup hlookup
  exact congrArg (List.map fun e => e.2) hentries

theorem devices_discover_phone :
    (∀ b ∈ asBytes "aZ09".toList, b ∈ endpointIdAlphabet) ∧
      (asBytes "Küche".toList).length ≤ 92 ∧
      peers (receive (response (QsResponder.new ⟨[192, 168, 1, 7], rfl⟩
          (QsIdentity.new "Küche".toList ⟨asBytes "aZ09".toList, rfl⟩
            ⟨List.replicate metadataLen 7, rfl⟩) 40985).answers) 5 ∅) =
        [QsPeer.describing "Küche".toList ⟨asBytes "aZ09".toList, rfl⟩ ⟨[192, 168, 1, 7], rfl⟩
          40985 5] := by
  have alphabet : ∀ b ∈ asBytes "aZ09".toList, b ∈ endpointIdAlphabet := by decide +kernel
  have short : (asBytes "Küche".toList).length ≤ 92 := by decide +kernel
  exact ⟨alphabet, short, devices_discover ⟨asBytes "aZ09".toList, rfl⟩ alphabet
    "Küche".toList short ⟨List.replicate metadataLen 7, rfl⟩ ⟨[192, 168, 1, 7], rfl⟩ 40985 5⟩

end Quickshare
