import TarishDaemon.Lib.Introduced
import TarishDaemon.Quickshare.Discovered
import TarishDaemon.Sharingd.Mdns

/-!
# The order of records

Both browsers go through a packet once and join its records by name as they come: what is
said of an instance before its pointer, or of a host before it is some instance's host, is
lost.

To each browser an entry is a line, `Listed`, to which a record adds what it tells; the two
differ in what they take a record for, and in what counts as their own address.  So one
account of lost notices serves both (`order_irrelevant_iff`).
-/

namespace Sharingd.Dns

open Rust Mdns Quickshare

/-- A line of a table of peers. -/
structure Listed (Addr : Type) where
  host : Text
  port : UInt16
  addr : Option Addr
  name : Option Text
  deriving DecidableEq, Repr

namespace Listed

variable {Addr : Type} (own : Addr → Bool) (k : Text)

def blank : Listed Addr where
  host := []
  port := 0
  addr := none
  name := none

/-- What a line becomes by what is told. -/
def hears : Option (Listed Addr) → Option (Told Addr) → Option (Listed Addr)
  | line, none => line
  | line, some (.found inst) => if k = inst then some (line.getD blank) else line
  | line, some (.served inst port host) =>
      if k = inst then line.map fun v => { v with port, host } else line
  | line, some (.described inst name) =>
      if k = inst then line.map fun v => { v with name := name.or v.name } else line
  | line, some (.located host addr) =>
      if own addr then line.filter fun v => v.host ≠ host
      else
        line.map fun v =>
          if v.host ≠ [] ∧ v.host = host then { v with addr := some addr } else v

/-- Only a pointer opens a line. -/
theorem rules : Introduced.Rules (hears own k) (fun t => t = some (.found k)) blank where
  lost := by
    intro t closed
    cases t with
    | none => rfl
    | some t =>
        cases t with
        | found inst =>
            have hk : k ≠ inst := by
              intro heq
              subst heq
              exact closed rfl
            rw [hears, if_neg hk]
        | served inst port host => simp [hears]
        | described inst name => simp [hears]
        | located host addr => simp [hears]
  first := by
    intro t heq
    subst heq
    simp [hears]
  again := by
    intro t v heq
    subst heq
    simp [hears]

/-- What is told of an instance that is not in a blank line. -/
def Adds : Option (Told Addr) → Prop
  | some (.served inst port host) => inst = k ∧ (port ≠ 0 ∨ host ≠ [])
  | some (.described inst name) => inst = k ∧ name ≠ none
  | some (.located host addr) => own addr ∧ host = []
  | _ => False

theorem hears_blank_iff (t : Option (Told Addr)) :
    hears own k (some blank) t = some blank ↔ ¬ Adds own k t := by
  cases t with
  | none => simp [hears, Adds]
  | some t =>
      cases t with
      | found inst => simp [hears, Adds]
      | served inst port host =>
          by_cases hk : inst = k
          · subst hk
            simp [hears, Adds, blank]
            tauto
          · simp [hears, Adds, hk, Ne.symm hk]
      | described inst name =>
          by_cases hk : inst = k
          · subst hk
            cases name with
            | none => simp [hears, Adds, blank]
            | some name => simp [hears, Adds, blank]
          · simp [hears, Adds, hk, Ne.symm hk]
      | located host addr =>
          cases hown : own addr with
          | true =>
              have hleft : ([] : Text) ≠ host ↔ ¬ host = [] := by
                rw [ne_comm]
              simp [hears, Adds, hown, blank, Option.filter, hleft]
          | false => simp [hears, Adds, hown, blank]

/-- **The order of what is told** does not matter to a line exactly where nothing is added to
one that is opened. -/
theorem order_irrelevant_iff {X : Type} (toldBy : X → Option (Told Addr)) (xs : List X) :
    (∀ ys : List X, ys.Perm xs →
      ys.foldl (fun line x => hears own k line (toldBy x)) none =
        xs.foldl (fun line x => hears own k line (toldBy x)) none) ↔
      ((∃ x ∈ xs, toldBy x = some (.found k)) → ∀ x ∈ xs, ¬ Adds own k (toldBy x)) := by
  have hrules := rules own k
  have hsteps : Introduced.Rules (fun line x => hears own k line (toldBy x))
      (fun x => toldBy x = some (.found k)) blank :=
    ⟨fun x => hrules.lost (toldBy x), fun x => hrules.first (toldBy x),
      fun x => hrules.again (toldBy x)⟩
  rw [hsteps.orders_agree_iff]
  apply imp_congr_right
  intro _
  apply forall₂_congr
  intro x _
  rw [hears_blank_iff]
  constructor
  · intro h hadds
    by_cases hopen : toldBy x = some (.found k)
    · rw [hopen] at hadds
      exact hadds
    · exact h hopen hadds
  · intro h _
    exact h

end Listed

end Sharingd.Dns

/-! ## The browser on the LAN -/

namespace Quickshare

open Rust Sharingd Sharingd.Dns

def QsPeer.listed (p : QsPeer) : Dns.Listed Ipv4Addr where
  host := p.host
  port := p.port
  addr := p.addr
  name := p.name

namespace QsBrowser

theorem hears_listed (now : Nat) (k : Text) (entry : Option QsPeer) (t : Option (Told Ipv4Addr)) :
    (hears now k entry t).map QsPeer.listed =
      Dns.Listed.hears (fun _ => false) k (entry.map QsPeer.listed) t := by
  cases t with
  | none => rfl
  | some t =>
      cases t with
      | found inst =>
          by_cases hk : k = inst
          · cases entry with
            | none =>
                simp [hears, hear, Dns.Listed.hears, hk, fresh, QsPeer.listed, Dns.Listed.blank]
            | some p => simp [hears, hear, Dns.Listed.hears, hk, QsPeer.listed]
          · simp [hears, hear, Dns.Listed.hears, hk]
      | served inst port host =>
          by_cases hk : k = inst
          · cases entry with
            | none => simp [hears, hear, Dns.Listed.hears]
            | some p => simp [hears, hear, Dns.Listed.hears, hk, QsPeer.listed]
          · simp [hears, hear, Dns.Listed.hears, hk]
      | described inst name =>
          by_cases hk : k = inst
          · cases entry with
            | none => simp [hears, hear, Dns.Listed.hears]
            | some p => simp [hears, hear, Dns.Listed.hears, hk, QsPeer.listed]
          · simp [hears, hear, Dns.Listed.hears, hk]
      | located host addr =>
          cases entry with
          | none => simp [hears, hear, Dns.Listed.hears]
          | some p =>
              by_cases hhost : p.host ≠ [] ∧ p.host = host
              · simp only [hears, Option.elim_some, hear, Option.map_some, Dns.Listed.hears,
                  QsPeer.listed, if_pos hhost, Bool.false_eq_true, if_false]
              · simp only [hears, Option.elim_some, hear, Option.map_some, Dns.Listed.hears,
                  QsPeer.listed, if_neg hhost, Bool.false_eq_true, if_false]

/-- The record points at an instance of the service. -/
def Points (k : Text) : Said → Prop
  | .ptr owner target =>
      owner.text = serviceType ∧ target.text = k ∧ (endpointIdFromInstance k).isSome
  | _ => False

/-- The record says more of an instance than that it is there: a port, a host or a name. -/
def Says (k : Text) : Said → Prop
  | .srv owner _ _ port host => owner.text = k ∧ (port ≠ 0 ∨ host.text ≠ [])
  | .txt owner rdata _ => owner.text = k ∧ nameFromTxt rdata ≠ none
  | _ => False

theorem toldBy_found_iff (k : Text) (s : Said) : toldBy s = some (.found k) ↔ Points k s := by
  cases s with
  | ptr owner target =>
      simp only [toldBy, Points]
      split
      · rename_i howner
        cases hid : endpointIdFromInstance target.text with
        | none =>
            simp only [Option.map_none, reduceCtorEq, false_iff]
            intro h
            obtain ⟨-, rfl, hsome⟩ := h
            rw [hid] at hsome
            cases hsome
        | some id =>
            simp only [Option.map_some, Option.some.injEq, Told.found.injEq]
            constructor
            · intro heq
              subst heq
              exact ⟨howner, rfl, by rw [hid]; rfl⟩
            · exact fun h => h.2.1
      · rename_i howner
        simp [howner]
  | srv owner priority weight port host => simp [toldBy, Points]
  | txt owner rdata fits => simp [toldBy, Points]
  | a owner addr => simp [toldBy, Points]
  | aaaa owner addr => simp [toldBy, Points]

theorem adds_iff (k : Text) (s : Said) :
    Dns.Listed.Adds (fun _ => false) k (toldBy s) ↔ Says k s := by
  cases s with
  | ptr owner target =>
      simp only [toldBy, Says]
      split
      · cases endpointIdFromInstance target.text with
        | none => simp [Dns.Listed.Adds]
        | some id => simp [Dns.Listed.Adds]
      · simp [Dns.Listed.Adds]
  | srv owner priority weight port host => simp [toldBy, Says, Dns.Listed.Adds]
  | txt owner rdata fits => simp [toldBy, Says, Dns.Listed.Adds]
  | a owner addr => simp [toldBy, Says, Dns.Listed.Adds]
  | aaaa owner addr => simp [toldBy, Says, Dns.Listed.Adds]

/-- What is listed of an instance after one packet. -/
def line (xs : List Dns.Announced) (now : Nat) (k : Text) : Option (Dns.Listed Ipv4Addr) :=
  ((receive (Dns.Announced.packet xs) now ∅).lookup k).map QsPeer.listed

theorem foldl_hears_listed (now : Nat) (k : Text) (ts : List (Option (Told Ipv4Addr)))
    (entry : Option QsPeer) :
    (ts.foldl (hears now k) entry).map QsPeer.listed =
      ts.foldl (Dns.Listed.hears (fun _ => false) k) (entry.map QsPeer.listed) := by
  induction ts generalizing entry with
  | nil => rfl
  | cons t ts ih => rw [List.foldl_cons, ih, hears_listed, List.foldl_cons]

theorem line_eq {xs : List Dns.Announced} (few : xs.length ≤ 128) (now : Nat) (k : Text) :
    line xs now k =
      xs.foldl (fun v x => Dns.Listed.hears (fun _ => false) k v (toldBy x.said)) none := by
  obtain ⟨records, hparse, htold⟩ := Dns.Announced.told_packet told_announced xs few
  rw [line, receive, hparse, absorb_lookup, htold, AList.lookup_empty, foldl_hears_listed,
    List.foldl_map]
  rfl

/-- The same lines in any order, line by line. -/
theorem order_irrelevant_iff {xs : List Dns.Announced} (few : xs.length ≤ 128) (now : Nat) :
    (∀ ys : List Dns.Announced, ys.Perm xs → ∀ k, line ys now k = line xs now k) ↔
      ∀ k, (∃ x ∈ xs, Points k x.said) → ∀ x ∈ xs, ¬ Says k x.said := by
  have hline : ∀ k, (∀ ys : List Dns.Announced, ys.Perm xs → line ys now k = line xs now k) ↔
      ((∃ x ∈ xs, Points k x.said) → ∀ x ∈ xs, ¬ Says k x.said) := by
    intro k
    have hiff := Dns.Listed.order_irrelevant_iff (fun _ : Ipv4Addr => false) k
      (fun x : Dns.Announced => toldBy x.said) xs
    simp only [toldBy_found_iff, adds_iff] at hiff
    rw [← hiff, line_eq few]
    apply forall₂_congr
    intro ys hperm
    rw [line_eq (by rwa [hperm.length_eq])]
  constructor
  · intro h k
    exact (hline k).mp fun ys hperm => h ys hperm k
  · intro h ys hperm k
    exact (hline k).mpr (h k) ys hperm

end QsBrowser

end Quickshare

/-! ## The browser on AWDL -/

namespace Sharingd.Mdns

open Rust Dns

def Peer.listed (p : Peer) : Listed Ipv6Addr where
  host := p.host
  port := p.port
  addr := p.addr
  name := none

namespace Browser

/-- Nothing is read from a TXT record. -/
theorem told_described {me : Own} {packet : Bytes} {r : Record} {inst : Text} {name : Option Text}
    (h : told me packet r = some (.described inst name)) : name = none := by
  unfold told at h
  split at h
  · split at h
    · cases h
    · split at h
      · cases h
      · cases h
  · split at h
    · cases h
      rfl
    · split at h
      · split at h
        · cases h
        · cases h
      · split at h
        · obtain ⟨addr, -, hlocated⟩ := Option.map_eq_some_iff.mp h
          cases hlocated
        · cases h

theorem hears_listed (me : Own) (packet : Bytes) (now : Nat) (k : Text) (entry : Option Peer)
    (r : Record) :
    (hears me packet now k entry r).map Peer.listed =
      Listed.hears me.isSelfAddr k (entry.map Peer.listed) (told me packet r) := by
  unfold hears
  cases ht : told me packet r with
  | none => rfl
  | some t =>
      cases t with
      | found inst =>
          by_cases hk : k = inst
          · cases entry with
            | none => simp [hear, Listed.hears, hk, fresh, Peer.listed, Listed.blank]
            | some p => simp [hear, Listed.hears, hk, Peer.listed]
          · simp [hear, Listed.hears, hk]
      | served inst port host =>
          by_cases hk : k = inst
          · cases entry with
            | none => simp [hear, Listed.hears]
            | some p => simp [hear, Listed.hears, hk, heardAt, Peer.listed]
          · simp [hear, Listed.hears, hk]
      | described inst name =>
          have hname := told_described ht
          subst hname
          by_cases hk : k = inst
          · cases entry with
            | none => simp [hear, Listed.hears]
            | some p => simp [hear, Listed.hears, hk, heardAt, Peer.listed]
          · simp [hear, Listed.hears, hk]
      | located host addr =>
          cases entry with
          | none =>
              cases hown : me.isSelfAddr addr with
              | true => simp [hear, Listed.hears, hown]
              | false => simp [hear, Listed.hears, hown]
          | some p =>
              cases hown : me.isSelfAddr addr with
              | true =>
                  by_cases hhost : p.host = host
                  · simp [hear, Listed.hears, hown, Option.filter, hhost, Peer.listed]
                  · simp [hear, Listed.hears, hown, Option.filter, hhost, Peer.listed]
              | false =>
                  by_cases hhost : p.host ≠ [] ∧ p.host = host
                  · simp only [Option.elim_some, hear, Option.map_some, Listed.hears, Peer.listed,
                      heardAt, hown, if_pos hhost, Bool.false_eq_true, if_false]
                  · simp only [Option.elim_some, hear, Option.map_some, Listed.hears, Peer.listed,
                      hown, if_neg hhost, Bool.false_eq_true, if_false]

/-- The record points at an instance that is not our own. -/
def Points (me : Own) (k : Text) : Said → Prop
  | .ptr owner target => owner.text = airdropService ∧ target.text = k ∧ ¬ me.isSelfInstance k
  | _ => False

/-- The record says more of an instance than that it is there, or that nothing without a host
is: our own address is taken for that of the entries that have none. -/
def Says (me : Own) (k : Text) : Said → Prop
  | .srv owner _ _ port host => owner.text = k ∧ (port ≠ 0 ∨ host.text ≠ [])
  | .aaaa owner addr => me.isSelfAddr addr ∧ owner.text = []
  | _ => False

theorem toldBy_found_iff (me : Own) (k : Text) (s : Said) :
    toldBy me s = some (.found k) ↔ Points me k s := by
  cases s with
  | ptr owner target =>
      simp only [toldBy, Points]
      split
      · rename_i howner
        split
        · rename_i hself
          simp only [reduceCtorEq, false_iff]
          intro h
          obtain ⟨-, rfl, hother⟩ := h
          exact hother hself
        · rename_i hother
          simp only [Option.some.injEq, Told.found.injEq]
          constructor
          · intro heq
            subst heq
            exact ⟨howner, rfl, hother⟩
          · exact fun h => h.2.1
      · rename_i howner
        simp [howner]
  | srv owner priority weight port host => simp [toldBy, Points]
  | txt owner rdata fits => simp [toldBy, Points]
  | a owner addr => simp [toldBy, Points]
  | aaaa owner addr => simp [toldBy, Points]

theorem adds_iff (me : Own) (k : Text) (s : Said) :
    Listed.Adds me.isSelfAddr k (toldBy me s) ↔ Says me k s := by
  cases s with
  | ptr owner target =>
      simp only [toldBy, Says]
      split
      · split
        · simp [Listed.Adds]
        · simp [Listed.Adds]
      · simp [Listed.Adds]
  | srv owner priority weight port host => simp [toldBy, Says, Listed.Adds]
  | txt owner rdata fits => simp [toldBy, Says, Listed.Adds]
  | a owner addr => simp [toldBy, Says, Listed.Adds]
  | aaaa owner addr => simp [toldBy, Says, Listed.Adds]

/-- What is listed of an instance after one packet. -/
def line (me : Own) (xs : List Announced) (now : Nat) (k : Text) : Option (Listed Ipv6Addr) :=
  ((receive me (Announced.packet xs) now ∅).lookup k).map Peer.listed

theorem foldl_hears_listed (me : Own) (packet : Bytes) (now : Nat) (k : Text)
    (records : List Record) (entry : Option Peer) :
    (records.foldl (hears me packet now k) entry).map Peer.listed =
      (records.map (told me packet)).foldl (Listed.hears me.isSelfAddr k)
        (entry.map Peer.listed) := by
  induction records generalizing entry with
  | nil => rfl
  | cons r records ih =>
      rw [List.foldl_cons, ih, hears_listed, List.map_cons, List.foldl_cons]

theorem line_eq (me : Own) {xs : List Announced} (few : xs.length ≤ 128) (now : Nat) (k : Text) :
    line me xs now k =
      xs.foldl (fun v x => Listed.hears me.isSelfAddr k v (toldBy me x.said)) none := by
  obtain ⟨records, hparse, htold⟩ := Announced.told_packet (told_announced me) xs few
  have hfold : xs.foldl (fun v x => Listed.hears me.isSelfAddr k v (toldBy me x.said)) none =
      (xs.map fun x => toldBy me x.said).foldl (Listed.hears me.isSelfAddr k) none :=
    (List.foldl_map).symm
  rw [line, receive, hparse, hfold, ← htold, absorb_lookup, AList.lookup_empty]
  exact foldl_hears_listed me (Announced.packet xs) now k records none

/-- The same lines in any order, line by line. -/
theorem order_irrelevant_iff (me : Own) {xs : List Announced} (few : xs.length ≤ 128)
    (now : Nat) :
    (∀ ys : List Announced, ys.Perm xs → ∀ k, line me ys now k = line me xs now k) ↔
      ∀ k, (∃ x ∈ xs, Points me k x.said) → ∀ x ∈ xs, ¬ Says me k x.said := by
  have hline : ∀ k, (∀ ys : List Announced, ys.Perm xs → line me ys now k = line me xs now k) ↔
      ((∃ x ∈ xs, Points me k x.said) → ∀ x ∈ xs, ¬ Says me k x.said) := by
    intro k
    have hiff := Listed.order_irrelevant_iff me.isSelfAddr k
      (fun x : Announced => toldBy me x.said) xs
    simp only [toldBy_found_iff, adds_iff] at hiff
    rw [← hiff, line_eq me few]
    apply forall₂_congr
    intro ys hperm
    rw [line_eq me (by rwa [hperm.length_eq])]
  constructor
  · intro h k
    exact (hline k).mp fun ys hperm => h ys hperm k
  · intro h ys hperm k
    exact (hline k).mpr (h k) ys hperm

end Browser

end Sharingd.Mdns

/-! ## Both -/

namespace Sharingd.Dns

open Rust Mdns Quickshare

/-- **The order of the records does not matter exactly where there is next to nothing in
them**: no instance that is pointed at has more said of it. -/
theorem record_order_iff (me : Own) (now : Nat) (xs : List Announced) (few : xs.length ≤ 128) :
    ((∀ ys : List Announced, ys.Perm xs →
        ∀ k, QsBrowser.line ys now k = QsBrowser.line xs now k) ↔
      ∀ k, (∃ x ∈ xs, QsBrowser.Points k x.said) → ∀ x ∈ xs, ¬ QsBrowser.Says k x.said) ∧
    ((∀ ys : List Announced, ys.Perm xs →
        ∀ k, Browser.line me ys now k = Browser.line me xs now k) ↔
      ∀ k, (∃ x ∈ xs, Browser.Points me k x.said) → ∀ x ∈ xs, ¬ Browser.Says me k x.said) :=
  ⟨QsBrowser.order_irrelevant_iff few now, Browser.order_irrelevant_iff me few now⟩

/-! ### A phone on both links -/

def phoneId : Octets endpointIdLen :=
  ⟨asBytes "aZ09".toList, rfl⟩

def phoneMetadata : Octets metadataLen :=
  ⟨List.replicate metadataLen 7, rfl⟩

def phoneAddr : Ipv4Addr :=
  ⟨[192, 168, 1, 7], rfl⟩

/-- What the phone answers on the LAN. -/
def lanPhone : List Announced :=
  QsResponder.announcedBy "Pixel".toList phoneId phoneMetadata phoneAddr 40985
    (by decide +kernel) ttlSecs

def awdlService : Name where
  labels := ["_airdrop".toList, "_tcp".toList, "local".toList]
  isLabel := by decide +kernel
  short := by decide +kernel

def awdlInst : Name where
  labels := ["8ed4b330f476".toList, "_airdrop".toList, "_tcp".toList, "local".toList]
  isLabel := by decide +kernel
  short := by decide +kernel

def awdlHost : Name where
  labels := ["Android_8ED4B330".toList, "local".toList]
  isLabel := by decide +kernel
  short := by decide +kernel

def awdlAddr : Ipv6Addr :=
  ⟨[0xFE, 0x80, 0, 0, 0, 0, 0, 0, 0x8C, 0xD4, 0xB3, 0xFF, 0xFE, 0x30, 0xF4, 0x76], rfl⟩

/-- What another one announces on AWDL. -/
def awdlPhone : List Announced :=
  [⟨.ptr awdlService awdlInst, 120, false⟩, ⟨.srv awdlInst 0 0 8770 awdlHost, 120, true⟩,
    ⟨.aaaa awdlHost awdlAddr, 120, true⟩]

def someone : Own where
  inst := "a1b2c3d4e5f6".toList
  stable := "a1b2c3d4e5f6".toList
  addr := none

theorem record_order_lanPhone :
    lanPhone.length ≤ 128 ∧
    (((∀ ys : List Announced, ys.Perm lanPhone →
        ∀ k, QsBrowser.line ys 0 k = QsBrowser.line lanPhone 0 k) ↔
      ∀ k, (∃ x ∈ lanPhone, QsBrowser.Points k x.said) →
        ∀ x ∈ lanPhone, ¬ QsBrowser.Says k x.said) ∧
    ((∀ ys : List Announced, ys.Perm lanPhone →
        ∀ k, Browser.line someone ys 0 k = Browser.line someone lanPhone 0 k) ↔
      ∀ k, (∃ x ∈ lanPhone, Browser.Points someone k x.said) →
        ∀ x ∈ lanPhone, ¬ Browser.Says someone k x.said)) := by
  have few : lanPhone.length ≤ 128 := by decide
  exact ⟨few, record_order_iff someone 0 lanPhone few⟩

/-- The same records the other way round: the peer is listed without a host, a port, an
address or a name. -/
theorem reversed_records_lost :
    lanPhone.reverse.Perm lanPhone ∧
    QsBrowser.line lanPhone 0 (QsResponder.instName phoneId).text =
      some ⟨(QsResponder.hostName phoneId).text, 40985, some phoneAddr,
        some "Pixel".toList⟩ ∧
    QsBrowser.line lanPhone.reverse 0 (QsResponder.instName phoneId).text =
      some ⟨[], 0, none, none⟩ ∧
    awdlPhone.reverse.Perm awdlPhone ∧
    Browser.line someone awdlPhone 0 awdlInst.text =
      some ⟨awdlHost.text, 8770, some awdlAddr, none⟩ ∧
    Browser.line someone awdlPhone.reverse 0 awdlInst.text = some ⟨[], 0, none, none⟩ := by
  refine ⟨List.reverse_perm _, ?_, ?_, List.reverse_perm _, ?_, ?_⟩
  · decide +kernel
  · decide +kernel
  · decide +kernel
  · decide +kernel

end Sharingd.Dns
