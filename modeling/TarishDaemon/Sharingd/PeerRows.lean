import Mathlib.Data.Char
import Mathlib.Data.List.Lex
import Mathlib.Data.Prod.Lex
import TarishDaemon.Lib.Newest
import TarishDaemon.Rust.Net
import TarishDaemon.Sharingd.BlePeers
import TarishDaemon.Sharingd.EvictionGate
import TarishDaemon.Sharingd.Received

/-!
# The rows of the picker

`getPeers` reads three hash maps, each of them in an order that is another one in every process
and after every insertion.  Somebody is looking at the rows meanwhile, with a finger over them.

Of the instances that have one name, or none but their own, the one seen last is shown, and the
rows are sorted by what nobody shares: the name and then the instance, or the endpoint id.  So
the rows are the same **in whatever order the maps are walked** (`getPeers_rows`).
-/

namespace Sharingd.Mdns.Browser

open Rust Dns Lts

/-! ## The table of a browser -/

/-- Every peer is under its own instance. -/
def Keyed (peers : HashMap Text Peer) : Prop :=
  ∀ k p, peers.lookup k = some p → p.inst = k

namespace Keyed

variable {peers : HashMap Text Peer}

theorem mapValues (keyed : Keyed peers) {f : Peer → Peer} (hf : ∀ p, (f p).inst = p.inst) :
    Keyed (peers.mapValues f) := by
  intro k q hq
  rw [HashMap.lookup_mapValues] at hq
  obtain ⟨p, hp, rfl⟩ := Option.map_eq_some_iff.mp hq
  rw [hf]
  exact keyed k p hp

theorem retain (keyed : Keyed peers) (keep : Peer → Bool) : Keyed (peers.retain keep) := by
  intro k p hp
  rw [HashMap.lookup_retain] at hp
  exact keyed k p (Option.filter_eq_some_iff.mp hp).1

theorem absorbRecord (keyed : Keyed peers) (me : Own) (packet : Bytes) (r : Record) (now : Nat) :
    Keyed (Browser.absorbRecord me packet now peers r) := by
  intro k q hq
  rw [absorbRecord_lookup] at hq
  have hseen := seen_of_hears hq
  split at hseen
  · rw [hseen.inst]
    cases hentry : peers.lookup k with
    | none => rfl
    | some p => exact keyed k p hentry
  · exact keyed k q hseen

end Keyed

namespace Tended

variable {s s' : Tended} {a : Act}

theorem keyed_step (keyed : Keyed s.peers) (h : step s a = some s') : Keyed s'.peers := by
  cases a with
  | setProbeEviction enabled now =>
      obtain ⟨-, h⟩ := Option.ite_none_right_eq_some.mp h
      cases h
      exact keyed
  | record me packet r now =>
      obtain ⟨-, h⟩ := Option.ite_none_right_eq_some.mp h
      cases h
      exact keyed.absorbRecord me packet r now
  | probe sent =>
      cases h
      apply keyed.mapValues
      intro p
      split
      · rfl
      · rfl
  | query sent =>
      cases h
      unfold query
      split
      · exact keyed.mapValues fun _ => rfl
      · exact keyed
  | restartQueryBurst =>
      cases h
      exact keyed
  | markUnreceptive unreceptive now =>
      obtain ⟨-, h⟩ := Option.ite_none_right_eq_some.mp h
      cases h
      exact keyed.mapValues fun _ => rfl
  | forgetPeers =>
      cases h
      intro k p hp
      simp at hp
  | expire minGrace now =>
      obtain ⟨-, h⟩ := Option.ite_none_right_eq_some.mp h
      cases h
      exact keyed.retain _

theorem keyed_of_run {t₀ : Nat} {acts : List Act} (run : Run (ofPartial step) (start t₀) acts s) :
    Keyed s.peers :=
  run.invariant (fun s => Keyed s.peers) (fun k p hp => by simp [start] at hp)
    fun _ _ _ keyed h => keyed_step keyed h

end Tended

end Sharingd.Mdns.Browser

namespace Sharingd

open Rust

/-! ## Order -/

/-- `str::cmp`. -/
def textCmp (a b : Text) : Ordering :=
  if a = b then .eq else if textLe a b then .lt else .gt

/-- By the first text, and by the second one where they share it. -/
def byThen {A : Type} (first second : A → Text) (a b : A) : Ordering :=
  (textCmp (first a) (first b)).then (textCmp (second a) (second b))

def sortBy {A : Type} (cmp : A → A → Ordering) (xs : List A) : List A :=
  xs.mergeSort fun a b => (cmp a b).isLE

theorem textLe_iff {a b : Text} : textLe a b = true ↔ a ≤ b := by
  rw [textLe, Bool.not_eq_true', List.lex_eq_false_iff_not_lex]
  have hlt : (fun c d : Char => decide (c.toNat < d.toNat) = true) = fun c d => c < d := by
    funext c d
    simp [Char.lt_def, UInt32.lt_iff_toNat_lt]
  rw [hlt]
  exact @not_lt Text _ b a

theorem textCmp_isLE {a b : Text} : (textCmp a b).isLE = true ↔ a ≤ b := by
  unfold textCmp
  split
  next heq => simp [heq]
  next hne =>
    rw [← textLe_iff]
    split
    next hle => simp [hle]
    next hnot => simp [hnot]

theorem byThen_isLE {A : Type} {first second : A → Text} {a b : A} :
    (byThen first second a b).isLE = true ↔
      toLex (first a, second a) ≤ toLex (first b, second b) := by
  rw [Prod.Lex.toLex_le_toLex, byThen]
  by_cases heq : first a = first b
  · have hfirst : textCmp (first a) (first b) = .eq := if_pos heq
    rw [hfirst, Ordering.eq_then, textCmp_isLE]
    simp [heq]
  · have hlt : (textCmp (first a) (first b)).isLE = true ↔ first a < first b := by
      rw [textCmp_isLE, lt_iff_le_and_ne]
      simp [heq]
    rw [← hlt, textCmp, if_neg heq]
    split
    next => simp
    next => simp [heq]

/-- Where the second text tells the elements apart, they can be sorted in one way only. -/
theorem sortBy_eq_of_perm {A : Type} {first second : A → Text} {xs ys : List A}
    (hperm : xs.Perm ys) (hinj : Set.InjOn second {x | x ∈ xs}) :
    sortBy (byThen first second) xs = sortBy (byThen first second) ys := by
  apply Newest.mergeSort_eq_of_perm (fun a => toLex (first a, second a)) _ hperm
  · intro a ha b hb hkey
    have hpair : (first a, second a) = (first b, second b) := toLex.injective hkey
    exact hinj ha hb (Prod.ext_iff.mp hpair).2
  · exact fun a b => byThen_isLE

/-- How a hash map is walked: over every entry once, in any order. -/
structure Walk (V : Type) where
  entries : HashMap Text V → List (Sigma fun _ : Text => V)
  perm : ∀ m, (entries m).Perm m.entries

def Walk.values {V : Type} (w : Walk V) (m : HashMap Text V) : List V :=
  (w.entries m).map Sigma.snd

theorem Walk.mem_values {V : Type} {w : Walk V} {m : HashMap Text V} {v : V} :
    v ∈ w.values m ↔ ∃ k, m.lookup k = some v := by
  constructor
  · intro hv
    obtain ⟨e, he, rfl⟩ := List.mem_map.mp hv
    exact ⟨e.1, List.mem_dlookup m.nodupKeys ((w.perm m).mem_iff.mp he)⟩
  · rintro ⟨k, hk⟩
    have hentry : (⟨k, v⟩ : Sigma fun _ : Text => V) ∈ m.entries := List.of_mem_dlookup hk
    exact List.mem_map.mpr ⟨⟨k, v⟩, (w.perm m).mem_iff.mpr hentry, rfl⟩

/-- Two walks of one map meet the same entries. -/
theorem Walk.perm_of_lookup {V : Type} (w w' : Walk V) {m m' : HashMap Text V}
    (h : ∀ k, m.lookup k = m'.lookup k) : (w.entries m).Perm (w'.entries m') := by
  have hentries : m.entries.Perm m'.entries := by
    apply List.lookup_ext m.nodupKeys m'.nodupKeys
    intro k v
    exact iff_of_eq (congrArg (v ∈ ·) (h k))
  exact (w.perm m).trans (hentries.trans (w'.perm m').symm)

/-! ## Peers -/

/-- The instance without the service. -/
def Mdns.Peer.shortId (p : Mdns.Peer) : Text :=
  p.inst.takeWhile (· ≠ '.')

/-- The table of a browser, in which a peer is under its own instance. -/
structure PeerTable where
  peers : HashMap Text Mdns.Peer
  keyed : Mdns.Browser.Keyed peers

/-- Whatever comes to it, the table of a browser is one. -/
def PeerTable.ofRun {t₀ : Nat} {acts : List Mdns.Browser.Tended.Act} {s : Mdns.Browser.Tended}
    (run : Lts.Run (Lts.ofPartial Mdns.Browser.Tended.step) (.start t₀) acts s) : PeerTable :=
  ⟨s.peers, Mdns.Browser.Tended.keyed_of_run run⟩

/-- An entry that has our own address is us. -/
def Mdns.Peer.isOther (us : Option Mdns.Ipv6Addr) (p : Mdns.Peer) : Bool :=
  p.addr.isNone || p.addr != us

/-- What leaves the browser. -/
def Mdns.Browser.peers (us : Option Mdns.Ipv6Addr) (w : Walk Mdns.Peer) (t : PeerTable) :
    List Mdns.Peer :=
  (w.values t.peers).filter (Mdns.Peer.isOther us)

/-- What is known of whether a peer takes what it is offered. -/
structure Accepting where
  stalls : UInt32

def acceptStallsToLabel : UInt32 := 2

def screenOffHideAfter : Nat := secs 6

def screenOffHidden (now : Nat) (p : Mdns.Peer) : Bool :=
  p.unreceptiveSince.any fun t => screenOffHideAfter ≤ now - t

/-! ## Rows -/

inductive PeerProtocol
  | airdrop
  | quickshare
  deriving DecidableEq, Repr

inductive PeerState
  | receptive
  | screenOff
  | notAccepting
  deriving DecidableEq, Repr

structure TarishPeer where
  id : Text
  name : Text
  model : Text
  rssi : Int
  protocol : PeerProtocol
  bluetoothMac : Text
  bleAddress : Text
  psm : Int
  state : PeerState
  deriving DecidableEq, Repr

section

variable (names : HashMap Text Text) (accepting : HashMap Text Accepting)

/-- The name that `/Discover` gave. -/
def resolved (p : Mdns.Peer) : Option Text :=
  p.addr.bind fun a => names.lookup (Ipv6Addr.toText a)

/-- What makes two instances one device. -/
def keyOf (p : Mdns.Peer) : Text :=
  (resolved names p).getD p.inst

def nameOf (p : Mdns.Peer) : Text :=
  (resolved names p).getD p.shortId

def newest (peers : List Mdns.Peer) : HashMap Text Mdns.Peer :=
  peers.foldl
    (fun m p =>
      match m.lookup (keyOf names p) with
      | none => m.insert (keyOf names p) p
      | some _ => m.modify (keyOf names p) fun kept => if p.lastSeen > kept.lastSeen then p else kept)
    ∅

def stateOf (p : Mdns.Peer) : PeerState :=
  if p.unreceptiveSince.isSome then .screenOff
  else if (p.addr.bind fun a => accepting.lookup (Ipv6Addr.toText a)).any
      fun a => acceptStallsToLabel ≤ a.stalls then .notAccepting
  else .receptive

/-- The row of an AirDrop peer. -/
def airdropRow (p : Mdns.Peer) : TarishPeer where
  id := p.inst
  name := nameOf names p
  model := []
  rssi := 0
  protocol := .airdrop
  bluetoothMac := []
  bleAddress := []
  psm := 0
  state := stateOf accepting p

/-- The row of a Quick Share peer, which has no other state than to be heard. -/
def quickshareRow (id : Text) (p : BlePeer) : TarishPeer where
  id := id
  name := p.name.getD id
  model := []
  rssi := 0
  protocol := .quickshare
  bluetoothMac := p.mac.getD []
  bleAddress := p.bleAddress
  psm := p.psm.toNat
  state := .receptive

end

/-- What `getPeers` reads, and of which it drops what has expired. -/
structure Tables where
  peers : PeerTable
  us : Option Mdns.Ipv6Addr
  names : HashMap Text Text
  accepting : HashMap Text Accepting
  blePeers : HashMap Text BlePeer
  queryNow : Bool

/-- The orders in which a call walks its maps. -/
structure Walks where
  peers : Walk Mdns.Peer
  newest : Walk Mdns.Peer
  blePeers : Walk BlePeer

/-- The clock is taken to stand still while the rows are made. -/
def getPeers (w : Walks) (t : Tables) (now : Nat) : List TarishPeer × Tables :=
  let peers := Mdns.Browser.peers t.us w.peers t.peers
  let shown := newest t.names (peers.filter fun p => !screenOffHidden now p)
  let out := sortBy (byThen (nameOf t.names) Mdns.Peer.inst) (w.newest.values shown)
  let ble := BlePeers.unexpired now t.blePeers
  let quickshare := (w.blePeers.entries ble).map fun e => quickshareRow e.1 e.2
  (out.map (airdropRow t.names t.accepting) ++
      sortBy (byThen TarishPeer.name TarishPeer.id) quickshare,
    { t with blePeers := ble, queryNow := t.queryNow || peers.isEmpty })

/-! ## What is shown -/

/-- A peer that may be shown: it is not us, and its screen is not off. -/
structure Visible (t : Tables) (now : Nat) (p : Mdns.Peer) : Prop where
  known : ∃ k, t.peers.peers.lookup k = some p
  other : p.isOther t.us = true
  shown : screenOffHidden now p = false

section

variable {w w' : Walks} {t : Tables} {now : Nat} {p : Mdns.Peer} {names : HashMap Text Text}

def visible (w : Walks) (t : Tables) (now : Nat) : List Mdns.Peer :=
  (Mdns.Browser.peers t.us w.peers t.peers).filter fun p => !screenOffHidden now p

theorem mem_visible : p ∈ visible w t now ↔ Visible t now p := by
  simp only [visible, Mdns.Browser.peers, List.mem_filter, Walk.mem_values, Bool.not_eq_true']
  constructor
  · rintro ⟨⟨known, other⟩, shown⟩
    exact ⟨known, other, shown⟩
  · rintro ⟨known, other, shown⟩
    exact ⟨⟨known, other⟩, shown⟩

/-- No two of the browser's peers were heard at one time. -/
def Tables.Distinct (t : Tables) : Prop :=
  (t.peers.peers.entries.filter fun e => e.2.isOther t.us).Pairwise fun e e' =>
    e.2.lastSeen ≠ e'.2.lastSeen

instance (t : Tables) : Decidable t.Distinct :=
  inferInstanceAs (Decidable (List.Pairwise _ _))

theorem Tables.Distinct.injOn (distinct : t.Distinct) :
    Set.InjOn Mdns.Peer.lastSeen {p | Visible t now p} := by
  intro p hp q hq hseen
  obtain ⟨k, hk⟩ := hp.known
  obtain ⟨k', hk'⟩ := hq.known
  have hentry : (⟨k, p⟩ : Sigma fun _ : Text => Mdns.Peer) ∈
      t.peers.peers.entries.filter fun e => e.2.isOther t.us :=
    List.mem_filter.mpr ⟨List.of_mem_dlookup hk, hp.other⟩
  have hentry' : (⟨k', q⟩ : Sigma fun _ : Text => Mdns.Peer) ∈
      t.peers.peers.entries.filter fun e => e.2.isOther t.us :=
    List.mem_filter.mpr ⟨List.of_mem_dlookup hk', hq.other⟩
  have : Std.Symm fun e e' : Sigma fun _ : Text => Mdns.Peer =>
      e.2.lastSeen ≠ e'.2.lastSeen := ⟨fun _ _ h => h.symm⟩
  by_contra hne
  have hentries : (⟨k, p⟩ : Sigma fun _ : Text => Mdns.Peer) ≠ ⟨k', q⟩ := by
    intro heq
    cases heq
    exact hne rfl
  exact List.Pairwise.forall distinct hentry hentry' hentries hseen

theorem inst_injOn : Set.InjOn Mdns.Peer.inst {p | Visible t now p} := by
  intro p hp q hq hinst
  obtain ⟨k, hk⟩ := hp.known
  obtain ⟨k', hk'⟩ := hq.known
  have hkeys : k = k' := (t.peers.keyed k p hk).symm.trans (hinst.trans (t.peers.keyed k' q hk'))
  subst hkeys
  exact Option.some.inj (hk.symm.trans hk')

/-- The loop keeps the newest of each key. -/
theorem lookup_newest (peers : List Mdns.Peer) :
    (newest names peers).lookup =
      peers.foldl (Newest.keep (keyOf names) Mdns.Peer.lastSeen) fun _ => none := by
  unfold newest
  refine (List.foldl_hom (fun m : HashMap Text Mdns.Peer => (m.lookup : Text → Option Mdns.Peer))
    ?_).symm
  intro m p
  funext k
  unfold Newest.keep
  by_cases hk : k = keyOf names p
  · subst hk
    rw [Function.update_self]
    cases hkept : m.lookup (keyOf names p) with
    | none =>
        rw [AList.lookup_insert]
        simp only [hkept, Newest.later, Option.elim_none]
    | some kept =>
        rw [HashMap.lookup_modify, if_pos rfl]
        simp only [hkept, Newest.later, Option.elim_some, Option.map_some, gt_iff_lt]
  · rw [Function.update_of_ne hk]
    cases hkept : m.lookup (keyOf names p) with
    | none => rw [AList.lookup_insert_ne hk]
    | some kept => rw [HashMap.lookup_modify, if_neg hk]

/-- The newest visible peer of each key. -/
theorem newest_holds (w : Walks) (t : Tables) (now : Nat) :
    Newest.Holds (keyOf t.names) Mdns.Peer.lastSeen {p | Visible t now p}
      (newest t.names (visible w t now)).lookup := by
  have hset : {p | p ∈ visible w t now} = {p | Visible t now p} := Set.ext fun _ => mem_visible
  rw [lookup_newest, ← hset]
  exact Newest.Holds.foldl (visible w t now)

/-- The AirDrop peers that are shown, in their order. -/
def shown (w : Walks) (t : Tables) (now : Nat) : List Mdns.Peer :=
  sortBy (byThen (nameOf t.names) Mdns.Peer.inst)
    (w.newest.values (newest t.names (visible w t now)))

theorem mem_shown :
    p ∈ shown w t now ↔ ∃ k, (newest t.names (visible w t now)).lookup k = some p :=
  List.mem_mergeSort.trans Walk.mem_values

theorem latest_of_shown (hp : p ∈ shown w t now) :
    Newest.Latest (keyOf t.names) Mdns.Peer.lastSeen {p | Visible t now p} p := by
  obtain ⟨k, hk⟩ := mem_shown.mp hp
  exact ((newest_holds w t now).latest k p hk).2

theorem exists_shown (hp : Visible t now p) :
    ∃ q ∈ shown w t now, keyOf t.names q = keyOf t.names p := by
  obtain ⟨q, hq⟩ := Option.isSome_iff_exists.mp ((newest_holds w t now).each p hp)
  exact ⟨q, mem_shown.mpr ⟨_, hq⟩, ((newest_holds w t now).latest _ q hq).1⟩

/-- No key is shown twice: they are the keys of a map. -/
theorem shown_nodup (w : Walks) (t : Tables) (now : Nat) :
    ((shown w t now).map (keyOf t.names)).Nodup := by
  let m := newest t.names (visible w t now)
  have hkeys : (w.newest.values m).map (keyOf t.names) = (w.newest.entries m).keys := by
    rw [Walk.values, List.map_map]
    apply List.map_congr_left
    intro e he
    have hlookup : m.lookup e.1 = some e.2 :=
      List.mem_dlookup m.nodupKeys ((w.newest.perm m).mem_iff.mp he)
    exact ((newest_holds w t now).latest e.1 e.2 hlookup).1
  have hnodup : ((w.newest.values m).map (keyOf t.names)).Nodup := by
    rw [hkeys]
    exact (List.perm_nodupKeys (w.newest.perm m)).mpr m.nodupKeys
  have hperm : (shown w t now).Perm (w.newest.values m) := List.mergeSort_perm _ _
  exact (hperm.map (keyOf t.names)).nodup_iff.mpr hnodup

/-- **The AirDrop rows do not show how the maps were walked.** -/
theorem shown_eq (distinct : t.Distinct) (w w' : Walks) : shown w t now = shown w' t now := by
  apply sortBy_eq_of_perm
  · have hlookup := (newest_holds w t now).unique distinct.injOn (newest_holds w' t now)
    exact (w.newest.perm_of_lookup w'.newest (congrFun hlookup)).map Sigma.snd
  · intro p hp q hq hinst
    have hp := latest_of_shown (List.mem_mergeSort.mpr hp)
    have hq := latest_of_shown (List.mem_mergeSort.mpr hq)
    exact inst_injOn hp.1 hq.1 hinst

/-- The Quick Share rows, in their order. -/
def heardRows (w : Walks) (ble : HashMap Text BlePeer) : List TarishPeer :=
  sortBy (byThen TarishPeer.name TarishPeer.id)
    ((w.blePeers.entries ble).map fun e => quickshareRow e.1 e.2)

theorem heardRows_eq (ble : HashMap Text BlePeer) (w w' : Walks) :
    heardRows w ble = heardRows w' ble := by
  apply sortBy_eq_of_perm
  · exact (w.blePeers.perm_of_lookup w'.blePeers fun _ => rfl).map _
  · intro r hr r' hr' hid
    obtain ⟨e, he, rfl⟩ := List.mem_map.mp hr
    obtain ⟨e', he', rfl⟩ := List.mem_map.mp hr'
    have he := (w.blePeers.perm ble).mem_iff.mp he
    have he' := (w.blePeers.perm ble).mem_iff.mp he'
    have hentry : e = e' := ble.nodupKeys.eq_of_fst_eq he he' hid
    rw [hentry]

theorem protocol_of_heardRows {ble : HashMap Text BlePeer} {r : TarishPeer}
    (hr : r ∈ heardRows w ble) : r.protocol = .quickshare := by
  obtain ⟨e, _, rfl⟩ := List.mem_map.mp (List.mem_mergeSort.mp hr)
  rfl

theorem getPeers_rows_eq (w : Walks) (t : Tables) (now : Nat) :
    (getPeers w t now).1 = (shown w t now).map (airdropRow t.names t.accepting) ++
      heardRows w (BlePeers.unexpired now t.blePeers) := rfl

/-- For the table of BLE peers the call is that of `BlePeers`. -/
theorem getPeers_blePeers (w : Walks) (t : Tables) (now : Nat) :
    (getPeers w t now).2.blePeers = BlePeers.step t.blePeers (.getPeers now) := rfl

theorem peers_isEmpty (w w' : Walks) (t : Tables) :
    (Mdns.Browser.peers t.us w.peers t.peers).isEmpty =
      (Mdns.Browser.peers t.us w'.peers t.peers).isEmpty := by
  have hentries : (w.peers.entries t.peers.peers).Perm (w'.peers.entries t.peers.peers) :=
    w.peers.perm_of_lookup w'.peers fun _ => rfl
  have hperm : (Mdns.Browser.peers t.us w.peers t.peers).Perm
      (Mdns.Browser.peers t.us w'.peers t.peers) := by
    unfold Mdns.Browser.peers Walk.values
    exact (hentries.map Sigma.snd).filter _
  exact hperm.isEmpty_eq

/-- **The rows are those of the tables.**  Where no two peers were heard at one time, the maps
may be walked in any order.  For each key of the visible peers there is one AirDrop row, and it
is of the peer of that key that was seen last. -/
theorem getPeers_rows (t : Tables) (now : Nat) (distinct : t.Distinct) :
    (∀ w w', getPeers w t now = getPeers w' t now) ∧
      ∀ w, ∃ shown : List Mdns.Peer,
        (getPeers w t now).1.filter (fun r => r.protocol = .airdrop) =
          shown.map (airdropRow t.names t.accepting) ∧
        (shown.map (keyOf t.names)).Nodup ∧
        (∀ p, Visible t now p → ∃ q ∈ shown, keyOf t.names q = keyOf t.names p) ∧
        ∀ q ∈ shown, Visible t now q ∧
          ∀ p, Visible t now p → keyOf t.names p = keyOf t.names q → p.lastSeen ≤ q.lastSeen := by
  constructor
  · intro w w'
    apply Prod.ext
    · rw [getPeers_rows_eq, getPeers_rows_eq, shown_eq distinct w w', heardRows_eq _ w w']
    · simp only [getPeers, peers_isEmpty w w' t]
  · intro w
    refine ⟨shown w t now, ?_, shown_nodup w t now, fun p hp => exists_shown hp, ?_⟩
    · have hairdrop : ∀ r ∈ (shown w t now).map (airdropRow t.names t.accepting),
          decide (r.protocol = .airdrop) = true := by
        intro r hr
        obtain ⟨p, _, rfl⟩ := List.mem_map.mp hr
        rfl
      have hheard : ∀ r ∈ heardRows w (BlePeers.unexpired now t.blePeers),
          ¬decide (r.protocol = .airdrop) = true := by
        intro r hr
        simp [protocol_of_heardRows hr]
      rw [getPeers_rows_eq, List.filter_append, List.filter_eq_self.mpr hairdrop,
        List.filter_eq_nil_iff.mpr hheard, List.append_nil]
    · intro q hq
      exact latest_of_shown hq

/-- A notebook that has just taken a new instance name; the old one is still listed. -/
def notebook (label : Text) (seen : Nat) : Mdns.Peer where
  inst := label ++ '.' :: Mdns.airdropService
  host := label ++ ".local".toList
  port := 8770
  addr := some Dns.awdlAddr
  lastSeen := seen
  expiresAt := secs 120
  unanswered := 0
  unreceptiveSince := none
  withdrawn := false

def oldName : Mdns.Peer := notebook "3f9c1d20ab4e".toList 1

def newName : Mdns.Peer := notebook "b81e07c5d9f2".toList 2

def rotated : Tables where
  peers := {
    peers := ⟨[⟨oldName.inst, oldName⟩, ⟨newName.inst, newName⟩], by
      rw [List.NodupKeys]
      decide⟩
    keyed := by
      intro k p hp
      have hentry := List.of_mem_dlookup hp
      simp only [List.mem_cons, List.not_mem_nil, or_false] at hentry
      rcases hentry with heq | heq
      · cases heq
        rfl
      · cases heq
        rfl }
  us := none
  names := AList.insert (Ipv6Addr.toText Dns.awdlAddr) "Notebook".toList ∅
  accepting := ∅
  blePeers := ∅
  queryNow := false

theorem getPeers_rows_rotated : rotated.Distinct ∧
    ∀ w w', getPeers w rotated (secs 3) = getPeers w' rotated (secs 3) :=
  ⟨by decide, (getPeers_rows rotated (secs 3) (by decide)).1⟩

end

end Sharingd
