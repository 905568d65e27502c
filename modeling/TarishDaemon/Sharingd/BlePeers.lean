import TarishDaemon.Lib.Run
import TarishDaemon.Sharingd.Ble
import TarishDaemon.Sharingd.Transfers

/-!
# The table of BLE peers

A phone that advertises changes its endpoint id, its BLE address and its PSM together, and
keeps its Bluetooth MAC.  The table is keyed by the id all the same, so `reportBlePeer` takes
out by hand what another id says of the same MAC.

A row that has a MAC is then what the last accepted advertisement with that MAC said
(`one_row_per_mac`): nothing else writes that MAC into the table, and the report that did took
every other row with it out.
-/

namespace Sharingd

open Rust Ble

/-- A Quick Share peer seen over BLE. -/
structure BlePeer where
  name : Option Text
  mac : Option Text
  /-- The address the advertisement came from. -/
  bleAddress : Text
  /-- 0 where it published none. -/
  psm : UInt16
  seen : Nat
  deriving DecidableEq, Repr

namespace BlePeer

def ttl : Nat := secs 20

def fresh (now : Nat) (p : BlePeer) : Bool :=
  now - p.seen < ttl

/-- What is said of the peer that was heard from `address`. -/
def heard (address : Text) (a : Advertisement) (now : Nat) : BlePeer where
  name := a.deviceName
  mac := a.bluetoothMac
  bleAddress := address
  psm := a.psm.getD 0
  seen := now

end BlePeer

namespace BlePeers

/-- `reportBlePeer` has no use for the other advertisements: a peer that cannot be reached is
better not listed. -/
def accepted (serviceData : Bytes) : Option Advertisement :=
  (parseAdvertisement serviceData).filter fun a => !(a.bluetoothMac.isNone && !a.verified)

def unexpired (now : Nat) (peers : HashMap Text BlePeer) : HashMap Text BlePeer :=
  peers.retain (BlePeer.fresh now)

/-- The rows that an advertisement leaves: one with a MAC replaces every row of that MAC. -/
def others (a : Advertisement) (peers : HashMap Text BlePeer) : HashMap Text BlePeer :=
  match a.bluetoothMac with
  | none => peers
  | some mac => peers.retainEntries fun id p => id == a.endpointId || p.mac != some mac

def reportBlePeer (address : Text) (serviceData : Bytes) (now : Nat)
    (peers : HashMap Text BlePeer) : HashMap Text BlePeer :=
  match accepted serviceData with
  | none => peers
  | some a =>
      (others a (unexpired now peers)).insert a.endpointId (BlePeer.heard address a now)

inductive Call
  | reportBlePeer (address : Text) (serviceData : Bytes) (now : Nat)
  /-- The list is read, and what has expired goes first. -/
  | getPeers (now : Nat)
  deriving DecidableEq, Repr

def step (peers : HashMap Text BlePeer) : Call → HashMap Text BlePeer
  | .reportBlePeer address serviceData now =>
      BlePeers.reportBlePeer address serviceData now peers
  | .getPeers now => unexpired now peers

/-- The table after the calls, which begins empty. -/
def table (calls : List Call) : HashMap Text BlePeer :=
  calls.foldl step ∅

/-- An advertisement with where and when it was heard. -/
structure Sighting where
  address : Text
  advertisement : Advertisement
  now : Nat

/-- The call reports an advertisement that carries the MAC, and it is accepted. -/
def Call.sighting (mac : Text) : Call → Option Sighting
  | .reportBlePeer address serviceData now =>
      ((accepted serviceData).filter fun a => a.bluetoothMac = some mac).map fun a =>
        ⟨address, a, now⟩
  | .getPeers _ => none

/-- The last one of the MAC. -/
def latest (mac : Text) (calls : List Call) : Option Sighting :=
  (calls.filterMap (Call.sighting mac)).getLast?

/-- The row is what was last heard of its MAC. -/
def Sighting.Says (s : Sighting) (id : Text) (p : BlePeer) : Prop :=
  id = s.advertisement.endpointId ∧ p = BlePeer.heard s.address s.advertisement s.now

/-- Every row that has a MAC is what was last heard of it. -/
def UpToDate (calls : List Call) (peers : HashMap Text BlePeer) : Prop :=
  ∀ id p mac, peers.lookup id = some p → p.mac = some mac →
    ∃ s, latest mac calls = some s ∧ s.Says id p

variable {calls : List Call} {peers : HashMap Text BlePeer} {call : Call} {mac id : Text}
  {p : BlePeer} {s : Sighting} {now : Nat}

/-! ### One call -/

theorem latest_concat_none (h : call.sighting mac = none) :
    latest mac (calls ++ [call]) = latest mac calls := by
  rw [latest, List.filterMap_append, List.filterMap_cons_none h, List.filterMap_nil,
    List.append_nil, latest]

theorem latest_concat_some (h : call.sighting mac = some s) :
    latest mac (calls ++ [call]) = some s := by
  rw [latest, List.filterMap_append, List.filterMap_cons_some h, List.filterMap_nil,
    List.getLast?_concat]

theorem lookup_unexpired (h : (unexpired now peers).lookup id = some p) :
    peers.lookup id = some p := by
  rw [unexpired, HashMap.lookup_retain] at h
  exact (Option.filter_eq_some_iff.mp h).1

/-- Of another id, a row stays only where its MAC is another one. -/
theorem lookup_others {a : Advertisement} (h : (others a peers).lookup id = some p)
    (hid : id ≠ a.endpointId) :
    peers.lookup id = some p ∧ ∀ mac, p.mac = some mac → a.bluetoothMac ≠ some mac := by
  unfold others at h
  cases hsaid : a.bluetoothMac with
  | none =>
      rw [hsaid] at h
      exact ⟨h, fun mac _ hsame => nomatch hsame⟩
  | some said =>
      rw [hsaid] at h
      simp only [HashMap.lookup_retainEntries] at h
      obtain ⟨hlookup, hkept⟩ := Option.filter_eq_some_iff.mp h
      have hother : p.mac ≠ some said := by simpa [hid] using hkept
      exact ⟨hlookup, fun mac hmac hsame => hother (hmac.trans hsame.symm)⟩

/-- What a call leaves of an up-to-date table is up to date, where the call says nothing of
the MACs that are left. -/
theorem UpToDate.concat (uptodate : UpToDate calls peers) (hlookup : peers.lookup id = some p)
    (hmac : p.mac = some mac) (hsilent : call.sighting mac = none) :
    ∃ s, latest mac (calls ++ [call]) = some s ∧ s.Says id p := by
  rw [latest_concat_none hsilent]
  exact uptodate id p mac hlookup hmac

theorem UpToDate.unexpired (uptodate : UpToDate calls peers) (now : Nat) :
    UpToDate (calls ++ [.getPeers now]) (BlePeers.unexpired now peers) :=
  fun _ _ _ hlookup hmac => uptodate.concat (lookup_unexpired hlookup) hmac rfl

theorem UpToDate.reportBlePeer (uptodate : UpToDate calls peers) (address : Text)
    (serviceData : Bytes) (now : Nat) :
    UpToDate (calls ++ [.reportBlePeer address serviceData now])
      (BlePeers.reportBlePeer address serviceData now peers) := by
  intro id p mac hlookup hmac
  unfold BlePeers.reportBlePeer at hlookup
  cases haccepted : accepted serviceData with
  | none =>
      rw [haccepted] at hlookup
      exact uptodate.concat hlookup hmac (by simp [Call.sighting, haccepted])
  | some a =>
      rw [haccepted] at hlookup
      simp only at hlookup
      by_cases hid : id = a.endpointId
      · -- The row that the report wrote.
        subst hid
        rw [AList.lookup_insert] at hlookup
        obtain rfl := Option.some.inj hlookup
        have hsays : a.bluetoothMac = some mac := hmac
        refine ⟨⟨address, a, now⟩, latest_concat_some ?_, rfl, rfl⟩
        simp [Call.sighting, haccepted, Option.filter, hsays]
      · -- A row that it left.  Its MAC is not that of the report.
        rw [AList.lookup_insert_ne hid] at hlookup
        obtain ⟨hkept, hothers⟩ := lookup_others hlookup hid
        have hother : a.bluetoothMac ≠ some mac := hothers mac hmac
        refine uptodate.concat (lookup_unexpired hkept) hmac ?_
        simp [Call.sighting, haccepted, Option.filter, hother]

/-! ### All of them -/

theorem upToDate_table (calls : List Call) : UpToDate calls (table calls) := by
  refine (Lts.run_foldl step ∅ calls).invariant_acts UpToDate ?_ ?_
  · intro id p mac hlookup _
    simp at hlookup
  · rintro calls peers call _ uptodate rfl
    cases call with
    | reportBlePeer address serviceData now =>
        exact uptodate.reportBlePeer address serviceData now
    | getPeers now => exact uptodate.unexpired now

/-- Whatever row there is of a MAC, it is under the id that was last heard of it. -/
theorem keys_of_mac (calls : List Call) (mac : Text) :
    ((table calls).entries.filter fun e => e.2.mac = some mac).keys ⊆
      ((latest mac calls).map (·.advertisement.endpointId)).toList := by
  intro id hid
  obtain ⟨e, he, rfl⟩ := List.mem_map.mp hid
  obtain ⟨hentry, hmac⟩ := List.mem_filter.mp he
  have hlookup : (table calls).lookup e.1 = some e.2 :=
    List.mem_dlookup (table calls).nodupKeys hentry
  obtain ⟨s, hs, hsays⟩ := upToDate_table calls e.1 e.2 mac hlookup (by simpa using hmac)
  rw [hs, Option.map_some, Option.toList_some, hsays.1]
  exact List.mem_singleton.mpr rfl

/-- **One row per device.**  However the calls come, there is at most one row of a MAC, and it
carries the endpoint id, the BLE address and the PSM of the last accepted advertisement that
carried that MAC. -/
theorem one_row_per_mac (calls : List Call) (mac : Text) :
    ((table calls).entries.filter fun e => e.2.mac = some mac).length ≤ 1 ∧
      ∀ id p, (table calls).lookup id = some p → p.mac = some mac →
        ∃ s, latest mac calls = some s ∧ id = s.advertisement.endpointId ∧
          p.bleAddress = s.address ∧ p.psm = s.advertisement.psm.getD 0 := by
  constructor
  · have hnodup : ((table calls).entries.filter fun e => e.2.mac = some mac).keys.Nodup :=
      (table calls).nodupKeys.sublist List.filter_sublist
    have hlength := (List.subperm_of_subset hnodup (keys_of_mac calls mac)).length_le
    rw [List.keys, List.length_map] at hlength
    exact le_trans hlength Option.length_toList_le
  · intro id p hlookup hmac
    obtain ⟨s, hs, rfl, rfl⟩ := upToDate_table calls id p mac hlookup hmac
    exact ⟨s, hs, rfl, rfl, rfl⟩

end BlePeers

end Sharingd
