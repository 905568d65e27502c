import TarishDaemon.Lib.Whole
import TarishDaemon.Rust.Text

/-!
# Apple's manufacturer data

What an Apple device says of itself on Bluetooth: messages back to back, each with a byte for
its type and one for its length in front.  Two types are looked into; one of them tells whether
the device takes an AirDrop now.

A stranger sends it, and it may break off anywhere: what was whole is read, and nothing else
(`parse_messages`).
-/

namespace Protocol

open Rust

namespace Apple

def typeAirdrop : UInt8 := 0x05

def typeNearbyInfo : UInt8 := 0x10

def flagReceptive : UInt8 := 0x40

structure NearbyInfo where
  flags : UInt8
  action : UInt8
  deriving DecidableEq, Repr

/-- AirDrop is on and the device unlocked. -/
def NearbyInfo.receptive (n : NearbyInfo) : Bool :=
  n.flags &&& flagReceptive ≠ 0

structure AirDropBeacon where
  version : UInt8
  /-- Four of two bytes. -/
  hashes : List (UInt8 × UInt8)
  deriving DecidableEq, Repr

inductive Message
  | nearbyInfo (n : NearbyInfo)
  | airDrop (b : AirDropBeacon)
  | other (t : UInt8)
  deriving DecidableEq, Repr

/-- What a message of this type and with this body is read as. -/
def message (t : UInt8) (body : Bytes) : Message :=
  if t = typeNearbyInfo ∧ body.length ≥ 2 then
    .nearbyInfo { flags := body.getD 0 0, action := body.getD 1 0 }
  else if t = typeAirdrop ∧ body.length ≥ 17 then
    .airDrop {
      version := body.getD 8 0
      hashes := (List.range 4).map fun n => (body.getD (9 + 2 * n) 0, body.getD (10 + 2 * n) 0) }
  else .other t

/-- One round of the loop of `parse`, on the bytes that are left. -/
def nextMessage : Bytes → Option (Message × Bytes)
  | t :: len :: rest =>
      if len.toNat ≤ rest.length then
        some (message t (rest.take len.toNat), rest.drop len.toNat)
      else none
  | _ => none

def parse (data : Bytes) : List Message :=
  Whole.readAll nextMessage data

def Message.nearbyInfo? : Message → Option NearbyInfo
  | .nearbyInfo n => some n
  | _ => none

def nearbyInfo (data : Bytes) : Option NearbyInfo :=
  (parse data).findSome? Message.nearbyInfo?

/-! ## What is sent -/

/-- A message, with a body that its length can be told of. -/
structure Tlv where
  type : UInt8
  body : Bytes
  fits : body.length ≤ 255

namespace Tlv

def encode (m : Tlv) : Bytes :=
  m.type :: UInt8.ofNat m.body.length :: m.body

def message (m : Tlv) : Message :=
  Apple.message m.type m.body

/-- A Nearby Info message that has its two bytes. -/
def isNearbyInfo (m : Tlv) : Bool :=
  m.type == typeNearbyInfo && m.body.length ≥ 2

def info (m : Tlv) : NearbyInfo :=
  { flags := m.body.getD 0 0, action := m.body.getD 1 0 }

theorem nextMessage_encode (m : Tlv) (rest : Bytes) :
    nextMessage (m.encode ++ rest) = some (m.message, rest) := by
  have hlen : (UInt8.ofNat m.body.length).toNat = m.body.length :=
    toNat_ofNat_byte (Nat.lt_succ_of_le m.fits)
  have hfits : m.body.length ≤ (m.body ++ rest).length := by
    rw [List.length_append]
    exact Nat.le_add_right _ _
  simp only [encode, List.cons_append, nextMessage, hlen, if_pos hfits, List.take_left,
    List.drop_left]
  rfl

theorem nearbyInfo?_message (m : Tlv) :
    m.message.nearbyInfo? = if m.isNearbyInfo then some m.info else none := by
  have hinfo : m.isNearbyInfo = true ↔ m.type = typeNearbyInfo ∧ m.body.length ≥ 2 := by
    simp [isNearbyInfo]
  by_cases hnear : m.type = typeNearbyInfo ∧ m.body.length ≥ 2
  · rw [if_pos (hinfo.mpr hnear), message, Apple.message, if_pos hnear]
    rfl
  · rw [if_neg (mt hinfo.mp hnear), message, Apple.message, if_neg hnear]
    split
    · rfl
    · rfl

end Tlv

/-- A message is whole by itself. -/
theorem rules : Whole.Rules nextMessage where
  shorter := by
    intro input item rest h
    match input with
    | [] => cases h
    | [_] => cases h
    | t :: len :: tail =>
        rw [nextMessage] at h
        split at h
        · cases h
          simp only [List.length_drop, List.length_cons]
          omega
        · cases h
  stays := by
    intro input item rest h more
    match input with
    | [] => cases h
    | [_] => cases h
    | t :: len :: tail =>
        rw [nextMessage] at h
        split at h
        · next hfits =>
            cases h
            have hmore : len.toNat ≤ (tail ++ more).length := by
              rw [List.length_append]
              exact Nat.le_add_right_of_le hfits
            simp only [List.cons_append, nextMessage, if_pos hmore,
              List.take_append_of_le_length hfits, List.drop_append_of_le_length hfits]
        · cases h

theorem findSome?_messages (ms : List Tlv) :
    (ms.map Tlv.message).findSome? Message.nearbyInfo? =
      (ms.find? Tlv.isNearbyInfo).map Tlv.info := by
  induction ms with
  | nil => rfl
  | cons m ms ih =>
      rw [List.map_cons, List.findSome?_cons, m.nearbyInfo?_message]
      cases hnear : m.isNearbyInfo with
      | true =>
          rw [List.find?_cons_of_pos hnear]
          rfl
      | false =>
          rw [List.find?_cons_of_neg (by rw [hnear]; exact Bool.false_ne_true)]
          exact ih

/-- **Messages are read in order, whatever breaks off is read up to there, and the first Nearby
Info is found wherever it is.** -/
theorem parse_messages :
    (∀ ms : List Tlv, parse (ms.flatMap Tlv.encode) = ms.map Tlv.message ∧
      nearbyInfo (ms.flatMap Tlv.encode) = (ms.find? Tlv.isNearbyInfo).map Tlv.info) ∧
    ∀ front more : Bytes, parse front <+: parse (front ++ more) := by
  have hread : ∀ ms : List Tlv, parse (ms.flatMap Tlv.encode) = ms.map Tlv.message :=
    fun ms => rules.readAll_flatMap Tlv.nextMessage_encode ms
  refine ⟨fun ms => ⟨hread ms, ?_⟩, rules.readAll_append⟩
  rw [nearbyInfo, hread, findSome?_messages]

/-- An iPhone that is unlocked, behind a beacon that breaks off. -/
example : nearbyInfo [0x0C, 0x01, 0x00, 0x10, 0x05, 0x61, 0x18, 0, 0, 0, 0x05, 0x12, 0] =
    some { flags := 0x61, action := 0x18 } := by
  decide

end Apple

end Protocol
