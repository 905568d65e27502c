import Mathlib.Data.List.GetD
import TarishDaemon.Rust.Text

/-!
# Endpoint identity

What a device says of itself on every medium: its endpoint info, and the instance name
that its endpoint id is written into.  Both travel as base64.

The writer has one alphabet, the reader takes the standard one as well and passes over
padding; what is written is read back (`base64AnyDecode_encode`).
-/

namespace Quickshare

open Rust

/-! ## Base64 -/

def b64url : Text :=
  "ABCDEFGHIJKLMNOPQRSTUVWXYZabcdefghijklmnopqrstuvwxyz0123456789-_".toList

def base64Digit (i : Nat) : Char :=
  b64url.getD (i % 64) 'A'

def base64urlEncode : Bytes → Text
  | [] => []
  | [a] =>
      let n := a.toNat * 65536
      [base64Digit (n / 262144), base64Digit (n / 4096)]
  | [a, b] =>
      let n := a.toNat * 65536 + b.toNat * 256
      [base64Digit (n / 262144), base64Digit (n / 4096), base64Digit (n / 64)]
  | a :: b :: c :: rest =>
      let n := a.toNat * 65536 + b.toNat * 256 + c.toNat
      base64Digit (n / 262144) :: base64Digit (n / 4096) :: base64Digit (n / 64) ::
        base64Digit n :: base64urlEncode rest

def base64Value (c : UInt8) : Option Nat :=
  if 65 ≤ c ∧ c ≤ 90 then some (c.toNat - 65)
  else if 97 ≤ c ∧ c ≤ 122 then some (c.toNat - 97 + 26)
  else if 48 ≤ c ∧ c ≤ 57 then some (c.toNat - 48 + 52)
  else if c = 45 ∨ c = 43 then some 62
  else if c = 95 ∨ c = 47 then some 63
  else none

/-- The loop of `base64_any_decode`, over a `u32` that old bits are shifted out of. -/
def base64Loop : Bytes → Nat → Nat → Option Bytes
  | [], _, _ => some []
  | c :: rest, acc, bits =>
      if c = 61 then base64Loop rest acc bits
      else
        match base64Value c with
        | none => none
        | some v =>
            let acc := (acc * 64 + v) % 4294967296
            let bits := bits + 6
            if bits ≥ 8 then
              (base64Loop rest acc (bits - 8)).map fun out =>
                UInt8.ofNat (acc / 2 ^ (bits - 8)) :: out
            else base64Loop rest acc bits

def base64AnyDecode (input : Bytes) : Option Bytes :=
  base64Loop input 0 0

/-- A digit on the wire and back. -/
theorem base64Digit_read (i : Nat) :
    ∃ c : UInt8, String.utf8EncodeChar (base64Digit i) = [c] ∧ c ≠ 61 ∧
      base64Value c = some (i % 64) := by
  have hall : ∀ j < 64, String.utf8EncodeChar (b64url.getD j 'A') =
        [UInt8.ofNat (b64url.getD j 'A').toNat] ∧
      UInt8.ofNat (b64url.getD j 'A').toNat ≠ 61 ∧
      base64Value (UInt8.ofNat (b64url.getD j 'A').toNat) = some j := by
    decide +kernel
  exact ⟨_, hall (i % 64) (Nat.mod_lt i (by decide))⟩

/-- A digit is six more bits. -/
theorem base64Loop_digit (i : Nat) (rest : Text) (acc bits : Nat) :
    base64Loop (asBytes (base64Digit i :: rest)) acc bits =
      if bits + 6 ≥ 8 then
        (base64Loop (asBytes rest) ((acc * 64 + i % 64) % 4294967296) (bits + 6 - 8)).map
          fun out => UInt8.ofNat
            ((acc * 64 + i % 64) % 4294967296 / 2 ^ (bits + 6 - 8)) :: out
      else base64Loop (asBytes rest) ((acc * 64 + i % 64) % 4294967296) (bits + 6) := by
  obtain ⟨c, hc, hpad, hvalue⟩ := base64Digit_read i
  have hcons : asBytes (base64Digit i :: rest) =
      String.utf8EncodeChar (base64Digit i) ++ asBytes rest := rfl
  rw [hcons, hc, List.singleton_append, base64Loop, if_neg hpad, hvalue]

theorem base64Loop_encode (raw : Bytes) (acc : Nat) :
    base64Loop (asBytes (base64urlEncode raw)) acc 0 = some raw := by
  have hbyte : ∀ (x : UInt8) (n : Nat), n % 256 = x.toNat → UInt8.ofNat n = x := by
    intro x n hn
    apply UInt8.toNat_inj.mp
    rw [UInt8.toNat_ofNat', hn]
  induction raw using base64urlEncode.induct generalizing acc with
  | case1 => rfl
  | case2 a =>
      have ha := a.toNat_lt
      have hdone : ∀ acc bits, base64Loop (asBytes []) acc bits = some [] := fun _ _ => rfl
      simp only [base64urlEncode, base64Loop_digit, hdone]
      simp
      apply hbyte
      omega
  | case3 a b =>
      have ha := a.toNat_lt
      have hb := b.toNat_lt
      have hdone : ∀ acc bits, base64Loop (asBytes []) acc bits = some [] := fun _ _ => rfl
      simp only [base64urlEncode, base64Loop_digit, hdone]
      simp
      constructor
      · apply hbyte
        omega
      · apply hbyte
        omega
  | case4 a b c rest ih =>
      have ha := a.toNat_lt
      have hb := b.toNat_lt
      have hc := c.toNat_lt
      simp only [base64urlEncode, base64Loop_digit]
      simp [ih]
      refine ⟨?_, ?_, ?_⟩ <;> (apply hbyte; omega)

/-- **What is written is read back.** -/
theorem base64AnyDecode_encode (raw : Bytes) :
    base64AnyDecode (asBytes (base64urlEncode raw)) = some raw :=
  base64Loop_encode raw 0

theorem base64urlEncode_digits (raw : Bytes) : ∀ c ∈ base64urlEncode raw, c ∈ b64url := by
  have hdigit : ∀ i, base64Digit i ∈ b64url := by
    intro i
    have hlen : i % 64 < b64url.length := Nat.mod_lt i (by decide)
    rw [base64Digit, List.getD_eq_getElem _ _ hlen]
    exact List.getElem_mem hlen
  induction raw using base64urlEncode.induct with
  | case1 => simp [base64urlEncode]
  | case2 a => simp [base64urlEncode, hdigit]
  | case3 a b => simp [base64urlEncode, hdigit]
  | case4 a b c rest ih => simpa [base64urlEncode, hdigit] using ih

/-- Three bytes become four digits. -/
theorem base64urlEncode_length (raw : Bytes) :
    (base64urlEncode raw).length = (4 * raw.length + 2) / 3 := by
  induction raw using base64urlEncode.induct with
  | case1 => rfl
  | case2 a => simp [base64urlEncode]
  | case3 a b => simp [base64urlEncode]
  | case4 a b c rest ih =>
      simp only [base64urlEncode, List.length_cons, ih]
      omega

example : base64urlEncode [0xFC, 0x9F, 0x5E, 0x23] = "_J9eIw".toList := by decide +kernel

example : base64AnyDecode (asBytes "_J9eIw".toList) = some [0xFC, 0x9F, 0x5E, 0x23] := by
  decide +kernel

example : base64AnyDecode (asBytes "/J9eIw==".toList) = some [0xFC, 0x9F, 0x5E, 0x23] := by
  decide +kernel

/-! ## Endpoint info -/

def metadataLen : Nat := 16

inductive DeviceType
  | unknown
  | phone
  | tablet
  | laptop
  | car
  | foldable
  | xr
  deriving DecidableEq, Repr

namespace DeviceType

def fromRaw : Nat → DeviceType
  | 1 => phone
  | 2 => tablet
  | 3 => laptop
  | 4 => car
  | 5 => foldable
  | 6 => xr
  | _ => unknown

def raw : DeviceType → Nat
  | unknown => 0
  | phone => 1
  | tablet => 2
  | laptop => 3
  | car => 4
  | foldable => 5
  | xr => 6

theorem fromRaw_raw (t : DeviceType) : fromRaw t.raw = t := by
  cases t <;> rfl

theorem raw_lt (t : DeviceType) : t.raw < 8 := by
  cases t <;> decide

end DeviceType

structure EndpointInfo where
  version : UInt8
  /-- A hidden endpoint has no name on the wire, not an empty one. -/
  hidden : Bool
  deviceType : DeviceType
  metadata : Octets metadataLen
  deviceName : Option Text
  deriving DecidableEq, Repr

/-- Where a name of over 255 bytes is cut: not within a character. -/
def cutBack (n : Bytes) : Nat → Nat
  | 0 => 0
  | cut + 1 => if isCont (n.getD (cut + 1) 0) then cutBack n cut else cut + 1

namespace EndpointInfo

def encode (info : EndpointInfo) : Bytes :=
  let name := if info.hidden then [] else asBytes (info.deviceName.getD [])
  let header := UInt8.ofNat (info.version.toNat % 8 * 32 + (if info.hidden then 16 else 0) +
    info.deviceType.raw % 8 * 2)
  header :: (info.metadata.bytes ++
    if info.hidden then []
    else
      let n := if name.length > 255 then name.take (cutBack name 255) else name
      UInt8.ofNat n.length :: n)

def parse (bytes : Bytes) : Option EndpointInfo := do
  let header ← bytes.head?
  let hidden := header.toNat / 16 % 2 == 1
  let metadata ← Octets.tryFrom metadataLen ((bytes.drop 1).take metadataLen)
  let deviceName :=
    if hidden then none
    else
      match bytes.drop (1 + metadataLen) with
      | [] => none
      | len :: rest =>
          if len.toNat ≤ rest.length then some (fromUtf8Lossy (rest.take len.toNat)) else none
  return {
    version := UInt8.ofNat (header.toNat / 32)
    hidden
    deviceType := DeviceType.fromRaw (header.toNat / 2 % 8)
    metadata
    deviceName
  }

theorem encode_length {info : EndpointInfo} {name : Text} (visible : info.hidden = false)
    (named : info.deviceName = some name) (short : (asBytes name).length ≤ 255) :
    info.encode.length = 18 + (asBytes name).length := by
  have hsized := info.metadata.sized
  have hlen : metadataLen = 16 := rfl
  have hkept : ¬ (asBytes name).length > 255 := by omega
  simp only [encode, visible, named, hkept, List.length_cons, List.length_append,
    Option.getD_some, Bool.false_eq_true, if_false]
  omega

/-- **An endpoint that is not hidden is read back**, its version in three bits. -/
theorem parse_encode {info : EndpointInfo} {name : Text} (visible : info.hidden = false)
    (named : info.deviceName = some name) (short : (asBytes name).length ≤ 255) :
    parse info.encode = some { info with version := UInt8.ofNat (info.version.toNat % 8) } := by
  have htype := info.deviceType.raw_lt
  have hsized := info.metadata.sized
  have hheader := toNat_ofNat_byte
    (n := info.version.toNat % 8 * 32 + 0 + info.deviceType.raw % 8 * 2) (by omega)
  have hlen := toNat_ofNat_byte (n := (asBytes name).length) (by omega)
  have hwritten : info.encode =
      UInt8.ofNat (info.version.toNat % 8 * 32 + 0 + info.deviceType.raw % 8 * 2) ::
        (info.metadata.bytes ++ UInt8.ofNat (asBytes name).length :: asBytes name) := by
    have hkept : ¬ (asBytes name).length > 255 := by omega
    simp [encode, visible, named, hkept]
  have hversion : (info.version.toNat % 8 * 32 + 0 + info.deviceType.raw % 8 * 2) / 32 =
      info.version.toNat % 8 := by omega
  have hhidden : (info.version.toNat % 8 * 32 + 0 + info.deviceType.raw % 8 * 2) / 16 % 2 = 0 := by
    omega
  have hraw : (info.version.toNat % 8 * 32 + 0 + info.deviceType.raw % 8 * 2) / 2 % 8 =
      info.deviceType.raw := by omega
  have htake : (info.metadata.bytes ++ UInt8.ofNat (asBytes name).length :: asBytes name).take
      metadataLen = info.metadata.bytes := by
    rw [List.take_left' hsized]
  have hdrop : (info.metadata.bytes ++ UInt8.ofNat (asBytes name).length :: asBytes name).drop
      metadataLen = UInt8.ofNat (asBytes name).length :: asBytes name := by
    rw [List.drop_left' hsized]
  rw [hwritten, parse]
  simp only [List.head?_cons, List.drop_zero, htake, Octets.tryFrom_bytes,
    Nat.add_comm 1 metadataLen, List.drop_succ_cons, hdrop, hheader, hlen, hversion, hhidden, hraw,
    DeviceType.fromRaw_raw, Option.bind_eq_bind, Option.bind_some, Option.pure_def, le_refl,
    List.take_length, fromUtf8Lossy_asBytes]
  obtain ⟨version, hidden, deviceType, metadata, deviceName⟩ := info
  subst visible named
  rfl

end EndpointInfo

/-! ## The instance name -/

def serviceType : Text := "_FC9F5ED42C8A._tcp.local".toList

def serviceIdHashPrefix : Bytes := [0xFC, 0x9F, 0x5E]

def pcp : UInt8 := 0x23

def endpointIdLen : Nat := 4

def endpointIdAlphabet : Bytes :=
  asBytes "ABCDEFGHIJKLMNOPQRSTUVWXYZabcdefghijklmnopqrstuvwxyz0123456789".toList

def txtEndpointInfo : Text := "n".toList

/-- Two of the ten bytes are reserved. -/
def instanceName (endpointId : Octets endpointIdLen) : Text :=
  base64urlEncode (pcp :: (endpointId.bytes ++ (serviceIdHashPrefix ++ [0, 0])))

def endpointIdFromInstance (inst : Text) : Option (Octets endpointIdLen) := do
  let label ← (inst.splitOn '.').head?
  let raw ← base64AnyDecode (asBytes label)
  if raw.length < 1 + endpointIdLen + 3 ∨ raw.head? ≠ some pcp then none
  else if (raw.drop (1 + endpointIdLen)).take 3 ≠ serviceIdHashPrefix then none
  else Octets.tryFrom endpointIdLen ((raw.drop 1).take endpointIdLen)

theorem instanceName_length (id : Octets endpointIdLen) : (instanceName id).length = 14 := by
  have hsized := id.sized
  have hhash : serviceIdHashPrefix.length = 3 := rfl
  have hlen : endpointIdLen = 4 := rfl
  rw [instanceName, base64urlEncode_length]
  simp only [List.length_cons, List.length_append, List.length_nil]
  omega

theorem instanceName_noDot (id : Octets endpointIdLen) : '.' ∉ instanceName id := by
  intro hmem
  have hdigit := base64urlEncode_digits _ _ hmem
  revert hdigit
  decide

/-- An endpoint id is read back from what begins with its label. -/
theorem endpointIdFromInstance_label {id : Octets endpointIdLen} {inst : Text}
    (hlabel : (inst.splitOn '.').head? = some (instanceName id)) :
    endpointIdFromInstance inst = some id := by
  have hsized := id.sized
  have hlen : endpointIdLen = 4 := rfl
  have hid : (id.bytes ++ (serviceIdHashPrefix ++ [0, 0])).take endpointIdLen = id.bytes := by
    rw [List.take_left' hsized]
  have hprefix : ((id.bytes ++ (serviceIdHashPrefix ++ [0, 0])).drop endpointIdLen).take 3 =
      serviceIdHashPrefix := by
    rw [List.drop_left' hsized]
    rfl
  have hlong : ¬ (pcp :: (id.bytes ++ (serviceIdHashPrefix ++ [0, 0]))).length <
      endpointIdLen + 1 + 3 := by
    have hhash : serviceIdHashPrefix.length = 3 := rfl
    simp only [List.length_cons, List.length_append, List.length_nil]
    omega
  rw [endpointIdFromInstance, hlabel]
  simp only [instanceName, base64AnyDecode_encode, Option.bind_eq_bind, Option.bind_some,
    List.head?_cons, ne_eq, not_true_eq_false, or_false, Nat.add_comm 1 endpointIdLen, hlong,
    if_false, List.drop_succ_cons, List.drop_zero, hprefix, hid,
    Octets.tryFrom_bytes]

/-- **An endpoint id is read back** from its instance, whatever the service. -/
theorem endpointIdFromInstance_instanceName (id : Octets endpointIdLen) (service : Text) :
    endpointIdFromInstance (instanceName id ++ '.' :: service) = some id := by
  apply endpointIdFromInstance_label
  rw [List.splitOn_append_cons_self_of_not_mem (instanceName_noDot id), List.head?_cons]

end Quickshare
