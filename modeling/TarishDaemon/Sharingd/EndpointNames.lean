import TarishDaemon.Quickshare.Endpoint
import TarishDaemon.Sharingd.Ble

/-!
# Two readers of one name

The name of a device stands in its endpoint info behind the metadata, with its length before
it.  `EndpointInfo::parse` reads it unless the header says that the device hides;
`name_from_endpoint_info` does not look at the header.

**They read the same name unless a hidden device has written one** (`names_agree_iff`).
-/

namespace Sharingd

open Rust Layout Quickshare

/-! ## The bytes of a name -/

/-- A name behind the metadata, its length before it. -/
def Written (info name : Bytes) : Prop :=
  name.length < 256 ∧ Stands info nameLenAt (UInt8.ofNat name.length :: name)

variable {info name : Bytes} {n : Text}

/-- A length byte, and so many bytes behind it. -/
theorem written_iff : Written info name ↔ ∃ len, info[nameLenAt]? = some len ∧
    nameLenAt + 1 + len.toNat ≤ info.length ∧
    name = (info.drop (nameLenAt + 1)).take len.toNat := by
  constructor
  · rintro ⟨hlt, hstands⟩
    have hcount := toNat_ofNat_byte hlt
    have hend := hstands.length_le
    rw [List.length_cons] at hend
    refine ⟨_, hstands.getElem?, by omega, ?_⟩
    rw [hcount, hstands.tail.take_drop]
  · rintro ⟨len, hlen, hend, rfl⟩
    have hbyte := len.toNat_lt
    have hcount : ((info.drop (nameLenAt + 1)).take len.toNat).length = len.toNat := by
      rw [List.length_take_of_le]
      rw [List.length_drop]
      omega
    have hmark : UInt8.ofNat len.toNat = len := UInt8.ofNat_toNat
    refine ⟨by omega, ?_⟩
    rw [hcount, hmark]
    exact (stands_of_getElem? hlen).append (stands_take_drop hend)

/-- **What `name_from_endpoint_info` reads**: a name that is not empty and holds no control
character, whatever the header says. -/
theorem nameFromInfo_eq_some : nameFromInfo info = some n ↔
    ∃ name, Written info name ∧ name ≠ [] ∧ n = fromUtf8Lossy name ∧ n.any isControl = false := by
  simp only [nameFromInfo, Option.bind_eq_bind, Option.bind_eq_some_iff, written_iff]
  constructor
  · rintro ⟨len, hlen, h⟩
    split at h
    · cases h
    · next hin =>
        obtain ⟨hpos, hend⟩ := not_or.mp hin
        split at h
        · cases h
        · next hplain =>
            cases h
            refine ⟨_, ⟨len, hlen, by omega, rfl⟩, ?_, rfl, by simpa using hplain⟩
            intro hnil
            have hcount := congrArg List.length hnil
            rw [List.length_take, List.length_drop, List.length_nil] at hcount
            omega
  · rintro ⟨name, ⟨len, hlen, hend, rfl⟩, hne, rfl, hplain⟩
    refine ⟨len, hlen, ?_⟩
    have hpos : len.toNat ≠ 0 := by
      intro hzero
      rw [hzero, List.take_zero] at hne
      exact hne rfl
    rw [if_neg (by omega), if_neg (by rw [hplain]; exact Bool.false_ne_true)]

/-- The header hides the device. -/
def isHidden (info : Bytes) : Bool :=
  (info.getD 0 0).toNat / 16 % 2 == 1

/-- The name that `EndpointInfo::parse` takes from what follows the metadata. -/
def nameBehind (info : Bytes) : Option Text :=
  match info.drop (1 + metadataLen) with
  | [] => none
  | len :: rest =>
      if len.toNat ≤ rest.length then some (fromUtf8Lossy (rest.take len.toNat)) else none

theorem nameBehind_eq_some : nameBehind info = some n ↔
    ∃ name, Written info name ∧ n = fromUtf8Lossy name := by
  have hplace : 1 + metadataLen = nameLenAt := rfl
  unfold nameBehind
  simp only [written_iff, hplace]
  cases hdrop : info.drop nameLenAt with
  | nil =>
      refine ⟨nofun, ?_⟩
      rintro ⟨name, ⟨len, hlen, hend, -⟩, -⟩
      have hempty := List.drop_eq_nil_iff.mp hdrop
      omega
  | cons len rest =>
      have hlen : info[nameLenAt]? = some len := by
        rw [← List.head?_drop, hdrop, List.head?_cons]
      have hrest : info.drop (nameLenAt + 1) = rest := by
        rw [← List.tail_drop, hdrop, List.tail_cons]
      have hcount := congrArg List.length hdrop
      rw [List.length_drop, List.length_cons] at hcount
      simp only [hlen, hrest]
      constructor
      · intro h
        split at h
        · next hfits =>
            cases h
            exact ⟨_, ⟨len, rfl, by omega, rfl⟩, rfl⟩
        · cases h
      · rintro ⟨name, ⟨len', hlen', hend, rfl⟩, rfl⟩
        cases hlen'
        rw [if_pos (by omega)]

/-- **What `EndpointInfo::parse` reads**: any name, unless the device hides. -/
theorem parse_deviceName : (∃ e, EndpointInfo.parse info = some e ∧ e.deviceName = some n) ↔
    isHidden info = false ∧ ∃ name, Written info name ∧ n = fromUtf8Lossy name := by
  rw [← nameBehind_eq_some]
  by_cases hroom : 1 + metadataLen ≤ info.length
  · obtain ⟨header, rest, rfl⟩ := List.exists_cons_of_length_pos (show 0 < info.length by
      simp only [metadataLen] at hroom
      omega)
    rw [List.length_cons] at hroom
    have hmeta : (rest.take metadataLen).length = metadataLen := List.length_take_of_le (by omega)
    have hparse : EndpointInfo.parse (header :: rest) = some
        { version := UInt8.ofNat (header.toNat / 32)
          hidden := isHidden (header :: rest)
          deviceType := DeviceType.fromRaw (header.toNat / 2 % 8)
          metadata := ⟨rest.take metadataLen, hmeta⟩
          deviceName :=
            if isHidden (header :: rest) then none else nameBehind (header :: rest) } := by
      have hoctets : Octets.tryFrom metadataLen (rest.take metadataLen) =
          some ⟨rest.take metadataLen, hmeta⟩ := dif_pos hmeta
      simp only [EndpointInfo.parse, List.head?_cons, List.drop_succ_cons, List.drop_zero, hoctets,
        Option.bind_eq_bind, Option.bind_some]
      rfl
    rw [hparse]
    cases hhidden : isHidden (header :: rest) with
    | true => simp
    | false => simp
  · have hshort : EndpointInfo.parse info = none := by
      have hoctets : Octets.tryFrom metadataLen ((info.drop 1).take metadataLen) = none := by
        refine dif_neg ?_
        rw [List.length_take, List.length_drop]
        simp only [metadataLen] at hroom ⊢
        omega
      simp only [EndpointInfo.parse, hoctets, Option.bind_eq_bind, Option.bind_none,
        Option.bind_fun_none]
    have hnone : nameBehind info = none := by
      rw [nameBehind, List.drop_eq_nil_of_le (by omega)]
    rw [hshort, hnone]
    simp

/-! ## Where they agree -/

/-- The two readers have the same names for an endpoint info, as far as they are names at
all. -/
def NamesAgree (info : Bytes) : Prop :=
  ∀ n, nameFromInfo info = some n ↔
    ∃ e, EndpointInfo.parse info = some e ∧ e.deviceName = some n ∧ n ≠ [] ∧
      n.any isControl = false

/-- **They agree unless a hidden device has written a name**: one that is not empty and holds
no control character. -/
theorem names_agree_iff (info : Bytes) : NamesAgree info ↔
    (isHidden info = true → ∀ name, Written info name → name ≠ [] →
      (fromUtf8Lossy name).any isControl = true) := by
  have hparse : ∀ n : Text, (∃ e, EndpointInfo.parse info = some e ∧ e.deviceName = some n ∧
      n ≠ [] ∧ n.any isControl = false) ↔
      isHidden info = false ∧ (∃ name, Written info name ∧ n = fromUtf8Lossy name) ∧ n ≠ [] ∧
        n.any isControl = false := by
    intro n
    rw [← and_assoc, ← parse_deviceName]
    constructor
    · rintro ⟨e, he, hn, hplain⟩
      exact ⟨⟨e, he, hn⟩, hplain⟩
    · rintro ⟨⟨e, he, hn⟩, hplain⟩
      exact ⟨e, he, hn, hplain⟩
  unfold NamesAgree
  constructor
  · intro agree hhidden name hwritten hne
    by_contra hplain
    have hread := nameFromInfo_eq_some.mpr
      ⟨name, hwritten, hne, rfl, by simpa using hplain⟩
    have hshown := ((hparse _).mp ((agree _).mp hread)).1
    rw [hhidden] at hshown
    cases hshown
  · intro hclean n
    rw [hparse, nameFromInfo_eq_some]
    constructor
    · rintro ⟨name, hwritten, hne, rfl, hplain⟩
      refine ⟨?_, ⟨name, hwritten, rfl⟩, fromUtf8Lossy_ne_nil hne, hplain⟩
      by_contra hhidden
      have hcontrol := hclean (by simpa using hhidden) name hwritten hne
      rw [hplain] at hcontrol
      cases hcontrol
    · rintro ⟨-, ⟨name, hwritten, rfl⟩, hne, hplain⟩
      refine ⟨name, hwritten, ?_, rfl, hplain⟩
      rintro rfl
      exact hne rfl

/-- A hidden device with the name `A` behind its metadata. -/
def hiddenNamed : Bytes :=
  0x36 :: (List.replicate metadataLen 0 ++ [1, 0x41])

theorem hiddenNamed_disagrees : ¬ NamesAgree hiddenNamed := by
  intro agree
  have hread : nameFromInfo hiddenNamed = some ['A'] := by decide +kernel
  obtain ⟨e, he, hname, -⟩ := (agree ['A']).mp hread
  have hshown := (parse_deviceName.mp ⟨e, he, hname⟩).1
  revert hshown
  decide

end Sharingd
