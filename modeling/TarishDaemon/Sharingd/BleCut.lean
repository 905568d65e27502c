import Mathlib.Tactic.IntervalCases
import TarishDaemon.Sharingd.BleInside

/-!
# An advertisement that is cut short

What arrives may be the beginning of what was sent.  Cut behind the body the frame is still
read, without its PSM; cut inside the body there is no frame, and what the scan finds is the
same body, or nothing.

**A cut advertisement makes no other peer** (`parse_cut`), as long as the info does not
hold the hash of the service itself.
-/

namespace Sharingd

open Rust Layout
open Plist (slice slice_stands stands_of_slice)

namespace Ble

variable {data cut rest rest' : Bytes} {b : Body} {mac : Option (Octets macLen)}
  {peer : Advertisement}

/-! ## What a cut keeps -/

theorem stands_of_cut (h : cut <+: data) {a : Nat} {part : Bytes} (hstands : Stands cut a part) :
    Stands data a part := by
  obtain ⟨tail, rfl⟩ := h
  obtain ⟨front, behind, rfl, hfront⟩ := hstands
  exact ⟨front, behind ++ tail, by simp, hfront⟩

theorem getElem?_of_cut (h : cut <+: data) {i : Nat} {x : UInt8} (hx : cut[i]? = some x) :
    data[i]? = some x :=
  (stands_of_cut h (stands_of_getElem? hx)).getElem?

theorem slice_of_cut (h : cut <+: data) {i j : Nat} {part : Bytes}
    (hslice : slice cut i j = some part) : slice data i j = some part := by
  obtain ⟨hstands, hlen⟩ := stands_of_slice hslice
  have hle : i ≤ j := by
    unfold Plist.slice at hslice
    split at hslice
    · next hin => exact hin.1
    · cases hslice
  have hwhole := slice_stands (stands_of_cut h hstands)
  rwa [hlen, Nat.add_sub_cancel' hle] at hwhole

theorem alike_of_cut (h : cut <+: data) : Alike cut.length data cut := by
  refine Alike.of_take h.length_le ?_
  rw [List.take_length]
  exact (List.prefix_iff_eq_take.mp h)

/-- An address of the cut advertisement is one of the whole. -/
theorem macAt_of_cut (h : cut <+: data) (stop : Nat) (regular : Bool) :
    macAt cut stop regular = none ∨ macAt cut stop regular = macAt data stop regular := by
  unfold macAt
  cases regular with
  | false => exact .inl rfl
  | true =>
      cases hslice : slice cut stop (stop + macLen) with
      | none => exact .inl rfl
      | some raw =>
          right
          rw [slice_of_cut h hslice]

/-! ## The bytes before the id -/

/-- The first twelve bytes: the lengths are small, so that two bytes of them are zero. -/
theorem frame_eq (b : Body) (mac : Option (Octets macLen)) (rest : Bytes) :
    ∃ x y : UInt8, x.toNat < 2 ∧ frame (bodyBytes b mac) rest =
      [0x48, 0xFC, 0x9F, 0x5E, 0, 0, x, y, 0x23, 0xFC, 0x9F, 0x5E] ++
        (b.bytes ++ (macBytes mac ++ rest)) := by
  have hlt := b.info_lt
  have hbody := bodyBytes_length b mac
  have hmac := macBytes_length_le mac
  refine ⟨UInt8.ofNat ((bodyBytes b mac).length / 256 % 256),
    UInt8.ofNat ((bodyBytes b mac).length % 256), ?_, ?_⟩
  · rw [toNat_ofNat_byte (Nat.mod_lt _ (by decide))]
    omega
  · have hhigh : (bodyBytes b mac).length / 256 / 256 = 0 := by omega
    have hbytes : beBytes 4 (bodyBytes b mac).length =
        [0, 0, UInt8.ofNat ((bodyBytes b mac).length / 256 % 256),
          UInt8.ofNat ((bodyBytes b mac).length % 256)] := by
      simp [beBytes, hhigh]
    rw [frame, hbytes]
    simp [serviceIdHash, bodyBytes]

/-- The hash before the id. -/
theorem stands_hash (b : Body) (mac : Option (Octets macLen)) (rest : Bytes) :
    Stands (frame (bodyBytes b mac) rest) 9 serviceIdHash :=
  (frame_body (bodyBytes b mac) rest).left.tail.left

/-- The four bytes of an id are graphic. -/
theorem graphic_of_stands {a : Nat} (h : Stands data a b.bytes) {i : Nat} (hi : i < endpointIdLen) :
    ∃ x, data[a + i]? = some x ∧ isAsciiGraphic x = true := by
  have hlen := b.id_length
  obtain ⟨x, hx⟩ : ∃ x, b.id[i]? = some x := ⟨_, List.getElem?_eq_getElem (by omega)⟩
  have hstands := (h.left.trans (stands_of_getElem? hx)).getElem?
  exact ⟨x, hstands, List.all_eq_true.mp b.graphic x (List.mem_of_getElem? hx)⟩

/-- A zero among the four bytes of an id, and there is no body. -/
theorem bodyAt_zero {start : Nat} {regular : Bool} (hcut : cut <+: data) {i : Nat}
    (hi : i < endpointIdLen) (hzero : data[idAt start regular + i]? = some 0) :
    bodyAt cut start regular = none := by
  cases hbody : bodyAt cut start regular with
  | none => rfl
  | some peer =>
      obtain ⟨b, hb⟩ := stands_of_bodyAt hbody
      obtain ⟨x, hx, hgraphic⟩ := graphic_of_stands hb hi
      have hx0 := (getElem?_of_cut hcut hx).symm.trans hzero
      obtain rfl := Option.some.inj hx0
      exact absurd hgraphic (by decide)

/-! ## Cut inside the body -/

/-- A header that promises more than there is. -/
theorem header_cut (hcut : cut <+: frame (bodyBytes b mac) rest)
    (hshort : cut.length < 8 + (bodyBytes b mac).length) : header cut = none := by
  have hlt := b.info_lt
  have hbody := bodyBytes_length b mac
  have hmac := macBytes_length_le mac
  cases hheader : header cut with
  | none => rfl
  | some f =>
      obtain ⟨first, hfirst, -, hfast, hle, hroom, hdeclared⟩ := header_eq_some.mp hheader
      have h48 : (frame (bodyBytes b mac) rest)[0]? = some 0x48 := rfl
      have hregular : f.fast = false := by
        rw [hfast, Option.some.inj ((getElem?_of_cut hcut hfirst).symm.trans h48)]
        decide
      rw [declared, hregular, if_neg Bool.false_ne_true] at hdeclared
      split at hdeclared
      · cases hdeclared
      · obtain ⟨count, hcount, heq⟩ := Option.map_eq_some_iff.mp hdeclared
        have hwhole := slice_stands (frame_count (bodyBytes b mac) rest)
        rw [beBytes_length] at hwhole
        have hsame := Option.some.inj ((slice_of_cut hcut hcount).symm.trans hwhole)
        have hbe : be (beBytes 4 (bodyBytes b mac).length) = (bodyBytes b mac).length :=
          be_beBytes_of_lt (by decide) (by omega)
        rw [hsame, hbe] at heq
        have hstart : f.start = 8 := (congrArg Prod.snd heq).symm
        have hcountEq : (bodyBytes b mac).length = f.stop - f.start := congrArg Prod.fst heq
        omega

/-- Where the hash stands in what is left of a frame: in the header, or before the id.  Behind
the id it would stand in the info. -/
theorem hash_at (unhashed : ¬ serviceIdHash <:+: (UInt8.ofNat b.info.length :: b.info))
    (hcut : cut <+: frame (bodyBytes b mac) rest) {i : Nat} (hpos : 1 ≤ i)
    (hplace : i ≤ 9 ∨ cut.length < 17 + b.info.length) (hhash : Stands cut i serviceIdHash) :
    i = 1 ∨ i = 9 := by
  have hwhole := stands_of_cut hcut hhash
  have hbody := stands_body b mac rest
  have h0 := hwhole.getElem?
  have h1 := hwhole.tail.getElem?
  obtain ⟨x, y, hx, heq⟩ := frame_eq b mac rest
  by_cases hearly : i < 12
  · rw [heq] at h0 h1
    have hxne : x ≠ 0xFC := by
      rintro rfl
      revert hx
      decide
    interval_cases i <;> simp at h0 h1 ⊢
    exact hxne h0
  · by_cases hid : i < 16
    · obtain ⟨z, hz, hgraphic⟩ := graphic_of_stands hbody (i := i - 12) (by
        simp only [endpointIdLen]
        omega)
      have hplace : idAt 8 true + (i - 12) = i := by
        simp only [idAt, serviceIdHash, if_true, List.length_cons, List.length_nil]
        omega
      rw [hplace, h0] at hz
      obtain rfl := Option.some.inj hz
      exact absurd hgraphic (by decide)
    · have hinfo : Stands (frame (bodyBytes b mac) rest) 16
          (UInt8.ofNat b.info.length :: b.info) := by
        have hright := hbody.right
        rw [b.id_length] at hright
        exact hright
      have hend := hhash.length_le
      have hthree : serviceIdHash.length = 3 := rfl
      refine absurd (hinfo.isInfix hwhole (by omega) ?_) unhashed
      rw [List.length_cons]
      omega

/-- The body that the second hash is read as. -/
theorem bodyAt_cut (hcut : cut <+: frame (bodyBytes b mac) rest) (hbehind : rest.length < macLen)
    (hpeer : bodyAt cut 8 true = some peer) :
    peer.endpointId = fromUtf8Lossy b.id ∧ peer.endpointInfo = b.info ∧
      (peer.bluetoothMac = none ∨
        peer.bluetoothMac = mac.bind fun mac => formatMac mac.bytes) ∧ peer.psm = none := by
  obtain ⟨b', hb'⟩ := stands_of_bodyAt hpeer
  have hread := bodyAt_of_stands (stands_of_cut hcut hb')
  rw [bodyAt_of_stands (stands_body b mac rest)] at hread
  have hsame := Option.some.inj hread
  have hinfo : b.info = b'.info := congrArg Advertisement.endpointInfo hsame
  rw [bodyAt_of_stands hb'] at hpeer
  have hlen : b'.bytes.length = b.bytes.length := by
    rw [b.bytes_length, b'.bytes_length, hinfo]
  rw [hlen] at hpeer
  have hmac := macAt_of_cut hcut (idAt 8 true + b.bytes.length) true
  rw [macAt_frame b mac hbehind] at hmac
  obtain rfl := Option.some.inj hpeer
  exact ⟨(congrArg Advertisement.endpointId hsame).symm, hinfo.symm, hmac, rfl⟩

/-- **What the scan finds in a frame that breaks off before the end of its info** is nothing,
or the body of the frame. -/
theorem scan_cut (unhashed : ¬ serviceIdHash <:+: (UInt8.ofNat b.info.length :: b.info))
    (hcut : cut <+: frame (bodyBytes b mac) rest) (hpeer : scan cut = some peer) :
    bodyAt cut 8 true = some peer := by
  obtain ⟨before, i, after, hlist, hi, hbefore⟩ := List.findSome?_eq_some_iff.mp hpeer
  obtain ⟨k, -, hk, hrest⟩ := List.range'_eq_append_iff.mp hlist
  have hik : i = 1 + k := by
    cases hcount : cut.length - serviceIdHash.length - 1 - k with
    | zero =>
        rw [hcount] at hrest
        cases hrest
    | succ n =>
        rw [hcount, List.range'_succ] at hrest
        simpa using (List.cons.inj hrest).1
  split at hi
  · cases hi
  · next hhash =>
      have hstands := (stands_of_slice (not_not.mp hhash)).1
      have hplace : i ≤ 9 ∨ cut.length < 17 + b.info.length := by
        by_contra hlate
        obtain ⟨hlate, hlong⟩ := not_or.mp hlate
        -- the body before the id would have been found first
        have hnone := hbefore 9 (by
          rw [hk, List.mem_range'_1]
          omega)
        have hbody := stands_body b mac rest
        have hend : idAt 8 true + b.bytes.length ≤ cut.length := by
          rw [b.bytes_length]
          simp only [idAt, serviceIdHash, if_true, List.length_cons, List.length_nil]
          omega
        have halike := alike_of_cut hcut
        have hslice : slice cut 9 (9 + serviceIdHash.length) = some serviceIdHash :=
          slice_stands (halike.stands (stands_hash b mac rest) (by
            have hthree : serviceIdHash.length = 3 := rfl
            omega))
        rw [if_neg (by rw [hslice]; exact not_not.mpr rfl),
          bodyAt_of_stands (halike.stands hbody hend)] at hnone
        cases hnone
      rcases hash_at unhashed hcut (by omega) hplace hstands with rfl | rfl
      · have hzero : (frame (bodyBytes b mac) rest)[idAt 0 true + 0]? = some 0 := by
          obtain ⟨x, y, -, heq⟩ := frame_eq b mac rest
          rw [heq]
          rfl
        rw [bodyAt_zero hcut (by decide) hzero] at hi
        cases hi
      · exact hi

/-! ## Cut behind the body -/

/-- A frame whose body is whole. -/
theorem frame_of_cut (hcut : cut <+: frame (bodyBytes b mac) rest)
    (hlong : 8 + (bodyBytes b mac).length ≤ cut.length) :
    ∃ rest', rest' <+: rest ∧ cut = frame (bodyBytes b mac) rest' := by
  have hsplit : ∀ rest, frame (bodyBytes b mac) rest = frame (bodyBytes b mac) [] ++ rest := by
    intro rest
    simp [frame]
  have hwhole : frame (bodyBytes b mac) [] <+: frame (bodyBytes b mac) rest :=
    ⟨rest, (hsplit rest).symm⟩
  obtain ⟨rest', rfl⟩ := List.prefix_of_prefix_length_le hwhole hcut (by
    rw [frame_length]
    exact hlong)
  rw [hsplit rest, List.prefix_append_right_inj] at hcut
  exact ⟨rest', hcut, (hsplit rest').symm⟩

/-- **The fields behind the body, cut**: no PSM, or a frame that is not read. -/
theorem trailingPsm_cut {token : Octets deviceTokenLen} {psm : Option UInt16} {stop : Nat}
    (hrest : rest' <+: token.bytes ++ psmBytes psm) (hne : rest' ≠ token.bytes ++ psmBytes psm)
    (hstands : Stands data stop rest') (hend : data.length = stop + rest'.length) :
    trailingPsm data stop = none ∨ trailingPsm data stop = some none := by
  have hlt : rest'.length < (token.bytes ++ psmBytes psm).length :=
    lt_of_le_of_ne hrest.length_le fun h => hne (hrest.eq_of_length h)
  have hle := psmBytes_length_le psm
  rw [List.length_append, token.sized] at hlt
  simp only [deviceTokenLen] at hlt
  unfold trailingPsm
  cases hmask : data[stop + deviceTokenLen]? with
  | none => exact .inr rfl
  | some mask =>
      left
      have hin := (List.getElem?_eq_some_iff.mp hmask).1
      simp only [deviceTokenLen] at hin
      obtain ⟨x, hx⟩ : ∃ x, rest'[2]? = some x := ⟨_, List.getElem?_eq_getElem (by omega)⟩
      have hmaskx := (hstands.trans (stands_of_getElem? hx)).getElem?.symm.trans hmask
      have hwhole := getElem?_of_cut hrest hx
      rw [List.getElem?_append_right (by rw [token.sized]; exact Nat.le_refl 2), token.sized]
        at hwhole
      have hpsm : x = extraFieldPsm := by
        unfold psmBytes at hwhole
        split at hwhole
        · exact (Option.some.inj hwhole).symm
        · cases hwhole
      have hodd : mask &&& extraFieldPsm ≠ 0 := by
        rw [← Option.some.inj hmaskx, hpsm]
        decide
      dsimp only
      rw [if_pos hodd, Plist.slice, if_neg]
      · rfl
      · simp only [deviceTokenLen]
        omega

/-- **A cut advertisement makes no other peer.** -/
theorem parse_cut (endpointId : Text) (endpointInfo : Bytes)
    (bluetoothMac : Option (Octets macLen)) (deviceToken : Octets deviceTokenLen)
    (psm : Option UInt16) {a : Bytes}
    (built : buildAdvertisement endpointId endpointInfo bluetoothMac deviceToken psm = some a)
    (unhashed : ¬ serviceIdHash <:+: (UInt8.ofNat endpointInfo.length :: endpointInfo)) :
    ∃ whole, parseAdvertisement a = some whole ∧ ∀ cut, cut <+: a → cut ≠ a →
      ∀ peer, parseAdvertisement cut = some peer →
        peer.endpointId = whole.endpointId ∧ peer.endpointInfo = whole.endpointInfo ∧
          (peer.bluetoothMac = none ∨ peer.bluetoothMac = whole.bluetoothMac) ∧
          peer.psm = none := by
  obtain ⟨b, -, rfl, rfl⟩ := body_of_build built
  refine ⟨_, parse_frame b bluetoothMac deviceToken psm, fun cut hcut hne peer hpeer => ?_⟩
  have hbehind : (deviceToken.bytes ++ psmBytes psm).length < macLen := by
    have hle := psmBytes_length_le psm
    rw [List.length_append, deviceToken.sized]
    simp only [deviceTokenLen, macLen]
    omega
  rw [parseAdvertisement, Option.or_eq_some_iff, Option.or_eq_some_iff] at hpeer
  rcases hpeer with hframed | ⟨-, hscan | ⟨-, hfast⟩⟩
  · by_cases hlong : 8 + (bodyBytes b bluetoothMac).length ≤ cut.length
    · obtain ⟨rest', hrest, rfl⟩ := frame_of_cut hcut hlong
      have hne' : rest' ≠ deviceToken.bytes ++ psmBytes psm := by
        rintro rfl
        exact hne rfl
      have hshort := lt_of_le_of_lt hrest.length_le hbehind
      rw [framed_frame b bluetoothMac hshort] at hframed
      rcases trailingPsm_cut hrest hne' (frame_body _ rest').right (frame_length _ rest') with
        hnone | hnone
      · rw [hnone] at hframed
        cases hframed
      · rw [hnone] at hframed
        cases hframed
        exact ⟨rfl, rfl, .inr rfl, rfl⟩
    · have hheader := header_cut hcut (by omega)
      rw [framed, hheader] at hframed
      cases hframed
  · exact bodyAt_cut hcut hbehind (scan_cut unhashed hcut hscan)
  · have hzero : (frame (bodyBytes b bluetoothMac) (deviceToken.bytes ++ psmBytes psm))[
        idAt 2 false + 1]? = some 0 := by
      obtain ⟨x, y, -, heq⟩ := frame_eq b bluetoothMac (deviceToken.bytes ++ psmBytes psm)
      rw [heq]
      rfl
    rw [bodyAt_zero hcut (by decide) hzero] at hfast
    cases hfast

theorem parse_cut_sample :
    ∃ whole, parseAdvertisement noMac = some whole ∧ ∀ cut, cut <+: noMac → cut ≠ noMac →
      ∀ peer, parseAdvertisement cut = some peer →
        peer.endpointId = whole.endpointId ∧ peer.endpointInfo = whole.endpointInfo ∧
          (peer.bluetoothMac = none ∨ peer.bluetoothMac = whole.bluetoothMac) ∧
          peer.psm = none :=
  parse_cut "WLTQ".toList [0x32] none ⟨[0x6A, 0x50], rfl⟩ none (by decide +kernel) (by decide)

end Ble

end Sharingd
