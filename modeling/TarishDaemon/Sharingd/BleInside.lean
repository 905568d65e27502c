import TarishDaemon.Sharingd.Ble

/-!
# What a frame is read from

`framed` knows where the body ends and hands `body_at` the whole advertisement.  The info
and the address behind it are taken from wherever their lengths lead, and so also from the
device token and from what follows it.

**The four fields of a peer hang on the body alone exactly where the body holds them**
(`inside_iff`): where the info ends within it and, in the regular form, six more bytes do.
-/

namespace Sharingd

open Rust Layout
open Plist (slice slice_stands stands_of_slice)

namespace Ble

/-! ## Strings that begin alike -/

/-- Both are at least so long, and up to there they are the same. -/
structure Alike (n : Nat) (x y : Bytes) : Prop where
  left : n ≤ x.length
  right : n ≤ y.length
  take : y.take n = x.take n

variable {n : Nat} {x y : Bytes}

theorem Alike.of_take (hlen : n ≤ x.length) (h : y.take n = x.take n) : Alike n x y := by
  refine ⟨hlen, ?_, h⟩
  have hcount := congrArg List.length h
  rw [List.length_take, List.length_take] at hcount
  omega

theorem Alike.getElem? (h : Alike n x y) {i : Nat} (hi : i < n) : y[i]? = x[i]? := by
  have hget := congrArg (fun l => l[i]?) h.take
  simpa only [List.getElem?_take_of_lt hi] using hget

theorem Alike.slice (h : Alike n x y) {i j : Nat} (hj : j ≤ n) : slice y i j = slice x i j := by
  have hx := h.left
  have hy := h.right
  unfold Plist.slice
  by_cases hij : i ≤ j
  · rw [if_pos ⟨hij, by omega⟩, if_pos ⟨hij, by omega⟩]
    have hpart : ∀ l : Bytes, (l.drop i).take (j - i) = ((l.take n).take j).drop i := by
      intro l
      rw [List.take_take, Nat.min_eq_left hj, List.drop_take]
    rw [hpart y, hpart x, h.take]
  · rw [if_neg fun both => hij both.1, if_neg fun both => hij both.1]

theorem Alike.stands (h : Alike n x y) {a : Nat} {part : Bytes} (hstands : Stands x a part)
    (hend : a + part.length ≤ n) : Stands y a part := by
  have hslice := h.slice hend ▸ slice_stands hstands
  exact (stands_of_slice hslice).1

/-! ## The header -/

variable {data data' : Bytes} {f : Framed} {a a' : Advertisement}

/-- A header that is accepted: the versions, the length, and room for the body. -/
theorem header_eq_some : header data = some f ↔
    ∃ first : UInt8, data[0]? = some first ∧
      (((1 : UInt8) ≤ (first &&& 0xE0) >>> 5 ∧ (first &&& 0xE0) >>> 5 ≤ (2 : UInt8)) ∧
        (1 : UInt8) ≤ (first &&& 0x1C) >>> 2 ∧ (first &&& 0x1C) >>> 2 ≤ (2 : UInt8)) ∧
      f.fast = decide (first &&& 0x02 ≠ 0) ∧ f.start ≤ f.stop ∧ f.stop ≤ data.length ∧
      declared data f.fast = some (f.stop - f.start, f.start) := by
  unfold header
  simp only [Option.bind_eq_bind, Option.bind_eq_some_iff, List.head?_eq_getElem?]
  refine exists_congr fun first => and_congr_right fun _ => ?_
  split
  · next hbad =>
      refine ⟨nofun, fun h => ?_⟩
      rcases hbad with hbad | hbad
      · exact absurd h.1.1 hbad
      · exact absurd h.1.2 hbad
  · next hgood =>
      obtain ⟨hversion, hsocket⟩ := not_or.mp hgood
      simp only [Option.bind_eq_some_iff]
      constructor
      · rintro ⟨⟨bodyLen, start⟩, hdeclared, h⟩
        split at h
        · cases h
        · next hroom =>
            cases h
            refine ⟨⟨not_not.mp hversion, not_not.mp hsocket⟩, rfl, Nat.le_add_right _ _,
              Nat.not_lt.mp hroom, ?_⟩
            rw [hdeclared, Nat.add_sub_cancel_left]
      · rintro ⟨-, hfast, hle, hroom, hdeclared⟩
        rw [hfast] at hdeclared
        refine ⟨_, hdeclared, ?_⟩
        have hstop : f.start + (f.stop - f.start) = f.stop := by omega
        simp only [hstop]
        rw [if_neg (by omega), ← hfast]

theorem start_of_declared {fast : Bool} {bodyLen start : Nat}
    (h : declared data fast = some (bodyLen, start)) : start = if fast then 2 else 8 := by
  unfold declared at h
  split at h
  · next hfast =>
      obtain ⟨m, -, hm⟩ := Option.map_eq_some_iff.mp h
      cases hm
      rw [if_pos hfast]
  · next hregular =>
      split at h
      · cases h
      · obtain ⟨m, -, hm⟩ := Option.map_eq_some_iff.mp h
        cases hm
        rw [if_neg hregular]

/-- The header lies before the body. -/
theorem Alike.header {limit : Nat} (alike : Alike limit data data') (h : header data = some f)
    (hlimit : f.start ≤ limit) (hroom : f.stop ≤ data'.length) : Ble.header data' = some f := by
  rw [header_eq_some] at h ⊢
  obtain ⟨first, hfirst, hversions, hfast, hle, -, hdeclared⟩ := h
  have hstart := start_of_declared hdeclared
  refine ⟨first, ?_, hversions, hfast, hle, hroom, ?_⟩
  · rw [alike.getElem? (i := 0) (by split at hstart <;> omega), hfirst]
  · rw [← hdeclared]
    cases hf : f.fast with
    | true =>
        rw [hf, if_pos rfl] at hstart
        rw [declared, declared, if_pos rfl, if_pos rfl, alike.getElem? (by omega)]
    | false =>
        rw [hf, if_neg Bool.false_ne_true] at hstart
        rw [declared, declared, if_neg Bool.false_ne_true, if_neg Bool.false_ne_true,
          alike.slice (by omega), alike.slice (by omega)]

/-! ## The body and what follows it -/

/-- **What `framed` accepts**: a header, a body where the header puts it, and fields behind
it that are whole. -/
theorem framed_eq_some : framed data = some a ↔
    ∃ f b psm, header data = some f ∧ Stands data (idAt f.start (!f.fast)) (Body.bytes b) ∧
      trailingPsm data f.stop = some psm ∧
      a =
        { b.advertisement (!f.fast) (macAt data (idAt f.start (!f.fast) + b.bytes.length)
            (!f.fast)) with
          psm := psm } := by
  simp only [framed, Option.bind_eq_bind, Option.bind_eq_some_iff]
  constructor
  · rintro ⟨f, hf, advert, hbody, psm, hpsm, h⟩
    obtain ⟨b, hb⟩ := stands_of_bodyAt hbody
    rw [bodyAt_of_stands hb] at hbody
    cases hbody
    exact ⟨f, b, psm, hf, hb, hpsm, (Option.some.inj h).symm⟩
  · rintro ⟨f, b, psm, hf, hb, hpsm, rfl⟩
    exact ⟨f, hf, _, bodyAt_of_stands hb, psm, hpsm, rfl⟩

/-- Where the info ends, as its length has it. -/
def infoEnd (data : Bytes) (f : Framed) : Nat :=
  let lenAt := idAt f.start (!f.fast) + endpointIdLen
  lenAt + 1 + (data.getD lenAt 0).toNat

theorem infoEnd_of_stands {b : Body} (h : Stands data (idAt f.start (!f.fast)) b.bytes) :
    infoEnd data f = idAt f.start (!f.fast) + b.bytes.length := by
  have hlen := h.right.getElem?
  have hcount := toNat_ofNat_byte b.info_lt
  rw [b.id_length] at hlen
  rw [infoEnd, List.getD_eq_getElem?_getD, hlen, Option.getD_some, hcount, b.bytes_length]
  simp only [endpointIdLen]
  omega

/-- With room for them the fields behind the body are whole, whatever they are. -/
theorem trailingPsm_isSome {stop : Nat} (h : stop + 5 ≤ data.length) :
    ∃ psm, trailingPsm data stop = some psm := by
  unfold trailingPsm
  split
  · exact ⟨_, rfl⟩
  · split
    · rw [Plist.slice, if_pos ⟨by omega, by simp only [deviceTokenLen]; omega⟩]
      exact ⟨_, rfl⟩
    · exact ⟨_, rfl⟩

/-- The fields that a body gives. -/
structure SamePeer (a a' : Advertisement) : Prop where
  endpointId : a'.endpointId = a.endpointId
  endpointInfo : a'.endpointInfo = a.endpointInfo
  deviceName : a'.deviceName = a.deviceName
  bluetoothMac : a'.bluetoothMac = a.bluetoothMac

/-- How far the four fields reach: to the end of the info, and in the regular form to the
end of the address. -/
def reach (data : Bytes) (f : Framed) : Nat :=
  infoEnd data f + if f.fast then 0 else macLen

theorem samePeer_of_reach (hf : header data = some f) (hread : framed data = some a)
    (inside : reach data f ≤ f.stop) (alike : data'.take f.stop = data.take f.stop)
    (hread' : framed data' = some a') : SamePeer a a' := by
  obtain ⟨f₁, b, psm, hf₁, hb, -, rfl⟩ := framed_eq_some.mp hread
  obtain rfl := Option.some.inj (hf.symm.trans hf₁)
  obtain ⟨-, -, -, -, hle, hroom, -⟩ := header_eq_some.mp hf
  have halike := Alike.of_take hroom alike
  have hinfo := infoEnd_of_stands hb
  have hb' : Stands data' (idAt f.start (!f.fast)) b.bytes := by
    refine halike.stands hb ?_
    rw [reach] at inside
    omega
  obtain ⟨f₂, b₂, psm₂, hf₂, hb₂, hpsm₂, rfl⟩ := framed_eq_some.mp hread'
  obtain rfl := Option.some.inj ((halike.header hf hle halike.right).symm.trans hf₂)
  have hbody := (bodyAt_of_stands hb').symm.trans (bodyAt_of_stands hb₂)
  have hmac : macAt data' (idAt f.start (!f.fast) + b.bytes.length) (!f.fast) =
      macAt data (idAt f.start (!f.fast) + b.bytes.length) (!f.fast) := by
    rw [reach, hinfo] at inside
    unfold macAt
    cases hfast : f.fast with
    | true => rfl
    | false =>
        rw [hfast, if_neg Bool.false_ne_true] at inside
        rw [halike.slice inside]
  rw [hmac] at hbody
  have hsame := Option.some.inj hbody
  exact
    { endpointId := (congrArg Advertisement.endpointId hsame).symm
      endpointInfo := (congrArg Advertisement.endpointInfo hsame).symm
      deviceName := (congrArg Advertisement.deviceName hsame).symm
      bluetoothMac := (congrArg Advertisement.bluetoothMac hsame).symm }

/-! ## Reading past the body -/

/-- A frame that is read, from its parts. -/
theorem framed_of_parts {b : Body} (hf : header data = some f)
    (hb : Stands data (idAt f.start (!f.fast)) b.bytes)
    (hroom : data.length = f.stop ∨ f.stop + 5 ≤ data.length) :
    ∃ a, framed data = some a ∧ a.endpointInfo = b.info ∧
      a.bluetoothMac = macAt data (idAt f.start (!f.fast) + b.bytes.length) (!f.fast) := by
  have hpsm : ∃ psm, trailingPsm data f.stop = some psm := by
    rcases hroom with hend | hlong
    · refine ⟨none, ?_⟩
      rw [trailingPsm, List.getElem?_eq_none (by omega)]
    · exact trailingPsm_isSome hlong
  obtain ⟨psm, hpsm⟩ := hpsm
  exact ⟨_, framed_eq_some.mpr ⟨f, b, psm, hf, hb, hpsm, rfl⟩, rfl, rfl⟩

theorem Body.info_ne_nil (b : Body) : b.info ≠ [] :=
  List.ne_nil_of_length_pos b.info_pos

/-- The bytes of a body but the last one. -/
def Body.front (b : Body) : Bytes :=
  b.id ++ UInt8.ofNat b.info.length :: b.info.dropLast

theorem Body.dropLast_length (b : Body) : b.info.dropLast.length + 1 = b.info.length := by
  rw [List.length_dropLast]
  have hpos := b.info_pos
  omega

/-- The same body with another last byte. -/
def Body.altered (b : Body) : Body where
  id := b.id
  info := b.info.dropLast ++ [b.info.getLast b.info_ne_nil + 1]
  id_length := b.id_length
  graphic := b.graphic
  info_pos := by simp
  info_lt := by
    have hlt := b.info_lt
    rw [List.length_append, List.length_singleton, b.dropLast_length]
    exact hlt

theorem Body.bytes_front (b : Body) : b.bytes = b.front ++ [b.info.getLast b.info_ne_nil] := by
  rw [Body.bytes, Body.front, List.append_assoc, List.cons_append,
    List.dropLast_append_getLast b.info_ne_nil]

theorem Body.altered_bytes (b : Body) :
    b.altered.bytes = b.front ++ [b.info.getLast b.info_ne_nil + 1] := by
  have hcount : b.altered.info.length = b.info.length := by
    rw [Body.altered, List.length_append, List.length_singleton, b.dropLast_length]
  rw [Body.bytes, Body.front, hcount, List.append_assoc, List.cons_append]
  rfl

theorem Body.altered_info_ne (b : Body) : b.altered.info ≠ b.info := by
  intro heq
  have hlast := List.dropLast_append_getLast b.info_ne_nil
  have hsame : b.info.dropLast ++ [b.info.getLast b.info_ne_nil + 1] =
      b.info.dropLast ++ [b.info.getLast b.info_ne_nil] := by
    rw [hlast]
    exact heq
  have hbyte := List.head_eq_of_cons_eq (List.append_cancel_left hsame)
  simp at hbyte

/-- Where the info runs past the body, its last byte is not of the body. -/
theorem exists_other_info (hf : header data = some f) (hread : framed data = some a)
    (outside : f.stop < infoEnd data f) :
    ∃ data' a', data'.take f.stop = data.take f.stop ∧ framed data' = some a' ∧
      a'.endpointInfo ≠ a.endpointInfo := by
  obtain ⟨f₁, b, psm, hf₁, hb, -, rfl⟩ := framed_eq_some.mp hread
  obtain rfl := Option.some.inj (hf.symm.trans hf₁)
  rw [infoEnd_of_stands hb] at outside
  obtain ⟨before, rest, hdata, hbefore⟩ := hb
  obtain ⟨-, -, -, -, hle, -, -⟩ := header_eq_some.mp hf
  -- the same up to the last byte of the info
  let data' := before ++ b.altered.bytes ++ List.replicate 8 0
  have hcommon : (before ++ b.front).length + 1 = idAt f.start (!f.fast) + b.bytes.length := by
    rw [← hbefore, b.bytes_front]
    simp only [List.length_append, List.length_singleton]
    omega
  have halike : Alike (before ++ b.front).length data data' := by
    have hdata : data =
        (before ++ b.front) ++ (b.info.getLast b.info_ne_nil :: rest) := by
      rw [hdata, b.bytes_front]
      simp
    have hdata' : data' = (before ++ b.front) ++
        ((b.info.getLast b.info_ne_nil + 1) :: List.replicate 8 0) := by
      simp only [data', b.altered_bytes, List.append_assoc, List.singleton_append]
    refine Alike.of_take ?_ ?_
    · rw [hdata]
      exact (List.prefix_append _ _).length_le
    · rw [hdata, hdata', List.take_left, List.take_left]
  have hstands : Stands data' (idAt f.start (!f.fast)) b.altered.bytes :=
    ⟨before, List.replicate 8 0, List.append_assoc _ _ _, hbefore⟩
  have hlength : data'.length = (before ++ b.front).length + 9 := by
    simp only [data', b.altered_bytes, List.length_append, List.length_singleton,
      List.length_replicate]
    omega
  have hf' := halike.header hf (by omega) (by omega)
  obtain ⟨a', hread', hinfo, -⟩ := framed_of_parts hf' hstands (.inr (by omega))
  refine ⟨data', a', ?_, hread', ?_⟩
  · have htake := congrArg (List.take f.stop) halike.take
    rwa [List.take_take, List.take_take, Nat.min_eq_left (by omega)] at htake
  · rw [hinfo]
    exact b.altered_info_ne

theorem formatMac_ne_none {raw : Bytes} (hlen : raw.length = macLen) {x : UInt8} (hmem : x ∈ raw)
    (hx : x ≠ 0) : formatMac raw ≠ none := by
  rw [formatMac, if_neg]
  · exact Option.some_ne_none _
  · rintro (h | h)
    · exact h hlen
    · exact hx (beq_iff_eq.mp (List.all_eq_true.mp h x hmem))

/-- Bytes behind the body are an address, and none are none. -/
theorem exists_other_mac (hf : header data = some f) (hread : framed data = some a)
    (regular : f.fast = false) (inside : infoEnd data f ≤ f.stop)
    (outside : f.stop < infoEnd data f + macLen) :
    ∃ data' a', data'.take f.stop = data.take f.stop ∧ framed data' = some a' ∧
      a'.bluetoothMac ≠ a.bluetoothMac := by
  obtain ⟨f₁, b, psm, hf₁, hb, -, rfl⟩ := framed_eq_some.mp hread
  obtain rfl := Option.some.inj (hf.symm.trans hf₁)
  rw [infoEnd_of_stands hb] at inside outside
  obtain ⟨-, -, -, -, hle, hroom, -⟩ := header_eq_some.mp hf
  -- any bytes may stand behind the body, if they are none or enough
  have hany : ∀ tail : Bytes, tail = [] ∨ 5 ≤ tail.length →
      ∃ a', framed (data.take f.stop ++ tail) = some a' ∧ a'.bluetoothMac =
        (slice (data.take f.stop ++ tail) (idAt f.start (!f.fast) + b.bytes.length)
          (idAt f.start (!f.fast) + b.bytes.length + macLen)).bind formatMac := by
    intro tail htail
    have hlen : (data.take f.stop ++ tail).length = f.stop + tail.length := by
      rw [List.length_append, List.length_take_of_le hroom]
    have halike : Alike f.stop data (data.take f.stop ++ tail) := by
      refine Alike.of_take hroom ?_
      rw [List.take_left' (List.length_take_of_le hroom)]
    obtain ⟨a', hread', -, hmac⟩ := framed_of_parts (halike.header hf hle halike.right)
      (halike.stands hb inside) (htail.imp (fun h => by rw [hlen, h]; rfl) (by omega))
    refine ⟨a', hread', ?_⟩
    rw [hmac, macAt, regular]
    rfl
  obtain ⟨none₁, hnone, hmacNone⟩ := hany [] (.inl rfl)
  obtain ⟨some₁, hsome, hmacSome⟩ := hany (List.replicate 8 2) (.inr (by simp))
  have htake : ∀ tail, (data.take f.stop ++ tail).take f.stop = data.take f.stop :=
    fun tail => List.take_left' (List.length_take_of_le hroom)
  have hshort : none₁.bluetoothMac = none := by
    rw [hmacNone, List.append_nil, Plist.slice, if_neg]
    · rfl
    · rw [List.length_take_of_le hroom]
      omega
  have hlong : some₁.bluetoothMac ≠ none := by
    have hfirst : (data.take f.stop ++ List.replicate 8 (2 : UInt8))[f.stop]? = some 2 := by
      rw [List.getElem?_append_right (by rw [List.length_take_of_le hroom]),
        List.length_take_of_le hroom, Nat.sub_self]
      rfl
    have hlen : (data.take f.stop ++ List.replicate 8 (2 : UInt8)).length = f.stop + 8 := by
      rw [List.length_append, List.length_take_of_le hroom, List.length_replicate]
    rw [hmacSome, Plist.slice, if_pos ⟨by omega, by simp only [macLen]; omega⟩, Option.bind_some,
      Nat.add_sub_cancel_left]
    refine formatMac_ne_none ?_ (x := 2) ?_ (by decide)
    · rw [List.length_take_of_le]
      rw [List.length_drop, hlen]
      simp only [macLen]
      omega
    · refine List.mem_of_getElem? (i := f.stop - (idAt f.start (!f.fast) + b.bytes.length)) ?_
      rw [List.getElem?_take_of_lt (by omega), List.getElem?_drop, Nat.add_sub_cancel' inside,
        hfirst]
  by_cases hmac : macAt data (idAt f.start (!f.fast) + b.bytes.length) (!f.fast) = none
  · refine ⟨_, some₁, htake _, hsome, fun h => hlong ?_⟩
    exact h.trans hmac
  · refine ⟨_, none₁, htake _, hnone, fun h => hmac ?_⟩
    exact h.symm.trans hshort

/-- **The fields of a peer hang on the body alone exactly where the body holds them.** -/
theorem inside_iff (hf : header data = some f) (hread : framed data = some a) :
    (∀ data' a', data'.take f.stop = data.take f.stop → framed data' = some a' → SamePeer a a') ↔
      reach data f ≤ f.stop := by
  constructor
  · intro same
    by_contra hout
    by_cases hinfo : f.stop < infoEnd data f
    · obtain ⟨data', a', alike, hread', hne⟩ := exists_other_info hf hread hinfo
      exact hne (same data' a' alike hread').endpointInfo
    · have hregular : f.fast = false := by
        by_contra hfast
        rw [reach, if_pos (by simpa using hfast)] at hout
        omega
      rw [reach, hregular, if_neg Bool.false_ne_true] at hout
      obtain ⟨data', a', alike, hread', hne⟩ :=
        exists_other_mac hf hread hregular (by omega) (by omega)
      exact hne (same data' a' alike hread').bluetoothMac
  · exact fun inside _ _ alike hread' => samePeer_of_reach hf hread inside alike hread'

/-- Built without an address and without a PSM: the body is ten bytes, and the device token
stands where an address would. -/
def noMac : Bytes :=
  [0x48, 0xFC, 0x9F, 0x5E, 0, 0, 0, 10, 0x23, 0xFC, 0x9F, 0x5E, 0x57, 0x4C, 0x54, 0x51, 1, 0x32,
    0x6A, 0x50]

def noMacFramed : Framed where
  fast := false
  start := 8
  stop := 18

def noMacAdvertisement : Advertisement where
  endpointId := "WLTQ".toList
  endpointInfo := [0x32]
  deviceName := none
  verified := true
  bluetoothMac := none
  psm := none

theorem header_noMac : header noMac = some noMacFramed := by
  decide +kernel

theorem framed_noMac : framed noMac = some noMacAdvertisement := by
  decide +kernel

theorem inside_iff_noMac :
    (∀ data' a', data'.take noMacFramed.stop = noMac.take noMacFramed.stop →
        framed data' = some a' → SamePeer noMacAdvertisement a') ↔
      reach noMac noMacFramed ≤ noMacFramed.stop :=
  inside_iff header_noMac framed_noMac

/-- Four bytes more behind the token, and the peer has an address. -/
theorem noMac_reads_past :
    ¬ ∀ data' a', data'.take noMacFramed.stop = noMac.take noMacFramed.stop →
      framed data' = some a' → SamePeer noMacAdvertisement a' := by
  intro same
  have hread : framed (noMac ++ [0, 1, 2, 3]) =
      some { noMacAdvertisement with bluetoothMac := some "6A:50:00:01:02:03".toList } := by
    decide +kernel
  have hmac := (same _ _ (by decide) hread).bluetoothMac
  revert hmac
  decide

end Ble

end Sharingd
