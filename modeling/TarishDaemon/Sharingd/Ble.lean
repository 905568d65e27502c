import TarishDaemon.Sharingd.Prompts

/-!
# The endpoint advertisement

What a device says of itself on Bluetooth: a header, a body of a declared length, a device
token, and behind them perhaps the PSM of a listener.  The regular form of the body opens
with a hash of the service and ends with an address; the fast form has neither.

The parser reads by the header first.  Where that fails it looks for the hash and takes
what comes behind it for a body, and where that fails too it takes the bytes for the fast
form.  **What was built is read back** (`parse_buildAdvertisement`).
-/

namespace Sharingd

open Rust Layout
open Plist (slice slice_stands stands_of_slice)

namespace Ble

def serviceIdHash : Bytes := [0xFC, 0x9F, 0x5E]

def endpointIdLen : Nat := 4

def macLen : Nat := 6

def deviceTokenLen : Nat := 2

def extraFieldPsm : UInt8 := 0x01

/-- A peer found over Bluetooth. -/
structure Advertisement where
  endpointId : Text
  endpointInfo : Bytes
  deviceName : Option Text
  /-- It carried the hash of the service; only the regular form does. -/
  verified : Bool
  bluetoothMac : Option Text
  psm : Option UInt16
  deriving DecidableEq, Repr

/-- `u8::is_ascii_graphic`. -/
def isAsciiGraphic (b : UInt8) : Bool :=
  decide (0x21 ≤ b ∧ b ≤ 0x7E)

/-- `{:02X}`. -/
def upperHex (b : UInt8) : Text :=
  [(Nat.digitChar (b.toNat / 16)).toUpper, (Nat.digitChar (b.toNat % 16)).toUpper]

/-- All zeroes means that there is no listener. -/
def formatMac (b : Bytes) : Option Text :=
  if b.length ≠ macLen ∨ b.all (· == 0) then none
  else some ([':'].intercalate (b.map upperHex))

theorem upperHex_injective : Function.Injective upperHex := by
  have hdigit : ∀ i < 16, ∀ j < 16, (Nat.digitChar i).toUpper = (Nat.digitChar j).toUpper →
      i = j := by
    decide
  intro a b h
  have ha := a.toNat_lt
  have hb := b.toNat_lt
  simp only [upperHex, List.cons.injEq, and_true] at h
  have hhigh := hdigit _ (by omega) _ (by omega) h.1
  have hlow := hdigit _ (by omega) _ (by omega) h.2
  apply UInt8.toNat_inj.mp
  omega

theorem intercalate_upperHex_injective {x y : Bytes} (hlen : x.length = y.length)
    (h : [':'].intercalate (x.map upperHex) = [':'].intercalate (y.map upperHex)) : x = y := by
  induction x generalizing y with
  | nil => exact (List.length_eq_zero_iff.mp hlen.symm).symm
  | cons a x ih =>
      obtain ⟨b, y, rfl⟩ := List.exists_cons_of_length_eq_add_one hlen.symm
      rw [List.length_cons, List.length_cons] at hlen
      cases x with
      | nil =>
          obtain rfl := List.length_eq_zero_iff.mp (Nat.succ.inj hlen).symm
          have hfirst : upperHex a = upperHex b := by simpa using h
          rw [upperHex_injective hfirst]
      | cons a' x =>
          obtain ⟨b', y, rfl⟩ := List.exists_cons_of_length_eq_add_one (Nat.succ.inj hlen).symm
          simp only [List.map_cons, List.intercalate_cons_cons, List.append_assoc] at h
          obtain ⟨hfirst, hrest⟩ := List.append_inj h rfl
          have htail := ih (y := b' :: y) (Nat.succ.inj hlen) (List.append_cancel_left hrest)
          rw [upperHex_injective hfirst, htail]

/-- An address is read off its text. -/
theorem formatMac_injective {x y : Bytes} {t : Text} (hx : formatMac x = some t)
    (hy : formatMac y = some t) : x = y := by
  unfold formatMac at hx hy
  split at hx
  · cases hx
  · next hsized =>
    split at hy
    · cases hy
    · next hsized' =>
      simp only [not_or, not_not] at hsized hsized'
      exact intercalate_upperHex_injective (hsized.1.trans hsized'.1.symm)
        (Option.some.inj (hx.trans hy.symm))

/-! ## Building -/

/-- Two bytes of zero go with the address. -/
def macBytes : Option (Octets macLen) → Bytes
  | some mac => mac.bytes ++ [0, 0]
  | none => []

/-- Without a PSM there is no mask either. -/
def psmBytes (psm : Option UInt16) : Bytes :=
  match psm.filter (· ≠ 0) with
  | some p => extraFieldPsm :: beBytes 2 p.toNat
  | none => []

def buildAdvertisement (endpointId : Text) (endpointInfo : Bytes)
    (bluetoothMac : Option (Octets macLen)) (deviceToken : Octets deviceTokenLen)
    (psm : Option UInt16) : Option Bytes :=
  if (asBytes endpointId).length ≠ endpointIdLen ∨ ¬ (asBytes endpointId).all isAsciiGraphic ∨
      endpointInfo = [] ∨ 255 < endpointInfo.length then none
  else
    let body := 0x23 :: (serviceIdHash ++ (asBytes endpointId ++
      UInt8.ofNat endpointInfo.length :: endpointInfo ++ macBytes bluetoothMac))
    some (0x48 :: (serviceIdHash ++ (beBytes 4 (body.length % 2 ^ 32) ++ (body ++
      (deviceToken.bytes ++ psmBytes psm)))))

/-! ## Parsing -/

/-- Read a body that starts at its version byte. -/
def bodyAt (data : Bytes) (start : Nat) (regular : Bool) : Option Advertisement := do
  let o := start + 1 + if regular then serviceIdHash.length else 0
  let idEnd := o + endpointIdLen
  let id ← slice data o idEnd
  if ¬ id.all isAsciiGraphic then none
  else do
    let infoLen ← data[idEnd]?
    let infoStart := idEnd + 1
    let infoEnd := infoStart + infoLen.toNat
    if infoLen.toNat = 0 ∨ data.length < infoEnd then none
    else
      let info := (data.drop infoStart).take infoLen.toNat
      some
        { endpointId := fromUtf8Lossy id
          deviceName := nameFromInfo info
          endpointInfo := info
          verified := regular
          bluetoothMac :=
            if regular then (slice data infoEnd (infoEnd + macLen)).bind formatMac else none
          psm := none }

/-- Where a header puts the body. -/
structure Framed where
  fast : Bool
  start : Nat
  stop : Nat
  deriving DecidableEq, Repr

/-- The length that is declared, and where the body starts behind it. -/
def declared (data : Bytes) (fast : Bool) : Option (Nat × Nat) :=
  if fast then data[1]?.map fun n => (n.toNat, 2)
  else if slice data 1 4 ≠ some serviceIdHash then none
  else (slice data 4 8).map fun n => (be n, 8)

/-- The header of a frame: the first half of `framed`. -/
def header (data : Bytes) : Option Framed := do
  let first ← data.head?
  let version := (first &&& 0xE0) >>> 5
  let socketVersion := (first &&& 0x1C) >>> 2
  let fast := decide (first &&& 0x02 ≠ 0)
  if ¬ (1 ≤ version ∧ version ≤ 2) ∨ ¬ (1 ≤ socketVersion ∧ socketVersion ≤ 2) then none
  else do
    let (bodyLen, start) ← declared data fast
    if data.length < start + bodyLen then none
    else some { fast := fast, start := start, stop := start + bodyLen }

/-- What stands behind the body: the token, and after it perhaps a mask and a PSM. -/
def trailingPsm (data : Bytes) (bodyEnd : Nat) : Option (Option UInt16) :=
  match data[bodyEnd + deviceTokenLen]? with
  | none => some none
  | some mask =>
      if mask &&& extraFieldPsm ≠ 0 then
        (slice data (bodyEnd + deviceTokenLen + 1) (bodyEnd + deviceTokenLen + 3)).map fun raw =>
          let psm := UInt16.ofNat (be raw)
          if psm ≠ 0 then some psm else none
      else some none

def framed (data : Bytes) : Option Advertisement := do
  let f ← header data
  let advert ← bodyAt data f.start (!f.fast)
  let psm ← trailingPsm data f.stop
  some { advert with psm := psm }

/-- A body behind a hash, wherever that is. -/
def scan (data : Bytes) : Option Advertisement :=
  (List.range' 1 (data.length - serviceIdHash.length - 1)).findSome? fun i =>
    if slice data i (i + serviceIdHash.length) ≠ some serviceIdHash then none
    else bodyAt data (i - 1) true

def parseAdvertisement (data : Bytes) : Option Advertisement :=
  (framed data).or ((scan data).or (bodyAt data 2 false))

/-! ## A body -/

/-- What a body says of its peer, within the bounds in which a body can say it. -/
structure Body where
  id : Bytes
  info : Bytes
  id_length : id.length = endpointIdLen
  graphic : id.all isAsciiGraphic = true
  info_pos : 0 < info.length
  info_lt : info.length < 256

namespace Body

/-- As it stands behind the version, and behind the hash where there is one. -/
def bytes (b : Body) : Bytes :=
  b.id ++ UInt8.ofNat b.info.length :: b.info

def advertisement (b : Body) (regular : Bool) (mac : Option Text) : Advertisement where
  endpointId := fromUtf8Lossy b.id
  endpointInfo := b.info
  deviceName := nameFromInfo b.info
  verified := regular
  bluetoothMac := mac
  psm := none

theorem bytes_length (b : Body) : b.bytes.length = 5 + b.info.length := by
  have hid := b.id_length
  simp only [bytes, List.length_append, List.length_cons, endpointIdLen] at hid ⊢
  omega

end Body

/-- Where the id of a body stands. -/
def idAt (start : Nat) (regular : Bool) : Nat :=
  start + 1 + if regular then serviceIdHash.length else 0

/-- The address behind a body. -/
def macAt (data : Bytes) (stop : Nat) (regular : Bool) : Option Text :=
  if regular then (slice data stop (stop + macLen)).bind formatMac else none

variable {data : Bytes} {start : Nat} {regular : Bool}

theorem bodyAt_of_stands {b : Body} (h : Stands data (idAt start regular) b.bytes) :
    bodyAt data start regular = some (b.advertisement regular
      (macAt data (idAt start regular + b.bytes.length) regular)) := by
  have hid : slice data (idAt start regular) (idAt start regular + endpointIdLen) = some b.id := by
    rw [← b.id_length]
    exact slice_stands h.left
  have hlen : data[idAt start regular + endpointIdLen]? = some (UInt8.ofNat b.info.length) := by
    rw [← b.id_length]
    exact h.right.getElem?
  have hinfo : Stands data (idAt start regular + endpointIdLen + 1) b.info := by
    rw [← b.id_length]
    exact h.right.tail
  have hcount := toNat_ofNat_byte b.info_lt
  have hpos := b.info_pos
  have hend := hinfo.length_le
  have hstop : idAt start regular + endpointIdLen + 1 + b.info.length =
      idAt start regular + b.bytes.length := by
    rw [b.bytes_length, endpointIdLen]
    omega
  unfold bodyAt
  rw [← idAt]
  simp only [hid, Option.bind_eq_bind, Option.bind_some, b.graphic, not_true_eq_false, if_false,
    hlen, hcount]
  rw [if_neg (by omega), hinfo.take_drop, hstop]
  rfl

/-- **What `body_at` accepts is a body.** -/
theorem stands_of_bodyAt {a : Advertisement} (h : bodyAt data start regular = some a) :
    ∃ b : Body, Stands data (idAt start regular) b.bytes := by
  unfold bodyAt at h
  rw [← idAt] at h
  simp only [Option.bind_eq_bind, Option.bind_eq_some_iff] at h
  obtain ⟨id, hid, h⟩ := h
  obtain ⟨hstands, hidLen⟩ := stands_of_slice hid
  have hlength : id.length = endpointIdLen := by omega
  split at h
  · cases h
  · next hgraphic =>
      simp only [Option.bind_eq_some_iff] at h
      obtain ⟨infoLen, hlen, h⟩ := h
      have hbyte := infoLen.toNat_lt
      split at h
      · cases h
      · next hinfo =>
          rw [← hlength] at hlen hinfo
          obtain ⟨hpos, hend⟩ := not_or.mp hinfo
          have hrest : Stands data (idAt start regular + id.length + 1)
              ((data.drop (idAt start regular + id.length + 1)).take infoLen.toNat) :=
            stands_take_drop (by omega)
          generalize hpart : (data.drop (idAt start regular + id.length + 1)).take infoLen.toNat =
            part at hrest
          have hcount : part.length = infoLen.toNat := by
            rw [← hpart, List.length_take_of_le]
            rw [List.length_drop]
            omega
          have hmark : UInt8.ofNat part.length = infoLen := by
            rw [hcount]
            exact UInt8.ofNat_toNat
          refine ⟨⟨id, part, hlength, by simpa using hgraphic, by omega, by omega⟩, ?_⟩
          rw [Body.bytes]
          simp only [hmark]
          exact hstands.append ((stands_of_getElem? hlen).append hrest)

/-! ## A frame -/

/-- A regular frame around a body. -/
def frame (body rest : Bytes) : Bytes :=
  0x48 :: (serviceIdHash ++ (beBytes 4 body.length ++ (body ++ rest)))

/-- The body that is built. -/
def bodyBytes (b : Body) (mac : Option (Octets macLen)) : Bytes :=
  0x23 :: (serviceIdHash ++ (b.bytes ++ macBytes mac))

variable {body rest : Bytes}

theorem frame_hash (body rest : Bytes) : Stands (frame body rest) 1 serviceIdHash :=
  ⟨[0x48], _, rfl, rfl⟩

theorem frame_count (body rest : Bytes) : Stands (frame body rest) 4 (beBytes 4 body.length) :=
  ⟨0x48 :: serviceIdHash, body ++ rest, rfl, rfl⟩

theorem frame_body (body rest : Bytes) : Stands (frame body rest) 8 (body ++ rest) := by
  refine ⟨0x48 :: (serviceIdHash ++ beBytes 4 body.length), [], ?_, ?_⟩
  · simp [frame]
  · simp [serviceIdHash]

theorem frame_length (body rest : Bytes) :
    (frame body rest).length = 8 + body.length + rest.length := by
  simp only [frame, serviceIdHash, List.length_cons, List.length_append, List.length_nil,
    beBytes_length]
  omega

theorem header_frame (h : body.length < 2 ^ 32) :
    header (frame body rest) = some ⟨false, 8, 8 + body.length⟩ := by
  have hhash : slice (frame body rest) 1 4 = some serviceIdHash :=
    slice_stands (frame_hash body rest)
  have hcount : slice (frame body rest) 4 8 = some (beBytes 4 body.length) := by
    have hslice := slice_stands (frame_count body rest)
    rwa [beBytes_length] at hslice
  have hbe : be (beBytes 4 body.length) = body.length := be_beBytes_of_lt (by decide) (by omega)
  have hhead : (frame body rest).head? = some 0x48 := rfl
  have hlen := frame_length body rest
  have hdeclared : declared (frame body rest) false = some (body.length, 8) := by
    simp [declared, hhash, hcount, hbe]
  have hfast : decide ((0x48 : UInt8) &&& 0x02 ≠ 0) = false := by decide
  simp only [header, hhead, hfast, hdeclared, Option.bind_eq_bind, Option.bind_some]
  rw [if_neg (by decide), if_neg (by omega)]

/-- The body of a frame, and what its id and its info are read as. -/
theorem stands_body (b : Body) (mac : Option (Octets macLen)) (rest : Bytes) :
    Stands (frame (bodyBytes b mac) rest) (idAt 8 true) b.bytes := by
  have hbody := (frame_body (bodyBytes b mac) rest).left
  have hhash : Stands (frame (bodyBytes b mac) rest) 9
      (serviceIdHash ++ (b.bytes ++ macBytes mac)) :=
    hbody.tail
  exact hhash.right.left

theorem bodyBytes_length (b : Body) (mac : Option (Octets macLen)) :
    (bodyBytes b mac).length = 9 + b.info.length + (macBytes mac).length := by
  simp only [bodyBytes, serviceIdHash, List.length_cons, List.length_append, List.length_nil,
    b.bytes_length]
  omega

theorem macBytes_length_le (mac : Option (Octets macLen)) : (macBytes mac).length ≤ 8 := by
  cases mac with
  | none => exact Nat.zero_le 8
  | some mac =>
      have hsized := mac.sized
      simp only [macBytes, List.length_append, List.length_cons, List.length_nil, macLen] at *
      omega

/-- With too few bytes behind the body there is no address to be made of them. -/
theorem macAt_frame (b : Body) (mac : Option (Octets macLen)) (hshort : rest.length < macLen) :
    macAt (frame (bodyBytes b mac) rest) (idAt 8 true + b.bytes.length) true =
      mac.bind fun mac => formatMac mac.bytes := by
  have hbody : Stands (frame (bodyBytes b mac) rest) (idAt 8 true)
      (b.bytes ++ (macBytes mac ++ rest)) := by
    have h : Stands (frame (bodyBytes b mac) rest) 9
        (serviceIdHash ++ (b.bytes ++ macBytes mac) ++ rest) :=
      (frame_body (bodyBytes b mac) rest).tail
    rw [List.append_assoc, List.append_assoc] at h
    exact h.right
  have hbehind := hbody.right
  rw [macAt, if_pos rfl]
  cases mac with
  | none =>
      have hlen := frame_length (bodyBytes b none) rest
      have hnone : bodyBytes b none = 0x23 :: (serviceIdHash ++ b.bytes) := by
        simp [bodyBytes, macBytes]
      rw [hnone] at hlen ⊢
      simp only [List.length_cons, List.length_append] at hlen
      have hshortened : ¬ idAt 8 true + b.bytes.length + macLen ≤
          (frame (0x23 :: (serviceIdHash ++ b.bytes)) rest).length := by
        simp only [idAt, if_true]
        omega
      rw [slice, if_neg fun h => hshortened h.2]
      rfl
  | some mac =>
      have hstands : Stands (frame (bodyBytes b (some mac)) rest)
          (idAt 8 true + b.bytes.length) mac.bytes := by
        rw [macBytes, List.append_assoc] at hbehind
        exact hbehind.left
      have hslice := slice_stands hstands
      rw [mac.sized] at hslice
      rw [hslice]
      rfl

theorem trailingPsm_stands {stop : Nat} {token : Octets deviceTokenLen} {psm : Option UInt16}
    (h : Stands data stop (token.bytes ++ psmBytes psm))
    (hend : data.length = stop + (token.bytes ++ psmBytes psm).length) :
    trailingPsm data stop = some (psm.filter (· ≠ 0)) := by
  have hbehind := h.right
  have hsized := token.sized
  rw [hsized] at hbehind
  rw [List.length_append, hsized] at hend
  unfold psmBytes at hbehind hend
  unfold trailingPsm
  cases hpsm : psm.filter (· ≠ 0) with
  | none =>
      simp only [hpsm, List.length_nil, Nat.add_zero] at hend
      rw [List.getElem?_eq_none (by omega)]
  | some p =>
      simp only [hpsm] at hbehind
      obtain ⟨-, hne⟩ := Option.filter_eq_some_iff.mp hpsm
      have hslice := slice_stands hbehind.tail
      have hbe : be (beBytes 2 p.toNat) = p.toNat := be_beBytes_of_lt (by decide) p.toNat_lt
      have hvalue : UInt16.ofNat p.toNat = p := UInt16.ofNat_toNat
      rw [beBytes_length] at hslice
      rw [hbehind.getElem?]
      simp only [hslice, Option.map_some, hbe, hvalue]
      rw [if_pos (by decide), if_pos (by simpa using hne)]

theorem buildAdvertisement_eq {b : Body} {endpointId : Text} (hid : asBytes endpointId = b.id)
    (mac : Option (Octets macLen)) (token : Octets deviceTokenLen) (psm : Option UInt16) :
    buildAdvertisement endpointId b.info mac token psm =
      some (frame (bodyBytes b mac) (token.bytes ++ psmBytes psm)) := by
  have hpos := b.info_pos
  have hlt := b.info_lt
  have hmac := macBytes_length_le mac
  have hbody := bodyBytes_length b mac
  have hmod : (bodyBytes b mac).length % 2 ^ 32 = (bodyBytes b mac).length :=
    Nat.mod_eq_of_lt (by omega)
  unfold buildAdvertisement
  rw [hid, if_neg]
  · change some (0x48 :: (serviceIdHash ++ (beBytes 4 ((bodyBytes b mac).length % 2 ^ 32) ++
      (bodyBytes b mac ++ (token.bytes ++ psmBytes psm))))) = _
    rw [hmod]
    rfl
  · rintro (h | h | h | h)
    · exact h b.id_length
    · exact h b.graphic
    · rw [h] at hpos
      cases hpos
    · omega

/-- What can be built is a frame around a body. -/
theorem body_of_build {endpointId : Text} {info : Bytes} {mac : Option (Octets macLen)}
    {token : Octets deviceTokenLen} {psm : Option UInt16}
    (h : buildAdvertisement endpointId info mac token psm = some data) :
    ∃ b : Body, b.id = asBytes endpointId ∧ b.info = info ∧
      data = frame (bodyBytes b mac) (token.bytes ++ psmBytes psm) := by
  have hbuilt := h
  unfold buildAdvertisement at h
  split at h
  · cases h
  · next hrefused =>
      simp only [not_or, not_not] at hrefused
      obtain ⟨hlen, hgraphic, hne, hle⟩ := hrefused
      let b : Body := ⟨asBytes endpointId, info, hlen, hgraphic, List.length_pos_of_ne_nil hne,
        by omega⟩
      refine ⟨b, rfl, rfl, ?_⟩
      rw [buildAdvertisement_eq (b := b) rfl mac token psm] at hbuilt
      exact (Option.some.inj hbuilt).symm

/-! ## There and back -/

/-- Reading a frame whose body is whole. -/
theorem framed_frame (b : Body) (mac : Option (Octets macLen)) (hshort : rest.length < macLen) :
    framed (frame (bodyBytes b mac) rest) =
      (trailingPsm (frame (bodyBytes b mac) rest) (8 + (bodyBytes b mac).length)).map fun psm =>
        { b.advertisement true (mac.bind fun mac => formatMac mac.bytes) with psm := psm } := by
  have hlt := b.info_lt
  have hbody := bodyBytes_length b mac
  have hmac := macBytes_length_le mac
  have hread := bodyAt_of_stands (stands_body b mac rest)
  rw [macAt_frame b mac hshort] at hread
  rw [framed, header_frame (by omega)]
  simp only [Option.bind_eq_bind, Option.bind_some, Bool.not_false, hread]
  cases trailingPsm (frame (bodyBytes b mac) rest) (8 + (bodyBytes b mac).length) with
  | none => rfl
  | some psm => rfl

theorem psmBytes_length_le (psm : Option UInt16) : (psmBytes psm).length ≤ 3 := by
  unfold psmBytes
  split
  · exact Nat.le_refl 3
  · exact Nat.zero_le 3

/-- What is read of what was built. -/
theorem parse_frame (b : Body) (mac : Option (Octets macLen)) (token : Octets deviceTokenLen)
    (psm : Option UInt16) :
    parseAdvertisement (frame (bodyBytes b mac) (token.bytes ++ psmBytes psm)) =
      some
        { b.advertisement true (mac.bind fun mac => formatMac mac.bytes) with
          psm := psm.filter (· ≠ 0) } := by
  have hsized := token.sized
  have hpsm := psmBytes_length_le psm
  have hlen := frame_length (bodyBytes b mac) (token.bytes ++ psmBytes psm)
  have htrailing := trailingPsm_stands (frame_body (bodyBytes b mac) _).right hlen
  have hshort : (token.bytes ++ psmBytes psm).length < macLen := by
    rw [List.length_append, hsized]
    simp only [deviceTokenLen, macLen]
    omega
  rw [parseAdvertisement, framed_frame b mac hshort, htrailing]
  rfl

/-- `char::is_ascii_graphic`: a character that an endpoint id may have. -/
def isGraphic (c : Char) : Bool :=
  decide (0x21 ≤ c.toNat ∧ c.toNat ≤ 0x7E)

theorem asBytes_graphic {t : Text} (h : ∀ c ∈ t, isGraphic c = true) :
    (asBytes t).length = t.length ∧ (asBytes t).all isAsciiGraphic = true := by
  have hascii : isAscii t = true := by
    rw [isAscii, List.all_eq_true]
    intro c hc
    have hgraphic := of_decide_eq_true (h c hc)
    exact decide_eq_true (by omega)
  rw [asBytes_ascii hascii]
  refine ⟨List.length_map _, ?_⟩
  rw [List.all_map, List.all_eq_true]
  intro c hc
  have hgraphic := of_decide_eq_true (h c hc)
  have hbyte := toNat_ofNat_byte (n := c.toNat) (by omega)
  apply decide_eq_true
  simp only [UInt8.le_iff_toNat_le, hbyte]
  exact hgraphic

/-- **What was built is read back**, with the address unless it is all zero and the PSM unless
it is zero. -/
theorem parse_buildAdvertisement (endpointId : Text) (endpointInfo : Bytes)
    (bluetoothMac : Option (Octets macLen)) (deviceToken : Octets deviceTokenLen)
    (psm : Option UInt16) (four : endpointId.length = endpointIdLen)
    (printable : ∀ c ∈ endpointId, isGraphic c = true)
    (info : 1 ≤ endpointInfo.length ∧ endpointInfo.length ≤ 255) :
    (buildAdvertisement endpointId endpointInfo bluetoothMac deviceToken psm).bind
        parseAdvertisement =
      some
        { endpointId := endpointId
          endpointInfo := endpointInfo
          deviceName := nameFromInfo endpointInfo
          verified := true
          bluetoothMac := bluetoothMac.bind fun mac => formatMac mac.bytes
          psm := psm.filter (· ≠ 0) } := by
  obtain ⟨hlen, hgraphic⟩ := asBytes_graphic printable
  let b : Body :=
    { id := asBytes endpointId
      info := endpointInfo
      id_length := hlen.trans four
      graphic := hgraphic
      info_pos := info.1
      info_lt := by omega }
  have hbuilt := buildAdvertisement_eq (b := b) rfl bluetoothMac deviceToken psm
  rw [hbuilt, Option.bind_some, parse_frame]
  have hid : fromUtf8Lossy b.id = endpointId := fromUtf8Lossy_asBytes endpointId
  simp only [Body.advertisement, hid]
  rfl

theorem parse_buildAdvertisement_sample :
    (buildAdvertisement "WLTQ".toList [0x22, 0x31]
        (some ⟨[0x54, 0x1F, 0xCD, 0x69, 0x72, 0x64], rfl⟩) ⟨[0x6A, 0x50], rfl⟩
        (some 177)).bind parseAdvertisement =
      some
        { endpointId := "WLTQ".toList
          endpointInfo := [0x22, 0x31]
          deviceName := none
          verified := true
          bluetoothMac := some "54:1F:CD:69:72:64".toList
          psm := some 177 } :=
  parse_buildAdvertisement "WLTQ".toList [0x22, 0x31]
    (some ⟨[0x54, 0x1F, 0xCD, 0x69, 0x72, 0x64], rfl⟩) ⟨[0x6A, 0x50], rfl⟩ (some 177) rfl
    (List.all_eq_true.mp (by decide)) (by decide)

end Ble

end Sharingd
