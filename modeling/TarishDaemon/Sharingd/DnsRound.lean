import TarishDaemon.Sharingd.Dns
import TarishDaemon.Sharingd.PlistRound

/-!
# A response is read back

What the writer lays into a packet stands where the reader comes to it: a number, a name
label by label, a record, and all the records one after another (`parse_stands`).

The reader refuses a name before its last label is added, by a count that takes in a dot
also where none is added; a name of 254 bytes passes.
-/

namespace Sharingd

open Rust Layout
open Plist (slice slice_stands stands_of_slice)

namespace Dns

variable {buf : Bytes} {a : Nat}

/-! ## Numbers -/

theorem readU8_stands {b : UInt8} {rest : Bytes} (h : Stands buf a (b :: rest)) :
    readU8 buf a = some (b, a + 1) := by
  rw [readU8, h.getElem?, Option.map_some]

theorem readU16_stands {n : Nat} (h : Stands buf a (beBytes 2 n)) :
    readU16 buf a = some (UInt16.ofNat n, a + 2) := by
  have hbytes : beBytes 2 n = [UInt8.ofNat (n / 256 % 256), UInt8.ofNat (n % 256)] := rfl
  rw [hbytes] at h
  have hvalue : UInt16.ofNat (n / 256 % 256 * 256 + n % 256) = UInt16.ofNat n := by
    apply UInt16.toNat_inj.mp
    simp only [UInt16.toNat_ofNat']
    omega
  have hhi := toNat_ofNat_byte (n := n / 256 % 256) (Nat.mod_lt _ (by decide))
  have hlo := toNat_ofNat_byte (n := n % 256) (Nat.mod_lt _ (by decide))
  simp only [readU16, readU8_stands h, readU8_stands h.tail, Option.bind_eq_bind,
    Option.bind_some, Option.pure_def, hhi, hlo, hvalue]

theorem readU32_stands {n : Nat} (h : Stands buf a (beBytes 4 n)) :
    readU32 buf a = some (UInt32.ofNat n, a + 4) := by
  have hbytes : beBytes 4 n = beBytes 2 (n / 65536) ++ beBytes 2 n := by
    simp [beBytes, Nat.div_div_eq_div_mul]
  rw [hbytes] at h
  have hvalue : UInt32.ofNat
      ((UInt16.ofNat (n / 65536)).toNat * 65536 + (UInt16.ofNat n).toNat) = UInt32.ofNat n := by
    apply UInt32.toNat_inj.mp
    simp only [UInt32.toNat_ofNat', UInt16.toNat_ofNat']
    omega
  have hsecond : readU16 buf (a + 2) = some (UInt16.ofNat n, a + 4) := readU16_stands h.right
  simp only [readU32, readU16_stands h.left, hsecond, Option.bind_eq_bind, Option.bind_some,
    Option.pure_def, hvalue]

theorem readBytes_stands {part : Bytes} (h : Stands buf a part) :
    readBytes buf part.length a = some (part, a + part.length) := by
  rw [readBytes, slice_stands h, Option.map_some]

/-! ## Names -/

/-- A label that can be written and is read back. -/
structure IsLabel (label : Text) : Prop where
  nonempty : label ≠ []
  noDot : '.' ∉ label
  short : (asBytes label).length ≤ 63

instance (label : Text) : Decidable (IsLabel label) :=
  decidable_of_iff (label ≠ [] ∧ '.' ∉ label ∧ (asBytes label).length ≤ 63)
    ⟨fun h => ⟨h.1, h.2.1, h.2.2⟩, fun h => ⟨h.nonempty, h.noDot, h.short⟩⟩

def joinLabels (labels : List Text) : Text :=
  ['.'].intercalate labels

theorem asBytes_ne_nil {t : Text} (h : t ≠ []) : 0 < (asBytes t).length := by
  cases t with
  | nil => exact absurd rfl h
  | cons c t =>
      have hpos : 0 < (String.utf8EncodeChar c).length := by
        rw [String.length_utf8EncodeChar]
        exact c.utf8Size_pos
      have hcons : asBytes (c :: t) = String.utf8EncodeChar c ++ asBytes t := rfl
      rw [hcons, List.length_append]
      omega

theorem foldl_pushLabel {out : Text} (hout : out ≠ []) (labels : List Text) :
    labels.foldl pushLabel out = out ++ labels.flatMap fun label => '.' :: label := by
  induction labels generalizing out with
  | nil => simp
  | cons label labels ih =>
      have hpush : pushLabel out label = out ++ '.' :: label := if_neg hout
      rw [List.foldl_cons, hpush, ih (by simp), List.flatMap_cons]
      simp

theorem joinLabels_cons (label : Text) (labels : List Text) :
    joinLabels (label :: labels) = label ++ labels.flatMap fun label => '.' :: label := by
  induction labels generalizing label with
  | nil => simp [joinLabels]
  | cons next labels ih =>
      rw [joinLabels, List.intercalate_cons_cons, ← joinLabels, ih, List.flatMap_cons]
      simp

theorem joinLabels_eq {labels : List Text} (h : ∀ label ∈ labels, label ≠ []) :
    joinLabels labels = labels.foldl pushLabel [] := by
  cases labels with
  | nil => rfl
  | cons label labels =>
      have hlabel := h label List.mem_cons_self
      rw [joinLabels_cons, List.foldl_cons, pushLabel, if_pos rfl, foldl_pushLabel hlabel]

theorem encodeName_joinLabels {labels : List Text} (h : ∀ label ∈ labels, IsLabel label) :
    encodeName (joinLabels labels) = labels.flatMap encodeLabel ++ [0] := by
  cases labels with
  | nil => rfl
  | cons label labels =>
      have hsplit : (joinLabels (label :: labels)).splitOn '.' = label :: labels :=
        List.splitOn_intercalate '.' (fun l hl => (h l hl).noDot) (by simp)
      have hkeep : (label :: labels).filter (fun l => l ≠ []) = label :: labels := by
        apply List.filter_eq_self.mpr
        intro l hl
        simpa using (h l hl).nonempty
      rw [encodeName, hsplit, hkeep]

theorem length_pushLabel {label : Text} (out : Text) :
    (asBytes (pushLabel out label)).length =
      (asBytes out).length + (asBytes label).length + (if out = [] then 0 else 1) := by
  by_cases hout : out = []
  · subst hout
    simp [pushLabel, asBytes]
  · have hdot : asBytes ('.' :: label) = [46] ++ asBytes label := rfl
    rw [pushLabel, if_neg hout, if_neg hout, asBytes_append, hdot]
    simp only [List.length_append, List.length_cons, List.length_nil]
    omega

/-- Every label lengthens the name. -/
theorem length_foldl_pushLabel {labels : List Text} (h : ∀ label ∈ labels, IsLabel label)
    (out : Text) :
    (asBytes out).length + labels.length ≤ (asBytes (labels.foldl pushLabel out)).length := by
  induction labels generalizing out with
  | nil => simp
  | cons label labels ih =>
      have hlabel := asBytes_ne_nil (h label List.mem_cons_self).nonempty
      have hrest := ih (fun l hl => h l (List.mem_cons_of_mem _ hl)) (pushLabel out label)
      rw [length_pushLabel] at hrest
      rw [List.foldl_cons, List.length_cons]
      omega

/-- **The labels of a name**, whatever has been read of it. -/
theorem nameLoop_labels {labels : List Text} (h : ∀ label ∈ labels, IsLabel label) {fuel : Nat}
    (hfuel : labels.length < fuel) {out : Text} {pos jumps : Nat}
    (hshort : (asBytes (labels.foldl pushLabel out)).length ≤ 254)
    (stands : Stands buf pos (labels.flatMap encodeLabel ++ [0])) :
    nameLoop buf fuel out pos jumps none =
      some (labels.foldl pushLabel out, pos + (labels.flatMap encodeLabel ++ [0]).length) := by
  induction labels generalizing fuel out pos with
  | nil =>
      obtain ⟨fuel, rfl⟩ : ∃ k, fuel = k + 1 := ⟨fuel - 1, by simp at hfuel; omega⟩
      have hzero := stands.getElem?
      simp [nameLoop, hzero]
  | cons label labels ih =>
      obtain ⟨fuel, rfl⟩ : ∃ k, fuel = k + 1 := ⟨fuel - 1, by simp at hfuel; omega⟩
      have hlabel := h label List.mem_cons_self
      have hlabels : ∀ l ∈ labels, IsLabel l := fun l hl => h l (List.mem_cons_of_mem _ hl)
      have hpos := asBytes_ne_nil hlabel.nonempty
      have h63 := hlabel.short
      have hlen : (UInt8.ofNat (asBytes label).length).toNat = (asBytes label).length :=
        toNat_ofNat_byte (by omega)
      rw [List.foldl_cons] at hshort
      have hgrows := length_foldl_pushLabel hlabels (pushLabel out label)
      have hfits : ¬ (asBytes out).length + (asBytes label).length + 1 > maxName := by
        rw [length_pushLabel] at hgrows
        have hmax : maxName = 255 := rfl
        split at hgrows
        · subst out
          simp [asBytes] at *
          omega
        · omega
      have hwritten : (label :: labels).flatMap encodeLabel ++ [0] =
          UInt8.ofNat (asBytes label).length ::
            (asBytes label ++ (labels.flatMap encodeLabel ++ [0])) := by
        simp [encodeLabel]
      rw [hwritten] at stands ⊢
      have hslice := slice_stands stands.tail.left
      have hless : labels.length < fuel := by
        simp at hfuel
        omega
      have hrest := ih hlabels hless hshort stands.tail.right
      simp only [nameLoop, stands.getElem?, hlen, hslice, fromUtf8_asBytes]
      rw [if_neg (by omega), if_neg (by omega), if_neg hfits, hrest, List.foldl_cons]
      simp only [List.length_cons, List.length_append]
      congr 2
      omega

/-- What is left of the two bounds. -/
def turnsLeft (out : Text) (jumps : Nat) : Nat :=
  (maxName - (asBytes out).length) + (maxJumps - jumps)

/-- **A written name is read back.** -/
theorem readName_stands {labels : List Text} (h : ∀ label ∈ labels, IsLabel label)
    (hshort : (asBytes (joinLabels labels)).length ≤ 254) {pos : Nat}
    (stands : Stands buf pos (encodeName (joinLabels labels))) :
    readName buf pos =
      some (joinLabels labels, pos + (encodeName (joinLabels labels)).length) := by
  rw [encodeName_joinLabels h] at stands ⊢
  rw [joinLabels_eq fun label hlabel => (h label hlabel).nonempty] at hshort ⊢
  have hfew := length_foldl_pushLabel h []
  have hempty : (asBytes []).length = 0 := rfl
  have hfuel : labels.length < maxName + maxJumps + 2 := by
    have hmax : maxName = 255 := rfl
    omega
  exact nameLoop_labels h hfuel hshort stands

/-! ## Records -/

/-- What a responder may put into a response. -/
structure Answer where
  labels : List Text
  rtype : UInt16
  ttl : UInt32
  rdata : Bytes
  flush : Bool
  isLabel : ∀ label ∈ labels, IsLabel label
  short : (asBytes (joinLabels labels)).length ≤ 254
  fits : rdata.length ≤ 65535

namespace Answer

def written (x : Answer) : Bytes :=
  record (joinLabels x.labels) x.rtype x.ttl x.rdata x.flush

/-- A record read from `packet` is the one written. -/
structure ReadAs (packet : Bytes) (x : Answer) (r : Record) : Prop where
  name : r.name = joinLabels x.labels
  rtype : r.rtype = x.rtype
  ttl : r.ttl = x.ttl
  rdata : r.rdata = x.rdata
  located : Stands packet r.rdataAt r.rdata

theorem readRecord_written (x : Answer) {pos : Nat} (stands : Stands buf pos x.written) :
    ∃ r, readRecord buf pos = some (r, pos + x.written.length) ∧ x.ReadAs buf r := by
  unfold written record at stands
  have hname := readName_stands x.isLabel x.short stands.left
  have htype := readU16_stands stands.right.left
  have hclass := readU16_stands stands.right.right.left
  have httl := readU32_stands stands.right.right.right.left
  have hlen := readU16_stands stands.right.right.right.right.left
  have hdata := stands.right.right.right.right.right
  have hfits := x.fits
  have hrdlen : (UInt16.ofNat x.rdata.length).toNat = x.rdata.length := by
    rw [UInt16.toNat_ofNat']
    omega
  have hread := readBytes_stands hdata
  simp only [beBytes_length] at htype hclass httl hlen hdata hread
  refine ⟨⟨joinLabels x.labels, x.rtype, x.ttl, x.rdata, _⟩, ?_, rfl, rfl, rfl, rfl, hdata⟩
  simp only [readRecord, hname, htype, hclass, httl, hlen, hrdlen, hread, Option.bind_eq_bind,
    Option.bind_some, Option.pure_def, written, record, List.length_append, beBytes_length,
    UInt16.ofNat_toNat, UInt32.ofNat_toNat]
  congr 2
  omega

/-- **Records one behind the other** are read one behind the other. -/
theorem readMany_written (answers : List Answer) {pos : Nat}
    (stands : Stands buf pos (answers.map written).flatten) :
    ∃ records, readMany (readRecord buf) answers.length pos =
        some (records, pos + (answers.map written).flatten.length) ∧
      List.Forall₂ (ReadAs buf) answers records := by
  induction answers generalizing pos with
  | nil => exact ⟨[], rfl, .nil⟩
  | cons x answers ih =>
      rw [List.map_cons, List.flatten_cons] at stands ⊢
      obtain ⟨r, hread, readAs⟩ := readRecord_written x stands.left
      obtain ⟨records, hrest, allRead⟩ := ih stands.right
      refine ⟨r :: records, ?_, .cons readAs allRead⟩
      rw [List.length_cons, readMany]
      simp only [hread, hrest, Option.bind_eq_bind, Option.bind_some, Option.pure_def,
        List.length_append]
      congr 2
      omega

end Answer

/-- What a packet starts with is what is read. -/
theorem parse_stands {answers : List Answer} (few : answers.length ≤ 128) {packet : Bytes}
    (stands : Stands packet 0 (response (answers.map Answer.written))) :
    ∃ records, parse packet = some { questions := [], records } ∧
      List.Forall₂ (Answer.ReadAs packet) answers records := by
  unfold response at stands
  have hid := readU16_stands stands.left
  have hflags := readU16_stands stands.right.left
  have hqd := readU16_stands stands.right.right.left
  have han := readU16_stands stands.right.right.right.left
  have hns := readU16_stands stands.right.right.right.right.left
  have har := readU16_stands stands.right.right.right.right.right.left
  have hrecords := stands.right.right.right.right.right.right
  simp only [beBytes_length, List.length_map] at hid hflags hqd han hns har hrecords
  obtain ⟨records, hread, allRead⟩ := Answer.readMany_written answers hrecords
  have hcount : (UInt16.ofNat answers.length).toNat = answers.length := by
    rw [UInt16.toNat_ofNat']
    omega
  have hzero : (UInt16.ofNat 0).toNat = 0 := rfl
  refine ⟨records, ?_, allRead⟩
  simp only [parse, hid, hflags, hqd, han, hns, har, hcount, hzero, readMany, Option.bind_eq_bind,
    Option.bind_some, Option.pure_def, Nat.add_zero]
  rw [if_neg (by omega), if_neg (by omega), hread, Option.bind_some]

theorem stands_self (packet : Bytes) : Stands packet 0 packet := by
  simp [Stands]

/-- **A response is read back**: no questions, and the records as they were written, each
saying where its data is. -/
theorem response_read_back (answers : List Answer) (few : answers.length ≤ 128) :
    ∃ records, parse (response (answers.map Answer.written)) =
        some { questions := [], records } ∧
      List.Forall₂ (Answer.ReadAs (response (answers.map Answer.written))) answers records :=
  parse_stands few (stands_self _)

def kitchen : Answer where
  labels := ["Küche".toList, "_airdrop".toList, "_tcp".toList, "local".toList]
  rtype := typeTxt
  ttl := 4500
  rdata := [0]
  flush := true
  isLabel := by decide +kernel
  short := by decide +kernel
  fits := by decide

theorem parse_kitchen :
    [kitchen, kitchen].length ≤ 128 ∧
      ∃ records, parse (response ([kitchen, kitchen].map Answer.written)) =
          some { questions := [], records } ∧
        List.Forall₂ (Answer.ReadAs (response ([kitchen, kitchen].map Answer.written)))
          [kitchen, kitchen] records := by
  have few : [kitchen, kitchen].length ≤ 128 := by decide
  exact ⟨few, response_read_back [kitchen, kitchen] few⟩

end Dns

end Sharingd
