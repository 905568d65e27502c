import TarishDaemon.Rust.Radix
import TarishDaemon.Rust.Utf16

/-!
# The cpio archive of a transfer

The portable ASCII format: each member is a header of octal numbers, a name that ends
in a zero byte, and the data; a member of a set name ends the archive.  The builder and
the reader are the vendored crate's, as far as a transfer uses them.

**The reader inverts the builder** (`readNext_entry`): from a member that the builder
wrote it takes that header, and leaves the data to be read.  A field that is too large
for its digits is refused by the builder, so there is nothing more to ask for.
-/

namespace Sharingd

open Rust

/-- A reader: the bytes it still gives, and whether it then fails or ends. -/
structure Source where
  bytes : Bytes
  broken : Bool := false
  deriving DecidableEq, Repr

namespace Odc

inductive Error
  /-- An error of the reader below; `eof` is `UnexpectedEof`. -/
  | io (eof : Bool)
  | badMagic
  | badHeaderString
  | badHeaderHex
  | filenameDecode
  | valueTooLarge
  | sizeMismatch
  /-- `size - s.len()` below zero. -/
  | overflow
  deriving DecidableEq, Repr

def magic : Bytes := asBytes "070707".toList

def trailer : Text := "TRAILER!!!".toList

structure Header where
  dev : Nat
  inode : Nat
  mode : Nat
  uid : Nat
  gid : Nat
  nlink : Nat
  rdev : Nat
  mtime : Nat
  fileSize : Nat
  name : Text
  deriving DecidableEq, Repr

/-! ## Writing -/

/-- `write_octal`.  The bound lets one number through that takes a digit too many. -/
def octal (value size : Nat) : Except Error Bytes :=
  if value > 8 ^ size then .error .valueTooLarge
  else
    let s := Nat.toDigits 8 value
    if size < s.length then .error .overflow
    else .ok (asBytes (List.replicate (size - s.length) '0' ++ s))

/-- `OdcHeader::write`. -/
def Header.write (h : Header) : Except Error Bytes := do
  let dev ← octal h.dev 6
  let inode ← octal h.inode 6
  let mode ← octal h.mode 6
  let uid ← octal h.uid 6
  let gid ← octal h.gid 6
  let nlink ← octal h.nlink 6
  let rdev ← octal h.rdev 6
  let mtime ← octal h.mtime 11
  let nameLen ← octal ((asBytes h.name).length + 1) 6
  let fileSize ← octal h.fileSize 11
  return magic ++ (dev ++ (inode ++ (mode ++ (uid ++ (gid ++ (nlink ++ (rdev ++ (mtime ++
    (nameLen ++ (fileSize ++ (asBytes h.name ++ [0])))))))))))

/-- `next_header`, with the builder's count of entries and its time. -/
def nextHeader (count : Nat) (now : Int) : Header :=
  { dev := 0, inode := count, mode := 0o644, uid := 0, gid := 0, nlink := 0, rdev := 0
    mtime := (now % 2 ^ 32).toNat, fileSize := 0, name := [] }

theorem mtime_nextHeader (count : Nat) (now : Int) : (nextHeader count now).mtime < 2 ^ 32 := by
  show (now % 2 ^ 32).toNat < 2 ^ 32
  omega

/-- `append_header_with_reader`, with all that the reader yields. -/
def append (h : Header) (data : Bytes) : Except Error Bytes := do
  let header ← h.write
  if data.length ≠ h.fileSize then .error .sizeMismatch
  else return header ++ data

/-- `OdcBuilder::finish`. -/
def finish (count : Nat) (now : Int) : Except Error Bytes :=
  Header.write { nextHeader count now with name := trailer }

/-! ## Reading -/

/-- `read_exact`. -/
def readExact (n : Nat) (s : Source) : Except Error (Bytes × Source) :=
  if n ≤ s.bytes.length then .ok (s.bytes.take n, { s with bytes := s.bytes.drop n })
  else .error (.io !s.broken)

/-- `u32_from_octal` and `u64_from_octal`, by the bound of the type. -/
def octalValue (bound : Nat) (data : Bytes) : Except Error Nat :=
  let s := fromUtf8Lossy data
  -- what is not UTF-8 is the only thing that changes on the way there and back
  if asBytes s ≠ data then .error .badHeaderString
  else
    match fromStrRadix 8 bound s with
    | some v => .ok v
    | none => .error .badHeaderHex

def readOctal (bound count : Nat) (s : Source) : Except Error (Nat × Source) := do
  let (data, s) ← readExact count s
  return (← octalValue bound data, s)

/-- `CStr::from_bytes_with_nul`: the only zero byte is the last. -/
def cStr (data : Bytes) : Option Bytes :=
  if data.getLast? = some 0 ∧ 0 ∉ data.dropLast then some data.dropLast else none

/-- `OdcHeader::from_reader`. -/
def Header.fromReader (s : Source) : Except Error (Header × Source) := do
  let (dev, s) ← readOctal (2 ^ 32) 6 s
  let (inode, s) ← readOctal (2 ^ 32) 6 s
  let (mode, s) ← readOctal (2 ^ 32) 6 s
  let (uid, s) ← readOctal (2 ^ 32) 6 s
  let (gid, s) ← readOctal (2 ^ 32) 6 s
  let (nlink, s) ← readOctal (2 ^ 32) 6 s
  let (rdev, s) ← readOctal (2 ^ 32) 6 s
  let (mtime, s) ← readOctal (2 ^ 32) 11 s
  let (nameLen, s) ← readOctal (2 ^ 32) 6 s
  let (fileSize, s) ← readOctal (2 ^ 64) 11 s
  let (nameData, s) ← readExact nameLen s
  match cStr nameData with
  | none => .error .filenameDecode
  | some name =>
      return (⟨dev, inode, mode, uid, gid, nlink, rdev, mtime, fileSize, fromUtf8Lossy name⟩, s)

/-- `OdcReader`: the archive between two members, or a member and what may still be
read of it. -/
structure Reader where
  archive : Option Source
  entry : Option (Nat × Source) := none
  seenTrailer : Bool := false
  deriving DecidableEq, Repr

/-- `finish`: go past what was not read of the member. -/
def Reader.finish (r : Reader) : Except Error Reader :=
  match r.entry with
  | none => .ok r
  | some (left, s) =>
      if s.bytes.length < left ∧ s.broken then .error (.io false)
      else
        .ok { r with
          entry := none
          archive := if r.seenTrailer then r.archive
            else some { s with bytes := s.bytes.drop left } }

/-- `read_next`. -/
def Reader.readNext (r : Reader) : Except Error (Option Header × Reader) := do
  let r ← r.finish
  match r.archive with
  | none => return (none, r)
  | some s =>
      match readExact magic.length s with
      -- an archive may end without its last member
      | .error (.io true) => return (none, { r with archive := none })
      | .error e => .error e
      | .ok (found, s) =>
          if found ≠ magic then .error .badMagic
          else do
            let (h, s) ← Header.fromReader s
            if h.name = trailer then
              return (none, { r with archive := none, seenTrailer := true })
            else return (some h, { r with archive := none, entry := some (h.fileSize, s) })

/-- `io::copy` of no more than `size` bytes of the member: what was copied, and whether
the reader failed in the middle. -/
def Reader.copy (r : Reader) (size : Nat) : Bytes × Bool × Reader :=
  match r.entry with
  | none => ([], true, r)
  | some (left, s) =>
      let want := min size left
      (s.bytes.take want, decide (s.bytes.length < want) && s.broken,
        { r with entry := some (left - min want s.bytes.length,
            { s with bytes := s.bytes.drop want }) })

/-! ## What is written is read -/

theorem octal_ok {value size : Nat} {b : Bytes} (hsize : 0 < size) (h : octal value size = .ok b) :
    value < 8 ^ size ∧ b.length = size ∧
      b = asBytes (List.replicate (size - (Nat.toDigits 8 value).length) '0' ++
        Nat.toDigits 8 value) := by
  unfold octal at h
  split at h
  · cases h
  dsimp only at h
  split at h
  · cases h
  next hfits =>
    cases h
    have hlt : value < 8 ^ size :=
      (Nat.length_toDigits_le_iff (by decide) hsize).mp (Nat.not_lt.mp hfits)
    refine ⟨hlt, ?_, rfl⟩
    have hascii := isAscii_toDigits (show 1 < 8 by omega) (by omega)
      (size - (Nat.toDigits 8 value).length) value
    rw [asBytes_ascii hascii, List.length_map, List.length_append, List.length_replicate]
    omega

theorem octal_total {value size : Nat} (hsize : 0 < size) (h : value < 8 ^ size) :
    ∃ b, octal value size = .ok b := by
  have hlen := (Nat.length_toDigits_le_iff (by decide) hsize).mpr h
  unfold octal
  rw [if_neg (by omega)]
  dsimp only
  rw [if_neg (by omega)]
  exact ⟨_, rfl⟩

/-- A header whose numbers fit their digits is written. -/
theorem write_nextHeader {count mode fileSize : Nat} {name : Text} (now : Int)
    (hcount : count < 8 ^ 6) (hmode : mode < 8 ^ 6) (hname : (asBytes name).length + 1 < 8 ^ 6)
    (hsize : fileSize < 8 ^ 11) :
    ∃ out, Header.write { nextHeader count now with
      name := name, fileSize := fileSize, mode := mode } = .ok out := by
  have htime : (now % 2 ^ 32).toNat < 8 ^ 11 := by omega
  obtain ⟨zero, hzero⟩ := octal_total (show 0 < 6 by decide) (show 0 < 8 ^ 6 by decide)
  obtain ⟨inode, hinode⟩ := octal_total (show 0 < 6 by decide) hcount
  obtain ⟨m, hm⟩ := octal_total (show 0 < 6 by decide) hmode
  obtain ⟨t, ht⟩ := octal_total (show 0 < 11 by decide) htime
  obtain ⟨len, hlen⟩ := octal_total (show 0 < 6 by decide) hname
  obtain ⟨size, hs⟩ := octal_total (show 0 < 11 by decide) hsize
  simp only [Header.write, nextHeader, hzero, hinode, hm, ht, hlen, hs, bind, Except.bind, pure,
    Except.pure]
  exact ⟨_, rfl⟩

theorem readExact_append {b rest : Bytes} (broken : Bool) {n : Nat} (h : b.length = n) :
    readExact n ⟨b ++ rest, broken⟩ = .ok (b, ⟨rest, broken⟩) := by
  subst h
  simp [readExact]

theorem readOctal_octal {value size bound : Nat} {b rest : Bytes} {broken : Bool}
    (hsize : 0 < size) (h : octal value size = .ok b) (hbound : value < bound) :
    readOctal bound size ⟨b ++ rest, broken⟩ = .ok (value, ⟨rest, broken⟩) := by
  obtain ⟨-, hlen, hb⟩ := octal_ok hsize h
  have hvalue : octalValue bound b = .ok value := by
    unfold octalValue
    dsimp only
    rw [hb, fromUtf8Lossy_asBytes, if_neg (by simp),
      fromStrRadix_toDigits (by decide) (by decide) hbound]
  rw [readOctal, readExact_append broken hlen]
  simp only [bind, Except.bind, hvalue, pure, Except.pure]

/-- Only the zero character has a zero in its bytes. -/
theorem zero_notMem_encodeChar {c : Char} (h : c.toNat ≠ 0) :
    (0 : UInt8) ∉ String.utf8EncodeChar c := by
  have hvalid : c.val.toNat < 0xD800 ∨ 0xDFFF < c.val.toNat ∧ c.val.toNat < 0x110000 := c.valid
  have hpos : c.val.toNat ≠ 0 := h
  have hmod : ∀ n, (0 : UInt8) = UInt8.ofNat n → n % 256 = 0 := by
    intro n hn
    have hnat := congrArg UInt8.toNat hn
    simpa using hnat.symm
  unfold String.utf8EncodeChar
  generalize c.val.toNat = v at hvalid hpos
  intro hmem
  simp only at hmem
  split at hmem
  · have := hmod _ (List.mem_singleton.mp hmem)
    omega
  · split at hmem
    · simp only [List.mem_cons, List.not_mem_nil, or_false] at hmem
      rcases hmem with hb | hb <;> have := hmod _ hb <;> omega
    · split at hmem
      · simp only [List.mem_cons, List.not_mem_nil, or_false] at hmem
        rcases hmem with hb | hb | hb <;> have := hmod _ hb <;> omega
      · simp only [List.mem_cons, List.not_mem_nil, or_false] at hmem
        rcases hmem with hb | hb | hb | hb <;> have := hmod _ hb <;> omega

/-- A text without a zero in it has none in its bytes. -/
theorem zero_notMem_asBytes {t : Text} (h : ∀ c ∈ t, c.toNat ≠ 0) : (0 : UInt8) ∉ asBytes t := by
  intro hmem
  obtain ⟨c, hc, hbyte⟩ := List.mem_flatMap.mp hmem
  exact zero_notMem_encodeChar (h c hc) hbyte

theorem fromReader_write {h : Header} {out : Bytes} (hw : h.write = .ok out)
    (hmtime : h.mtime < 2 ^ 32) (hname : ∀ c ∈ h.name, c.toNat ≠ 0) :
    ∃ fields, out = magic ++ fields ∧ ∀ rest broken,
      Header.fromReader ⟨fields ++ rest, broken⟩ = .ok (h, ⟨rest, broken⟩) := by
  unfold Header.write at hw
  simp only [bind_eq_ok] at hw
  obtain ⟨dev, hdev, inode, hinode, mode, hmode, uid, huid, gid, hgid, nlink, hnlink, rdev, hrdev,
    mtime, hmt, nameLen, hlen, fileSize, hsize, hw⟩ := hw
  refine ⟨_, (pure_eq_ok.mp hw).symm, fun rest broken => ?_⟩
  have hsix : (8 : Nat) ^ 6 < 2 ^ 32 := by decide
  have heleven : (8 : Nat) ^ 11 < 2 ^ 64 := by decide
  have small : ∀ {v b}, octal v 6 = .ok b → v < 2 ^ 32 := fun hb =>
    lt_trans (octal_ok (by decide) hb).1 hsix
  have hcstr : cStr (asBytes h.name ++ [0]) = some (asBytes h.name) := by
    unfold cStr
    rw [List.dropLast_concat, if_pos ⟨List.getLast?_concat, zero_notMem_asBytes hname⟩]
  unfold Header.fromReader
  simp only [List.append_assoc, readOctal_octal (by decide) hdev (small hdev),
    readOctal_octal (by decide) hinode (small hinode),
    readOctal_octal (by decide) hmode (small hmode), readOctal_octal (by decide) huid (small huid),
    readOctal_octal (by decide) hgid (small hgid),
    readOctal_octal (by decide) hnlink (small hnlink),
    readOctal_octal (by decide) hrdev (small hrdev), readOctal_octal (by decide) hmt hmtime,
    readOctal_octal (by decide) hlen (small hlen),
    readOctal_octal (by decide) hsize (lt_trans (octal_ok (by decide) hsize).1 heleven),
    bind, Except.bind]
  rw [← List.append_assoc, readExact_append broken (by simp)]
  simp only [hcstr, fromUtf8Lossy_asBytes, pure, Except.pure]

theorem readExact_length {n : Nat} {s s' : Source} {b : Bytes} (h : readExact n s = .ok (b, s')) :
    s'.bytes.length + n = s.bytes.length := by
  unfold readExact at h
  split at h
  · cases h
    simp only [List.length_drop]
    omega
  · cases h

theorem readOctal_length {bound n v : Nat} {s s' : Source} (h : readOctal bound n s = .ok (v, s')) :
    s'.bytes.length ≤ s.bytes.length := by
  unfold readOctal at h
  obtain ⟨⟨b, t⟩, hb, h⟩ := bind_eq_ok.mp h
  obtain ⟨w, -, h⟩ := bind_eq_ok.mp h
  cases h
  have := readExact_length hb
  omega

theorem fromReader_length {s s' : Source} {h : Header} (hr : Header.fromReader s = .ok (h, s')) :
    s'.bytes.length ≤ s.bytes.length := by
  unfold Header.fromReader at hr
  simp only [bind_eq_ok, Prod.exists] at hr
  obtain ⟨_, s1, h1, _, s2, h2, _, s3, h3, _, s4, h4, _, s5, h5, _, s6, h6, _, s7, h7, _, s8, h8,
    _, s9, h9, _, s10, h10, name, s11, h11, hr⟩ := hr
  have := readOctal_length h1
  have := readOctal_length h2
  have := readOctal_length h3
  have := readOctal_length h4
  have := readOctal_length h5
  have := readOctal_length h6
  have := readOctal_length h7
  have := readOctal_length h8
  have := readOctal_length h9
  have := readOctal_length h10
  have := readExact_length h11
  split at hr
  · cases hr
  · cases hr
    omega

/-- A name that is looked through holds no NUL. -/
theorem ne_zero_of_all {t : Text} (h : (t.all fun c => decide (c.toNat ≠ 0)) = true) :
    ∀ c ∈ t, c.toNat ≠ 0 := by
  intro c hc
  exact of_decide_eq_true (List.all_eq_true.mp h c hc)

namespace Reader

/-- Between two members, with `s` to come. -/
def before (s : Source) : Reader :=
  { archive := some s }

/-- In a member with `left` bytes of it to come. -/
def within (left : Nat) (s : Source) : Reader :=
  { archive := none, entry := some (left, s) }

variable {h : Header} {data out : Bytes}

/-- **The reader takes the header back.** -/
theorem readNext_append (ha : append h data = .ok out) (hmtime : h.mtime < 2 ^ 32)
    (hname : ∀ c ∈ h.name, c.toNat ≠ 0) (hne : h.name ≠ trailer) (rest : Bytes) (broken : Bool) :
    (before ⟨out ++ rest, broken⟩).readNext =
      .ok (some h, within data.length ⟨data ++ rest, broken⟩) := by
  unfold append at ha
  obtain ⟨header, hw, ha⟩ := bind_eq_ok.mp ha
  split at ha
  · cases ha
  next hsize =>
    rw [← pure_eq_ok.mp ha]
    obtain ⟨fields, rfl, hread⟩ := fromReader_write hw hmtime hname
    have hmagic : readExact magic.length ⟨magic ++ (fields ++ (data ++ rest)), broken⟩ =
        .ok (magic, ⟨fields ++ (data ++ rest), broken⟩) := readExact_append broken rfl
    unfold readNext Reader.finish before
    simp only [bind, Except.bind, List.append_assoc, hmagic, hread, ne_eq, not_true_eq_false,
      if_false, if_neg hne, pure, Except.pure, Decidable.not_not.mp hsize, within]

/-- The last member ends the archive, whatever follows. -/
theorem readNext_finish {count : Nat} {now : Int} (hf : Odc.finish count now = .ok out)
    (rest : Bytes) (broken : Bool) :
    ∃ r, (before ⟨out ++ rest, broken⟩).readNext = .ok (none, r) := by
  have hname : ∀ c ∈ trailer, c.toNat ≠ 0 := ne_zero_of_all (by decide)
  obtain ⟨fields, rfl, hread⟩ := fromReader_write hf (mtime_nextHeader count now) hname
  have hmagic : readExact magic.length ⟨magic ++ (fields ++ rest), broken⟩ =
      .ok (magic, ⟨fields ++ rest, broken⟩) := readExact_append broken rfl
  unfold readNext Reader.finish before
  simp only [bind, Except.bind, List.append_assoc, hmagic, hread, ne_eq, not_true_eq_false,
    if_false, if_true, pure, Except.pure]
  exact ⟨_, rfl⟩

/-- A member is copied whole. -/
theorem copy_within (data rest : Bytes) (broken : Bool) :
    (within data.length ⟨data ++ rest, broken⟩).copy data.length =
      (data, false, within 0 ⟨rest, broken⟩) := by
  have henough : ¬(data.length + rest.length < data.length) := by omega
  simp [copy, within, henough]

/-- What is left of a member is gone past. -/
theorem finish_within (data rest : Bytes) (broken : Bool) :
    (within data.length ⟨data ++ rest, broken⟩).finish = .ok (before ⟨rest, broken⟩) := by
  have henough : ¬(data.length + rest.length < data.length) := by omega
  simp [Reader.finish, within, before, henough]

/-- What a reader may still take from below. -/
def remaining (r : Reader) : Nat :=
  (r.archive.elim 0 fun s => s.bytes.length) + (r.entry.elim 0 fun e => e.2.bytes.length)

theorem remaining_finish {r r' : Reader} (hf : r.finish = .ok r') :
    r'.remaining ≤ r.remaining := by
  unfold Reader.finish at hf
  split at hf
  · cases hf
    exact Nat.le_refl _
  next left s hentry =>
    split at hf
    · cases hf
    · cases hf
      unfold remaining
      rw [hentry]
      split
      · simp
      · simp
        omega

theorem remaining_readNext {r r' : Reader} {h : Header} (hr : r.readNext = .ok (some h, r')) :
    r'.remaining < r.remaining := by
  unfold readNext at hr
  obtain ⟨q, hfin, hr⟩ := bind_eq_ok.mp hr
  have hle := remaining_finish hfin
  split at hr
  · cases hr
  next s hs =>
    split at hr
    · cases hr
    · cases hr
    next found t hfound =>
      split at hr
      · cases hr
      · obtain ⟨⟨h', u⟩, hread, hr⟩ := bind_eq_ok.mp hr
        have hmagic := readExact_length hfound
        have hheader := fromReader_length hread
        have hsix : magic.length = 6 := rfl
        have hq : s.bytes.length ≤ q.remaining := by
          unfold remaining
          rw [hs]
          exact Nat.le_add_right _ _
        dsimp only at hr
        split at hr
        · cases hr
        · cases hr
          show 0 + u.bytes.length < r.remaining
          omega

theorem remaining_copy (r : Reader) (size : Nat) : (r.copy size).2.2.remaining ≤ r.remaining := by
  unfold copy
  split
  · exact Nat.le_refl _
  next left s hentry =>
    unfold remaining
    simp only [hentry, Option.elim]
    rw [List.length_drop]
    omega

end Reader

end Odc

end Sharingd
