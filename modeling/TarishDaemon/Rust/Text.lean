import Mathlib.Algebra.Group.Int.Defs
import Mathlib.Algebra.Group.Nat.Defs
import Mathlib.Algebra.GroupWithZero.Nat
import Mathlib.Data.List.AList
import Mathlib.Data.List.Induction

/-!
# Bytes, integers and text as the source's language has them

A `Vec<u8>` is a list of bytes.  Signed and unsigned 64-bit values are integers
and naturals; a cast between them is written out, so that every place where the
source relies on wrapping shows it.  A `String` is the list of its characters.
A `HashMap` is an association list without repeated keys: the order in it is
never read.

`from_utf8_lossy` follows the documented replacement: each maximal run of bytes
that begins a well-formed sequence and breaks off becomes one U+FFFD.
-/

namespace Rust

abbrev Bytes := List UInt8

abbrev Text := List Char

abbrev HashMap (K V : Type) := AList (fun _ : K => V)

section HashMap

variable {K V : Type} [DecidableEq K] {m : HashMap K V} {k : K}

theorem length_insert_of_notMem (h : k ∉ m) (v : V) :
    (m.insert k v).keys.length = m.keys.length + 1 := by
  have hkeys : k ∉ m.keys := fun hmem => h (AList.mem_keys.mpr hmem)
  rw [AList.keys_insert, List.length_cons, List.erase_of_not_mem hkeys]

theorem length_insert_of_mem (h : k ∈ m) (v : V) :
    (m.insert k v).keys.length = m.keys.length := by
  have hkeys := AList.mem_keys.mp h
  have hpos := List.length_pos_of_mem hkeys
  rw [AList.keys_insert, List.length_cons, List.length_erase_of_mem hkeys]
  omega

theorem length_erase_of_mem (h : k ∈ m) : (m.erase k).keys.length + 1 = m.keys.length := by
  have hkeys := AList.mem_keys.mp h
  have hpos := List.length_pos_of_mem hkeys
  rw [AList.keys_erase, List.length_erase_of_mem hkeys]
  omega

/-- What is done through `get_mut`. -/
def HashMap.modify (m : HashMap K V) (k : K) (f : V → V) : HashMap K V :=
  match m.lookup k with
  | none => m
  | some v => m.insert k (f v)

/-- A loop over `values_mut`. -/
def HashMap.mapValues (m : HashMap K V) (f : V → V) : HashMap K V where
  entries := m.entries.map fun e => ⟨e.1, f e.2⟩
  nodupKeys := by
    have hkeys : (m.entries.map fun e => (⟨e.1, f e.2⟩ : Sigma fun _ : K => V)).keys =
        m.entries.keys := by
      simp [List.keys, Function.comp_def]
    rw [List.NodupKeys, hkeys]
    exact m.nodupKeys

def HashMap.retain (m : HashMap K V) (keep : V → Bool) : HashMap K V where
  entries := m.entries.filter fun e => keep e.2
  nodupKeys := m.nodupKeys.sublist List.filter_sublist

/-- `retain`, where the key is looked at as well. -/
def HashMap.retainEntries (m : HashMap K V) (keep : K → V → Bool) : HashMap K V where
  entries := m.entries.filter fun e => keep e.1 e.2
  nodupKeys := m.nodupKeys.sublist List.filter_sublist

theorem HashMap.lookup_modify (m : HashMap K V) (k k' : K) (f : V → V) :
    (m.modify k f).lookup k' = if k' = k then (m.lookup k).map f else m.lookup k' := by
  unfold HashMap.modify
  cases hk : m.lookup k with
  | none =>
      by_cases hkk : k' = k
      · rw [if_pos hkk, hkk]
        exact hk
      · rw [if_neg hkk]
  | some v =>
      by_cases hkk : k' = k
      · subst hkk
        rw [if_pos rfl]
        exact AList.lookup_insert m
      · rw [if_neg hkk]
        exact AList.lookup_insert_ne hkk

theorem dlookup_cons_of_ne {j : K} (hk : k ≠ j) (v : V)
    (entries : List (Sigma fun _ : K => V)) :
    List.dlookup k ((⟨j, v⟩ : Sigma fun _ : K => V) :: entries) = entries.dlookup k :=
  List.dlookup_cons_ne entries (⟨j, v⟩ : Sigma fun _ : K => V) hk

theorem dlookup_mapValues (entries : List (Sigma fun _ : K => V)) (f : V → V) (k : K) :
    (entries.map fun e => (⟨e.1, f e.2⟩ : Sigma fun _ : K => V)).dlookup k =
      (entries.dlookup k).map f := by
  induction entries with
  | nil => rfl
  | cons e entries ih =>
      obtain ⟨j, v⟩ := e
      rw [List.map_cons]
      by_cases hk : k = j
      · subst hk
        rw [List.dlookup_cons_eq, List.dlookup_cons_eq, Option.map_some]
      · rw [dlookup_cons_of_ne hk, dlookup_cons_of_ne hk]
        exact ih

theorem HashMap.lookup_mapValues (m : HashMap K V) (f : V → V) (k : K) :
    (m.mapValues f).lookup k = (m.lookup k).map f :=
  dlookup_mapValues m.entries f k

theorem dlookup_retain {entries : List (Sigma fun _ : K => V)} (hnodup : entries.NodupKeys)
    (keep : K → V → Bool) (k : K) :
    (entries.filter fun e => keep e.1 e.2).dlookup k = (entries.dlookup k).filter (keep k) := by
  induction entries with
  | nil => rfl
  | cons e entries ih =>
      obtain ⟨j, v⟩ := e
      rw [List.nodupKeys_cons] at hnodup
      have hrest := ih hnodup.2
      rw [List.filter_cons]
      by_cases hk : k = j
      · subst hk
        have hgone : entries.dlookup k = none := List.dlookup_eq_none.mpr hnodup.1
        rw [hgone] at hrest
        rw [List.dlookup_cons_eq]
        cases hkeep : keep k v with
        | true => simp [Option.filter, hkeep]
        | false => simpa [Option.filter, hkeep] using hrest
      · rw [dlookup_cons_of_ne hk, ← hrest]
        split
        · exact dlookup_cons_of_ne hk v _
        · rfl

theorem HashMap.lookup_retainEntries (m : HashMap K V) (keep : K → V → Bool) (k : K) :
    (m.retainEntries keep).lookup k = (m.lookup k).filter (keep k) :=
  dlookup_retain m.nodupKeys keep k

theorem HashMap.lookup_retain (m : HashMap K V) (keep : V → Bool) (k : K) :
    (m.retain keep).lookup k = (m.lookup k).filter keep :=
  m.lookup_retainEntries (fun _ => keep) k

/-- A map with one entry. -/
theorem HashMap.entries_of_lookup {m : HashMap K V} {k : K} {v : V}
    (h : ∀ k', m.lookup k' = if k' = k then some v else none) : m.entries = [⟨k, v⟩] := by
  have hperm : m.entries.Perm [⟨k, v⟩] := by
    apply List.lookup_ext m.nodupKeys (List.nodupKeys_singleton _)
    intro k' v'
    have hk' := h k'
    unfold AList.lookup at hk'
    rw [hk']
    by_cases hkk : k' = k
    · subst hkk
      simp
    · rw [dlookup_cons_of_ne hkk]
      simp [hkk]
  exact List.perm_singleton.mp hperm

end HashMap

/-- `[u8; N]`. -/
structure Octets (n : Nat) where
  bytes : Bytes
  sized : bytes.length = n
  deriving DecidableEq, Repr

def Octets.tryFrom (n : Nat) (b : Bytes) : Option (Octets n) :=
  if h : b.length = n then some ⟨b, h⟩ else none

theorem Octets.tryFrom_bytes {n : Nat} (o : Octets n) : Octets.tryFrom n o.bytes = some o := by
  rw [Octets.tryFrom, dif_pos o.sized]

/-- What a computation that succeeded came through. -/
theorem bind_eq_ok {ε α β : Type} {x : Except ε α} {f : α → Except ε β} {b : β} :
    x >>= f = .ok b ↔ ∃ a, x = .ok a ∧ f a = .ok b := by
  cases x with
  | error e => simp [bind, Except.bind]
  | ok a => simp [bind, Except.bind]

theorem pure_eq_ok {ε α : Type} {a b : α} : (pure a : Except ε α) = .ok b ↔ a = b := by
  simp [pure, Except.pure]

/-- `x as u64` for an `i64`. -/
def toU64 (x : Int) : Nat :=
  (x % 2 ^ 64).toNat

/-- `x as i64` for a `u64`. -/
def toI64 (x : Nat) : Int :=
  Int.bmod x (2 ^ 64)

/-- `x as i64 as i32` for a `u64`. -/
def toI32 (x : Nat) : Int :=
  Int.bmod x (2 ^ 32)

def i64Max : Int := 2 ^ 63 - 1

def i64Min : Int := -2 ^ 63

/-- `i64::saturating_add`. -/
def saturatingAdd (a b : Int) : Int :=
  max i64Min (min i64Max (a + b))

theorem le_saturatingAdd {a b c : Int} (le_sum : c ≤ a + b) (le_max : c ≤ i64Max) :
    c ≤ saturatingAdd a b := by
  unfold saturatingAdd
  omega

theorem saturatingAdd_eq {a b : Int} (nonneg : 0 ≤ a + b) (le_max : a + b ≤ i64Max) :
    saturatingAdd a b = a + b := by
  have : i64Min ≤ 0 := by decide
  unfold saturatingAdd
  omega

/-- Two lengths add up as they are, below `2 ^ 63`. -/
theorem saturatingAdd_natCast {a b : Nat} (h : a + b < 2 ^ 63) :
    saturatingAdd a b = ((a + b : Nat) : Int) := by
  rw [saturatingAdd_eq (by omega) (by unfold i64Max; omega)]
  omega

/-- `str::as_bytes`. -/
def asBytes (t : Text) : Bytes :=
  t.flatMap String.utf8EncodeChar

/-- A byte `10xxxxxx`. -/
def isCont (b : UInt8) : Bool :=
  decide (0x80 ≤ b ∧ b ≤ 0xBF)

/-- Whether `b1` may follow `b0` in a sequence of three bytes. -/
def second3 (b0 b1 : UInt8) : Bool :=
  if b0 = 0xE0 then decide (0xA0 ≤ b1 ∧ b1 ≤ 0xBF)
  else if b0 = 0xED then decide (0x80 ≤ b1 ∧ b1 ≤ 0x9F)
  else isCont b1

/-- Whether `b1` may follow `b0` in a sequence of four bytes. -/
def second4 (b0 b1 : UInt8) : Bool :=
  if b0 = 0xF0 then decide (0x90 ≤ b1 ∧ b1 ≤ 0xBF)
  else if b0 = 0xF4 then decide (0x80 ≤ b1 ∧ b1 ≤ 0x8F)
  else isCont b1

/-- The six low bits a continuation byte carries. -/
def low6 (b : UInt8) : Nat := b.toNat % 64

def replacement : Char := '\uFFFD'

/-- `String::from_utf8_lossy`. -/
def fromUtf8Lossy : Bytes → Text
  | [] => []
  | b0 :: rest =>
      if b0 < 0x80 then
        Char.ofNat b0.toNat :: fromUtf8Lossy rest
      else if 0xC2 ≤ b0 ∧ b0 ≤ 0xDF then
        match rest with
        | b1 :: rest' =>
            if isCont b1 then
              Char.ofNat (b0.toNat % 32 * 64 + low6 b1) :: fromUtf8Lossy rest'
            else replacement :: fromUtf8Lossy (b1 :: rest')
        | [] => [replacement]
      else if 0xE0 ≤ b0 ∧ b0 ≤ 0xEF then
        match rest with
        | b1 :: b2 :: rest' =>
            if !second3 b0 b1 then replacement :: fromUtf8Lossy (b1 :: b2 :: rest')
            else if !isCont b2 then replacement :: fromUtf8Lossy (b2 :: rest')
            else
              Char.ofNat (b0.toNat % 16 * 4096 + low6 b1 * 64 + low6 b2) ::
                fromUtf8Lossy rest'
        | [b1] =>
            if second3 b0 b1 then [replacement] else replacement :: fromUtf8Lossy [b1]
        | [] => [replacement]
      else if 0xF0 ≤ b0 ∧ b0 ≤ 0xF4 then
        match rest with
        | b1 :: b2 :: b3 :: rest' =>
            if !second4 b0 b1 then replacement :: fromUtf8Lossy (b1 :: b2 :: b3 :: rest')
            else if !isCont b2 then replacement :: fromUtf8Lossy (b2 :: b3 :: rest')
            else if !isCont b3 then replacement :: fromUtf8Lossy (b3 :: rest')
            else
              Char.ofNat (b0.toNat % 8 * 262144 + low6 b1 * 4096 + low6 b2 * 64 + low6 b3) ::
                fromUtf8Lossy rest'
        | [b1, b2] =>
            if !second4 b0 b1 then replacement :: fromUtf8Lossy [b1, b2]
            else if !isCont b2 then replacement :: fromUtf8Lossy [b2]
            else [replacement]
        | [b1] =>
            if second4 b0 b1 then [replacement] else replacement :: fromUtf8Lossy [b1]
        | [] => [replacement]
      else replacement :: fromUtf8Lossy rest

example : fromUtf8Lossy [0x61, 0xC3, 0xA9, 0xE2, 0x82, 0xAC, 0xF0, 0x9F, 0x98, 0x80] =
    ['a', 'é', '€', '😀'] := by decide

example : fromUtf8Lossy [0x48, 0xF0, 0x90, 0x80, 0x20, 0xE2, 0x82, 0xFF] =
    ['H', replacement, ' ', replacement, replacement] := by decide

/-! ## Casts and text there and back -/

theorem toI64_toU64 {x : Int} (lo : -2 ^ 63 ≤ x) (hi : x < 2 ^ 63) : toI64 (toU64 x) = x := by
  unfold toI64 toU64
  rw [Int.bmod_def]
  split <;> omega

theorem toI32_toU64 {x : Int} (lo : -2 ^ 31 ≤ x) (hi : x < 2 ^ 31) : toI32 (toU64 x) = x := by
  unfold toI32 toU64
  rw [Int.bmod_def]
  split <;> omega

theorem toU64_lt (x : Int) : toU64 x < 2 ^ 64 := by
  unfold toU64
  omega

theorem toNat_ofNat_byte {n : Nat} (h : n < 256) : (UInt8.ofNat n).toNat = n := by
  simp only [UInt8.toNat_ofNat']
  omega

theorem low6_ofNat (n : Nat) : low6 (UInt8.ofNat (n % 0x40 + 0x80)) = n % 64 := by
  rw [low6, toNat_ofNat_byte (by omega)]
  omega

theorem isCont_iff {b : UInt8} : isCont b = true ↔ 0x80 ≤ b.toNat ∧ b.toNat ≤ 0xBF := by
  simp [isCont, UInt8.le_iff_toNat_le]

theorem isCont_ofNat (n : Nat) : isCont (UInt8.ofNat (n % 0x40 + 0x80)) = true := by
  rw [isCont_iff, toNat_ofNat_byte (by omega)]
  omega

theorem second3_iff {b0 b1 : UInt8} : second3 b0 b1 = true ↔
    (0x80 ≤ b1.toNat ∧ b1.toNat ≤ 0xBF) ∧ (b0.toNat = 0xE0 → 0xA0 ≤ b1.toNat) ∧
      (b0.toNat = 0xED → b1.toNat ≤ 0x9F) := by
  have h0 : b0 = 0xE0 ↔ b0.toNat = 0xE0 := UInt8.toNat_inj.symm
  have h1 : b0 = 0xED ↔ b0.toNat = 0xED := UInt8.toNat_inj.symm
  unfold second3
  split
  · next he =>
      rw [h0] at he
      simp [UInt8.le_iff_toNat_le]
      omega
  · next hne =>
      rw [h0] at hne
      split
      · next he =>
          rw [h1] at he
          simp [UInt8.le_iff_toNat_le]
          omega
      · next hne' =>
          rw [h1] at hne'
          rw [isCont_iff]
          omega

theorem second4_iff {b0 b1 : UInt8} : second4 b0 b1 = true ↔
    (0x80 ≤ b1.toNat ∧ b1.toNat ≤ 0xBF) ∧ (b0.toNat = 0xF0 → 0x90 ≤ b1.toNat) ∧
      (b0.toNat = 0xF4 → b1.toNat ≤ 0x8F) := by
  have h0 : b0 = 0xF0 ↔ b0.toNat = 0xF0 := UInt8.toNat_inj.symm
  have h1 : b0 = 0xF4 ↔ b0.toNat = 0xF4 := UInt8.toNat_inj.symm
  unfold second4
  split
  · next he =>
      rw [h0] at he
      simp [UInt8.le_iff_toNat_le]
      omega
  · next hne =>
      rw [h0] at hne
      split
      · next he =>
          rw [h1] at he
          simp [UInt8.le_iff_toNat_le]
          omega
      · next hne' =>
          rw [h1] at hne'
          rw [isCont_iff]
          omega

/-- Bytes are some text. -/
theorem fromUtf8Lossy_ne_nil {b : Bytes} (h : b ≠ []) : fromUtf8Lossy b ≠ [] := by
  cases b with
  | nil => exact absurd rfl h
  | cons b0 rest =>
      unfold fromUtf8Lossy
      repeat' split
      all_goals exact List.cons_ne_nil _ _

theorem fromUtf8Lossy_one {b0 : UInt8} (rest : Bytes) (h : b0.toNat < 0x80) :
    fromUtf8Lossy (b0 :: rest) = Char.ofNat b0.toNat :: fromUtf8Lossy rest := by
  have hb : b0 < 0x80 := UInt8.lt_iff_toNat_lt.mpr h
  rw [fromUtf8Lossy.eq_def]
  simp [hb]

theorem fromUtf8Lossy_two {b0 b1 : UInt8} (rest : Bytes)
    (h0 : 0xC2 ≤ b0.toNat ∧ b0.toNat ≤ 0xDF) (h1 : isCont b1 = true) :
    fromUtf8Lossy (b0 :: b1 :: rest) =
      Char.ofNat (b0.toNat % 32 * 64 + low6 b1) :: fromUtf8Lossy rest := by
  have hlt : ¬ b0 < 0x80 := by simp [UInt8.lt_iff_toNat_lt]; omega
  have hlead : 0xC2 ≤ b0 ∧ b0 ≤ 0xDF := by simpa [UInt8.le_iff_toNat_le] using h0
  rw [fromUtf8Lossy.eq_def]
  simp [hlt, hlead, h1]

theorem fromUtf8Lossy_three {b0 b1 b2 : UInt8} (rest : Bytes)
    (h0 : 0xE0 ≤ b0.toNat ∧ b0.toNat ≤ 0xEF) (h1 : second3 b0 b1 = true)
    (h2 : isCont b2 = true) :
    fromUtf8Lossy (b0 :: b1 :: b2 :: rest) =
      Char.ofNat (b0.toNat % 16 * 4096 + low6 b1 * 64 + low6 b2) :: fromUtf8Lossy rest := by
  have hlt : ¬ b0 < 0x80 := by simp [UInt8.lt_iff_toNat_lt]; omega
  have hnot2 : ¬ (0xC2 ≤ b0 ∧ b0 ≤ 0xDF) := by simp [UInt8.le_iff_toNat_le]; omega
  have hlead : 0xE0 ≤ b0 ∧ b0 ≤ 0xEF := by simpa [UInt8.le_iff_toNat_le] using h0
  rw [fromUtf8Lossy.eq_def]
  simp only [hlt, hnot2, hlead, and_self, if_true, if_false, h1, h2, Bool.not_true,
    Bool.false_eq_true]

theorem fromUtf8Lossy_four {b0 b1 b2 b3 : UInt8} (rest : Bytes)
    (h0 : 0xF0 ≤ b0.toNat ∧ b0.toNat ≤ 0xF4) (h1 : second4 b0 b1 = true)
    (h2 : isCont b2 = true) (h3 : isCont b3 = true) :
    fromUtf8Lossy (b0 :: b1 :: b2 :: b3 :: rest) =
      Char.ofNat (b0.toNat % 8 * 262144 + low6 b1 * 4096 + low6 b2 * 64 + low6 b3) ::
        fromUtf8Lossy rest := by
  have hlt : ¬ b0 < 0x80 := by simp [UInt8.lt_iff_toNat_lt]; omega
  have hnot2 : ¬ (0xC2 ≤ b0 ∧ b0 ≤ 0xDF) := by simp [UInt8.le_iff_toNat_le]; omega
  have hnot3 : ¬ (0xE0 ≤ b0 ∧ b0 ≤ 0xEF) := by simp [UInt8.le_iff_toNat_le]; omega
  have hlead : 0xF0 ≤ b0 ∧ b0 ≤ 0xF4 := by simpa [UInt8.le_iff_toNat_le] using h0
  rw [fromUtf8Lossy.eq_def]
  simp only [hlt, hnot2, hnot3, hlead, and_self, if_true, if_false, h1, h2, h3, Bool.not_true,
    Bool.false_eq_true]

/-- A character is read back from its bytes, whatever follows them. -/
theorem fromUtf8Lossy_encodeChar (c : Char) (rest : Bytes) :
    fromUtf8Lossy (String.utf8EncodeChar c ++ rest) = c :: fromUtf8Lossy rest := by
  have hvalid : c.val.toNat < 0xD800 ∨ 0xDFFF < c.val.toNat ∧ c.val.toNat < 0x110000 := c.valid
  have hback : Char.ofNat c.val.toNat = c := Char.ofNat_toNat c
  unfold String.utf8EncodeChar
  generalize c.val.toNat = v at hvalid hback
  simp only
  split
  · have hb := toNat_ofNat_byte (n := v) (by omega)
    rw [List.singleton_append, fromUtf8Lossy_one _ (by omega), hb, hback]
  · split
    · have hb := toNat_ofNat_byte (n := v / 64 % 0x20 + 0xc0) (by omega)
      rw [List.cons_append, List.cons_append, List.nil_append,
        fromUtf8Lossy_two _ (by omega) (isCont_ofNat v), hb, low6_ofNat]
      rw [show (v / 64 % 0x20 + 0xc0) % 32 * 64 + v % 64 = v by omega, hback]
    · split
      · have hb := toNat_ofNat_byte (n := v / 4096 % 0x10 + 0xe0) (by omega)
        have hb1 := toNat_ofNat_byte (n := v / 64 % 0x40 + 0x80) (by omega)
        have hsecond : second3 (UInt8.ofNat (v / 4096 % 0x10 + 0xe0))
            (UInt8.ofNat (v / 64 % 0x40 + 0x80)) = true := by
          rw [second3_iff, hb, hb1]
          omega
        rw [List.cons_append, List.cons_append, List.cons_append, List.nil_append,
          fromUtf8Lossy_three _ (by omega) hsecond (isCont_ofNat v), hb, low6_ofNat, low6_ofNat]
        rw [show (v / 4096 % 0x10 + 0xe0) % 16 * 4096 + v / 64 % 64 * 64 + v % 64 = v by omega,
          hback]
      · have hb := toNat_ofNat_byte (n := v / 262144 % 0x08 + 0xf0) (by omega)
        have hb1 := toNat_ofNat_byte (n := v / 4096 % 0x40 + 0x80) (by omega)
        have hsecond : second4 (UInt8.ofNat (v / 262144 % 0x08 + 0xf0))
            (UInt8.ofNat (v / 4096 % 0x40 + 0x80)) = true := by
          rw [second4_iff, hb, hb1]
          omega
        rw [List.cons_append, List.cons_append, List.cons_append, List.cons_append,
          List.nil_append, fromUtf8Lossy_four _ (by omega) hsecond (isCont_ofNat _)
            (isCont_ofNat v), hb, low6_ofNat, low6_ofNat, low6_ofNat]
        rw [show (v / 262144 % 0x08 + 0xf0) % 8 * 262144 + v / 4096 % 64 * 4096 +
          v / 64 % 64 * 64 + v % 64 = v by omega, hback]

/-- **Text survives the wire.** -/
theorem fromUtf8Lossy_asBytes (t : Text) : fromUtf8Lossy (asBytes t) = t := by
  induction t with
  | nil => rfl
  | cons c t ih =>
      have hcons : asBytes (c :: t) = String.utf8EncodeChar c ++ asBytes t := rfl
      rw [hcons, fromUtf8Lossy_encodeChar, ih]

/-- `std::str::from_utf8`: bytes are a text exactly where that text is written as them. -/
def fromUtf8 (b : Bytes) : Option Text :=
  if asBytes (fromUtf8Lossy b) = b then some (fromUtf8Lossy b) else none

theorem fromUtf8_asBytes (t : Text) : fromUtf8 (asBytes t) = some t := by
  rw [fromUtf8, fromUtf8Lossy_asBytes, if_pos rfl]

theorem asBytes_of_fromUtf8 {b : Bytes} {t : Text} (h : fromUtf8 b = some t) : asBytes t = b := by
  unfold fromUtf8 at h
  split at h
  · rename_i hback
    cases h
    exact hback
  · cases h

theorem asBytes_append (s t : Text) : asBytes (s ++ t) = asBytes s ++ asBytes t :=
  List.flatMap_append

end Rust
