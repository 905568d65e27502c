import TarishDaemon.Rust.Text

/-!
# Numbers of a given width and UTF-16

The most significant byte first, in as many bytes as the reader is told; and text as
code units.  `from_utf16_lossy` replaces every surrogate that is not half of a pair.
-/

namespace Rust

/-- The last `width` bytes of `n.to_be_bytes()`. -/
def beBytes : Nat → Nat → Bytes
  | 0, _ => []
  | width + 1, n => beBytes width (n / 256) ++ [UInt8.ofNat (n % 256)]

/-- Big-endian, in a `u64`: what is shifted out at the top is gone. -/
def be (b : Bytes) : Nat :=
  b.foldl (fun acc x => (acc * 256 + x.toNat) % 2 ^ 64) 0

@[simp] theorem beBytes_length (width n : Nat) : (beBytes width n).length = width := by
  induction width generalizing n with
  | zero => rfl
  | succ width ih => simp [beBytes, ih]

/-- Only the bytes that were written are read. -/
theorem be_beBytes {width : Nat} (hwidth : width ≤ 8) (n : Nat) :
    be (beBytes width n) = n % 256 ^ width := by
  induction width generalizing n with
  | zero =>
      rw [Nat.pow_zero, Nat.mod_one]
      rfl
  | succ width ih =>
      have hrest := ih (by omega) (n / 256)
      have hpow : (256 : Nat) ^ width ≤ 256 ^ 7 := Nat.pow_le_pow_right (by decide) (by omega)
      have hhigh : n / 256 % 256 ^ width < 256 ^ width :=
        Nat.mod_lt _ (Nat.pos_of_ne_zero (by simp))
      have hsplit : n % 256 ^ (width + 1) = n / 256 % 256 ^ width * 256 + n % 256 := by
        rw [Nat.pow_succ', Nat.mod_mul]
        omega
      have hseven : (256 : Nat) ^ 7 * 256 = 2 ^ 64 := by decide
      unfold be at hrest ⊢
      rw [beBytes, List.foldl_append, hrest, List.foldl_cons, List.foldl_nil,
        toNat_ofNat_byte (by omega), hsplit]
      omega

theorem be_beBytes_of_lt {width n : Nat} (hwidth : width ≤ 8) (hn : n < 256 ^ width) :
    be (beBytes width n) = n := by
  rw [be_beBytes hwidth, Nat.mod_eq_of_lt hn]

/-- `String::is_ascii`. -/
def isAscii (t : Text) : Bool :=
  t.all fun c => decide (c.toNat < 0x80)

/-- The code units of a character. -/
def encodeUtf16Char (c : Char) : List Nat :=
  if c.toNat < 0x10000 then [c.toNat]
  else [0xD800 + (c.toNat - 0x10000) / 0x400, 0xDC00 + (c.toNat - 0x10000) % 0x400]

/-- `str::encode_utf16`. -/
def encodeUtf16 (t : Text) : List Nat :=
  t.flatMap encodeUtf16Char

/-- `String::from_utf16_lossy`. -/
def fromUtf16Lossy : List Nat → Text
  | [] => []
  | u :: rest =>
      if u < 0xD800 ∨ 0xDFFF < u then Char.ofNat u :: fromUtf16Lossy rest
      else if 0xDC00 ≤ u then replacement :: fromUtf16Lossy rest
      else
        match rest with
        | u2 :: rest' =>
            if 0xDC00 ≤ u2 ∧ u2 ≤ 0xDFFF then
              Char.ofNat (0x10000 + (u - 0xD800) * 0x400 + (u2 - 0xDC00)) ::
                fromUtf16Lossy rest'
            else replacement :: fromUtf16Lossy (u2 :: rest')
        | [] => [replacement]

example : fromUtf16Lossy [0x61, 0xD83D, 0xDE00, 0xD83D, 0x62, 0xDE00, 0xD83D] =
    ['a', '😀', replacement, 'b', replacement, replacement] := by decide

theorem toNat_ofNat_char {n : Nat} (h : n < 0xD800 ∨ 0xDFFF < n ∧ n < 0x110000) :
    (Char.ofNat n).toNat = n := by
  have hvalid : n.isValidChar := h
  unfold Char.ofNat
  rw [dif_pos hvalid]
  rfl

/-- A character is read back from its units, whatever follows them. -/
theorem fromUtf16Lossy_encodeChar (c : Char) (rest : List Nat) :
    fromUtf16Lossy (encodeUtf16Char c ++ rest) = c :: fromUtf16Lossy rest := by
  have hvalid : c.toNat < 0xD800 ∨ 0xDFFF < c.toNat ∧ c.toNat < 0x110000 := c.valid
  have hback : Char.ofNat c.toNat = c := Char.ofNat_toNat c
  unfold encodeUtf16Char
  generalize c.toNat = v at hvalid hback
  split
  · rw [List.singleton_append, fromUtf16Lossy.eq_def]
    dsimp only
    rw [if_pos (by omega), hback]
  · rw [List.cons_append, List.cons_append, List.nil_append, fromUtf16Lossy.eq_def]
    dsimp only
    rw [if_neg (by omega), if_neg (by omega), if_pos (by omega),
      show 0x10000 + (0xD800 + (v - 0x10000) / 0x400 - 0xD800) * 0x400 +
        (0xDC00 + (v - 0x10000) % 0x400 - 0xDC00) = v by omega, hback]

theorem fromUtf16Lossy_encode (t : Text) : fromUtf16Lossy (encodeUtf16 t) = t := by
  induction t with
  | nil => rfl
  | cons c t ih =>
      have hcons : encodeUtf16 (c :: t) = encodeUtf16Char c ++ encodeUtf16 t := rfl
      rw [hcons, fromUtf16Lossy_encodeChar, ih]

theorem encodeUtf16_lt (t : Text) : ∀ u ∈ encodeUtf16 t, u < 0x10000 := by
  intro u hu
  obtain ⟨c, -, hc⟩ := List.mem_flatMap.mp hu
  have hvalid : c.toNat < 0xD800 ∨ 0xDFFF < c.toNat ∧ c.toNat < 0x110000 := c.valid
  unfold encodeUtf16Char at hc
  split at hc
  · simp at hc
    omega
  · simp at hc
    omega

/-- A character below U+10000 is one unit and at most three bytes. -/
theorem lengths_of_lt {c : Char} (h : c.toNat < 0x10000) :
    (encodeUtf16Char c).length = 1 ∧ (String.utf8EncodeChar c).length ≤ 3 := by
  have hval : c.val.toNat < 0x10000 := h
  refine ⟨by simp [encodeUtf16Char, h], ?_⟩
  unfold String.utf8EncodeChar
  grind

/-- Any other is two units and four bytes. -/
theorem lengths_of_ge {c : Char} (h : 0x10000 ≤ c.toNat) :
    (encodeUtf16Char c).length = 2 ∧ (String.utf8EncodeChar c).length ≤ 4 := by
  have hval : 0x10000 ≤ c.val.toNat := h
  refine ⟨by simp [encodeUtf16Char, Nat.not_lt.mpr h], ?_⟩
  unfold String.utf8EncodeChar
  grind

/-- **Reading units back keeps their number**, whatever they are: half a pair is
replaced by one unit. -/
theorem fromUtf16Lossy_lengths (us : List Nat) (hus : ∀ u ∈ us, u < 0x10000) :
    (encodeUtf16 (fromUtf16Lossy us)).length = us.length ∧
      (asBytes (fromUtf16Lossy us)).length ≤ 3 * us.length := by
  have hone : ∀ (c : Char) (rest : List Nat), c.toNat < 0x10000 →
      (encodeUtf16 (fromUtf16Lossy rest)).length = rest.length ∧
        (asBytes (fromUtf16Lossy rest)).length ≤ 3 * rest.length →
      (encodeUtf16 (c :: fromUtf16Lossy rest)).length = rest.length + 1 ∧
        (asBytes (c :: fromUtf16Lossy rest)).length ≤ 3 * (rest.length + 1) := by
    intro c rest hc hrest
    have hsizes := lengths_of_lt hc
    simp only [encodeUtf16, asBytes, List.flatMap_cons, List.length_append] at hrest ⊢
    omega
  fun_induction fromUtf16Lossy us with
  | case1 => simp [encodeUtf16, asBytes]
  | case2 u rest hplain ih =>
      have hu := hus u (by simp)
      have hc := toNat_ofNat_char (n := u) (by omega)
      exact hone _ rest (by omega) (ih fun v hv => hus v (by simp [hv]))
  | case3 u rest _ _ ih =>
      exact hone _ rest (by decide) (ih fun v hv => hus v (by simp [hv]))
  | case4 u hlead hlow u2 rest htail ih =>
      have hc := toNat_ofNat_char
        (n := 0x10000 + (u - 0xD800) * 0x400 + (u2 - 0xDC00)) (by omega)
      have hsizes := lengths_of_ge (c := Char.ofNat _) (by rw [hc]; omega)
      have hrest := ih fun v hv => hus v (by simp [hv])
      simp only [encodeUtf16, asBytes, List.flatMap_cons, List.length_append,
        List.length_cons] at hrest ⊢
      omega
  | case5 u _ _ u2 rest _ ih =>
      exact hone _ (u2 :: rest) (by decide) (ih fun v hv => hus v (by simp [hv]))
  | case6 => exact hone _ [] (by decide) (by decide)

/-! ## ASCII -/

theorem isAscii_cons {c : Char} {t : Text} (h : isAscii (c :: t) = true) :
    c.toNat < 0x80 ∧ isAscii t = true := by
  simpa [isAscii] using h

/-- An ASCII text is one byte a character. -/
theorem asBytes_ascii {t : Text} (h : isAscii t = true) :
    asBytes t = t.map fun c => UInt8.ofNat c.toNat := by
  induction t with
  | nil => rfl
  | cons c t ih =>
      obtain ⟨hc, ht⟩ := isAscii_cons h
      have hval : c.val.toNat < 0x80 := hc
      have hchar : String.utf8EncodeChar c = [UInt8.ofNat c.toNat] := by
        unfold String.utf8EncodeChar
        simp only [if_pos (show c.val.toNat ≤ 0x7f by omega)]
        rfl
      have hcons : asBytes (c :: t) = String.utf8EncodeChar c ++ asBytes t := rfl
      rw [hcons, hchar, ih ht]
      rfl

theorem isAscii_take {t : Text} (h : isAscii t = true) (n : Nat) : isAscii (t.take n) = true := by
  unfold isAscii at h ⊢
  rw [List.all_eq_true] at h ⊢
  intro c hc
  exact h c (List.mem_of_mem_take hc)

/-- The beginning of an ASCII text, read back. -/
theorem fromUtf8Lossy_take_ascii {t : Text} (h : isAscii t = true) (n : Nat) :
    fromUtf8Lossy ((asBytes t).take n) = t.take n := by
  have htake : (asBytes t).take n = asBytes (t.take n) := by
    rw [asBytes_ascii h, asBytes_ascii (isAscii_take h n), List.map_take]
  rw [htake, fromUtf8Lossy_asBytes]

end Rust
