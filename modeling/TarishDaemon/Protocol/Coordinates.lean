import TarishDaemon.Protocol.Ukey2Crypto

/-!
# Coordinates on the wire

A coordinate has no sign, but the field it travels in does: `signed` is what the bytes
say to a reader that heeds it.  The zero byte in front keeps that from being negative
(`signed_twosComplement`).  Our own reader takes every zero off the front, however many
a peer has put there, so that a coordinate has one value and many forms.
-/

namespace Protocol

open Rust Protobuf

namespace Ukey2

/-! ## Numbers as bytes -/

theorem fromSlice_append (u v : Bytes) :
    fromSlice (u ++ v) = fromSlice u * 256 ^ v.length + fromSlice v := by
  induction v using List.reverseRecOn with
  | nil => simp [fromSlice]
  | append_singleton v b ih =>
      unfold fromSlice at ih ⊢
      rw [← List.append_assoc, List.foldl_append, ih, List.foldl_append, List.length_append,
        List.length_singleton, Nat.pow_succ, ← Nat.mul_assoc]
      simp only [List.foldl_cons, List.foldl_nil]
      omega

theorem fromSlice_lt (v : Bytes) : fromSlice v < 256 ^ v.length := by
  induction v with
  | nil => decide
  | cons b v ih =>
      have hbyte : b.toNat + 1 ≤ 256 := b.toNat_lt
      have hsplit : fromSlice (b :: v) = b.toNat * 256 ^ v.length + fromSlice v := by
        rw [← List.singleton_append, fromSlice_append]
        simp [fromSlice]
      have hroom := Nat.mul_le_mul_right (256 ^ v.length) hbyte
      rw [Nat.succ_mul] at hroom
      rw [hsplit, List.length_cons, Nat.pow_succ']
      omega

/-- **No byte is wasted**: the first is not zero, and zero has none. -/
theorem toVec_head (n : Nat) : (toVec n).head? ≠ some 0 := by
  intro hzero
  cases hv : toVec n with
  | nil =>
      rw [hv] at hzero
      cases hzero
  | cons b v =>
      rw [hv] at hzero
      cases hzero
      have hn := fromSlice_toVec n
      have hlen : (toVec n).length = (numBits n + 7) / 8 := beBytes_length _ n
      rw [hv, fromSlice_zero] at hn
      rw [hv, List.length_cons] at hlen
      have hless := fromSlice_lt v
      rw [hn] at hless
      -- the bytes behind the zero are too few for the number
      unfold numBits at hlen
      split at hlen
      · omega
      next hpos =>
        have hlow : 256 ^ v.length ≤ 2 ^ Nat.log2 n := by
          rw [show (256 : Nat) = 2 ^ 8 from rfl, ← Nat.pow_mul]
          exact Nat.pow_le_pow_right (by decide) (by omega)
        have hself := Nat.log2_self_le hpos
        omega

/-- What the bytes say as a number with a sign. -/
def signed : Bytes → Int
  | [] => 0
  | b :: v =>
      if b.toNat < 128 then fromSlice (b :: v) else fromSlice (b :: v) - 256 ^ (v.length + 1)

theorem and_sign_bit {b : UInt8} (h : b &&& 0x80 = 0) : b.toNat < 128 := by
  have hall : ∀ n < 256, n &&& 0x80 = 0 → n < 128 := by decide +kernel
  have hbits := congrArg UInt8.toNat h
  rw [UInt8.toNat_and] at hbits
  exact hall b.toNat b.toNat_lt hbits

/-- **A coordinate is not negative** to a reader that heeds the sign. -/
theorem signed_twosComplement (n : Nat) : signed (twosComplement n) = n := by
  have hn := fromSlice_toVec n
  unfold twosComplement
  cases hv : toVec n with
  | nil =>
      rw [hv] at hn
      rw [← hn]
      rfl
  | cons b v =>
      rw [hv] at hn
      dsimp only
      split
      · rw [signed, if_pos (by decide), fromSlice_zero, hn]
      next hsign =>
        rw [signed, if_pos (and_sign_bit (not_not.mp hsign)), hn]

/-! ## Zeros in front -/

theorem magnitude_replicate (k : Nat) (v : Bytes) :
    magnitude (List.replicate k 0 ++ v) = magnitude v := by
  induction k with
  | zero => rfl
  | succ k ih =>
      rw [List.replicate_succ, List.cons_append, magnitude,
        List.dropWhile_cons_of_pos (by simp), ← magnitude, ih]

/-- What is left of a coordinate without its zeros is the bytes of the number. -/
theorem magnitude_twosComplement (n : Nat) : magnitude (twosComplement n) = toVec n := by
  have hhead := toVec_head n
  unfold twosComplement
  cases hv : toVec n with
  | nil => rfl
  | cons b v =>
      rw [hv] at hhead
      have hstays : magnitude (b :: v) = b :: v :=
        List.dropWhile_cons_of_neg (by simpa using hhead)
      dsimp only
      split
      · exact hstays
      · exact hstays

section Keys

variable {Key Point : Type} (s : Suite Key Point)

/-- **Zeros in front change nothing**: two messages whose coordinates differ in them are
the same key, or are refused alike. -/
theorem decodePublicKey_zeros {v v' x y : Bytes} {j k : Nat} (h : coordinates v = .ok (x, y))
    (h' : coordinates v' = .ok (List.replicate j 0 ++ x, List.replicate k 0 ++ y)) :
    decodePublicKey s v' = decodePublicKey s v := by
  rw [decodePublicKey_of_coordinates s h, decodePublicKey_of_coordinates s h',
    magnitude_replicate, magnitude_replicate]

/-- **Coordinates survive the wire.**  A number comes back as it was, in no more bytes
than it takes, from an encoding that is not negative with its sign; and a key with any
zeros in front of its coordinates is the key at those coordinates. -/
theorem coordinates_survive :
    (∀ n, magnitude (twosComplement n) = toVec n ∧
      fromSlice (magnitude (twosComplement n)) = n ∧
      0 ≤ signed (twosComplement n) ∧ signed (twosComplement n) = n) ∧
    (∀ v k, fromSlice (magnitude (List.replicate k 0 ++ v)) = fromSlice (magnitude v)) ∧
    (∀ v v' x y j k, coordinates v = .ok (x, y) →
      coordinates v' = .ok (List.replicate j 0 ++ x, List.replicate k 0 ++ y) →
        decodePublicKey s v' = decodePublicKey s v) ∧
    ∀ v m n j k, coordinates v =
        .ok (List.replicate j 0 ++ twosComplement m, List.replicate k 0 ++ twosComplement n) →
      decodePublicKey s v = pointAt s m n := by
  refine ⟨fun n => ?_, fun v k => ?_, fun v v' x y j k h h' => decodePublicKey_zeros s h h',
    fun v m n j k h => ?_⟩
  · have hsigned := signed_twosComplement n
    exact ⟨magnitude_twosComplement n, fromSlice_twosComplement n, by omega, hsigned⟩
  · rw [magnitude_replicate]
  · rw [decodePublicKey_of_coordinates s h, magnitude_replicate, magnitude_replicate,
      fromSlice_twosComplement, fromSlice_twosComplement]

/-- A suite in which every pair of numbers is a point. -/
def everyPoint : Suite Unit (Nat × Nat) where
  publicKey _ := (0, 0)
  affine := some
  point x y := some (x, y)
  agree _ _ := none
  sha256 := some
  sha512 := some

/-- 200 with a sign byte and two zeros more, and no byte at all for 0. -/
theorem coordinates_survive_zeros :
    decodePublicKey everyPoint (encode (gpkFields [0, 0, 0, 200] [])) = .ok (200, 0) := by
  have hread : coordinates (encode (gpkFields [0, 0, 0, 200] [])) =
      .ok (List.replicate 2 0 ++ twosComplement 200, List.replicate 0 0 ++ twosComplement 0) :=
    coordinates_encode (by decide)
  exact (coordinates_survive everyPoint).2.2.2 _ 200 0 2 0 hread

end Keys

end Ukey2

end Protocol
