import TarishDaemon.Protocol.Protobuf

/-!
# Integers on the wire

The bytes of one integer stand for a number of any size (`Denotes`).  The reader takes ten
of them, seven bits each, and keeps sixty-four bits: six of the tenth byte are shifted out
(`Denotes.readVarint`).  What the writer puts out for a `u64` stands for it, and is read
back whole.
-/

namespace Protocol

open Rust

namespace Protobuf

/-! ## Reading -/

/-- What the bytes of one integer stand for, seven bits a byte and the lowest first. -/
inductive Denotes : Bytes → Nat → Prop
  | last {b : UInt8} (hlast : b.toNat < 128) : Denotes [b] b.toNat
  | more {b : UInt8} {front : Bytes} {n : Nat} (hmore : 128 ≤ b.toNat) (later : Denotes front n) :
      Denotes (b :: front) (b.toNat - 128 + 128 * n)

/-- The bytes of an integer show where it ends. -/
theorem Denotes.unique {front front' rest rest' : Bytes} {n n' : Nat} (h : Denotes front n)
    (h' : Denotes front' n') (heq : front ++ rest = front' ++ rest') :
    n = n' ∧ rest = rest' := by
  induction h generalizing front' n' with
  | last hlast =>
      cases h' with
      | last _ =>
          simp only [List.cons_append, List.nil_append, List.cons.injEq] at heq
          exact ⟨congrArg UInt8.toNat heq.1, heq.2⟩
      | more hmore _ =>
          simp only [List.cons_append, List.cons.injEq] at heq
          rw [heq.1] at hlast
          omega
  | more hmore _ ih =>
      cases h' with
      | last hlast =>
          simp only [List.cons_append, List.cons.injEq] at heq
          rw [heq.1] at hmore
          omega
      | more _ later =>
          simp only [List.cons_append, List.cons.injEq] at heq
          obtain ⟨hn, hrest⟩ := ih later heq.2
          rw [heq.1, hn]
          exact ⟨rfl, hrest⟩

/-- One byte of a varint joins the bytes before it, as far as a `u64` has room. -/
theorem or_shiftLeft {out shift low : Nat} (hshift : shift ≤ 63) (hout : out < 2 ^ shift) :
    out ||| (low <<< shift) % 2 ^ 64 = (out + low * 2 ^ shift) % 2 ^ 64 := by
  have hpow : 2 ^ 64 = 2 ^ (64 - shift) * 2 ^ shift := by
    rw [← Nat.pow_add]
    congr 1
    omega
  -- what is left of the byte
  have hlow : (low * 2 ^ shift) % 2 ^ 64 = low % 2 ^ (64 - shift) * 2 ^ shift := by
    rw [hpow, Nat.mul_mod_mul_right]
  have hkept : low % 2 ^ (64 - shift) + 1 ≤ 2 ^ (64 - shift) := Nat.mod_lt _ (Nat.two_pow_pos _)
  have hroom : low % 2 ^ (64 - shift) * 2 ^ shift + 2 ^ shift ≤ 2 ^ 64 := by
    rw [hpow, ← Nat.succ_mul]
    exact Nat.mul_le_mul_right _ hkept
  calc out ||| (low <<< shift) % 2 ^ 64
      = out ||| low % 2 ^ (64 - shift) * 2 ^ shift := by rw [Nat.shiftLeft_eq, hlow]
    _ = out + low % 2 ^ (64 - shift) * 2 ^ shift := by
        rw [Nat.or_comm, Nat.mul_comm, ← Nat.two_pow_add_eq_or_of_lt hout, Nat.add_comm]
    _ = (out + low % 2 ^ (64 - shift) * 2 ^ shift) % 2 ^ 64 :=
        (Nat.mod_eq_of_lt (by omega)).symm
    _ = (out + low * 2 ^ shift) % 2 ^ 64 := by rw [← hlow, Nat.add_mod_mod]

/-- The reader's loop over the bytes of an integer, with `k` bytes behind it that stand
for `acc`. -/
theorem Denotes.readVarint_loop {front : Bytes} {n : Nat} (h : Denotes front n) (rest : Bytes)
    (k acc : Nat) (hacc : acc < 2 ^ (7 * k)) :
    readVarint (front ++ rest) (7 * k) (acc % 2 ^ 64) =
      if front.length + k ≤ 10 then .ok ((acc + n * 2 ^ (7 * k)) % 2 ^ 64, rest)
      else .error .varintTooLong := by
  induction h generalizing k acc with
  | @last b hlast =>
      rw [List.singleton_append, readVarint, List.length_singleton]
      by_cases hk : 7 * k > 63
      · rw [if_pos hk, if_neg (by omega)]
      · have hshort : acc < 2 ^ 64 :=
          lt_of_lt_of_le hacc (Nat.pow_le_pow_right (by decide) (by omega))
        rw [if_neg hk, if_pos hlast, if_pos (by omega), Nat.mod_eq_of_lt hlast,
          Nat.mod_eq_of_lt hshort, or_shiftLeft (by omega) hacc]
  | @more b front n hmore later ih =>
      rw [List.cons_append, readVarint, List.length_cons]
      by_cases hk : 7 * k > 63
      · rw [if_pos hk, if_neg (by omega)]
      · have hshort : acc < 2 ^ 64 :=
          lt_of_lt_of_le hacc (Nat.pow_le_pow_right (by decide) (by omega))
        have hbyte : b.toNat < 256 := b.toNat_lt
        have hlow : b.toNat % 128 = b.toNat - 128 := by omega
        have hpow : 2 ^ (7 * (k + 1)) = 128 * 2 ^ (7 * k) := by
          rw [Nat.mul_succ, Nat.pow_add, Nat.mul_comm]
        have hnext : acc + (b.toNat - 128) * 2 ^ (7 * k) < 2 ^ (7 * (k + 1)) := by
          have hle : (b.toNat - 128) * 2 ^ (7 * k) ≤ 127 * 2 ^ (7 * k) :=
            Nat.mul_le_mul_right _ (by omega)
          omega
        rw [if_neg hk, if_neg (by omega), Nat.mod_eq_of_lt hshort,
          or_shiftLeft (by omega) hacc, hlow, ← Nat.mul_succ, ih (k + 1) _ hnext]
        have hsum : acc + (b.toNat - 128) * 2 ^ (7 * k) + n * 2 ^ (7 * (k + 1)) =
            acc + (b.toNat - 128 + 128 * n) * 2 ^ (7 * k) := by
          rw [hpow, Nat.add_mul, Nat.mul_left_comm n, Nat.mul_assoc]
          omega
        rw [hsum, show front.length + (k + 1) = front.length + 1 + k by omega]

/-- **The reader keeps the low sixty-four bits of an integer of at most ten bytes**, and
refuses one that is longer. -/
theorem Denotes.readVarint {front : Bytes} {n : Nat} (h : Denotes front n) (rest : Bytes) :
    readVarint (front ++ rest) 0 0 =
      if front.length ≤ 10 then .ok (n % 2 ^ 64, rest) else .error .varintTooLong := by
  have hloop := h.readVarint_loop rest 0 0 (by decide)
  simpa using hloop

theorem denotes_of_readVarint {buf rest : Bytes} {shift out v : Nat}
    (h : readVarint buf shift out = .ok (v, rest)) :
    ∃ front n, buf = front ++ rest ∧ Denotes front n := by
  induction buf generalizing shift out with
  | nil => cases h
  | cons b tail ih =>
      rw [Protobuf.readVarint] at h
      split at h
      · cases h
      dsimp only at h
      split at h
      next hlast =>
        cases h
        exact ⟨[b], b.toNat, rfl, Denotes.last hlast⟩
      next hmore =>
        obtain ⟨front, n, rfl, hfront⟩ := ih h
        exact ⟨b :: front, _, rfl, Denotes.more (by omega) hfront⟩

/-- An integer that the reader takes. -/
def Short (front : Bytes) (n : Nat) : Prop :=
  Denotes front n ∧ front.length ≤ 10

theorem Short.readVarint {front : Bytes} {n : Nat} (h : Short front n) (rest : Bytes) :
    readVarint (front ++ rest) 0 0 = .ok (n % 2 ^ 64, rest) := by
  rw [h.1.readVarint rest, if_pos h.2]

theorem short_of_readVarint {buf rest : Bytes} {v : Nat}
    (h : readVarint buf 0 0 = .ok (v, rest)) :
    ∃ front n, buf = front ++ rest ∧ Short front n ∧ v = n % 2 ^ 64 := by
  obtain ⟨front, n, rfl, hfront⟩ := denotes_of_readVarint h
  rw [hfront.readVarint rest] at h
  split at h
  next hshort =>
    cases h
    exact ⟨front, n, rfl, ⟨hfront, hshort⟩, rfl⟩
  · cases h

/-- The last byte of an integer is the part of it that weighs most. -/
theorem Denotes.last_byte {front : Bytes} {n : Nat} (h : Denotes front n) :
    ∃ init b low, front = init ++ [b] ∧ b.toNat < 128 ∧ low < 128 ^ init.length ∧
      n = low + b.toNat * 128 ^ init.length := by
  induction h with
  | @last b hlast => exact ⟨[], b, 0, rfl, hlast, by decide, by simp⟩
  | @more x front n hmore _ ih =>
      obtain ⟨init, b, low, rfl, hb, hlow, rfl⟩ := ih
      have hbyte : x.toNat < 256 := x.toNat_lt
      refine ⟨x :: init, b, x.toNat - 128 + 128 * low, rfl, hb, ?_, ?_⟩
      · rw [List.length_cons, Nat.pow_succ]
        omega
      · rw [List.length_cons, Nat.pow_succ, ← Nat.mul_assoc, Nat.mul_add]
        omega

/-- **An integer that the reader takes is too big for it** just where it has ten bytes and
the tenth is not 0 or 1. -/
theorem Short.oversized_iff {front : Bytes} {n : Nat} (h : Short front n) :
    2 ^ 64 ≤ n ↔ ∃ init b, front = init ++ [b] ∧ init.length = 9 ∧ 2 ≤ b.toNat := by
  obtain ⟨hdenotes, hlen⟩ := h
  obtain ⟨init, b, low, rfl, hb, hlow, rfl⟩ := hdenotes.last_byte
  rw [List.length_append, List.length_singleton] at hlen
  constructor
  · intro hbig
    have hnine : init.length = 9 := by
      by_contra hne
      have hle : (128 : Nat) ^ init.length ≤ 128 ^ 8 :=
        Nat.pow_le_pow_right (by decide) (by omega)
      have hpart := Nat.mul_le_mul (Nat.le_of_lt hb) hle
      omega
    rw [hnine] at hlow hbig
    exact ⟨init, b, rfl, hnine, by omega⟩
  · intro hten
    obtain ⟨init', b', heq, hnine, hb'⟩ := hten
    obtain ⟨rfl, hlast⟩ := List.append_inj' heq rfl
    cases hlast
    rw [hnine]
    omega

/-! ## Writing -/

theorem denotes_putVarintLoop {fuel v : Nat} (h : v < 128 ^ fuel) (hpos : 0 < fuel) :
    Denotes (putVarintLoop fuel v) v := by
  induction fuel generalizing v with
  | zero => omega
  | succ fuel ih =>
      unfold putVarintLoop
      by_cases hmore : v ≥ 0x80
      · have hbyte := toNat_ofNat_byte (n := v % 128 + 128) (by omega)
        have hless : v / 128 < 128 ^ fuel := by
          rw [Nat.div_lt_iff_lt_mul (by decide), ← Nat.pow_succ]
          exact h
        have hfuel : 0 < fuel := by
          by_contra hzero
          rw [show fuel = 0 by omega] at hless
          omega
        have hdenotes := Denotes.more (b := UInt8.ofNat (v % 128 + 128)) (by omega) (ih hless hfuel)
        rw [hbyte, show v % 128 + 128 - 128 + 128 * (v / 128) = v by omega] at hdenotes
        rw [if_pos hmore]
        exact hdenotes
      · have hbyte := toNat_ofNat_byte (n := v) (by omega)
        have hdenotes := Denotes.last (b := UInt8.ofNat v) (by omega)
        rw [hbyte] at hdenotes
        rw [if_neg hmore]
        exact hdenotes

theorem denotes_putVarint {v : Nat} (h : v < 2 ^ 64) : Denotes (putVarint v) v :=
  denotes_putVarintLoop (by omega) (by decide)

theorem putVarint_ne_nil (v : Nat) : putVarint v ≠ [] := by
  unfold putVarint putVarintLoop
  split <;> simp

theorem putVarint_length_le (v : Nat) : (putVarint v).length ≤ 10 := by
  have hloop : ∀ (fuel v : Nat), (putVarintLoop fuel v).length ≤ fuel := by
    intro fuel
    induction fuel with
    | zero => exact fun _ => Nat.le_refl _
    | succ fuel ih =>
        intro v
        unfold putVarintLoop
        split
        · exact Nat.succ_le_succ (ih (v / 128))
        · exact Nat.succ_le_succ (Nat.zero_le _)
  exact hloop 10 v

/-- **What was put is read.** -/
theorem readVarint_putVarint {v : Nat} (rest : Bytes) (h : v < 2 ^ 64) :
    readVarint (putVarint v ++ rest) 0 0 = .ok (v, rest) := by
  rw [(denotes_putVarint h).readVarint rest, if_pos (putVarint_length_le v), Nat.mod_eq_of_lt h]

end Protobuf

end Protocol
