import TarishDaemon.Protocol.SecureMessage

/-!
# HKDF, block by block

`expand` chains blocks of 32 bytes, each one of the last and of a counter of one byte, and
cuts the last one short.  What comes out is the front of one stream of blocks, however much
is asked for.

The counter is stepped after the last block, too.  So where arithmetic traps the 255th block
is never given out, although a length that needs it is let in (`serves_iff`).
-/

namespace Protocol

open Rust

namespace Hkdf

def maxOutputLen : Nat := 255 * hashLen

/-- How `expand` may stop without a result. -/
inductive Panic
  | tooLong
  | counterOverflow
  deriving DecidableEq, Repr

section

variable (mac : Bytes → Bytes → Octets hashLen) (prk info : Bytes)

/-- The loop, in a build in which an overflow traps or in one in which it wraps. -/
def blocks (traps : Bool) (length : Nat) (out t : Bytes) (counter : UInt8) :
    Except Panic Bytes :=
  if out.length < length then
    let next := (mac prk (t ++ info ++ [counter])).bytes
    let take := min (length - out.length) next.length
    if traps && counter == 255 then .error .counterOverflow
    else blocks traps length (out ++ next.take take) next (counter + 1)
  else .ok out
termination_by length - out.length
decreasing_by
  have hsized : next.length = 32 := (mac prk (t ++ info ++ [counter])).sized
  have htake : (next.take take).length = take := List.length_take_of_le (Nat.min_le_right _ _)
  have hpos : 0 < take := by
    simp only [take]
    omega
  rw [List.length_append, htake]
  omega

/-- `expand`, when HMAC does not fail. -/
def expandBlocks (traps : Bool) (length : Nat) : Except Panic Bytes :=
  if length ≤ maxOutputLen then blocks mac prk info traps length [] [] 1
  else .error .tooLong

/-! ## The stream -/

/-- `T(i)`. -/
def block : Nat → Bytes
  | 0 => []
  | i + 1 => (mac prk (block i ++ info ++ [UInt8.ofNat (i + 1)])).bytes

/-- `T(1)` to `T(n)`, one after the other. -/
def stream (n : Nat) : Bytes :=
  (List.range n).flatMap fun i => block mac prk info (i + 1)

end

variable {mac : Bytes → Bytes → Octets hashLen} {prk info : Bytes}

theorem block_length (i : Nat) : (block mac prk info (i + 1)).length = hashLen :=
  (mac prk _).sized

theorem stream_succ (n : Nat) :
    stream mac prk info (n + 1) = stream mac prk info n ++ block mac prk info (n + 1) := by
  rw [stream, List.range_succ, List.flatMap_append, List.flatMap_singleton]
  rfl

theorem stream_length (n : Nat) : (stream mac prk info n).length = n * hashLen := by
  induction n with
  | zero => exact (Nat.zero_mul _).symm
  | succ n ih => rw [stream_succ, List.length_append, ih, block_length, Nat.succ_mul]

/-- More blocks do not change the front. -/
theorem take_stream {length n m : Nat} (hn : length ≤ n * hashLen) (hnm : n ≤ m) :
    (stream mac prk info m).take length = (stream mac prk info n).take length := by
  induction m, hnm using Nat.le_induction with
  | base => rfl
  | succ m hm ih =>
      have hlong : length ≤ (stream mac prk info m).length := by
        rw [stream_length]
        exact le_trans hn (Nat.mul_le_mul_right hashLen hm)
      rw [stream_succ, List.take_append_of_le_length hlong, ih]

/-! ## The loop -/

variable {traps : Bool} {length i : Nat}

/-- Enough blocks are there. -/
theorem blocks_done (hdone : length ≤ i * hashLen) (t : Bytes) (counter : UInt8) :
    blocks mac prk info traps length ((stream mac prk info i).take length) t counter =
      .ok ((stream mac prk info i).take length) := by
  rw [blocks, if_neg]
  rw [List.length_take, stream_length]
  omega

/-- One more block, and then the counter. -/
theorem blocks_round (hmore : i * hashLen < length) :
    blocks mac prk info traps length ((stream mac prk info i).take length)
        (block mac prk info i) (UInt8.ofNat (i + 1)) =
      if traps && UInt8.ofNat (i + 1) == 255 then .error .counterOverflow
      else blocks mac prk info traps length ((stream mac prk info (i + 1)).take length)
        (block mac prk info (i + 1)) (UInt8.ofNat (i + 1 + 1)) := by
  have hlen : (stream mac prk info i).length = i * hashLen := stream_length i
  have hall : (stream mac prk info i).take length = stream mac prk info i := by
    rw [List.take_of_length_le]
    omega
  have hnext : stream mac prk info i ++
      (block mac prk info (i + 1)).take
        (min (length - (stream mac prk info i).length) (block mac prk info (i + 1)).length) =
      (stream mac prk info (i + 1)).take length := by
    rw [stream_succ, List.take_append, hall, List.take_eq_take_iff.mpr]
    omega
  have hcounter : UInt8.ofNat (i + 1) + 1 = UInt8.ofNat (i + 1 + 1) := by
    rw [UInt8.ofNat_add (i + 1) 1]
    rfl
  have hblock : (mac prk (block mac prk info i ++ info ++ [UInt8.ofNat (i + 1)])).bytes =
      block mac prk info (i + 1) := rfl
  rw [hall, blocks, if_pos (by omega)]
  simp only [hblock, hnext, hcounter]

theorem counter_lt (hi : i < 254) : (UInt8.ofNat (i + 1) == 255) = false := by
  rw [beq_eq_false_iff_ne]
  intro h
  have hvalue := congrArg UInt8.toNat h
  rw [toNat_ofNat_byte (by omega)] at hvalue
  change i + 1 = 255 at hvalue
  omega

/-- The loop from block `i` on, with `k` blocks to come at most. -/
theorem blocks_ok (k : Nat) (henough : length ≤ (i + k) * hashLen) (hmost : i + k ≤ 255)
    (htrap : traps = true → i + k ≤ 254) :
    blocks mac prk info traps length ((stream mac prk info i).take length)
        (block mac prk info i) (UInt8.ofNat (i + 1)) =
      .ok ((stream mac prk info (i + k)).take length) := by
  induction k generalizing i with
  | zero => exact blocks_done henough _ _
  | succ k ih =>
      by_cases hdone : length ≤ i * hashLen
      · rw [blocks_done hdone, take_stream hdone (Nat.le_add_right i (k + 1))]
      · have hgoes : (traps && UInt8.ofNat (i + 1) == 255) = false := by
          cases htraps : traps with
          | false => rfl
          | true =>
              have hlast := htrap htraps
              rw [Bool.true_and, counter_lt (by omega)]
        have hnext : i + 1 + k = i + (k + 1) := by omega
        rw [blocks_round (Nat.not_le.mp hdone), hgoes, if_neg Bool.false_ne_true,
          ih (hnext ▸ henough) (hnext ▸ hmost) (hnext ▸ htrap), hnext]

/-- Where the last block is the 255th, the counter is stepped past what it holds. -/
theorem blocks_overflow (hi : i ≤ 254) (hlong : 254 * hashLen < length) :
    blocks mac prk info true length ((stream mac prk info i).take length)
        (block mac prk info i) (UInt8.ofNat (i + 1)) = .error .counterOverflow := by
  induction hk : 254 - i generalizing i with
  | zero =>
      obtain rfl : i = 254 := by omega
      rw [blocks_round hlong]
      rfl
  | succ k ih =>
      have hmore : i * hashLen < length := by
        simp only [hashLen] at hlong ⊢
        omega
      rw [blocks_round hmore, counter_lt (by omega), Bool.and_false, if_neg Bool.false_ne_true]
      exact ih (by omega) (by omega)

/-- The loop starts with no block. -/
theorem blocks_start (length : Nat) : blocks mac prk info traps length [] [] 1 =
    blocks mac prk info traps length ((stream mac prk info 0).take length)
      (block mac prk info 0) (UInt8.ofNat (0 + 1)) := by
  have hnone : stream mac prk info 0 = [] := rfl
  rw [hnone, List.take_nil]
  rfl

/-- The whole loop, where `k` blocks are enough. -/
theorem blocks_whole (k : Nat) (henough : length ≤ k * hashLen) (hmost : k ≤ 255)
    (htrap : traps = true → k ≤ 254) :
    blocks mac prk info traps length [] [] 1 = .ok ((stream mac prk info k).take length) := by
  have hzero : 0 + k = k := Nat.zero_add k
  rw [blocks_start, blocks_ok k (hzero.symm ▸ henough) (hzero.symm ▸ hmost) (hzero.symm ▸ htrap),
    hzero]

/-! ## `expand` -/

/-- The first bytes of the stream. -/
def okm (mac : Bytes → Bytes → Octets hashLen) (prk info : Bytes) (length : Nat) : Bytes :=
  (stream mac prk info 255).take length

/-- Where arithmetic wraps, every length that is let in is served. -/
theorem expandBlocks_wraps (h : length ≤ maxOutputLen) :
    expandBlocks mac prk info false length = .ok (okm mac prk info length) := by
  rw [expandBlocks, if_pos h]
  exact blocks_whole 255 h (le_refl 255) (fun htrap => Bool.noConfusion htrap)

theorem expandBlocks_traps (h : length ≤ 254 * hashLen) :
    expandBlocks mac prk info true length = .ok (okm mac prk info length) := by
  have hin : length ≤ maxOutputLen := le_trans h (Nat.mul_le_mul_right hashLen (by decide))
  have hfront : (stream mac prk info 255).take length = (stream mac prk info 254).take length :=
    take_stream h (by decide)
  rw [expandBlocks, if_pos hin, okm, hfront]
  exact blocks_whole 254 h (by decide) fun _ => le_refl 254

theorem expandBlocks_overflow (hlong : 254 * hashLen < length) (h : length ≤ maxOutputLen) :
    expandBlocks mac prk info true length = .error .counterOverflow := by
  rw [expandBlocks, if_pos h, blocks_start]
  exact blocks_overflow (by omega) hlong

/-- `expand` gives the first bytes of the stream and never steps its counter too far, so that
what it gives for a shorter length is the front of it. -/
def Serves (mac : Bytes → Bytes → Octets hashLen) (prk info : Bytes) (length : Nat) : Prop :=
  ∀ traps, expandBlocks mac prk info traps length = .ok (okm mac prk info length) ∧
    ∀ shorter, shorter ≤ length → ∃ front,
      expandBlocks mac prk info traps shorter = .ok front ∧ front <+: okm mac prk info length

/-- **`expand` is RFC 5869 exactly up to 254 blocks.** -/
theorem serves_iff (mac : Bytes → Bytes → Octets hashLen) (prk info : Bytes) (length : Nat)
    (admitted : length ≤ maxOutputLen) :
    Serves mac prk info length ↔ length ≤ 254 * hashLen := by
  constructor
  · intro serves
    by_contra hlong
    have htrap := (serves true).1
    rw [expandBlocks_overflow (Nat.not_le.mp hlong) admitted] at htrap
    cases htrap
  · intro h traps
    have hall : ∀ n, n ≤ 254 * hashLen →
        expandBlocks mac prk info traps n = .ok (okm mac prk info n) := by
      intro n hn
      cases traps with
      | false =>
          exact expandBlocks_wraps (le_trans hn (Nat.mul_le_mul_right hashLen (by decide)))
      | true => exact expandBlocks_traps hn
    refine ⟨hall length h, ?_⟩
    intro shorter hshorter
    exact ⟨_, hall shorter (le_trans hshorter h), List.take_prefix_take_left hshorter⟩

/-- A function that HMAC might be. -/
def zeroMac (_ _ : Bytes) : Octets hashLen :=
  ⟨List.replicate hashLen 0, List.length_replicate⟩

theorem serves_iff_block : Serves zeroMac [] [] 33 ↔ 33 ≤ 254 * hashLen :=
  serves_iff zeroMac [] [] 33 (by decide)

/-- The longest output that is let in. -/
theorem not_serves_longest : ¬ Serves zeroMac [] [] maxOutputLen := by
  intro serves
  have htrap := (serves true).1
  rw [expandBlocks_overflow (by decide) (le_refl _)] at htrap
  cases htrap

/-! ## The model that the key derivation uses -/

/-- Round for round it is the loop of a build in which arithmetic wraps. -/
theorem expandLoop_eq {c : Crypto} (hmac : ∀ key data, c.hmac key data = some (mac key data).bytes)
    (fuel counter : Nat) (t out : Bytes) (henough : length ≤ out.length + fuel * hashLen) :
    expandLoop c prk info length fuel counter t out =
      (blocks mac prk info false length out t (UInt8.ofNat counter)).toOption := by
  induction fuel generalizing counter t out with
  | zero =>
      have hdone : ¬ out.length < length := by omega
      rw [expandLoop, blocks, if_neg hdone, if_neg hdone]
      rfl
  | succ fuel ih =>
      by_cases hmore : out.length < length
      · have hsized : (mac prk (t ++ info ++ [UInt8.ofNat counter])).bytes.length = hashLen :=
          (mac prk _).sized
        have hcounter : UInt8.ofNat (counter + 1) = UInt8.ofNat counter + 1 :=
          UInt8.ofNat_add counter 1
        have htake : ∀ b : Bytes, b.take (length - out.length) =
            b.take (min (length - out.length) b.length) := by
          intro b
          rw [List.take_eq_take_iff]
          omega
        rw [expandLoop, blocks, if_pos hmore, if_pos hmore, hmac]
        simp only [Option.bind_eq_bind, Option.bind_some, Bool.false_and,
          if_neg Bool.false_ne_true]
        rw [← hcounter, ← htake]
        apply ih
        rw [List.length_append, List.length_take, hsized]
        simp only [hashLen] at henough ⊢
        omega
      · rw [expandLoop, blocks, if_neg hmore, if_neg hmore]
        rfl

/-- **So the keys are cut from the same stream.** -/
theorem expand_eq {c : Crypto} (hmac : ∀ key data, c.hmac key data = some (mac key data).bytes)
    (h : length ≤ maxOutputLen) : expand c prk info length = some (okm mac prk info length) := by
  have hwraps : expandBlocks mac prk info false length = .ok (okm mac prk info length) :=
    expandBlocks_wraps h
  rw [expandBlocks, if_pos h] at hwraps
  rw [expand, expandLoop_eq hmac 255 1 [] [] (by rw [List.length_nil, Nat.zero_add]; exact h)]
  change (blocks mac prk info false length [] [] 1).toOption = _
  rw [hwraps]
  rfl

end Hkdf

end Protocol
