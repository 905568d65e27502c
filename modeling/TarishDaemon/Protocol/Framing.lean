import TarishDaemon.Rust.Text

/-!
# Length-prefixed framing

Every message on the connection is preceded by its length, four bytes, the most
significant first.  The decoder is fed whatever arrives and hands back whole
frames.  `feed` is a reader on top of it: everything that is whole is handled
before more is read.

**Where the stream is cut does not matter** (`feed_encode`): whatever the pieces,
the reader does what it would do with the frames one after the other.
-/

namespace Protocol

open Rust

namespace Framing

def lengthPrefix : Nat := 4

/-- A declared length from here on is refused: 5 MiB. -/
def maxFrame : Nat := 5 * 1024 * 1024

inductive Error
  | oversize (n : Nat)
  deriving DecidableEq, Repr

/-- `u32::to_be_bytes`. -/
def toBeBytes (n : Nat) : Bytes :=
  [UInt8.ofNat (n / 2 ^ 24 % 256), UInt8.ofNat (n / 2 ^ 16 % 256), UInt8.ofNat (n / 2 ^ 8 % 256),
    UInt8.ofNat (n % 256)]

/-- `u32::from_be_bytes`. -/
def ofBeBytes (b0 b1 b2 b3 : UInt8) : Nat :=
  b0.toNat * 2 ^ 24 + b1.toNat * 2 ^ 16 + b2.toNat * 2 ^ 8 + b3.toNat

def encode (payload : Bytes) : Bytes :=
  toBeBytes (payload.length % 2 ^ 32) ++ payload

structure Decoder where
  buf : Bytes := []
  deriving DecidableEq, Repr

namespace Decoder

def push (d : Decoder) (bytes : Bytes) : Decoder :=
  { d with buf := d.buf ++ bytes }

/-- The next whole frame, if there is one. -/
def nextFrame (d : Decoder) : Except Error (Option Bytes × Decoder) :=
  match d.buf with
  | b0 :: b1 :: b2 :: b3 :: rest =>
      let len := ofBeBytes b0 b1 b2 b3
      -- refused as soon as the prefix is there, before its body is
      if len ≥ maxFrame then .error (.oversize len)
      else if d.buf.length < lengthPrefix + len then .ok (none, d)
      else .ok (some (rest.take len), { d with buf := rest.drop len })
  | _ => .ok (none, d)

end Decoder

variable {σ ε : Type}

/-- Handle every whole frame there is.  A frame takes at least its prefix, so the
buffer bounds the rounds. -/
def drainLoop (lift : Error → ε) (handle : σ → Bytes → Except ε σ) :
    Nat → Decoder → σ → Except ε (Decoder × σ)
  | 0, d, s => .ok (d, s)
  | fuel + 1, d, s =>
      match d.nextFrame with
      | .error e => .error (lift e)
      | .ok (none, d) => .ok (d, s)
      | .ok (some frame, d) =>
          match handle s frame with
          | .error e => .error e
          | .ok s => drainLoop lift handle fuel d s

def drain (lift : Error → ε) (handle : σ → Bytes → Except ε σ) (d : Decoder) (s : σ) :
    Except ε (Decoder × σ) :=
  drainLoop lift handle (d.buf.length + 1) d s

/-- Read the pieces one after the other. -/
def feed (lift : Error → ε) (handle : σ → Bytes → Except ε σ) :
    List Bytes → Decoder → σ → Except ε (Decoder × σ)
  | [], d, s => .ok (d, s)
  | piece :: pieces, d, s =>
      match drain lift handle (d.push piece) s with
      | .error e => .error e
      | .ok (d, s) => feed lift handle pieces d s

/-! ## Any fragmentation -/

theorem ofBeBytes_toBeBytes {n : Nat} (h : n < 2 ^ 32) :
    ofBeBytes (UInt8.ofNat (n / 2 ^ 24 % 256)) (UInt8.ofNat (n / 2 ^ 16 % 256))
      (UInt8.ofNat (n / 2 ^ 8 % 256)) (UInt8.ofNat (n % 256)) = n := by
  unfold ofBeBytes
  rw [toNat_ofNat_byte (by omega), toNat_ofNat_byte (by omega), toNat_ofNat_byte (by omega),
    toNat_ofNat_byte (by omega)]
  omega

theorem encode_length (w : Bytes) : (encode w).length = lengthPrefix + w.length := by
  simp only [encode, toBeBytes, lengthPrefix, List.length_append, List.length_cons,
    List.length_nil]

/-- What the decoder sees of a frame that is there from its first byte on. -/
theorem nextFrame_encode {w : Bytes} (hw : w.length < maxFrame) (rest : Bytes) :
    Decoder.nextFrame ⟨encode w ++ rest⟩ = .ok (some w, ⟨rest⟩) := by
  have hsmall : w.length % 2 ^ 32 = w.length := by
    unfold maxFrame at hw
    omega
  have hlen := ofBeBytes_toBeBytes (n := w.length) (by unfold maxFrame at hw; omega)
  simp only [encode, hsmall, toBeBytes, List.cons_append, List.nil_append, Decoder.nextFrame, hlen]
  rw [if_neg (by omega), if_neg (by simp [lengthPrefix]; omega)]
  simp

/-- A frame that is too long is refused on its prefix. -/
theorem nextFrame_oversize {w : Bytes} (hlong : maxFrame ≤ w.length) (hw : w.length < 2 ^ 32)
    (rest : Bytes) :
    Decoder.nextFrame ⟨encode w ++ rest⟩ = .error (.oversize w.length) := by
  have hlen := ofBeBytes_toBeBytes hw
  simp only [encode, Nat.mod_eq_of_lt hw, toBeBytes, List.cons_append, List.nil_append,
    Decoder.nextFrame, hlen]
  rw [if_pos hlong]

/-- A frame that is not all there yet is waited for. -/
theorem nextFrame_short {w buf rest : Bytes} (hw : w.length < maxFrame)
    (hcut : buf ++ rest = encode w) (hshort : rest ≠ []) :
    Decoder.nextFrame ⟨buf⟩ = .ok (none, ⟨buf⟩) := by
  have hsmall : w.length % 2 ^ 32 = w.length := by
    unfold maxFrame at hw
    omega
  have hlen := ofBeBytes_toBeBytes (n := w.length) (by unfold maxFrame at hw; omega)
  have hless : buf.length < lengthPrefix + w.length := by
    have hpos := List.length_pos_of_ne_nil hshort
    have htotal := congrArg List.length hcut
    rw [List.length_append, encode_length] at htotal
    omega
  unfold Decoder.nextFrame
  split
  next b0 b1 b2 b3 tail hbuf =>
    dsimp only at hbuf
    subst hbuf
    simp only [encode, hsmall, toBeBytes, List.cons_append, List.nil_append,
      List.cons.injEq] at hcut
    obtain ⟨rfl, rfl, rfl, rfl, -⟩ := hcut
    rw [hlen]
    dsimp only
    rw [if_neg (by omega), if_pos hless]
  next => rfl

/-- Whatever has arrived of a stream of frames is some whole frames and the
beginning of the next. -/
theorem whole_and_tail {frames : List Bytes} (hsmall : ∀ w ∈ frames, w.length < maxFrame)
    {buf rest : Bytes} (h : buf ++ rest = frames.flatMap encode) :
    ∃ k tail, buf = (frames.take k).flatMap encode ++ tail ∧
      tail ++ rest = (frames.drop k).flatMap encode ∧
      Decoder.nextFrame ⟨tail⟩ = .ok (none, ⟨tail⟩) := by
  induction frames generalizing buf with
  | nil =>
      obtain ⟨rfl, rfl⟩ := List.append_eq_nil_iff.mp h
      exact ⟨0, [], rfl, rfl, rfl⟩
  | cons w frames ih =>
      rw [List.flatMap_cons] at h
      have hw := hsmall w (by simp)
      rcases List.append_eq_append_iff.mp h with ⟨more, hmore, hrest⟩ | ⟨more, hbuf, hrest⟩
      · by_cases hempty : more = []
        · -- the buffer ends exactly with the frame
          subst hempty
          have hbuf : buf = encode w := by simpa using hmore.symm
          refine ⟨1, [], by simp [hbuf], by simpa using hrest, rfl⟩
        · refine ⟨0, buf, by simp, by simpa using h, ?_⟩
          exact nextFrame_short hw hmore.symm hempty
      · obtain ⟨k, tail, hk, hdrop, hnone⟩ :=
          ih (fun v hv => hsmall v (by simp [hv])) hrest.symm
        exact ⟨k + 1, tail, by simp [hbuf, hk], by simpa using hdrop, hnone⟩

variable (lift : Error → ε) (handle : σ → Bytes → Except ε σ)

theorem drainLoop_encode {frames : List Bytes} (hsmall : ∀ w ∈ frames, w.length < maxFrame)
    {tail : Bytes} (htail : Decoder.nextFrame ⟨tail⟩ = .ok (none, ⟨tail⟩)) (s : σ) (fuel : Nat)
    (hfuel : frames.length < fuel) :
    drainLoop lift handle fuel ⟨frames.flatMap encode ++ tail⟩ s =
      (frames.foldlM handle s).map fun s => (⟨tail⟩, s) := by
  induction frames generalizing s fuel with
  | nil =>
      cases fuel with
      | zero => omega
      | succ fuel =>
          simp only [List.flatMap_nil, List.nil_append, drainLoop, htail]
          rfl
  | cons w frames ih =>
      cases fuel with
      | zero => omega
      | succ fuel =>
          rw [List.flatMap_cons, List.append_assoc, drainLoop,
            nextFrame_encode (hsmall w (by simp)), List.foldlM_cons]
          dsimp only
          cases handle s w with
          | error e => rfl
          | ok s' =>
              exact ih (fun v hv => hsmall v (by simp [hv])) s' fuel (by
                simp only [List.length_cons] at hfuel
                omega)

theorem length_le_flatMap_encode (frames : List Bytes) :
    frames.length ≤ (frames.flatMap encode).length := by
  induction frames with
  | nil => exact Nat.le_refl _
  | cons w frames ih =>
      rw [List.flatMap_cons, List.length_append, List.length_cons, encode_length]
      unfold lengthPrefix
      omega

/-- **Any fragmentation.**  Reading the pieces of a stream of frames, cut wherever,
is handling the frames. -/
theorem feed_encode {frames : List Bytes} (hsmall : ∀ w ∈ frames, w.length < maxFrame)
    {pieces : List Bytes} (hcut : pieces.flatten = frames.flatMap encode) (s : σ) :
    feed lift handle pieces {} s = (frames.foldlM handle s).map fun s => ({}, s) := by
  -- the induction is on the pieces; the buffer holds the beginning of what is left
  suffices general : ∀ (pieces : List Bytes) (frames : List Bytes) (buf : Bytes) (s : σ),
      (∀ w ∈ frames, w.length < maxFrame) →
      buf ++ pieces.flatten = frames.flatMap encode →
      Decoder.nextFrame ⟨buf⟩ = .ok (none, ⟨buf⟩) →
      feed lift handle pieces ⟨buf⟩ s = (frames.foldlM handle s).map fun s => (⟨[]⟩, s) from
    general pieces frames [] s hsmall (by simpa using hcut) rfl
  intro pieces
  induction pieces with
  | nil =>
      intro frames buf s hsmall hcut hnone
      cases frames with
      | nil =>
          have hbuf : buf = [] := by simpa using hcut
          subst hbuf
          rfl
      | cons w frames =>
          -- a whole frame would not have been left in the buffer
          have hbuf : buf = encode w ++ frames.flatMap encode := by simpa using hcut
          rw [hbuf, nextFrame_encode (hsmall w (by simp))] at hnone
          simp at hnone
  | cons piece pieces ih =>
      intro frames buf s hsmall hcut _
      have hcut' : (buf ++ piece) ++ pieces.flatten = frames.flatMap encode := by
        simpa using hcut
      obtain ⟨k, tail, hbuf, hrest, htail⟩ := whole_and_tail hsmall hcut'
      have htake : ∀ w ∈ frames.take k, w.length < maxFrame := fun w hw =>
        hsmall w (List.mem_of_mem_take hw)
      have hdrop : ∀ w ∈ frames.drop k, w.length < maxFrame := fun w hw =>
        hsmall w (List.mem_of_mem_drop hw)
      have hrounds : (frames.take k).length < (buf ++ piece).length + 1 := by
        have := length_le_flatMap_encode (frames.take k)
        rw [hbuf, List.length_append]
        omega
      have hdrain : drain lift handle (Decoder.push ⟨buf⟩ piece) s =
          ((frames.take k).foldlM handle s).map fun s => (⟨tail⟩, s) := by
        unfold drain Decoder.push
        rw [hbuf] at hrounds ⊢
        exact drainLoop_encode lift handle htake htail s _ hrounds
      have hsplit : frames.foldlM handle s =
          (frames.take k).foldlM handle s >>= (frames.drop k).foldlM handle := by
        rw [← List.foldlM_append, List.take_append_drop]
      rw [feed, hdrain, hsplit]
      cases (frames.take k).foldlM handle s with
      | error e => rfl
      | ok s' => exact ih (frames.drop k) tail s' hdrop hrest htail

theorem drain_error {d : Decoder} {e : Error} (h : d.nextFrame = .error e) (s : σ) :
    drain lift handle d s = .error (lift e) := by
  unfold drain drainLoop
  rw [h]

/-- A frame that is too long ends the reading, whatever the receiver was doing. -/
theorem feed_oversize {w : Bytes} (hlong : maxFrame ≤ w.length) (hw : w.length < 2 ^ 32) (s : σ) :
    feed lift handle [encode w] {} s = .error (lift (.oversize w.length)) := by
  have hover := nextFrame_oversize hlong hw []
  have hpush : Decoder.push {} (encode w) = ⟨encode w ++ []⟩ := by
    rw [List.append_nil]
    rfl
  rw [← hpush] at hover
  rw [feed, drain_error lift handle hover]

end Framing

end Protocol
