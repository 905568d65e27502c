import TarishDaemon.Protocol.Wire
import TarishDaemon.Rust.Utf16

/-!
# Public keys of the UKEY2 handshake

A P-256 public key travels as a `GenericPublicKey` with the two coordinates of the
point, each a big-endian two's complement number: a zero byte stands in front where
the high bit of the coordinate is set.  The reader strips it again.  The shared secret
is the hash of what ECDH yields, all of it.

The curve and the hashes come from outside: `Suite` is what the source calls of
OpenSSL, with the types of a private key and of a point on the curve left open.  Fresh
keys and random bytes are inputs of the handshake.
-/

namespace Protocol

open Rust Protobuf

namespace Ukey2

inductive Error
  | notOnCurve
  | malformed (what : String)
  | protobuf (e : Protobuf.Error)
  | crypto
  deriving DecidableEq, Repr

/-- What the source calls of OpenSSL. -/
structure Suite (Key Point : Type) where
  publicKey : Key → Point
  /-- The affine coordinates of a point. -/
  affine : Point → Option (Nat × Nat)
  /-- The point with these coordinates, if there is one on the curve. -/
  point : (x y : Nat) → Option Point
  /-- ECDH: the coordinate x of the shared point. -/
  agree : Key → Point → Option Bytes
  sha256 : Bytes → Option Bytes
  sha512 : Bytes → Option Bytes

/-- The curve and the hashes as they are documented: nothing fails on a key's own
point, coordinates are elements of the field, a point is made from its coordinates,
and both ends agree. -/
structure Suite.Ideal {Key Point : Type} (s : Suite Key Point) : Prop where
  codec : ∀ k, ∃ x y, s.affine (s.publicKey k) = some (x, y) ∧ x < 2 ^ 256 ∧ y < 2 ^ 256 ∧
    s.point x y = some (s.publicKey k)
  agrees : ∀ k l, s.agree k (s.publicKey l) = s.agree l (s.publicKey k)
  derives : ∀ k l, (s.agree k (s.publicKey l)).isSome
  hashes : ∀ m, (s.sha256 m).isSome
  digests : ∀ m, ∃ d, s.sha512 m = some d ∧ d.length = 64

/-- A call of OpenSSL whose error is not told apart. -/
def orCrypto {α : Type} : Option α → Except Error α
  | some x => .ok x
  | none => .error .crypto

/-- `ok_or(Malformed(what))?`. -/
def orMalformed {α : Type} (x : Option α) (what : String) : Except Error α :=
  match x with
  | some x => .ok x
  | none => .error (.malformed what)

/-- A check that refuses the message where it fails. -/
def ensure (p : Prop) [Decidable p] (what : String) : Except Error Unit :=
  if p then .ok () else .error (.malformed what)

theorem orCrypto_eq_ok {α : Type} {x : Option α} {a : α} : orCrypto x = .ok a ↔ x = some a := by
  cases x <;> simp [orCrypto]

theorem orMalformed_eq_ok {α : Type} {x : Option α} {what : String} {a : α} :
    orMalformed x what = .ok a ↔ x = some a := by
  cases x <;> simp [orMalformed]

theorem ensure_eq_ok {p : Prop} [Decidable p] {what : String} {u : Unit} :
    ensure p what = .ok u ↔ p := by
  by_cases hp : p <;> simp [ensure, hp]

def gpkType : Nat := 1

def gpkEcP256PublicKey : Nat := 2

def ecX : Nat := 1

def ecY : Nat := 2

def publicKeyTypeEcP256 : Nat := 1

/-! ## Coordinates -/

/-- `BN_num_bits`. -/
def numBits (n : Nat) : Nat :=
  if n = 0 then 0 else Nat.log2 n + 1

/-- `BigNum::to_vec`: no more bytes than it takes. -/
def toVec (n : Nat) : Bytes :=
  beBytes ((numBits n + 7) / 8) n

/-- `BigNum::from_slice`. -/
def fromSlice (v : Bytes) : Nat :=
  v.foldl (fun n b => n * 256 + b.toNat) 0

/-- Strip leading zero bytes. -/
def magnitude (v : Bytes) : Bytes :=
  v.dropWhile (· = 0)

def twosComplement (n : Nat) : Bytes :=
  match toVec n with
  | [] => []
  | b :: v => if b &&& 0x80 ≠ 0 then 0 :: b :: v else b :: v

theorem fromSlice_beBytes (width n : Nat) : fromSlice (beBytes width n) = n % 256 ^ width := by
  induction width generalizing n with
  | zero =>
      rw [Nat.pow_zero, Nat.mod_one]
      rfl
  | succ width ih =>
      have hrest := ih (n / 256)
      have hsplit : n % 256 ^ (width + 1) = n / 256 % 256 ^ width * 256 + n % 256 := by
        rw [Nat.pow_succ', Nat.mod_mul]
        omega
      unfold fromSlice at hrest ⊢
      rw [beBytes, List.foldl_append, hrest, List.foldl_cons, List.foldl_nil,
        toNat_ofNat_byte (by omega), hsplit]

theorem numBits_le {n bits : Nat} (h : n < 2 ^ bits) : numBits n ≤ bits := by
  unfold numBits
  split
  · omega
  next hn => exact (Nat.log2_lt hn).mpr h

theorem fromSlice_toVec (n : Nat) : fromSlice (toVec n) = n := by
  rw [toVec, fromSlice_beBytes]
  apply Nat.mod_eq_of_lt
  have hbits : n < 2 ^ numBits n := by
    unfold numBits
    split
    next hn => omega
    · exact Nat.lt_log2_self
  have hbytes : (256 : Nat) ^ ((numBits n + 7) / 8) = 2 ^ (8 * ((numBits n + 7) / 8)) := by
    rw [Nat.pow_mul]
  rw [hbytes]
  exact lt_of_lt_of_le hbits (Nat.pow_le_pow_right (by omega) (by omega))

/-- A leading zero is no part of the number. -/
theorem fromSlice_zero (v : Bytes) : fromSlice (0 :: v) = fromSlice v := rfl

theorem fromSlice_magnitude (v : Bytes) : fromSlice (magnitude v) = fromSlice v := by
  induction v with
  | nil => rfl
  | cons b v ih =>
      by_cases hb : b = 0
      · rw [hb, fromSlice_zero, ← ih]
        rfl
      · rw [magnitude, List.dropWhile_cons_of_neg (by simpa using hb)]

/-- **A coordinate is read as it was written**, with the sign byte or without. -/
theorem fromSlice_twosComplement (n : Nat) : fromSlice (magnitude (twosComplement n)) = n := by
  rw [fromSlice_magnitude]
  have hn := fromSlice_toVec n
  unfold twosComplement
  cases hv : toVec n with
  | nil => rwa [hv] at hn
  | cons b v =>
      rw [hv] at hn
      dsimp only
      split
      · rwa [fromSlice_zero]
      · exact hn

theorem twosComplement_length_le {n : Nat} (h : n < 2 ^ 256) :
    (twosComplement n).length ≤ 33 := by
  have hbits := numBits_le h
  have hlen : (toVec n).length = (numBits n + 7) / 8 := beBytes_length _ n
  unfold twosComplement
  cases hv : toVec n with
  | nil => exact Nat.zero_le _
  | cons b v =>
      rw [hv, List.length_cons] at hlen
      dsimp only
      split
      · rw [List.length_cons, List.length_cons]
        omega
      · rw [List.length_cons]
        omega

/-! ## Keys -/

section Keys

variable {Key Point : Type} (s : Suite Key Point)

/-- `first_bytes(buf, field)?.ok_or(Malformed(what))?`. -/
def require (buf : Bytes) (field : Nat) (what : String) : Except Error Bytes :=
  match firstBytes buf field with
  | .error e => .error (.protobuf e)
  | .ok v => orMalformed v what

def encodePublicKey (key : Key) : Except Error Bytes := do
  let (x, y) ← orCrypto (s.affine (s.publicKey key))
  let ec := bytes ecX (twosComplement x) ++ bytes ecY (twosComplement y)
  return varint gpkType publicKeyTypeEcP256 ++ bytes gpkEcP256PublicKey ec

def decodePublicKey (v : Bytes) : Except Error Point := do
  let ec ← require v gpkEcP256PublicKey "no ec_p256_public_key"
  let x ← require ec ecX "no x"
  let y ← require ec ecY "no y"
  match s.point (fromSlice (magnitude x)) (fromSlice (magnitude y)) with
  | none => throw .notOnCurve
  | some peer => return peer

/-- The coordinates that a `GenericPublicKey` carries. -/
def coordinates (v : Bytes) : Except Error (Bytes × Bytes) := do
  let ec ← require v gpkEcP256PublicKey "no ec_p256_public_key"
  let x ← require ec ecX "no x"
  let y ← require ec ecY "no y"
  return (x, y)

/-- The point with these coordinates. -/
def pointAt (x y : Nat) : Except Error Point :=
  match s.point x y with
  | none => .error .notOnCurve
  | some peer => .ok peer

theorem decodePublicKey_of_coordinates {v x y : Bytes} (h : coordinates v = .ok (x, y)) :
    decodePublicKey s v = pointAt s (fromSlice (magnitude x)) (fromSlice (magnitude y)) := by
  unfold coordinates at h
  unfold decodePublicKey
  cases hec : require v gpkEcP256PublicKey "no ec_p256_public_key" with
  | error e =>
      rw [hec] at h
      cases h
  | ok ec =>
      rw [hec] at h
      cases hx : require ec ecX "no x" with
      | error e =>
          simp only [bind, Except.bind, hx] at h
          cases h
      | ok x' =>
          cases hy : require ec ecY "no y" with
          | error e =>
              simp only [bind, Except.bind, hx, hy] at h
              cases h
          | ok y' =>
              simp only [bind, Except.bind, hx, hy] at h ⊢
              cases h
              rfl

def sharedSecret (ours : Key) (peer : Point) : Except Error Bytes := do
  let x ← orCrypto (s.agree ours peer)
  orCrypto (s.sha256 x)

def sha512 (data : Bytes) : Except Error Bytes :=
  orCrypto (s.sha512 data)

theorem require_encode {fs : List Field} (fits : ∀ f ∈ fs, f.Fits) {n : Nat} {what : String}
    {v : Bytes} (h : lastBytes n fs = some v) : require (encode fs) n what = .ok v := by
  rw [require, firstBytes_encode fs fits, h]
  rfl

def ecFields (x y : Bytes) : List Field :=
  [.bytes ecX x, .bytes ecY y]

/-- The fields of a `GenericPublicKey` with these coordinates. -/
def gpkFields (x y : Bytes) : List Field :=
  [.varint gpkType publicKeyTypeEcP256, .bytes gpkEcP256PublicKey (encode (ecFields x y))]

/-- **Coordinates that fit in a message are read as they stand there.** -/
theorem coordinates_encode {x y : Bytes} (hlen : (encode (gpkFields x y)).length < 2 ^ 64) :
    coordinates (encode (gpkFields x y)) = .ok (x, y) := by
  have hgpk : ∀ f ∈ gpkFields x y, f.Fits :=
    fits_of_length
      (by simp [gpkFields, Field.Typed, gpkType, publicKeyTypeEcP256, gpkEcP256PublicKey]) hlen
  have hinner : (encode (ecFields x y)).length ≤ (encode (gpkFields x y)).length :=
    length_le_encode (List.mem_cons_of_mem _ List.mem_cons_self)
  have hec : ∀ f ∈ ecFields x y, f.Fits :=
    fits_of_length (by simp [ecFields, Field.Typed, ecX, ecY]) (lt_of_le_of_lt hinner hlen)
  have hbody : require (encode (gpkFields x y)) gpkEcP256PublicKey "no ec_p256_public_key" =
      .ok (encode (ecFields x y)) := require_encode hgpk (by simp [gpkFields, gpkEcP256PublicKey])
  have hx : require (encode (ecFields x y)) ecX "no x" = .ok x :=
    require_encode hec (by simp [ecFields, ecX, ecY])
  have hy : require (encode (ecFields x y)) ecY "no y" = .ok y :=
    require_encode hec (by simp [ecFields, ecX, ecY])
  simp only [coordinates, hbody, hx, hy, bind, Except.bind]
  rfl

theorem gpkFields_length_le {x y : Bytes} (hx : x.length ≤ 33) (hy : y.length ≤ 33) :
    (encode (gpkFields x y)).length ≤ 200 := by
  have hec := encode_length_le (ecFields x y)
  have hgpk := encode_length_le (gpkFields x y)
  simp only [gpkFields, ecFields, List.foldr_cons, List.foldr_nil, Field.size] at hec hgpk ⊢
  omega

variable {s}

/-- **A key's own point is read back.** -/
theorem decodePublicKey_encode (ideal : s.Ideal) (key : Key) :
    ∃ v, encodePublicKey s key = .ok v ∧ v.length ≤ 200 ∧
      decodePublicKey s v = .ok (s.publicKey key) := by
  obtain ⟨x, y, haffine, hx, hy, hpoint⟩ := ideal.codec key
  have hlen := gpkFields_length_le (twosComplement_length_le hx) (twosComplement_length_le hy)
  have hread := coordinates_encode (lt_of_le_of_lt hlen (by decide))
  refine ⟨encode (gpkFields (twosComplement x) (twosComplement y)), ?_, hlen, ?_⟩
  · simp [encodePublicKey, haffine, orCrypto, bind, Except.bind, pure, Except.pure, gpkFields,
      ecFields, Field.encode]
  · rw [decodePublicKey_of_coordinates s hread, fromSlice_twosComplement,
      fromSlice_twosComplement, pointAt, hpoint]

/-- **Both ends come to the same secret.** -/
theorem sharedSecret_agrees (ideal : s.Ideal) (k l : Key) :
    ∃ dhs, sharedSecret s k (s.publicKey l) = .ok dhs ∧
      sharedSecret s l (s.publicKey k) = .ok dhs := by
  obtain ⟨x, hx⟩ := Option.isSome_iff_exists.mp (ideal.derives k l)
  obtain ⟨dhs, hdhs⟩ := Option.isSome_iff_exists.mp (ideal.hashes x)
  refine ⟨dhs, ?_, ?_⟩
  · simp [sharedSecret, hx, hdhs, orCrypto, bind, Except.bind]
  · rw [ideal.agrees] at hx
    simp [sharedSecret, hx, hdhs, orCrypto, bind, Except.bind]

end Keys

end Ukey2

end Protocol
