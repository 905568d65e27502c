import TarishDaemon.Quickshare.Endpoint

/-!
# Two encoders and one decoder

The instance name is written by `base64url_encode`, and the endpoint info in the TXT record by
`base64_url_nopad`, which has an alphabet and a loop of its own.

**They write the same text, and it is read back** (`base64_round`).
-/

namespace Quickshare

open Rust

/-- Its own copy of the alphabet. -/
def nopadAlphabet : Text :=
  "ABCDEFGHIJKLMNOPQRSTUVWXYZabcdefghijklmnopqrstuvwxyz0123456789-_".toList

/-- `chunks(3)`. -/
def chunksOf3 : Bytes → List Bytes
  | [] => []
  | [a] => [[a]]
  | [a, b] => [[a, b]]
  | a :: b :: c :: rest => [a, b, c] :: chunksOf3 rest

/-- One round: two digits, and one more for each byte that is there. -/
def nopadChunk (c : Bytes) : Text :=
  let n := (c.getD 0 0).toNat <<< 16 ||| (c.getD 1 0).toNat <<< 8 ||| (c.getD 2 0).toNat
  [nopadAlphabet.getD ((n >>> 18) &&& 63) 'A', nopadAlphabet.getD ((n >>> 12) &&& 63) 'A'] ++
    (if c.length > 1 then [nopadAlphabet.getD ((n >>> 6) &&& 63) 'A'] else []) ++
    (if c.length > 2 then [nopadAlphabet.getD (n &&& 63) 'A'] else [])

def base64UrlNopad (raw : Bytes) : Text :=
  (chunksOf3 raw).flatMap nopadChunk

/-- Three bytes in one number. -/
theorem or_of_bytes (a b c : UInt8) :
    a.toNat <<< 16 ||| b.toNat <<< 8 ||| c.toNat = a.toNat * 65536 + b.toNat * 256 + c.toNat := by
  have hb := b.toNat_lt
  have hc := c.toNat_lt
  have hhigh : a.toNat <<< 16 ||| b.toNat <<< 8 = 2 ^ 8 * (2 ^ 8 * a.toNat + b.toNat) := by
    rw [Nat.shiftLeft_eq, Nat.shiftLeft_eq, Nat.mul_comm a.toNat,
      ← Nat.two_pow_add_eq_or_of_lt (by omega)]
    omega
  rw [hhigh, ← Nat.two_pow_add_eq_or_of_lt (by omega)]
  omega

/-- The two alphabets are one, and so are the two ways to come to a digit. -/
theorem nopadAlphabet_getD (n k : Nat) :
    nopadAlphabet.getD ((n >>> k) &&& 63) 'A' = base64Digit (n / 2 ^ k) := by
  have hsame : nopadAlphabet = b64url := rfl
  have hmask : (n >>> k) &&& 63 = (n >>> k) % 2 ^ 6 := Nat.and_two_pow_sub_one_eq_mod _ 6
  rw [hsame, hmask, Nat.shiftRight_eq_div_pow]
  rfl

theorem nopadChunk_eq (c : Bytes) (n : Nat)
    (hn : n = (c.getD 0 0).toNat * 65536 + (c.getD 1 0).toNat * 256 + (c.getD 2 0).toNat) :
    nopadChunk c = [base64Digit (n / 262144), base64Digit (n / 4096)] ++
      (if c.length > 1 then [base64Digit (n / 64)] else []) ++
      (if c.length > 2 then [base64Digit n] else []) := by
  have hlast : nopadAlphabet.getD (n &&& 63) 'A' = base64Digit n := by
    have h := nopadAlphabet_getD n 0
    rwa [Nat.shiftRight_zero, Nat.pow_zero, Nat.div_one] at h
  unfold nopadChunk
  rw [or_of_bytes, ← hn]
  simp only [nopadAlphabet_getD, hlast]
  rfl

/-- **The two encoders write the same text.** -/
theorem base64UrlNopad_eq (raw : Bytes) : base64UrlNopad raw = base64urlEncode raw := by
  induction raw using base64urlEncode.induct with
  | case1 => rfl
  | case2 a =>
      rw [base64UrlNopad, chunksOf3, List.flatMap_singleton, nopadChunk_eq [a] _ rfl]
      simp [base64urlEncode]
  | case3 a b =>
      rw [base64UrlNopad, chunksOf3, List.flatMap_singleton, nopadChunk_eq [a, b] _ rfl]
      simp [base64urlEncode]
  | case4 a b c rest ih =>
      rw [base64UrlNopad, chunksOf3, List.flatMap_cons, ← base64UrlNopad, ih,
        nopadChunk_eq [a, b, c] _ rfl]
      simp [base64urlEncode]

/-- An instance name by itself is its own label. -/
theorem endpointIdFromInstance_alone (id : Octets endpointIdLen) :
    endpointIdFromInstance (instanceName id) = some id := by
  apply endpointIdFromInstance_label
  rw [List.splitOn_eq_singleton (instanceName_noDot id), List.head?_cons]

/-- **The codecs agree and invert**, and so does the name of an instance, by itself or with
anything behind a dot. -/
theorem base64_round :
    (∀ raw : Bytes, base64UrlNopad raw = base64urlEncode raw ∧
      base64AnyDecode (asBytes (base64urlEncode raw)) = some raw ∧
      base64AnyDecode (asBytes (base64UrlNopad raw)) = some raw) ∧
    ∀ id : Octets endpointIdLen, endpointIdFromInstance (instanceName id) = some id ∧
      ∀ suffix, endpointIdFromInstance (instanceName id ++ '.' :: suffix) = some id := by
  refine ⟨fun raw => ⟨base64UrlNopad_eq raw, base64AnyDecode_encode raw, ?_⟩, fun id =>
    ⟨endpointIdFromInstance_alone id, endpointIdFromInstance_instanceName id⟩⟩
  rw [base64UrlNopad_eq]
  exact base64AnyDecode_encode raw

end Quickshare
