import TarishDaemon.Protocol.Wire

/-!
# The secure channel

Every frame after the handshake is a `SecureMessage`: a header and an AES-256-CBC
body, signed together with HMAC-SHA256.  The body holds the payload and a
sequence number.  `SecureChannel` holds the four traffic keys, the role, which
picks two of them for each direction, and the two counters.

The primitives come from outside: `Crypto` is what the source calls of OpenSSL,
each of which may fail.  Nothing is assumed about them here.  Random bytes are an
input of `encrypt`.

A message that verifies is read from its signed part alone (`verifyAndDecrypt_ok`),
and that part opens to what was sealed in it (`openBody_headerAndBody`).
-/

namespace Protocol

open Rust

/-- What the source calls of OpenSSL: one-shot HMAC-SHA256, and AES-256-CBC with
PKCS7 padding. -/
structure Crypto where
  hmac : (key data : Bytes) → Option Bytes
  encrypt : (key iv plain : Bytes) → Option Bytes
  decrypt : (key iv body : Bytes) → Option Bytes

/-- The primitives as they are documented: they do not fail on what they are given
here, a tag has 32 bytes, padding adds between one byte and a block, and decryption
undoes encryption. -/
structure Crypto.Ideal (c : Crypto) : Prop where
  signs : ∀ key data, ∃ tag, c.hmac key data = some tag ∧ tag.length = 32
  encrypts : ∀ key iv plain, key.length = 32 → iv.length = 16 →
    ∃ body, c.encrypt key iv plain = some body ∧ plain.length < body.length ∧
      body.length ≤ plain.length + 16
  inverse : ∀ key iv plain body, c.encrypt key iv plain = some body →
    c.decrypt key iv body = some plain

/-! ## HKDF and the traffic keys -/

namespace Hkdf

variable (c : Crypto)

def hashLen : Nat := 32

def extract (salt ikm : Bytes) : Option Bytes :=
  if salt.isEmpty then c.hmac (List.replicate hashLen 0) ikm else c.hmac salt ikm

/-- The loop of `expand`; the counter is one byte. -/
def expandLoop (prk info : Bytes) (length : Nat) : Nat → Nat → Bytes → Bytes → Option Bytes
  | fuel, counter, t, out =>
      if out.length < length then
        match fuel with
        | 0 => none
        | fuel + 1 => do
            let t ← c.hmac prk (t ++ info ++ [UInt8.ofNat counter])
            expandLoop prk info length fuel (counter + 1) t
              (out ++ t.take (length - out.length))
      else some out

def expand (prk info : Bytes) (length : Nat) : Option Bytes :=
  expandLoop c prk info length 255 1 [] []

def derive (ikm salt info : Bytes) (length : Nat) : Option Bytes := do
  let prk ← extract c salt ikm
  expand c prk info length

end Hkdf

/-- Which end of the connection we are. -/
inductive Role
  | client
  | server
  deriving DecidableEq, Repr

def Role.peer : Role → Role
  | .client => .server
  | .server => .client

structure SessionKeys where
  clientEncrypt : Bytes
  clientHmac : Bytes
  serverEncrypt : Bytes
  serverHmac : Bytes
  deriving DecidableEq, Repr

namespace SessionKeys

/-- Keys for frames we send: encrypt and HMAC. -/
def send (k : SessionKeys) : Role → Bytes × Bytes
  | .client => (k.clientEncrypt, k.clientHmac)
  | .server => (k.serverEncrypt, k.serverHmac)

/-- Keys for frames the peer sends: encrypt and HMAC. -/
def recv (k : SessionKeys) : Role → Bytes × Bytes
  | .client => (k.serverEncrypt, k.serverHmac)
  | .server => (k.clientEncrypt, k.clientHmac)

/-- What one end sends, the other receives. -/
theorem recv_eq_send (k : SessionKeys) (role : Role) : k.recv role = k.send role.peer := by
  cases role <;> rfl

end SessionKeys

namespace D2d

def keySize : Nat := 32

/-- `SHA256("D2D")`. -/
def d2dSalt : Bytes :=
  [0x82, 0xAA, 0x55, 0xA0, 0xD3, 0x97, 0xF8, 0x83, 0x46, 0xCA, 0x1C, 0xEE, 0x8D, 0x39, 0x09, 0xB9,
    0x5F, 0x13, 0xFA, 0x7D, 0xEB, 0x1D, 0x4A, 0xB3, 0x83, 0x76, 0xB8, 0x25, 0x6D, 0xA8, 0x55, 0x10]

/-- `SHA256("SecureMessage")`. -/
def smSalt : Bytes :=
  [0xBF, 0x9D, 0x2A, 0x53, 0xC6, 0x36, 0x16, 0xD7, 0x5D, 0xB0, 0xA7, 0x16, 0x5B, 0x91, 0xC1, 0xEF,
    0x73, 0xE5, 0x37, 0xF2, 0x42, 0x74, 0x05, 0xFA, 0x23, 0x61, 0x0A, 0x4B, 0xE6, 0x57, 0x64, 0x2E]

def infoClient : Bytes := asBytes ['c', 'l', 'i', 'e', 'n', 't']

def infoServer : Bytes := asBytes ['s', 'e', 'r', 'v', 'e', 'r']

def infoEncrypt : Bytes := asBytes ['E', 'N', 'C', ':', '2']

def infoHmac : Bytes := asBytes ['S', 'I', 'G', ':', '1']

/-- Stages 2 and 3 of the key derivation, from the secret the handshake left. -/
def sessionKeys (c : Crypto) (nextSecret : Bytes) : Option SessionKeys := do
  let d2dClient ← Hkdf.derive c nextSecret d2dSalt infoClient keySize
  let d2dServer ← Hkdf.derive c nextSecret d2dSalt infoServer keySize
  let clientEncrypt ← Hkdf.derive c d2dClient smSalt infoEncrypt keySize
  let clientHmac ← Hkdf.derive c d2dClient smSalt infoHmac keySize
  let serverEncrypt ← Hkdf.derive c d2dServer smSalt infoEncrypt keySize
  let serverHmac ← Hkdf.derive c d2dServer smSalt infoHmac keySize
  return { clientEncrypt, clientHmac, serverEncrypt, serverHmac }

end D2d

/-! ## The envelope -/

namespace SecureMessage

open Protobuf

def aesKeySize : Nat := 32

def ivSize : Nat := 16

def smHeaderAndBody : Nat := 1

def smSignature : Nat := 2

def hbHeader : Nat := 1

def hbBody : Nat := 2

def hdrSignatureScheme : Nat := 1

def hdrEncryptionScheme : Nat := 2

def hdrIv : Nat := 5

def hdrPublicMetadata : Nat := 6

def sigSchemeHmacSha256 : Nat := 1

def encSchemeAes256Cbc : Nat := 2

def d2dMessage : Nat := 1

def d2dSequenceNumber : Nat := 2

def gcmType : Nat := 1

def gcmVersion : Nat := 2

def gcmTypeDeviceToDeviceMessage : Nat := 13

def gcmVersionValue : Nat := 1

inductive Error
  | badSignature
  | malformed (what : String)
  | protobuf (e : Protobuf.Error)
  | crypto
  deriving DecidableEq, Repr

structure Unwrapped where
  sequenceNumber : Int
  payload : Bytes
  deriving DecidableEq, Repr

/-- A call of OpenSSL whose error is not told apart. -/
def orCrypto {α : Type} : Option α → Except Error α
  | some x => .ok x
  | none => .error .crypto

def gcmMetadata : Bytes :=
  varint gcmType gcmTypeDeviceToDeviceMessage ++ varint gcmVersion gcmVersionValue

/-- The plaintext: the payload and its sequence number, an `int32` sign-extended to
a varint of 64 bits. -/
def d2dBytes (sequenceNumber : Int) (payload : Bytes) : Bytes :=
  bytes d2dMessage payload ++ varint d2dSequenceNumber (toU64 sequenceNumber)

def headerBytes (iv : Bytes) : Bytes :=
  varint hdrSignatureScheme sigSchemeHmacSha256 ++
    varint hdrEncryptionScheme encSchemeAes256Cbc ++
    bytes hdrIv iv ++ bytes hdrPublicMetadata gcmMetadata

variable (c : Crypto)

/-- The part of `encrypt_and_sign` up to what is signed. -/
def headerAndBody (encryptKey : Bytes) (sequenceNumber : Int) (payload iv : Bytes) :
    Except Error Bytes := do
  if encryptKey.length ≠ aesKeySize then throw (.malformed "encrypt key is not 32 bytes")
  if iv.length ≠ ivSize then throw (.malformed "iv is not 16 bytes")
  let body ← orCrypto (c.encrypt encryptKey iv (d2dBytes sequenceNumber payload))
  return bytes hbHeader (headerBytes iv) ++ bytes hbBody body

def encryptAndSign (encryptKey hmacKey : Bytes) (sequenceNumber : Int) (payload iv : Bytes) :
    Except Error Bytes := do
  let hb ← headerAndBody c encryptKey sequenceNumber payload iv
  let signature ← orCrypto (c.hmac hmacKey hb)
  return bytes smHeaderAndBody hb ++ bytes smSignature signature

/-- `first_bytes(buf, field)?.ok_or(Malformed(what))?`. -/
def require (buf : Bytes) (field : Nat) (what : String) : Except Error Bytes :=
  match firstBytes buf field with
  | .error e => .error (.protobuf e)
  | .ok none => .error (.malformed what)
  | .ok (some v) => .ok v

/-- `first_varint(buf, field)?`. -/
def varintField (buf : Bytes) (field : Nat) : Except Error (Option Nat) :=
  match firstVarint buf field with
  | .error e => .error (.protobuf e)
  | .ok v => .ok v

/-- What `verify_and_decrypt` does once the signature has matched. -/
def openBody (encryptKey hb : Bytes) : Except Error Unwrapped := do
  let header ← require hb hbHeader "no header"
  let body ← require hb hbBody "no body"
  if (← varintField header hdrSignatureScheme) ≠ some sigSchemeHmacSha256 then
    throw (.malformed "signature scheme is not HMAC_SHA256")
  if (← varintField header hdrEncryptionScheme) ≠ some encSchemeAes256Cbc then
    throw (.malformed "encryption scheme is not AES_256_CBC")
  let iv ← require header hdrIv "no iv"
  if iv.length ≠ ivSize then throw (.malformed "iv is not 16 bytes")
  let plain ← orCrypto (c.decrypt encryptKey iv body)
  let payload ← require plain d2dMessage "no d2d message"
  match ← varintField plain d2dSequenceNumber with
  | none => throw (.malformed "no sequence number")
  | some v => return { sequenceNumber := toI32 v, payload }

def verifyAndDecrypt (encryptKey hmacKey message : Bytes) : Except Error Unwrapped := do
  if encryptKey.length ≠ aesKeySize then throw (.malformed "encrypt key is not 32 bytes")
  let hb ← require message smHeaderAndBody "no header_and_body"
  let signature ← require message smSignature "no signature"
  let expected ← orCrypto (c.hmac hmacKey hb)
  if signature ≠ expected then throw .badSignature
  openBody c encryptKey hb

/-! ### What was sealed is what is opened -/

def d2dFields (sequenceNumber : Int) (payload : Bytes) : List Field :=
  [.bytes d2dMessage payload, .varint d2dSequenceNumber (toU64 sequenceNumber)]

def headerFields (iv : Bytes) : List Field :=
  [.varint hdrSignatureScheme sigSchemeHmacSha256, .varint hdrEncryptionScheme encSchemeAes256Cbc,
    .bytes hdrIv iv, .bytes hdrPublicMetadata gcmMetadata]

theorem d2dBytes_eq_encode (sequenceNumber : Int) (payload : Bytes) :
    d2dBytes sequenceNumber payload = encode (d2dFields sequenceNumber payload) := by
  simp [d2dBytes, d2dFields, Field.encode]

theorem headerBytes_eq_encode (iv : Bytes) : headerBytes iv = encode (headerFields iv) := by
  simp [headerBytes, headerFields, Field.encode]

theorem require_encode {fs : List Field} (fits : ∀ f ∈ fs, f.Fits) {n : Nat} {what : String}
    {v : Bytes} (h : lastBytes n fs = some v) : require (encode fs) n what = .ok v := by
  rw [require, firstBytes_encode fs fits, h]

theorem varintField_encode {fs : List Field} (fits : ∀ f ∈ fs, f.Fits) (n : Nat) :
    varintField (encode fs) n = .ok (lastVarint n fs) := by
  rw [varintField, firstVarint_encode fs fits]

theorem headerFields_fit {iv : Bytes} (hiv : iv.length = ivSize) :
    ∀ f ∈ headerFields iv, f.Fits := by
  have hmeta : gcmMetadata.length = 4 := by decide
  simp only [headerFields, List.mem_cons, List.not_mem_nil, or_false, forall_eq_or_imp,
    forall_eq, Field.Fits, hiv, hmeta]
  decide

/-- What `headerAndBody` builds when it builds something. -/
theorem headerAndBody_ok {encryptKey payload iv hb : Bytes} {seq : Int}
    (h : headerAndBody c encryptKey seq payload iv = .ok hb) :
    encryptKey.length = aesKeySize ∧ iv.length = ivSize ∧
      ∃ body, c.encrypt encryptKey iv (d2dBytes seq payload) = some body ∧
        hb = encode [.bytes hbHeader (headerBytes iv), .bytes hbBody body] := by
  unfold headerAndBody at h
  by_cases hkey : encryptKey.length = aesKeySize
  · by_cases hiv : iv.length = ivSize
    · refine ⟨hkey, hiv, ?_⟩
      cases hbody : c.encrypt encryptKey iv (d2dBytes seq payload) with
      | none => simp [hkey, hiv, hbody, orCrypto, bind, Except.bind] at h
      | some body =>
          refine ⟨body, rfl, ?_⟩
          simp only [hkey, hiv, hbody, orCrypto, bind, Except.bind, pure, Except.pure, ne_eq,
            not_true_eq_false, if_false, Except.ok.injEq] at h
          simp [← h, Field.encode]
    · simp [hkey, hiv, bind, Except.bind, throw, throwThe, MonadExceptOf.throw] at h
  · simp [hkey, bind, Except.bind, throw, throwThe, MonadExceptOf.throw] at h

/-- **The body opens.**  Where decryption undoes encryption, what was sealed with a
key is opened with it: the same payload under the same number. -/
theorem openBody_headerAndBody
    (inverse : ∀ key iv plain body, c.encrypt key iv plain = some body →
      c.decrypt key iv body = some plain)
    {encryptKey payload iv hb : Bytes} {seq : Int}
    (lo : -2 ^ 31 ≤ seq) (hi : seq < 2 ^ 31)
    (hplain : (d2dBytes seq payload).length < 2 ^ 64) (hsealed : hb.length < 2 ^ 64)
    (h : headerAndBody c encryptKey seq payload iv = .ok hb) :
    openBody c encryptKey hb = .ok ⟨seq, payload⟩ := by
  obtain ⟨-, hiv, body, hbody, rfl⟩ := headerAndBody_ok c h
  have hfits : ∀ f ∈ [Field.bytes hbHeader (headerBytes iv), .bytes hbBody body], f.Fits :=
    fits_of_length (by simp [Field.Typed, hbHeader, hbBody]) hsealed
  have hheader := headerFields_fit hiv
  have hd2d : ∀ f ∈ d2dFields seq payload, f.Fits := by
    refine fits_of_length ?_ (by rw [← d2dBytes_eq_encode]; exact hplain)
    simp [d2dFields, Field.Typed, d2dMessage, d2dSequenceNumber]
    exact toU64_lt seq
  have hdec := inverse _ _ _ _ hbody
  have header : ∀ what, require (encode [.bytes hbHeader (headerBytes iv), .bytes hbBody body])
      hbHeader what = .ok (headerBytes iv) := fun what =>
    require_encode hfits (by simp [hbHeader, hbBody])
  have sealed : ∀ what, require (encode [.bytes hbHeader (headerBytes iv), .bytes hbBody body])
      hbBody what = .ok body := fun what =>
    require_encode hfits (by simp [hbHeader, hbBody])
  have vector : ∀ what, require (headerBytes iv) hdrIv what = .ok iv := fun what => by
    rw [headerBytes_eq_encode]
    exact require_encode hheader (by simp [headerFields, hdrIv, hdrPublicMetadata])
  have message : ∀ what, require (d2dBytes seq payload) d2dMessage what = .ok payload :=
    fun what => by
      rw [d2dBytes_eq_encode]
      exact require_encode hd2d (by simp [d2dFields])
  have scheme : varintField (headerBytes iv) hdrSignatureScheme =
      .ok (some sigSchemeHmacSha256) := by
    rw [headerBytes_eq_encode, varintField_encode hheader]
    simp [headerFields, hdrSignatureScheme, hdrEncryptionScheme]
  have cipher : varintField (headerBytes iv) hdrEncryptionScheme =
      .ok (some encSchemeAes256Cbc) := by
    rw [headerBytes_eq_encode, varintField_encode hheader]
    simp [headerFields, hdrSignatureScheme, hdrEncryptionScheme]
  have number : varintField (d2dBytes seq payload) d2dSequenceNumber = .ok (some (toU64 seq)) := by
    rw [d2dBytes_eq_encode, varintField_encode hd2d]
    simp [d2dFields]
  simp only [openBody, header, sealed, vector, scheme, cipher, hiv, hdec, orCrypto, message, number,
    toI32_toU64 lo hi, bind, Except.bind, pure, Except.pure, ne_eq, not_true_eq_false, if_false]

theorem headerBytes_length {iv : Bytes} (hiv : iv.length = ivSize) :
    (headerBytes iv).length ≤ 100 := by
  have h1 := varint_length_le hdrSignatureScheme sigSchemeHmacSha256
  have h2 := varint_length_le hdrEncryptionScheme encSchemeAes256Cbc
  have h3 := bytes_length_le hdrIv iv
  have h4 := bytes_length_le hdrPublicMetadata gcmMetadata
  have hmeta : gcmMetadata.length = 4 := by decide
  unfold ivSize at hiv
  simp only [headerBytes, List.length_append]
  omega

/-- With primitives as documented there is always something to sign, a little
longer than the payload. -/
theorem headerAndBody_ideal (ideal : c.Ideal) {encryptKey iv : Bytes}
    (hkey : encryptKey.length = 32) (hiv : iv.length = 16) (seq : Int) (payload : Bytes) :
    ∃ hb, headerAndBody c encryptKey seq payload iv = .ok hb ∧ payload.length < hb.length ∧
      hb.length ≤ payload.length + 200 := by
  obtain ⟨body, hbody, hlong, hshort⟩ :=
    ideal.encrypts encryptKey iv (d2dBytes seq payload) hkey hiv
  have hmessage := bytes_length_le d2dMessage payload
  have hnumber := varint_length_le d2dSequenceNumber (toU64 seq)
  have hhead := bytes_length_le hbHeader (headerBytes iv)
  have hsealed := bytes_length_le hbBody body
  have hheader := headerBytes_length hiv
  refine ⟨bytes hbHeader (headerBytes iv) ++ bytes hbBody body, ?_, ?_, ?_⟩
  · simp only [headerAndBody, hkey, hiv, hbody, orCrypto, aesKeySize, ivSize, bind, Except.bind,
      pure, Except.pure, ne_eq, not_true_eq_false, if_false]
  · simp only [d2dBytes, bytes, List.length_append] at hlong ⊢
    omega
  · simp only [d2dBytes, List.length_append] at hshort ⊢
    omega

/-- A message that carries the signature of its signed part is opened. -/
theorem verifyAndDecrypt_encode {encryptKey hmacKey hb signature : Bytes}
    (hkey : encryptKey.length = aesKeySize) (hmac : c.hmac hmacKey hb = some signature)
    (hwire : (encode [.bytes smHeaderAndBody hb, .bytes smSignature signature]).length < 2 ^ 64) :
    verifyAndDecrypt c encryptKey hmacKey
        (encode [.bytes smHeaderAndBody hb, .bytes smSignature signature]) =
      openBody c encryptKey hb := by
  have fits := fits_of_length (by simp [Field.Typed, smHeaderAndBody, smSignature]) hwire
  have first : ∀ what, require (encode [.bytes smHeaderAndBody hb, .bytes smSignature signature])
      smHeaderAndBody what = .ok hb := fun what =>
    require_encode fits (by simp [smHeaderAndBody, smSignature])
  have second : ∀ what, require (encode [.bytes smHeaderAndBody hb, .bytes smSignature signature])
      smSignature what = .ok signature := fun what =>
    require_encode fits (by simp [smHeaderAndBody, smSignature])
  simp only [verifyAndDecrypt, hkey, first, second, hmac, orCrypto, bind, Except.bind, ne_eq,
    not_true_eq_false, if_false]

/-- What a message must show before it is opened. -/
theorem verifyAndDecrypt_ok {encryptKey hmacKey message : Bytes} {out : Unwrapped}
    (h : verifyAndDecrypt c encryptKey hmacKey message = .ok out) :
    ∃ hb signature, firstBytes message smHeaderAndBody = .ok (some hb) ∧
      firstBytes message smSignature = .ok (some signature) ∧
      c.hmac hmacKey hb = some signature ∧ openBody c encryptKey hb = .ok out := by
  have required : ∀ {buf : Bytes} {n : Nat} {what : String} {v : Bytes},
      require buf n what = .ok v → firstBytes buf n = .ok (some v) := by
    intro buf n what v hv
    unfold require at hv
    split at hv
    · cases hv
    · cases hv
    next heq =>
      cases hv
      exact heq
  unfold verifyAndDecrypt at h
  split at h
  · cases h
  · cases hhb : require message smHeaderAndBody "no header_and_body" with
    | error e => simp [hhb, bind, Except.bind] at h
    | ok hb =>
        cases hsig : require message smSignature "no signature" with
        | error e => simp [hhb, hsig, bind, Except.bind] at h
        | ok signature =>
            cases hmac : c.hmac hmacKey hb with
            | none => simp [hhb, hsig, hmac, orCrypto, bind, Except.bind] at h
            | some expected =>
                by_cases heq : signature = expected
                · refine ⟨hb, signature, required hhb, required hsig, by rw [hmac, heq], ?_⟩
                  simpa [hhb, hsig, hmac, heq, orCrypto, bind, Except.bind] using h
                · simp [hhb, hsig, hmac, heq, orCrypto, bind, Except.bind, throw, throwThe,
                    MonadExceptOf.throw] at h

end SecureMessage

/-! ## The channel -/

/-- `i32::wrapping_add(1)`. -/
def nextSeq (n : Int) : Int :=
  Int.bmod (n + 1) (2 ^ 32)

structure SecureChannel where
  keys : SessionKeys
  role : Role
  sendSeq : Int := 0
  recvSeq : Int := 0
  deriving DecidableEq, Repr

namespace SecureChannel

inductive Error
  | notAuthentic
  | sequence (expected got : Int)
  | crypto
  deriving DecidableEq, Repr

variable (c : Crypto)

/-- `encrypt`, with the outcome of `random_iv`.  The counter has moved even when
the call fails. -/
def encrypt (ch : SecureChannel) (iv : Option Bytes) (payload : Bytes) :
    Except Error Bytes × SecureChannel :=
  let ch := { ch with sendSeq := nextSeq ch.sendSeq }
  let (enc, mac) := ch.keys.send ch.role
  match iv with
  | none => (.error .crypto, ch)
  | some iv =>
      match SecureMessage.encryptAndSign c enc mac ch.sendSeq payload iv with
      | .error _ => (.error .crypto, ch)
      | .ok wire => (.ok wire, ch)

def decrypt (ch : SecureChannel) (wire : Bytes) : Except Error Bytes × SecureChannel :=
  let (enc, mac) := ch.keys.recv ch.role
  match SecureMessage.verifyAndDecrypt c enc mac wire with
  | .error _ => (.error .notAuthentic, ch)
  | .ok out =>
      let expected := nextSeq ch.recvSeq
      if out.sequenceNumber ≠ expected then
        (.error (.sequence expected out.sequenceNumber), ch)
      else (.ok out.payload, { ch with recvSeq := expected })

/-! ### What the two calls can do -/

variable {c} {ch : SecureChannel} {wire payload : Bytes}

theorem encrypt_snd (ch : SecureChannel) (iv : Option Bytes) (payload : Bytes) :
    (ch.encrypt c iv payload).2 = { ch with sendSeq := nextSeq ch.sendSeq } := by
  unfold encrypt
  split
  · rfl
  · dsimp only
    split <;> rfl

theorem encrypt_ok {iv : Option Bytes} (h : (ch.encrypt c iv payload).1 = .ok wire) :
    ∃ vector hb signature, iv = some vector ∧
      SecureMessage.headerAndBody c (ch.keys.send ch.role).1 (nextSeq ch.sendSeq) payload vector =
        .ok hb ∧
      c.hmac (ch.keys.send ch.role).2 hb = some signature ∧
      wire = Protobuf.encode [.bytes SecureMessage.smHeaderAndBody hb,
        .bytes SecureMessage.smSignature signature] := by
  unfold encrypt at h
  split at h
  · cases h
  next vector =>
    dsimp only at h
    split at h
    · cases h
    next sealed hsealed =>
      cases h
      unfold SecureMessage.encryptAndSign at hsealed
      cases hhb : SecureMessage.headerAndBody c (ch.keys.send ch.role).1 (nextSeq ch.sendSeq)
          payload vector with
      | error e => simp [hhb, bind, Except.bind] at hsealed
      | ok hb =>
          cases hmac : c.hmac (ch.keys.send ch.role).2 hb with
          | none => simp [hhb, hmac, SecureMessage.orCrypto, bind, Except.bind] at hsealed
          | some signature =>
              refine ⟨vector, hb, signature, rfl, hhb, hmac, ?_⟩
              simp only [hhb, hmac, SecureMessage.orCrypto, bind, Except.bind, pure, Except.pure,
                Except.ok.injEq] at hsealed
              simp [← hsealed, Protobuf.Field.encode]

/-- A frame that is not accepted leaves the channel as it was. -/
theorem decrypt_cases (ch : SecureChannel) (wire : Bytes) :
    (∃ e, ch.decrypt c wire = (.error e, ch)) ∨
      ∃ payload, ch.decrypt c wire =
          (.ok payload, { ch with recvSeq := nextSeq ch.recvSeq }) ∧
        SecureMessage.verifyAndDecrypt c (ch.keys.recv ch.role).1 (ch.keys.recv ch.role).2 wire =
          .ok ⟨nextSeq ch.recvSeq, payload⟩ := by
  unfold decrypt
  dsimp only
  split
  · exact .inl ⟨_, rfl⟩
  next out hout =>
    split
    · exact .inl ⟨_, rfl⟩
    next hseq =>
      refine .inr ⟨out.payload, rfl, ?_⟩
      rw [hout, ← of_not_not hseq]

/-- What one end seals, the other opens, while their counters agree. -/
theorem decrypt_encrypt
    (inverse : ∀ key iv plain body, c.encrypt key iv plain = some body →
      c.decrypt key iv body = some plain)
    {far : SecureChannel} (hkeys : far.keys = ch.keys) (hrole : ch.role = far.role.peer)
    (hseq : far.recvSeq = ch.sendSeq) {iv : Option Bytes}
    (h : (ch.encrypt c iv payload).1 = .ok wire)
    (hplain : (SecureMessage.d2dBytes (nextSeq ch.sendSeq) payload).length < 2 ^ 64)
    (hwire : wire.length < 2 ^ 64) :
    far.decrypt c wire = (.ok payload, { far with recvSeq := nextSeq far.recvSeq }) := by
  obtain ⟨vector, hb, signature, rfl, hhb, hmac, rfl⟩ := encrypt_ok h
  have hrange : -2 ^ 31 ≤ nextSeq ch.sendSeq ∧ nextSeq ch.sendSeq < 2 ^ 31 := by
    unfold nextSeq
    rw [Int.bmod_def]
    split <;> omega
  have hlen : hb.length ≤ (Protobuf.encode [.bytes SecureMessage.smHeaderAndBody hb,
      .bytes SecureMessage.smSignature signature]).length :=
    Protobuf.length_le_encode (n := SecureMessage.smHeaderAndBody) (by simp)
  have hopen := SecureMessage.openBody_headerAndBody c inverse hrange.1 hrange.2 hplain
    (by omega) hhb
  have hkey := (SecureMessage.headerAndBody_ok c hhb).1
  have same : far.keys.recv far.role = ch.keys.send ch.role := by
    rw [hkeys, hrole, SessionKeys.recv_eq_send]
  have hverify := SecureMessage.verifyAndDecrypt_encode c hkey hmac hwire
  rw [hopen] at hverify
  unfold decrypt
  simp only [same, hverify, hseq, ne_eq, not_true_eq_false, if_false]

/-- With primitives as documented a frame is sealed, and grows by little. -/
theorem encrypt_ideal (ideal : c.Ideal) (hkey : (ch.keys.send ch.role).1.length = 32)
    {iv : Bytes} (hiv : iv.length = 16) (payload : Bytes) :
    ∃ wire, (ch.encrypt c (some iv) payload).1 = .ok wire ∧ payload.length < wire.length ∧
      wire.length ≤ payload.length + 300 := by
  obtain ⟨hb, hhb, hlong, hshort⟩ :=
    SecureMessage.headerAndBody_ideal c ideal hkey hiv (nextSeq ch.sendSeq) payload
  obtain ⟨tag, htag, htagLen⟩ := ideal.signs (ch.keys.send ch.role).2 hb
  refine ⟨Protobuf.bytes SecureMessage.smHeaderAndBody hb ++
    Protobuf.bytes SecureMessage.smSignature tag, ?_, ?_, ?_⟩
  · simp only [encrypt, SecureMessage.encryptAndSign, hhb, htag, SecureMessage.orCrypto, bind,
      Except.bind, pure, Except.pure]
  · simp only [Protobuf.bytes, List.length_append]
    omega
  · have hfirst := Protobuf.bytes_length_le SecureMessage.smHeaderAndBody hb
    have hsecond := Protobuf.bytes_length_le SecureMessage.smSignature tag
    rw [List.length_append]
    omega

end SecureChannel

end Protocol
