import TarishDaemon.Quickshare.Deliver

/-!
# What a failed call tells, and what it leaves

`verify_and_decrypt` is a gate followed by everything else.  The gate reads the
message and the HMAC key; the encryption key is used behind it
(`verifyAndDecrypt_eq`).  A message that does not pass therefore gives the same error
under every encryption key, and one that passes is opened from its signed bytes.

A channel that does not accept a frame is as it was before.  A channel that fails to
seal one is not: its counter has moved on, and the frame after next is the one the
other end is waiting for (`decrypt_after_failure`).
-/

namespace Protocol

open Rust

namespace SecureMessage

open Protobuf

/-! ## The gate -/

section Gate

variable (c : Crypto) {encryptKey hmacKey message hb : Bytes}

/-- The signature field of the message is the tag of its header and body. -/
def Authentic (hmacKey message : Bytes) : Prop :=
  ∃ hb signature, firstBytes message smHeaderAndBody = .ok (some hb) ∧
    firstBytes message smSignature = .ok (some signature) ∧ c.hmac hmacKey hb = some signature

/-- `verify_and_decrypt` up to the gate: the signed bytes, once they have verified. -/
def authenticate (hmacKey message : Bytes) : Except Error Bytes := do
  let hb ← require message smHeaderAndBody "no header_and_body"
  let signature ← require message smSignature "no signature"
  let expected ← orCrypto (c.hmac hmacKey hb)
  if signature ≠ expected then throw .badSignature
  return hb

theorem verifyAndDecrypt_eq (hkey : encryptKey.length = aesKeySize) (hmacKey message : Bytes) :
    verifyAndDecrypt c encryptKey hmacKey message =
      authenticate c hmacKey message >>= openBody c encryptKey := by
  unfold verifyAndDecrypt authenticate
  rw [if_neg (not_not_intro hkey)]
  cases require message smHeaderAndBody "no header_and_body" with
  | error e => rfl
  | ok hb =>
      cases require message smSignature "no signature" with
      | error e => rfl
      | ok signature =>
          cases hmac : c.hmac hmacKey hb with
          | none => simp [hmac, orCrypto, bind, Except.bind]
          | some expected =>
              by_cases heq : signature = expected
              · simp [hmac, heq, orCrypto, bind, Except.bind, pure, Except.pure]
              · simp [hmac, heq, orCrypto, bind, Except.bind, throw, throwThe,
                  MonadExceptOf.throw]

theorem require_ok {buf v : Bytes} {field : Nat} {what : String}
    (h : require buf field what = .ok v) : firstBytes buf field = .ok (some v) := by
  unfold require at h
  split at h
  · cases h
  · cases h
  next heq =>
    cases h
    exact heq

/-- What passes the gate is authentic, and comes out of it as it was signed. -/
theorem authenticate_ok (h : authenticate c hmacKey message = .ok hb) :
    firstBytes message smHeaderAndBody = .ok (some hb) ∧ Authentic c hmacKey message := by
  unfold authenticate at h
  cases hfirst : require message smHeaderAndBody "no header_and_body" with
  | error e => simp [hfirst, bind, Except.bind] at h
  | ok first =>
      cases hsecond : require message smSignature "no signature" with
      | error e => simp [hfirst, hsecond, bind, Except.bind] at h
      | ok signature =>
          cases hmac : c.hmac hmacKey first with
          | none => simp [hfirst, hsecond, hmac, orCrypto, bind, Except.bind] at h
          | some expected =>
              by_cases heq : signature = expected
              · have hsame : first = hb := by
                  simpa [hfirst, hsecond, hmac, heq, orCrypto, bind, Except.bind, pure,
                    Except.pure] using h
                rw [← hsame]
                exact ⟨require_ok hfirst, first, signature, require_ok hfirst,
                  require_ok hsecond, by rw [hmac, heq]⟩
              · simp [hfirst, hsecond, hmac, heq, orCrypto, bind, Except.bind, throw, throwThe,
                  MonadExceptOf.throw] at h

/-- One error, whatever the encryption key. -/
theorem verifyAndDecrypt_forged (forged : ¬ Authentic c hmacKey message) :
    ∃ e, ∀ encryptKey, encryptKey.length = aesKeySize →
      verifyAndDecrypt c encryptKey hmacKey message = .error e := by
  cases hgate : authenticate c hmacKey message with
  | ok hb => exact absurd (authenticate_ok c hgate).2 forged
  | error e =>
      refine ⟨e, ?_⟩
      intro encryptKey hkey
      rw [verifyAndDecrypt_eq c hkey, hgate]
      rfl

end Gate

/-- What is sealed is opened again. -/
theorem verifyAndDecrypt_encryptAndSign {c : Crypto} (ideal : c.Ideal)
    {encryptKey iv payload : Bytes} {seq : Int} (hkey : encryptKey.length = aesKeySize)
    (hiv : iv.length = ivSize) (lo : -2 ^ 31 ≤ seq) (hi : seq < 2 ^ 31)
    (hpayload : payload.length < 2 ^ 63) (hmacKey : Bytes) :
    ∃ message, encryptAndSign c encryptKey hmacKey seq payload iv = .ok message ∧
      verifyAndDecrypt c encryptKey hmacKey message = .ok ⟨seq, payload⟩ := by
  obtain ⟨hb, hhb, -, hshort⟩ := headerAndBody_ideal c ideal hkey hiv seq payload
  obtain ⟨signature, hmac, hlength⟩ := ideal.signs hmacKey hb
  have hplain : (d2dBytes seq payload).length < 2 ^ 64 := by
    have hmessage := bytes_length_le d2dMessage payload
    have hnumber := varint_length_le d2dSequenceNumber (toU64 seq)
    simp only [d2dBytes, List.length_append]
    omega
  have hwire : (encode [.bytes smHeaderAndBody hb, .bytes smSignature signature]).length <
      2 ^ 64 := by
    have hfirst := bytes_length_le smHeaderAndBody hb
    have hsecond := bytes_length_le smSignature signature
    simp only [encode_cons, encode_nil, Field.encode, List.length_append, List.length_nil]
    omega
  refine ⟨encode [.bytes smHeaderAndBody hb, .bytes smSignature signature], ?_, ?_⟩
  · simp [encryptAndSign, hhb, hmac, orCrypto, bind, Except.bind, pure, Except.pure, Field.encode]
  · rw [verifyAndDecrypt_encode c hkey hmac hwire]
    exact openBody_headerAndBody c ideal.inverse lo hi hplain (by omega) hhb

/-- **The envelope.**  A message whose signature is not the tag of its header and body
fails alike under all encryption keys; what a message opens to is decided by its header
and body; and what is sealed is opened again.  A slice has less than `2 ^ 63` bytes. -/
theorem envelope (c : Crypto) :
    (∀ hmacKey message, ¬ Authentic c hmacKey message →
      ∀ key key' : Bytes, key.length = 32 → key'.length = 32 →
        ∃ e, verifyAndDecrypt c key hmacKey message = .error e ∧
          verifyAndDecrypt c key' hmacKey message = .error e) ∧
      (∀ key hmacKey message message' out out',
        verifyAndDecrypt c key hmacKey message = .ok out →
        verifyAndDecrypt c key hmacKey message' = .ok out' →
        firstBytes message smHeaderAndBody = firstBytes message' smHeaderAndBody → out = out') ∧
      (c.Ideal → ∀ (key hmacKey payload iv : Bytes) (seq : Int), key.length = 32 →
        hmacKey.length = 32 → iv.length = 16 → -2 ^ 31 ≤ seq → seq < 2 ^ 31 →
        payload.length < 2 ^ 63 →
        ∃ message, encryptAndSign c key hmacKey seq payload iv = .ok message ∧
          verifyAndDecrypt c key hmacKey message = .ok ⟨seq, payload⟩) := by
  refine ⟨?_, ?_, ?_⟩
  · intro hmacKey message forged key key' hkey hkey'
    obtain ⟨e, he⟩ := verifyAndDecrypt_forged c forged
    exact ⟨e, he key hkey, he key' hkey'⟩
  · intro key hmacKey message message' out out' h h' hsame
    obtain ⟨hb, _, hfirst, -, -, hopen⟩ := verifyAndDecrypt_ok c h
    obtain ⟨hb', _, hfirst', -, -, hopen'⟩ := verifyAndDecrypt_ok c h'
    have heq : hb = hb' := by
      rw [hfirst, hfirst'] at hsame
      cases hsame
      rfl
    rw [heq, hopen'] at hopen
    cases hopen
    rfl
  · intro ideal key hmacKey payload iv seq hkey _ hiv lo hi hpayload
    exact verifyAndDecrypt_encryptAndSign ideal hkey hiv lo hi hpayload hmacKey

section Hi

open Quickshare.Deliver Link.Hello

/-- The first recorded frame, under another tag. -/
def forgedHi : Bytes :=
  encode [.bytes smHeaderAndBody
      (bytes hbHeader (headerBytes vector) ++ bytes hbBody (Hi.bodies.headD [])),
    .bytes smSignature [1]]

theorem not_authentic_forgedHi : ¬ Authentic (completed Hi.record) clientHmac forgedHi := by
  intro authentic
  obtain ⟨hb, signature, hfirst, hsecond, hmac⟩ := authentic
  have first : firstBytes forgedHi smHeaderAndBody = .ok (some
      (bytes hbHeader (headerBytes vector) ++ bytes hbBody (Hi.bodies.headD []))) := by
    decide +kernel
  have second : firstBytes forgedHi smSignature = .ok (some [1]) := by
    decide +kernel
  rw [first] at hfirst
  rw [second] at hsecond
  cases hfirst
  cases hsecond
  obtain ⟨tag, htag, hlength⟩ := Hi.ideal.signs clientHmac
    (bytes hbHeader (headerBytes vector) ++ bytes hbBody (Hi.bodies.headD []))
  rw [htag] at hmac
  cases hmac
  cases hlength

theorem envelope_hi :
    (∃ e, verifyAndDecrypt (completed Hi.record) clientEncrypt clientHmac forgedHi = .error e ∧
      verifyAndDecrypt (completed Hi.record) serverEncrypt clientHmac forgedHi = .error e) ∧
      ∃ message, encryptAndSign (completed Hi.record) clientEncrypt clientHmac 1
          (Frames.payloadData (fileHeader Hi.file 7) { flags := 0, offset := 0, body := Hi.content })
          vector = .ok message ∧
        verifyAndDecrypt (completed Hi.record) clientEncrypt clientHmac message =
          .ok ⟨1, Frames.payloadData (fileHeader Hi.file 7)
            { flags := 0, offset := 0, body := Hi.content }⟩ := by
  obtain ⟨silent, -, round⟩ := envelope (completed Hi.record)
  refine ⟨?_, ?_⟩
  · exact silent clientHmac forgedHi not_authentic_forgedHi _ _ (by decide) (by decide)
  · apply round Hi.ideal
    all_goals decide

end Hi

end SecureMessage

/-! ## The counters -/

namespace SecureChannel

theorem nextSeq_ne (n : Int) : nextSeq n ≠ n := by
  unfold nextSeq
  rw [Int.bmod_def]
  split <;> omega

section Counters

variable {c : Crypto} {ch far : SecureChannel} {payload payload' wire : Bytes}
  {iv iv' : Option Bytes}

/-- Nothing that `encrypt` calls fails: the random source gives a vector, the key fits, and
the cipher and the HMAC return. -/
def NothingFails (c : Crypto) (ch : SecureChannel) (iv : Option Bytes) (payload : Bytes) : Prop :=
  ∃ vector body signature, iv = some vector ∧ vector.length = SecureMessage.ivSize ∧
    (ch.keys.send ch.role).1.length = SecureMessage.aesKeySize ∧
    c.encrypt (ch.keys.send ch.role).1 vector
      (SecureMessage.d2dBytes (nextSeq ch.sendSeq) payload) = some body ∧
    c.hmac (ch.keys.send ch.role).2
      (Protobuf.encode [.bytes SecureMessage.hbHeader (SecureMessage.headerBytes vector),
        .bytes SecureMessage.hbBody body]) = some signature

theorem encrypt_ok_iff :
    (∃ wire, (ch.encrypt c iv payload).1 = .ok wire) ↔ NothingFails c ch iv payload := by
  constructor
  · intro h
    obtain ⟨wire, hwire⟩ := h
    obtain ⟨vector, hb, signature, hvector, hhb, hmac, -⟩ := encrypt_ok hwire
    obtain ⟨hkey, hiv, body, hbody, rfl⟩ := SecureMessage.headerAndBody_ok c hhb
    exact ⟨vector, body, signature, hvector, hiv, hkey, hbody, hmac⟩
  · intro h
    obtain ⟨vector, body, signature, rfl, hiv, hkey, hbody, hmac⟩ := h
    simp only [Protobuf.encode_cons, Protobuf.encode_nil, Protobuf.Field.encode,
      List.append_nil] at hmac
    simp [encrypt, SecureMessage.encryptAndSign, SecureMessage.headerAndBody, hiv, hkey, hbody,
      hmac, SecureMessage.orCrypto, bind, Except.bind, pure, Except.pure]

/-- **Failed calls.**  A failing `decrypt` leaves the counters alone.  A failing `encrypt`
never does: they are safe only where nothing fails. -/
theorem counters_kept_iff (c : Crypto) (ch : SecureChannel) :
    (∀ iv payload,
      (∀ e, (ch.encrypt c iv payload).1 = .error e →
        (ch.encrypt c iv payload).2.sendSeq = ch.sendSeq ∧
          (ch.encrypt c iv payload).2.recvSeq = ch.recvSeq) ↔ NothingFails c ch iv payload) ∧
      ∀ wire e, (ch.decrypt c wire).1 = .error e →
        (ch.decrypt c wire).2.sendSeq = ch.sendSeq ∧
          (ch.decrypt c wire).2.recvSeq = ch.recvSeq := by
  constructor
  · intro iv payload
    rw [← encrypt_ok_iff]
    cases hcall : (ch.encrypt c iv payload).1 with
    | ok wire => simp
    | error e =>
        -- the counter has moved before anything could fail
        rw [encrypt_snd]
        simp [nextSeq_ne]
  · intro wire e h
    rcases decrypt_cases (c := c) ch wire with ⟨_, hrefused⟩ | ⟨_, hok, -⟩
    · rw [hrefused]
      exact ⟨rfl, rfl⟩
    · rw [hok] at h
      cases h

/-- The random source fails once. -/
theorem counter_moved_of_no_vector :
    ¬ ∀ (c : Crypto) (ch : SecureChannel) iv payload e, (ch.encrypt c iv payload).1 = .error e →
      (ch.encrypt c iv payload).2.sendSeq = ch.sendSeq := by
  intro claim
  have kept := claim Link.Hello.record.crypto
    { keys := Link.Hello.helloKeys, role := .client } none Link.Hello.hello .crypto rfl
  cases kept

/-- **The frame after a failed one.**  The other end, which has seen nothing of the failed
call, refuses it. -/
theorem decrypt_after_failure
    (inverse : ∀ key iv plain body, c.encrypt key iv plain = some body →
      c.decrypt key iv body = some plain)
    (hkeys : far.keys = ch.keys) (hrole : ch.role = far.role.peer)
    (hseq : far.recvSeq = ch.sendSeq)
    (h : ((ch.encrypt c iv payload).2.encrypt c iv' payload').1 = .ok wire)
    (hplain : (SecureMessage.d2dBytes (nextSeq (nextSeq ch.sendSeq)) payload').length < 2 ^ 64)
    (hwire : wire.length < 2 ^ 64) :
    far.decrypt c wire =
      (.error (.sequence (nextSeq ch.sendSeq) (nextSeq (nextSeq ch.sendSeq))), far) := by
  rw [encrypt_snd] at h
  -- an end that had got the lost frame would accept this one
  have opens := @decrypt_encrypt c { ch with sendSeq := nextSeq ch.sendSeq } wire payload' inverse
    { far with recvSeq := nextSeq ch.sendSeq } hkeys hrole rfl iv' h hplain hwire
  have hverify : SecureMessage.verifyAndDecrypt c (far.keys.recv far.role).1
      (far.keys.recv far.role).2 wire = .ok ⟨nextSeq (nextSeq ch.sendSeq), payload'⟩ := by
    rcases decrypt_cases (c := c) { far with recvSeq := nextSeq ch.sendSeq } wire with
      ⟨_, hrefused⟩ | ⟨_, hok, hverify⟩
    · rw [hrefused] at opens
      cases opens
    · rw [hok] at opens
      cases opens
      exact hverify
  unfold decrypt
  simp only [hverify, hseq, ne_eq, nextSeq_ne, not_false_eq_true, if_true]

end Counters

end SecureChannel

end Protocol
