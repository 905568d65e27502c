import TarishDaemon.Protocol.SecureMessage
import TarishDaemon.Protocol.Tokens
import TarishDaemon.Protocol.Ukey2

/-!
# Two honest ends agree, and the commitment binds

What a parser of the handshake takes from a message is the last field under each
number (`unwrap_ok`, `serverInit_fold`); the commitment is an exception, the first
entry of the list that carries one (`commitment_of_fold`).  With that, an honest run
succeeds, and a client can finish only with what it has committed to.

An entry for `P256_SHA512` without a commitment in it is passed over, so "the first
entry" is the first that carries one.
-/

namespace Protocol

open Rust Protobuf

namespace Ukey2

/-! ## What the parsers take from a message -/

theorem lastOfEach_fold (number data : Nat) (fs : List Field) :
    fs.foldlM (lastOfEach number data) (none, none) =
      .ok (lastVarint number fs, lastBytes data fs) := by
  induction fs using List.reverseRecOn with
  | nil => rfl
  | append_singleton fs f ih =>
      rw [List.foldlM_append, ih, lastVarint_append, lastBytes_append]
      cases f with
      | varint n v =>
          by_cases hn : n = number
          · simp [lastOfEach, hn, bind, Except.bind, pure, Except.pure]
          · simp [lastOfEach, hn, bind, Except.bind, pure, Except.pure]
      | bytes n v =>
          by_cases hn : n = data
          · simp [lastOfEach, hn, bind, Except.bind, pure, Except.pure]
          · simp [lastOfEach, hn, bind, Except.bind, pure, Except.pure]

theorem unwrap_of_reads {msg : Bytes} {ts : List Token} (h : Reads msg ts) {expect : Nat}
    {data : Bytes} : unwrap msg expect = .ok data ↔
      lastVarint msgType (fields ts) = some expect ∧ lastBytes msgData (fields ts) = some data := by
  rw [unwrap, readFields_of_reads Error.protobuf unwrapStep h, unwrapStep, lastOfEach_fold]
  simp only [bind_eq_ok, Except.ok.injEq, exists_eq_left', orMalformed_eq_ok, ensure_eq_ok]
  constructor
  · rintro ⟨t, hty, -, -, -, rfl, hdata⟩
    exact ⟨hty, hdata⟩
  · rintro ⟨hty, hdata⟩
    exact ⟨expect, hty, (), .inl rfl, (), rfl, hdata⟩

/-- A message that is unwrapped is one, and the last of its types and of its data count. -/
theorem unwrap_ok {msg data : Bytes} {expect : Nat} (h : unwrap msg expect = .ok data) :
    ∃ ts, Reads msg ts ∧ lastVarint msgType (fields ts) = some expect ∧
      lastBytes msgData (fields ts) = some data := by
  have hread := h
  rw [unwrap, bind_eq_ok] at hread
  obtain ⟨r, hr, -⟩ := hread
  obtain ⟨ts, hts⟩ := reads_of_readFields _ _ hr
  exact ⟨ts, hts, (unwrap_of_reads hts).mp h⟩

theorem reads_wrap {ty : Nat} {data : Bytes} (hty : ty < 2 ^ 64) (hdata : data.length < 2 ^ 64) :
    Reads (wrap ty data) [.field (.varint msgType ty), .field (.bytes msgData data)] := by
  have hfits : ∀ f ∈ [Field.varint msgType ty, .bytes msgData data], f.Fits := by
    simpa [Field.Fits, msgType, msgData] using And.intro hty hdata
  have hreads := reads_encode hfits
  simpa [wrap, Field.encode] using hreads

/-- What was wrapped is unwrapped. -/
theorem unwrap_wrap {ty : Nat} {data : Bytes} (hty : ty < 2 ^ 64) (hdata : data.length < 2 ^ 64) :
    unwrap (wrap ty data) ty = .ok data := by
  rw [unwrap_of_reads (reads_wrap hty hdata)]
  simp

theorem serverInit_fold (fs : List Field) :
    fs.foldlM serverInitStep {} = .ok
      { version := lastVarint siVersion fs, random := lastBytes siRandom fs
        cipher := lastVarint siCipher fs, publicKey := lastBytes siPublicKey fs } := by
  induction fs using List.reverseRecOn with
  | nil => rfl
  | append_singleton fs f ih =>
      rw [List.foldlM_append, ih]
      cases f with
      | varint n v =>
          by_cases hversion : n = siVersion
          · simp [serverInitStep, hversion, siVersion, siCipher, bind, Except.bind, pure,
              Except.pure]
          · by_cases hcipher : n = siCipher
            · simp [serverInitStep, hcipher, siVersion, siCipher, bind, Except.bind, pure,
              Except.pure]
            · simp [serverInitStep, hversion, hcipher, bind, Except.bind, pure,
              Except.pure]
      | bytes n v =>
          by_cases hrandom : n = siRandom
          · simp [serverInitStep, hrandom, siRandom, siPublicKey, bind, Except.bind, pure,
              Except.pure]
          · by_cases hkey : n = siPublicKey
            · simp [serverInitStep, hkey, siRandom, siPublicKey, bind, Except.bind, pure,
              Except.pure]
            · simp [serverInitStep, hrandom, hkey, bind, Except.bind, pure,
              Except.pure]

/-! ## The entry that is chosen -/

/-- The entries of `commitments`, in order. -/
def entries (clientInitMsg : Bytes) : Except Error (List Bytes) := do
  let body ← unwrap clientInitMsg typeClientInit
  readFields .protobuf (fun es f =>
    match f with
    | .bytes n v => .ok (if n = ciCommitments then es ++ [v] else es)
    | .varint _ _ => .ok es) body []

/-- The entry is for the cipher we speak. -/
def Speaks (entry : Bytes) : Prop :=
  firstVarint entry ccCipher = .ok (some cipherP256Sha512)

/-- The entry is for the cipher we speak, and there is a commitment in it. -/
def Carries (entry commitment : Bytes) : Prop :=
  Speaks entry ∧ firstBytes entry ccCommitment = .ok (some commitment)

theorem entries_fold (fs : List Field) :
    fs.foldlM (fun es f =>
      match f with
      | .bytes n v => (.ok (if n = ciCommitments then es ++ [v] else es) :
          Except Error (List Bytes))
      | .varint _ _ => .ok es) [] = .ok (fs.filterMap (Field.bytes? ciCommitments)) := by
  induction fs using List.reverseRecOn with
  | nil => rfl
  | append_singleton fs f ih =>
      rw [List.foldlM_append, ih, List.filterMap_append]
      cases f with
      | varint n v => simp [bind, Except.bind, pure, Except.pure]
      | bytes n v =>
          by_cases hn : n = ciCommitments
          · simp [hn, bind, Except.bind, pure, Except.pure]
          · simp [hn, bind, Except.bind, pure, Except.pure]

theorem cipherCommitment_of_reads {entry : Bytes} {ts : List Token} (h : Reads entry ts) :
    cipherCommitment entry = .ok (if lastVarint ccCipher (fields ts) = some cipherP256Sha512 then
      lastBytes ccCommitment (fields ts) else none) := by
  rw [cipherCommitment, readFields_of_reads Error.protobuf cipherCommitmentStep h,
    cipherCommitmentStep, lastOfEach_fold]
  rfl

/-- **What one entry is good for.** -/
theorem cipherCommitment_ok {entry : Bytes} {found : Option Bytes}
    (h : cipherCommitment entry = .ok found) (c : Bytes) : Carries entry c ↔ found = some c := by
  have hread := h
  rw [cipherCommitment, bind_eq_ok] at hread
  obtain ⟨r, hr, -⟩ := hread
  obtain ⟨ts, hts⟩ := reads_of_readFields _ _ hr
  rw [cipherCommitment_of_reads hts] at h
  cases h
  rw [Carries, Speaks, firstVarint_of_reads hts, firstBytes_of_reads hts]
  simp

/-- Once there is a commitment it stays. -/
theorem commitment_stays {fs : List Field} {ci ci' : ClientInit} {c : Bytes}
    (hc : ci.commitment = some c) (h : fs.foldlM clientInitStep ci = .ok ci') :
    ci'.commitment = some c := by
  induction fs generalizing ci with
  | nil =>
      cases h
      exact hc
  | cons f fs ih =>
      rw [List.foldlM_cons, bind_eq_ok] at h
      obtain ⟨next, hnext, hrest⟩ := h
      refine ih ?_ hrest
      cases f with
      | varint n v => grind [clientInitStep]
      | bytes n v => grind [clientInitStep]

/-- **The first entry that carries a commitment is the one.** -/
theorem commitment_of_fold {fs : List Field} {ci ci' : ClientInit} {c : Bytes}
    (hnone : ci.commitment = none) (h : fs.foldlM clientInitStep ci = .ok ci')
    (hc : ci'.commitment = some c) :
    ∃ before entry behind, fs.filterMap (Field.bytes? ciCommitments) = before ++ entry :: behind ∧
      (∀ e ∈ before, ∀ c, ¬ Carries e c) ∧ Carries entry c := by
  induction fs generalizing ci with
  | nil =>
      cases h
      rw [hnone] at hc
      cases hc
  | cons f fs ih =>
      rw [List.foldlM_cons, bind_eq_ok] at h
      obtain ⟨next, hnext, hrest⟩ := h
      by_cases hentry : ∃ v, f = .bytes ciCommitments v
      · obtain ⟨v, rfl⟩ := hentry
        have hthis : ((Field.bytes ciCommitments v) :: fs).filterMap (Field.bytes? ciCommitments) =
            v :: fs.filterMap (Field.bytes? ciCommitments) := by simp
        rw [clientInitStep, if_neg (by decide), if_neg (by decide), if_pos rfl, hnone,
          Option.isNone_none, if_pos rfl, bind_eq_ok] at hnext
        obtain ⟨found, hfound, hnext⟩ := hnext
        rw [hthis]
        cases found with
        | some d =>
            cases hnext
            have hd := commitment_stays rfl hrest
            rw [hc] at hd
            cases hd
            exact ⟨[], v, _, rfl, by simp, (cipherCommitment_ok hfound c).mpr rfl⟩
        | none =>
            cases hnext
            obtain ⟨before, entry, behind, hsplit, hbefore, hcarries⟩ := ih hnone hrest
            refine ⟨v :: before, entry, behind, by rw [hsplit, List.cons_append], ?_, hcarries⟩
            intro e he d hd
            rcases List.mem_cons.mp he with rfl | he
            · cases (cipherCommitment_ok hfound d).mp hd
            · exact hbefore e he d hd
      · have hskip : f.bytes? ciCommitments = none := by
          cases f with
          | varint n v => rfl
          | bytes n v => grind [Field.bytes?]
        have hkept : next.commitment = none := by
          cases f with
          | varint n v => grind [clientInitStep]
          | bytes n v => grind [clientInitStep]
        rw [List.filterMap_cons_none hskip]
        exact ih hkept hrest

/-! ## The four steps -/

section Steps

variable {Key Point : Type} {s : Suite Key Point}

theorem ClientHandshake.start_ok {key : Option Key} {random : Option Bytes}
    {client : ClientHandshake Key} {ci : Bytes} (h : start s key random = .ok (client, ci)) :
    ∃ r v d, random = some r ∧ encodePublicKey s client.key = .ok v ∧
      s.sha512 (clientFinished v) = some d ∧ client.clientFinishedMsg = clientFinished v ∧
      client.clientInitMsg = ci ∧ ci = clientInit r d := by
  simp only [start, bind_eq_ok, orCrypto_eq_ok, sha512, pure_eq_ok, Prod.mk.injEq] at h
  obtain ⟨k, -, v, hv, d, hd, r, hr, rfl, rfl⟩ := h
  exact ⟨r, v, d, hr, hv, hd, rfl, rfl, rfl⟩

theorem ClientHandshake.handleServerInit_ok {client : ClientHandshake Key} {si cf : Bytes}
    {result : HandshakeResult} (h : client.handleServerInit s si = .ok (cf, result)) :
    cf = client.clientFinishedMsg ∧ result.clientInitMsg = client.clientInitMsg ∧
      result.serverInitMsg = si ∧ ∃ body, unwrap si typeServerInit = .ok body := by
  simp only [handleServerInit, bind_eq_ok, ensure_eq_ok, orMalformed_eq_ok, pure_eq_ok,
    Prod.mk.injEq] at h
  obtain ⟨body, hbody, -, -, -, -, -, -, -, -, -, -, -, -, -, -, rfl, rfl⟩ := h
  exact ⟨rfl, rfl, rfl, body, hbody⟩

theorem ServerHandshake.handleClientInit_ok {key : Option Key} {random : Option Bytes}
    {ci si : Bytes} {server : ServerHandshake Key}
    (h : handleClientInit s key random ci = .ok (server, si)) :
    ∃ body found r v, unwrap ci typeClientInit = .ok body ∧
      readFields .protobuf clientInitStep body {} = .ok found ∧
      found.commitment = some server.commitment ∧ random = some r ∧
      encodePublicKey s server.key = .ok v ∧ server.clientInitMsg = ci ∧
      server.serverInitMsg = si ∧ si = serverInit r v := by
  simp only [handleClientInit, bind_eq_ok, ensure_eq_ok, orMalformed_eq_ok, orCrypto_eq_ok,
    pure_eq_ok, Prod.mk.injEq] at h
  obtain ⟨body, hbody, found, hfound, -, -, -, -, -, -, c, hc, k, -, r, hr, v, hv, rfl, rfl⟩ := h
  exact ⟨body, found, r, v, hbody, hfound, hc, hr, hv, rfl, rfl, rfl⟩

theorem ServerHandshake.handleClientFinished_ok {server : ServerHandshake Key} {cf : Bytes}
    {result : HandshakeResult} (h : server.handleClientFinished s cf = .ok result) :
    s.sha512 cf = some server.commitment ∧ result.clientInitMsg = server.clientInitMsg ∧
      result.serverInitMsg = server.serverInitMsg := by
  simp only [handleClientFinished, bind_eq_ok, ensure_eq_ok, orCrypto_eq_ok, sha512,
    pure_eq_ok] at h
  obtain ⟨d, hd, -, rfl, -, -, -, -, -, -, -, -, rfl⟩ := h
  exact ⟨hd, rfl, rfl⟩

/-- **Nothing of a message that was not committed to is used**: the refusal is the same
whatever the curve makes of a key. -/
theorem ServerHandshake.refused_unread {server : ServerHandshake Key} {m : Bytes}
    (h : s.sha512 m ≠ some server.commitment) :
    ∃ e, ∀ point agree sha256,
      server.handleClientFinished { s with point, agree, sha256 } m = .error e := by
  cases hd : s.sha512 m with
  | none => exact ⟨.crypto, fun _ _ _ => by
      simp [handleClientFinished, sha512, hd, orCrypto, bind, Except.bind]⟩
  | some d =>
      rw [hd] at h
      have hne : ¬ d = server.commitment := fun heq => h (congrArg some heq)
      exact ⟨.malformed "client finished does not match its commitment", fun _ _ _ => by
        simp [handleClientFinished, sha512, hd, orCrypto, ensure, hne, bind, Except.bind]⟩

/-- **The commitment the server keeps** is that of the first entry that carries one. -/
theorem ServerHandshake.commitment_of_first {key : Option Key} {random : Option Bytes}
    {ci si : Bytes} {server : ServerHandshake Key}
    (h : handleClientInit s key random ci = .ok (server, si)) :
    ∃ before entry behind, entries ci = .ok (before ++ entry :: behind) ∧
      (∀ e ∈ before, ∀ c, ¬ Carries e c) ∧ Carries entry server.commitment := by
  obtain ⟨body, found, r, v, hbody, hfound, hcommitment, -⟩ := handleClientInit_ok h
  obtain ⟨ts, hts⟩ := reads_of_readFields _ _ hfound
  rw [readFields_of_reads _ _ hts] at hfound
  obtain ⟨before, entry, behind, hsplit, hbefore, hentry⟩ :=
    commitment_of_fold rfl hfound hcommitment
  refine ⟨before, entry, behind, ?_, hbefore, hentry⟩
  rw [entries, hbody, ← hsplit, ← entries_fold, ← readFields_of_reads Error.protobuf _ hts]
  rfl

end Steps

/-! ## An honest run -/

section Honest

variable {Key Point : Type} {s : Suite Key Point}

def cipherCommitmentFields (commitment : Bytes) : List Field :=
  [.varint ccCipher cipherP256Sha512, .bytes ccCommitment commitment]

def clientInitFields (random commitment : Bytes) : List Field :=
  [.varint ciVersion protocolVersion, .bytes ciRandom random,
    .bytes ciCommitments (encode (cipherCommitmentFields commitment)),
    .bytes ciNextProtocol nextProtocol]

def serverInitFields (random publicKey : Bytes) : List Field :=
  [.varint siVersion protocolVersion, .bytes siRandom random,
    .varint siCipher cipherP256Sha512, .bytes siPublicKey publicKey]

theorem clientInit_eq (random commitment : Bytes) :
    clientInit random commitment =
      wrap typeClientInit (encode (clientInitFields random commitment)) := by
  simp [clientInit, clientInitFields, cipherCommitmentFields, Field.encode]

theorem serverInit_eq (random publicKey : Bytes) :
    serverInit random publicKey =
      wrap typeServerInit (encode (serverInitFields random publicKey)) := by
  simp [serverInit, serverInitFields, Field.encode]

theorem clientInitFields_fit {random commitment : Bytes} (hrandom : random.length = randomSize)
    (hcommitment : commitment.length = 64) :
    (∀ f ∈ cipherCommitmentFields commitment, f.Fits) ∧
      (∀ f ∈ clientInitFields random commitment, f.Fits) ∧
      (encode (clientInitFields random commitment)).length < 2 ^ 64 := by
  have hcc := encode_length_le (cipherCommitmentFields commitment)
  have hci := encode_length_le (clientInitFields random commitment)
  have hnext : nextProtocol.length = 23 := rfl
  simp only [clientInitFields, cipherCommitmentFields, List.foldr_cons, List.foldr_nil, Field.size,
    hrandom, hcommitment, hnext, randomSize] at hcc hci
  have hlen : (encode (clientInitFields random commitment)).length < 2 ^ 64 := by
    simp only [clientInitFields, cipherCommitmentFields]
    omega
  refine ⟨fits_of_length ?_ ?_, fits_of_length ?_ hlen, hlen⟩
  · simp [cipherCommitmentFields, Field.Typed, ccCipher, ccCommitment, cipherP256Sha512]
  · simp only [cipherCommitmentFields]
    omega
  · simp [clientInitFields, Field.Typed, ciVersion, ciRandom, ciCommitments, ciNextProtocol,
      protocolVersion]

theorem serverInitFields_fit {random publicKey : Bytes} (hrandom : random.length = randomSize)
    (hkey : publicKey.length ≤ 200) :
    (∀ f ∈ serverInitFields random publicKey, f.Fits) ∧
      (encode (serverInitFields random publicKey)).length < 2 ^ 64 := by
  have hsi := encode_length_le (serverInitFields random publicKey)
  simp only [serverInitFields, List.foldr_cons, List.foldr_nil, Field.size, hrandom,
    randomSize] at hsi
  have hlen : (encode (serverInitFields random publicKey)).length < 2 ^ 64 := by
    simp only [serverInitFields]
    omega
  refine ⟨fits_of_length ?_ hlen, hlen⟩
  simp [serverInitFields, Field.Typed, siVersion, siRandom, siCipher, siPublicKey,
    protocolVersion, cipherP256Sha512]

theorem cipherCommitment_encode {commitment : Bytes}
    (hfits : ∀ f ∈ cipherCommitmentFields commitment, f.Fits) :
    cipherCommitment (encode (cipherCommitmentFields commitment)) = .ok (some commitment) := by
  rw [cipherCommitment, readFields_encode _ _ _ hfits, cipherCommitmentStep, lastOfEach_fold]
  simp [cipherCommitmentFields, ccCipher, ccCommitment, bind, Except.bind, pure, Except.pure]

/-- **The server takes the client's first message.** -/
theorem handleClientInit_clientInit {random commitment : Bytes} {l : Key} {t v : Bytes}
    (hrandom : random.length = randomSize) (hcommitment : commitment.length = 64)
    (hv : encodePublicKey s l = .ok v) :
    ServerHandshake.handleClientInit s (some l) (some t) (clientInit random commitment) = .ok
      ({ key := l, commitment, clientInitMsg := clientInit random commitment
         serverInitMsg := serverInit t v }, serverInit t v) := by
  obtain ⟨hcc, hci, hlen⟩ := clientInitFields_fit hrandom hcommitment
  have hread : readFields Error.protobuf clientInitStep
      (encode (clientInitFields random commitment)) {} = .ok
        { version := some protocolVersion, random := some random
          nextProtocol := some nextProtocol, commitment := some commitment } := by
    rw [readFields_encode _ _ _ hci]
    simp [clientInitFields, clientInitStep, cipherCommitment_encode hcc, ciVersion, ciRandom,
      ciCommitments, ciNextProtocol, bind, Except.bind, pure, Except.pure]
  simp only [ServerHandshake.handleClientInit, bind_eq_ok, ensure_eq_ok, orMalformed_eq_ok,
    orCrypto_eq_ok, pure_eq_ok]
  refine ⟨_, ?_, _, hread, (), rfl, (), ?_, (), rfl, commitment, rfl, l, rfl, t, rfl, v, hv, rfl⟩
  · rw [clientInit_eq, unwrap_wrap (by decide) hlen]
  · simp [goodRandom, hrandom]

/-- **The client takes the server's answer.** -/
theorem handleServerInit_serverInit {client : ClientHandshake Key} {t v dhs : Bytes}
    {peer : Point} (ht : t.length = randomSize) (hlen : v.length ≤ 200)
    (hpeer : decodePublicKey s v = .ok peer) (hdhs : sharedSecret s client.key peer = .ok dhs) :
    client.handleServerInit s (serverInit t v) = .ok (client.clientFinishedMsg,
      { dhs, clientInitMsg := client.clientInitMsg, serverInitMsg := serverInit t v }) := by
  obtain ⟨hsi, hsilen⟩ := serverInitFields_fit ht hlen
  have hread : readFields Error.protobuf serverInitStep (encode (serverInitFields t v)) {} = .ok
      { version := some protocolVersion, random := some t
        cipher := some cipherP256Sha512, publicKey := some v } := by
    rw [readFields_encode _ _ _ hsi, serverInit_fold]
    simp [serverInitFields, siVersion, siRandom, siCipher, siPublicKey]
  simp only [ClientHandshake.handleServerInit, bind_eq_ok, ensure_eq_ok, orMalformed_eq_ok,
    pure_eq_ok]
  refine ⟨_, ?_, _, hread, (), rfl, (), ?_, (), rfl, v, rfl, peer, hpeer, dhs, hdhs, rfl⟩
  · rw [serverInit_eq, unwrap_wrap (by decide) hsilen]
  · simp [goodRandom, ht]

/-- **The server takes what it has a commitment to.** -/
theorem handleClientFinished_clientFinished {server : ServerHandshake Key} {v dhs : Bytes}
    {peer : Point} (hdigest : s.sha512 (clientFinished v) = some server.commitment)
    (hlen : v.length ≤ 200) (hpeer : decodePublicKey s v = .ok peer)
    (hdhs : sharedSecret s server.key peer = .ok dhs) :
    server.handleClientFinished s (clientFinished v) = .ok
      { dhs, clientInitMsg := server.clientInitMsg, serverInitMsg := server.serverInitMsg } := by
  have hcf := encode_length_le [Field.bytes cfPublicKey v]
  have hfits : ∀ f ∈ [Field.bytes cfPublicKey v], f.Fits := by
    simp only [List.mem_singleton, forall_eq, Field.Fits, cfPublicKey]
    omega
  have hdata : Protobuf.bytes cfPublicKey v = encode [Field.bytes cfPublicKey v] := by
    simp [Field.encode]
  simp only [List.foldr_cons, List.foldr_nil, Field.size] at hcf
  simp only [ServerHandshake.handleClientFinished, bind_eq_ok, ensure_eq_ok, orCrypto_eq_ok,
    sha512, pure_eq_ok]
  refine ⟨server.commitment, hdigest, (), rfl, encode [Field.bytes cfPublicKey v], ?_, v,
    require_encode hfits (by simp), peer, hpeer, dhs, hdhs, rfl⟩
  rw [clientFinished, hdata, unwrap_wrap (by decide) (by omega)]

/-- **Two honest ends agree**: on the secret and on both messages that the keys are
derived from. -/
theorem honest_run (ideal : s.Ideal) (k l : Key) {r t : Bytes} (hr : r.length = randomSize)
    (ht : t.length = randomSize) :
    ∃ client ci server si cf result,
      ClientHandshake.start s (some k) (some r) = .ok (client, ci) ∧
      ServerHandshake.handleClientInit s (some l) (some t) ci = .ok (server, si) ∧
      client.handleServerInit s si = .ok (cf, result) ∧
      server.handleClientFinished s cf = .ok result := by
  obtain ⟨v, hv, hvlen, hvdecode⟩ := decodePublicKey_encode ideal k
  obtain ⟨w, hw, hwlen, hwdecode⟩ := decodePublicKey_encode ideal l
  obtain ⟨d, hd, hdlen⟩ := ideal.digests (clientFinished v)
  obtain ⟨dhs, hours, htheirs⟩ := sharedSecret_agrees ideal k l
  have hstart : ClientHandshake.start s (some k) (some r) = .ok
      ({ key := k, clientFinishedMsg := clientFinished v, clientInitMsg := clientInit r d },
        clientInit r d) := by
    simp only [ClientHandshake.start, bind_eq_ok, orCrypto_eq_ok, sha512, pure_eq_ok]
    exact ⟨k, rfl, v, hv, d, hd, r, rfl, rfl⟩
  refine ⟨_, _, _, _, _, _, hstart, handleClientInit_clientInit hr hdlen hw,
    handleServerInit_serverInit ht hwlen hwdecode hours, ?_⟩
  exact handleClientFinished_clientFinished hd hvlen hvdecode htheirs

/-- **An honest run succeeds, and the commitment binds.**  In the second part anybody
may have written the first message and the third; a third message that was not
committed to is refused with an error that does not depend on what the curve or the
other hash would have made of it. -/
theorem honest_agreement_and_commitment (s : Suite Key Point) :
    (s.Ideal → ∀ (k l : Key) (r t : Bytes), r.length = randomSize → t.length = randomSize →
      ∃ client ci server si cf result,
        ClientHandshake.start s (some k) (some r) = .ok (client, ci) ∧
        ServerHandshake.handleClientInit s (some l) (some t) ci = .ok (server, si) ∧
        client.handleServerInit s si = .ok (cf, result) ∧
        server.handleClientFinished s cf = .ok result ∧
        result.clientInitMsg = ci ∧ result.serverInitMsg = si) ∧
    ∀ (key : Option Key) (random : Option Bytes) (ci si : Bytes) (server : ServerHandshake Key),
      ServerHandshake.handleClientInit s key random ci = .ok (server, si) →
      (∃ before entry behind, entries ci = .ok (before ++ entry :: behind) ∧
        (∀ e ∈ before, ∀ c, ¬ Carries e c) ∧ Carries entry server.commitment) ∧
      ∀ m, (∀ result, server.handleClientFinished s m = .ok result →
          s.sha512 m = some server.commitment) ∧
        (s.sha512 m ≠ some server.commitment → ∃ e, ∀ point agree sha256,
          server.handleClientFinished { s with point, agree, sha256 } m = .error e) := by
  constructor
  · intro ideal k l r t hr ht
    obtain ⟨client, ci, server, si, cf, result, hstart, hinit, hserver, hfinish⟩ :=
      honest_run ideal k l hr ht
    obtain ⟨-, hci, hsi, -⟩ := ClientHandshake.handleServerInit_ok hserver
    obtain ⟨_, _, _, -, -, -, -, hclient, -⟩ := ClientHandshake.start_ok hstart
    exact ⟨client, ci, server, si, cf, result, hstart, hinit, hserver, hfinish,
      hci.trans hclient, hsi⟩
  · intro key random ci si server hinit
    refine ⟨ServerHandshake.commitment_of_first hinit, fun m => ⟨?_, ?_⟩⟩
    · intro result hfinish
      exact (ServerHandshake.handleClientFinished_ok hfinish).1
    · exact ServerHandshake.refused_unread

end Honest

/-! ## One recorded handshake -/

namespace Recorded

/-- The order of the field of P-256. -/
def prime : Nat := 0xffffffff00000001000000000000000000000000ffffffffffffffffffffffff

def curveB : Nat := 0x5ac635d8aa3a93e7b3ebbd55769886bc651d06b0cc53b0f63bce3c3e27d2604b

def clientPoint : Nat × Nat :=
  (0x9ab6ac78e58ffb25f770c0de03372b995eb9f721a1c0124abedd5ef026154f0d,
    0xf2c71661a72601a6e887075bb9062cb2c2a6bd492b4e4e96ba58064fe7cda64e)

def serverPoint : Nat × Nat :=
  (0x9030f3fc186fb5cc968e9ca241e9b47f92b0e9f29f03303b8c4eb5c0c28537de,
    0x4ca3392cb6e21a3acb52de5c77f90b316decaf79c8f96a444a8bfbb923eb4c23)

def ownPoint : Role → Nat × Nat
  | .client => clientPoint
  | .server => serverPoint

/-- The coordinate x of the point the two share. -/
def sharedX : Bytes :=
  beBytes 32 0x3b3521b44664af0b4165189fd43ff34f18e154d7726e685b21eca8fde97b43e6

/-- What each of the two would share with itself. -/
def squareX : Role → Bytes
  | .client => beBytes 32 0xc29ff08ea9897c4c84bcaf1ed5fe91c4409b67e43ab2f9433ff69dd6f522a0f7
  | .server => beBytes 32 0xace8307897f5e5652f144c165d73f646e579de2973b481e43041c383a171981a

def dhs : Bytes :=
  beBytes 32 0x3fcf3946b4dfef951f2f538fbc17cbbc0d7c1083b0f17d9f4db4e0bd0ac7d869

def commitment : Bytes :=
  beBytes 32 0x61d328104b41632ce8ce3512afec6e337a454e89418de5bcb6d74bf7953444ca ++
    beBytes 32 0xa0032cf5a7de23e8b27a1894df50230858906e18a62c726932f38a73ea1ee810

theorem commitment_length : commitment.length = 64 := rfl

def keyBytes (p : Nat × Nat) : Bytes :=
  varint gpkType publicKeyTypeEcP256 ++ bytes gpkEcP256PublicKey
    (bytes ecX (twosComplement p.1) ++ bytes ecY (twosComplement p.2))

def finishedMsg : Bytes := clientFinished (keyBytes clientPoint)

/-- The keys of the two ends on the curve, ECDH between them, and the hashes of what
came up. -/
def suite : Suite Role (Nat × Nat) where
  publicKey := ownPoint
  affine p := some p
  point x y := if y * y % prime = (x * x * x + (prime - 3) * x + curveB) % prime then some (x, y)
    else none
  agree k p :=
    if p = ownPoint k.peer then some sharedX
    else if p = ownPoint k then some (squareX k) else none
  sha256 m := some (if m = sharedX then dhs else List.replicate 32 0)
  sha512 m := some (if m = finishedMsg then commitment else List.replicate 64 0)

theorem suite_ideal : suite.Ideal where
  codec k := by
    cases k
    · exact ⟨_, _, rfl, by decide, by decide, by decide +kernel⟩
    · exact ⟨_, _, rfl, by decide, by decide, by decide +kernel⟩
  agrees k l := by cases k <;> cases l <;> decide +kernel
  derives k l := by cases k <;> cases l <;> decide +kernel
  hashes m := rfl
  digests m := by
    refine ⟨_, rfl, ?_⟩
    split
    · exact commitment_length
    · exact List.length_replicate

/-- The random bytes of each end. -/
def nonce : Role → Bytes
  | .client => (List.range 32).map UInt8.ofNat
  | .server => (List.range' 32 32).map UInt8.ofNat

end Recorded

/-- The two ends of the recording agree, and a server that has taken the client's first
message takes no other third message than the client's. -/
theorem recorded_run_binds :
    (∃ client ci server si cf result,
      ClientHandshake.start Recorded.suite (some .client) (some (Recorded.nonce .client)) =
        .ok (client, ci) ∧
      ServerHandshake.handleClientInit Recorded.suite (some .server)
        (some (Recorded.nonce .server)) ci = .ok (server, si) ∧
      client.handleServerInit Recorded.suite si = .ok (cf, result) ∧
      server.handleClientFinished Recorded.suite cf = .ok result ∧
      result.clientInitMsg = ci ∧ result.serverInitMsg = si) ∧
    ∃ server si, ServerHandshake.handleClientInit Recorded.suite (some .server)
        (some (Recorded.nonce .server))
        (clientInit (Recorded.nonce .client) Recorded.commitment) = .ok (server, si) ∧
      server.commitment = Recorded.commitment ∧
      ∃ e, ∀ point agree sha256, server.handleClientFinished
        { Recorded.suite with point, agree, sha256 } [] = .error e := by
  have hhonest := (honest_agreement_and_commitment Recorded.suite).1 Recorded.suite_ideal .client
    .server (Recorded.nonce .client) (Recorded.nonce .server) (by decide) (by decide)
  have hrandom : (Recorded.nonce .client).length = randomSize := by decide
  have hinit := handleClientInit_clientInit (s := Recorded.suite) (l := .server)
    (t := Recorded.nonce .server) (v := Recorded.keyBytes Recorded.serverPoint) hrandom
    Recorded.commitment_length rfl
  obtain ⟨-, hbinds⟩ :=
    (honest_agreement_and_commitment Recorded.suite).2 _ _ _ _ _ hinit
  exact ⟨hhonest, _, _, hinit, rfl, (hbinds []).2 (by decide +kernel)⟩

/-! ### An entry without a commitment -/

/-- What finishes is what the first entry for `P256_SHA512` commits to. -/
def FirstEntryBinds {Key Point : Type} (s : Suite Key Point) : Prop :=
  ∀ (key : Option Key) (random : Option Bytes) (ci si m : Bytes) (server : ServerHandshake Key)
    (result : HandshakeResult) (before behind : List Bytes) (entry : Bytes),
    ServerHandshake.handleClientInit s key random ci = .ok (server, si) →
    server.handleClientFinished s m = .ok result →
    entries ci = .ok (before ++ entry :: behind) → (∀ e ∈ before, ¬ Speaks e) → Speaks entry →
    ∃ d, s.sha512 m = some d ∧ firstBytes entry ccCommitment = .ok (some d)

namespace Recorded

/-- The cipher, and no commitment. -/
def bareEntry : Bytes := varint ccCipher cipherP256Sha512

def fullEntry : Bytes := encode (cipherCommitmentFields commitment)

def bareFirst : Bytes :=
  wrap typeClientInit (encode [.varint ciVersion protocolVersion, .bytes ciRandom (nonce .client),
    .bytes ciCommitments bareEntry, .bytes ciCommitments fullEntry,
    .bytes ciNextProtocol nextProtocol])

def serverMsg : Bytes := serverInit (nonce .server) (keyBytes serverPoint)

def bareServer : ServerHandshake Role :=
  { key := .server, commitment, clientInitMsg := bareFirst, serverInitMsg := serverMsg }

end Recorded

/-- The bare entry is passed over: the server keeps the commitment of the entry behind
it, and finishes with that. -/
theorem bare_entry_passed_over : ¬ FirstEntryBinds Recorded.suite := by
  intro hbinds
  obtain ⟨d, -, hd⟩ := hbinds (some .server) (some (Recorded.nonce .server)) Recorded.bareFirst
    Recorded.serverMsg Recorded.finishedMsg Recorded.bareServer
    { dhs := Recorded.dhs, clientInitMsg := Recorded.bareFirst
      serverInitMsg := Recorded.serverMsg }
    [] [Recorded.fullEntry] Recorded.bareEntry (by decide +kernel) (by decide +kernel)
    (by decide +kernel) (by simp) (by unfold Speaks; decide)
  cases hd

end Ukey2

end Protocol
