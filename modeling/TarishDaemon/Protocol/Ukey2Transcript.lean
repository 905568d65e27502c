import TarishDaemon.Protocol.ChannelTalk
import TarishDaemon.Protocol.Ukey2Agree

/-!
# What the auth string binds

The auth string and the secret for the next protocol come out of the two init messages
set end to end, with nothing to say where the first one ends.  Both are protobuf, and a
protobuf reader takes fields it does not know at the end of the first message as well as
in front of the second.  So whoever sits in between can move such fields over that
border: both ends complete, show the same auth string, and have seen different messages.

That is all there is to it (`transcript_shift`).  The client's own first message ends
with the field that carries its data, so a server cannot have taken less than it; and
what the server saw more than it the client saw in front of the server's answer.
-/

namespace Protocol

open Rust Protobuf

namespace Hkdf

/-- Equal output of HKDF comes from equal `info`. -/
def Injective (c : Crypto) : Prop :=
  ∀ ikm salt info info' okm, derive c ikm salt info D2d.keySize = some okm →
    derive c ikm salt info' D2d.keySize = some okm → info = info'

variable {c : Crypto}

/-- A key is one block of the expansion. -/
theorem derive_block (htag : ∀ key data t, c.hmac key data = some t → t.length = 32)
    (ikm salt info : Bytes) :
    derive c ikm salt info D2d.keySize =
      (extract c salt ikm).bind fun prk => c.hmac prk (info ++ [1]) := by
  unfold derive
  cases extract c salt ikm with
  | none => rfl
  | some prk =>
      change expand c prk info D2d.keySize = c.hmac prk (info ++ [1])
      unfold expand
      rw [expandLoop, if_pos (by decide)]
      change (c.hmac prk (info ++ [1])).bind _ = _
      cases hblock : c.hmac prk (info ++ [1]) with
      | none => rfl
      | some t =>
          have hlen := htag prk _ t hblock
          have hall : ([] : Bytes) ++ t.take (D2d.keySize - ([] : Bytes).length) = t := by
            simp [D2d.keySize, List.take_of_length_le (Nat.le_of_eq hlen)]
          change expandLoop c prk info D2d.keySize 254 2 t _ = _
          rw [hall, expandLoop, if_neg (by rw [hlen]; decide)]

/-- HKDF does not mix up what HMAC keeps apart. -/
theorem injective_of_hmac (htag : ∀ key data t, c.hmac key data = some t → t.length = 32)
    (hmac : ∀ key data data' t, c.hmac key data = some t → c.hmac key data' = some t →
      data = data') : Injective c := by
  intro ikm salt info info' okm h h'
  rw [derive_block htag, Option.bind_eq_some_iff] at h h'
  obtain ⟨prk, hprk, hokm⟩ := h
  obtain ⟨prk', hprk', hokm'⟩ := h'
  rw [hprk] at hprk'
  cases hprk'
  exact List.append_cancel_right (hmac prk _ _ okm hokm hokm')

end Hkdf

namespace D2d

def ukey2AuthSalt : Bytes :=
  asBytes ['U', 'K', 'E', 'Y', '2', ' ', 'v', '1', ' ', 'a', 'u', 't', 'h']

def ukey2NextSalt : Bytes :=
  asBytes ['U', 'K', 'E', 'Y', '2', ' ', 'v', '1', ' ', 'n', 'e', 'x', 't']

structure Ukey2Secrets where
  authString : Bytes
  nextSecret : Bytes
  deriving DecidableEq, Repr

/-- Stage 1 of the key derivation, over the two messages set end to end. -/
def ukey2Secrets (c : Crypto) (dhs clientInit serverInit : Bytes) : Option Ukey2Secrets := do
  let info := clientInit ++ serverInit
  let authString ← Hkdf.derive c dhs ukey2AuthSalt info keySize
  let nextSecret ← Hkdf.derive c dhs ukey2NextSalt info keySize
  return { authString, nextSecret }

theorem ukey2Secrets_authString {c : Crypto} {dhs ci si : Bytes} {secrets : Ukey2Secrets}
    (h : ukey2Secrets c dhs ci si = some secrets) :
    Hkdf.derive c dhs ukey2AuthSalt (ci ++ si) keySize = some secrets.authString := by
  simp only [ukey2Secrets, Option.bind_eq_bind, Option.bind_eq_some_iff, Option.pure_def,
    Option.some.injEq] at h
  obtain ⟨auth, hauth, next, -, rfl⟩ := h
  exact hauth

end D2d

namespace Ukey2

/-- What the sizes of OpenSSL's results are: a digest has 64 bytes, and a coordinate is an
element of the field. -/
structure Suite.Sized {Key Point : Type} (s : Suite Key Point) : Prop where
  digest : ∀ m d, s.sha512 m = some d → d.length = 64
  coordinates : ∀ k x y, s.affine (s.publicKey k) = some (x, y) → x < 2 ^ 256 ∧ y < 2 ^ 256

/-- A client and a server have both completed.  What reached each of them need not be
what the other one sent. -/
structure Completed {Key Point : Type} (s : Suite Key Point) (rc rs : HandshakeResult) :
    Prop where
  client : ∃ key random client ci si cf, (∀ r, random = some r → r.length = randomSize) ∧
    ClientHandshake.start s key random = .ok (client, ci) ∧
    client.handleServerInit s si = .ok (cf, rc)
  server : ∃ key random server ci si cf, (∀ r, random = some r → r.length = randomSize) ∧
    ServerHandshake.handleClientInit s key random ci = .ok (server, si) ∧
    server.handleClientFinished s cf = .ok rs

section

variable {Key Point : Type} {s : Suite Key Point}

theorem encodePublicKey_length (sized : s.Sized) {key : Key} {v : Bytes}
    (h : encodePublicKey s key = .ok v) : v.length ≤ 200 := by
  simp only [encodePublicKey, bind_eq_ok, orCrypto_eq_ok, pure_eq_ok] at h
  obtain ⟨⟨x, y⟩, haffine, rfl⟩ := h
  obtain ⟨hx, hy⟩ := sized.coordinates _ x y haffine
  have hxlen := twosComplement_length_le hx
  have hylen := twosComplement_length_le hy
  have hxbytes := bytes_length_le ecX (twosComplement x)
  have hybytes := bytes_length_le ecY (twosComplement y)
  have htype := varint_length_le gpkType publicKeyTypeEcP256
  have hbody := bytes_length_le gpkEcP256PublicKey
    (Protobuf.bytes ecX (twosComplement x) ++ Protobuf.bytes ecY (twosComplement y))
  rw [List.length_append] at hbody
  rw [List.length_append]
  dsimp only
  omega

/-- The client's own message: a type, and the data behind it. -/
theorem client_message (sized : s.Sized) {rc rs : HandshakeResult} (h : Completed s rc rs) :
    (∃ body, Reads rc.clientInitMsg
      [.field (.varint msgType typeClientInit), .field (.bytes msgData body)]) ∧
      ∃ ts, Reads rc.serverInitMsg ts := by
  obtain ⟨key, random, client, ci, si, cf, hrandom, hstart, hserver⟩ := h.client
  obtain ⟨r, v, d, rfl, -, hd, -, hclient, hci⟩ := ClientHandshake.start_ok hstart
  obtain ⟨-, hmsg, hsi, body, hbody⟩ := ClientHandshake.handleServerInit_ok hserver
  obtain ⟨ts, hts, -⟩ := unwrap_ok hbody
  obtain ⟨-, -, hlen⟩ := clientInitFields_fit (hrandom r rfl) (sized.digest _ d hd)
  refine ⟨⟨encode (clientInitFields r d), ?_⟩, ts, hsi ▸ hts⟩
  rw [hmsg, hclient, hci, clientInit_eq]
  exact reads_wrap (by decide) hlen

/-- The server's own message, and that the client's reached it with data in it. -/
theorem server_message (sized : s.Sized) {rc rs : HandshakeResult} (h : Completed s rc rs) :
    (∃ body, Reads rs.serverInitMsg
      [.field (.varint msgType typeServerInit), .field (.bytes msgData body)]) ∧
      ∃ ts data, Reads rs.clientInitMsg ts ∧ lastBytes msgData (fields ts) = some data := by
  obtain ⟨key, random, server, ci, si, cf, hrandom, hinit, hfinish⟩ := h.server
  obtain ⟨body, found, r, v, hbody, -, -, rfl, hv, hci, hsi, hmsg⟩ :=
    ServerHandshake.handleClientInit_ok hinit
  obtain ⟨-, hclient, hserver⟩ := ServerHandshake.handleClientFinished_ok hfinish
  obtain ⟨ts, hts, -, hdata⟩ := unwrap_ok hbody
  obtain ⟨-, hlen⟩ := serverInitFields_fit (hrandom r rfl) (encodePublicKey_length sized hv)
  refine ⟨⟨encode (serverInitFields r v), ?_⟩, ts, body, ?_, hdata⟩
  · rw [hserver, hsi, hmsg, serverInit_eq]
    exact reads_wrap (by decide) hlen
  · rw [hclient, hci]
    exact hts

theorem reads_nil {buf : Bytes} (h : Reads buf []) : buf = [] := by
  cases h
  rfl

/-- Nothing shorter than a type and data has data in it. -/
theorem not_shorter {own behind body data : Bytes} {ts : List Token}
    (hown : Reads (own ++ behind)
      [.field (.varint msgType typeClientInit), .field (.bytes msgData body)])
    (hts : Reads own ts) (hdata : lastBytes msgData (fields ts) = some data) : behind = [] := by
  obtain ⟨vs, hsplit, hvs⟩ := hts.of_append hown
  cases ts with
  | nil => cases hdata
  | cons t ts =>
      cases ts with
      | nil =>
          cases hsplit
          simp at hdata
      | cons u ts =>
          have hnil : vs = [] := by
            have hlen := congrArg List.length hsplit
            simp only [List.length_cons, List.length_append, List.length_nil] at hlen
            exact List.length_eq_zero_iff.mp (by omega)
          exact reads_nil (hnil ▸ hvs)

/-- The client's view is the server's, up to fields that moved from the end of the first
message to the front of the second. -/
def Shifted (rc rs : HandshakeResult) : Prop :=
  ∃ x ts, Reads x ts ∧ rs.clientInitMsg = rc.clientInitMsg ++ x ∧
    rc.serverInitMsg = x ++ rs.serverInitMsg

/-- **Only whole fields can move**, and only from the client's message to the server's. -/
theorem shifted_of_concat (sized : s.Sized) {rc rs : HandshakeResult} (h : Completed s rc rs)
    (hsame : rc.clientInitMsg ++ rc.serverInitMsg = rs.clientInitMsg ++ rs.serverInitMsg) :
    Shifted rc rs := by
  obtain ⟨⟨body, hown⟩, -⟩ := client_message sized h
  obtain ⟨-, ts, data, hts, hdata⟩ := server_message sized h
  rcases List.append_eq_append_iff.mp hsame with ⟨x, hclient, hserver⟩ | ⟨x, hclient, hserver⟩
  · rw [hclient] at hts
    obtain ⟨vs, -, hvs⟩ := hown.of_append hts
    exact ⟨x, vs, hvs, hclient, hserver⟩
  · rw [hclient] at hown
    have hnil := not_shorter hown hts hdata
    subst hnil
    refine ⟨[], [], Reads.nil, ?_, ?_⟩
    · rw [hclient, List.append_nil, List.append_nil]
    · rw [hserver]
      rfl

/-- What moves in front of the server's answer does not change what is in it. -/
theorem Shifted.answer (sized : s.Sized) {rc rs : HandshakeResult} (h : Completed s rc rs)
    (hshift : Shifted rc rs) :
    ∃ body, unwrap rc.serverInitMsg typeServerInit = .ok body ∧
      unwrap rs.serverInitMsg typeServerInit = .ok body := by
  obtain ⟨x, ts, hx, -, hserver⟩ := hshift
  obtain ⟨⟨body, hown⟩, -⟩ := server_message sized h
  refine ⟨body, ?_, ?_⟩
  · rw [hserver, unwrap_of_reads (hx.append hown)]
    simp
  · rw [unwrap_of_reads hown]
    simp

theorem Shifted.eq_iff {rc rs : HandshakeResult} (hshift : Shifted rc rs) :
    (rc.clientInitMsg = rs.clientInitMsg ∧ rc.serverInitMsg = rs.serverInitMsg) ↔
      rc.clientInitMsg.length = rs.clientInitMsg.length := by
  obtain ⟨x, ts, -, hclient, hserver⟩ := hshift
  constructor
  · rintro ⟨hsame, -⟩
    rw [hsame]
  · intro hlen
    rw [hclient, List.length_append] at hlen
    have hnil : x = [] := List.length_eq_zero_iff.mp (by omega)
    rw [hclient, hserver, hnil, List.append_nil]
    exact ⟨rfl, rfl⟩

/-- **Equal auth strings mean one transcript, up to where the first message ends**: the
two views differ by whole fields at that border and by nothing else, the client takes
the answer that the server gave, and where the first messages have one length the views
are equal. -/
theorem transcript_shift (c : Crypto) (s : Suite Key Point) (sized : s.Sized)
    (injective : Hkdf.Injective c) (rc rs : HandshakeResult) (h : Completed s rc rs)
    (hdhs : rc.dhs = rs.dhs) (ours theirs : D2d.Ukey2Secrets)
    (hours : D2d.ukey2Secrets c rc.dhs rc.clientInitMsg rc.serverInitMsg = some ours)
    (htheirs : D2d.ukey2Secrets c rs.dhs rs.clientInitMsg rs.serverInitMsg = some theirs)
    (hauth : ours.authString = theirs.authString) :
    Shifted rc rs ∧
      (∃ body, unwrap rc.serverInitMsg typeServerInit = .ok body ∧
        unwrap rs.serverInitMsg typeServerInit = .ok body) ∧
      ((rc.clientInitMsg = rs.clientInitMsg ∧ rc.serverInitMsg = rs.serverInitMsg) ↔
        rc.clientInitMsg.length = rs.clientInitMsg.length) := by
  have hclient := D2d.ukey2Secrets_authString hours
  have hserver := D2d.ukey2Secrets_authString htheirs
  rw [← hauth, ← hdhs] at hserver
  have hsame := injective _ _ _ _ _ hclient hserver
  have hshift := shifted_of_concat sized h hsame
  exact ⟨hshift, hshift.answer sized h, hshift.eq_iff⟩

end

/-- The views are equal where the auth strings are. -/
def Agreement {Key Point : Type} (c : Crypto) (s : Suite Key Point) : Prop :=
  ∀ rc rs ours theirs, Completed s rc rs → rc.dhs = rs.dhs →
    D2d.ukey2Secrets c rc.dhs rc.clientInitMsg rc.serverInitMsg = some ours →
    D2d.ukey2Secrets c rs.dhs rs.clientInitMsg rs.serverInitMsg = some theirs →
    ours.authString = theirs.authString →
    rc.clientInitMsg = rs.clientInitMsg ∧ rc.serverInitMsg = rs.serverInitMsg

/-! ## A field moved over the border -/

namespace Recorded

theorem suite_sized : suite.Sized where
  digest m d h := by
    cases h
    split
    · exact commitment_length
    · exact List.length_replicate
  coordinates k x y h := by
    cases k <;> cases h <;> decide

/-- A field that no parser of the handshake looks at. -/
def moved : Bytes := varint 15 1

def clientMsg : Bytes := clientInit (nonce .client) commitment

def clientView : HandshakeResult :=
  { dhs, clientInitMsg := clientMsg, serverInitMsg := moved ++ serverMsg }

def serverView : HandshakeResult :=
  { dhs, clientInitMsg := clientMsg ++ moved, serverInitMsg := serverMsg }

def prkAuth : Bytes :=
  beBytes 32 0x1086f687204c3de078bd2403b973eda4f70c67e5d2a99211358022598665ff86

def prkNext : Bytes :=
  beBytes 32 0xb135f6b166ca3e64e0159c2f4edf290b03862d904346f375261ee34d5456e4dc

def secrets : D2d.Ukey2Secrets where
  authString := beBytes 32 0x6ae9ab4e5e71f9e0256bebc4d776d751f9659b688413784a04bef4ff75a8ceda
  nextSecret := beBytes 32 0x2988bca10c01f5938f81c35f99b2624ff408716bfd9c343a479eb884c42d0d89

/-- The calls of HMAC-SHA256 in the derivation of the two secrets. -/
def record : Link.Record where
  tags := [(D2d.ukey2AuthSalt, dhs, prkAuth),
    (prkAuth, clientMsg ++ moved ++ serverMsg ++ [1], secrets.authString),
    (D2d.ukey2NextSalt, dhs, prkNext),
    (prkNext, clientMsg ++ moved ++ serverMsg ++ [1], secrets.nextSecret)]
  bodies := []

theorem record_injective : Hkdf.Injective record.crypto :=
  Hkdf.injective_of_hmac (record.hmac_length (by decide +kernel))
    (record.hmac_injective (by decide +kernel))

theorem completed : Completed suite clientView serverView where
  client := by
    refine ⟨some .client, some (nonce .client),
      { key := .client, clientFinishedMsg := finishedMsg, clientInitMsg := clientMsg }, clientMsg,
      moved ++ serverMsg, finishedMsg, ?_, by decide +kernel, by decide +kernel⟩
    intro r hr
    cases hr
    rfl
  server := by
    refine ⟨some .server, some (nonce .server),
      { key := .server, commitment, clientInitMsg := clientMsg ++ moved
        serverInitMsg := serverMsg }, clientMsg ++ moved, serverMsg, finishedMsg, ?_,
      by decide +kernel, by decide +kernel⟩
    intro r hr
    cases hr
    rfl

theorem clientView_secrets : D2d.ukey2Secrets record.crypto clientView.dhs
    clientView.clientInitMsg clientView.serverInitMsg = some secrets := by
  decide +kernel

theorem serverView_secrets : D2d.ukey2Secrets record.crypto serverView.dhs
    serverView.clientInitMsg serverView.serverInitMsg = some secrets := by
  decide +kernel

end Recorded

/-- The field is taken from the end of the client's message and set in front of the
server's: both ends complete with one auth string, and have seen different messages. -/
theorem field_moved_over_border : ¬ Agreement Recorded.record.crypto Recorded.suite := by
  intro hagree
  obtain ⟨hsame, -⟩ := hagree Recorded.clientView Recorded.serverView Recorded.secrets
    Recorded.secrets Recorded.completed rfl Recorded.clientView_secrets
    Recorded.serverView_secrets rfl
  have hlen := congrArg List.length hsame
  revert hlen
  decide +kernel

/-- The two views of that run differ by the one field. -/
theorem recorded_views_shifted :
    Hkdf.Injective Recorded.record.crypto ∧
      Completed Recorded.suite Recorded.clientView Recorded.serverView ∧
      Shifted Recorded.clientView Recorded.serverView := by
  have hshift := transcript_shift Recorded.record.crypto Recorded.suite Recorded.suite_sized
    Recorded.record_injective Recorded.clientView Recorded.serverView Recorded.completed rfl
    Recorded.secrets Recorded.secrets Recorded.clientView_secrets Recorded.serverView_secrets rfl
  exact ⟨Recorded.record_injective, Recorded.completed, hshift.1⟩

end Ukey2

end Protocol
