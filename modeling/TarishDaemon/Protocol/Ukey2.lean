import TarishDaemon.Protocol.Ukey2Crypto

/-!
# The UKEY2 handshake

Three messages, each in a `Ukey2Message` that says which it is.  The client commits to
its last message, with the public key in it, before it has seen the server's key: the
first message carries the SHA-512 of the third.  The server checks that over the bytes
it received, before it reads anything in them.

Every step takes the peer's last message and gives the next one, or an error.  A
fresh key and the random bytes are inputs, and are missing where OpenSSL fails.
-/

namespace Protocol

open Rust Protobuf

namespace Ukey2

def protocolVersion : Nat := 1

def randomSize : Nat := 32

def nextProtocol : Bytes :=
  asBytes ['A', 'E', 'S', '_', '2', '5', '6', '_', 'C', 'B', 'C', '-', 'H', 'M', 'A', 'C', '_',
    'S', 'H', 'A', '2', '5', '6']

def cipherP256Sha512 : Nat := 100

def typeAlert : Nat := 1

def typeClientInit : Nat := 2

def typeServerInit : Nat := 3

def typeClientFinish : Nat := 4

def msgType : Nat := 1

def msgData : Nat := 2

def ciVersion : Nat := 1

def ciRandom : Nat := 2

def ciCommitments : Nat := 3

def ciNextProtocol : Nat := 4

def ccCipher : Nat := 1

def ccCommitment : Nat := 2

def siVersion : Nat := 1

def siRandom : Nat := 2

def siCipher : Nat := 3

def siPublicKey : Nat := 4

def cfPublicKey : Nat := 1

structure HandshakeResult where
  dhs : Bytes
  /-- The wrapper around ClientInit, as it went over the wire. -/
  clientInitMsg : Bytes
  serverInitMsg : Bytes
  deriving DecidableEq, Repr

/-! ## Messages -/

def wrap (ty : Nat) (data : Bytes) : Bytes :=
  varint msgType ty ++ bytes msgData data

/-- A round of a loop that keeps the last number under one field and the last bytes
under another. -/
def lastOfEach (number data : Nat) :
    Option Nat × Option Bytes → Field → Except Error (Option Nat × Option Bytes)
  | (ty, found), .varint n v => .ok (if n = number then some v else ty, found)
  | (ty, found), .bytes n v => .ok (ty, if n = data then some v else found)

/-- The loop of `unwrap`: the type and the data found so far. -/
def unwrapStep : Option Nat × Option Bytes → Field → Except Error (Option Nat × Option Bytes) :=
  lastOfEach msgType msgData

/-- The data of a message that has the type we wait for. -/
def unwrap (msg : Bytes) (expect : Nat) : Except Error Bytes := do
  let (ty, data) ← readFields .protobuf unwrapStep msg (none, none)
  let ty ← orMalformed ty "no message_type"
  ensure (ty = expect ∨ ty ≠ typeAlert) "peer sent an alert"
  ensure (ty = expect) "unexpected message type"
  orMalformed data "no message_data"

def clientInit (random commitment : Bytes) : Bytes :=
  let cc := varint ccCipher cipherP256Sha512 ++ bytes ccCommitment commitment
  let ci := varint ciVersion protocolVersion ++ bytes ciRandom random ++
    bytes ciCommitments cc ++ bytes ciNextProtocol nextProtocol
  wrap typeClientInit ci

def serverInit (random publicKey : Bytes) : Bytes :=
  let si := varint siVersion protocolVersion ++ bytes siRandom random ++
    varint siCipher cipherP256Sha512 ++ bytes siPublicKey publicKey
  wrap typeServerInit si

def clientFinished (publicKey : Bytes) : Bytes :=
  wrap typeClientFinish (bytes cfPublicKey publicKey)

/-! ## The client -/

variable {Key Point : Type} (s : Suite Key Point)

structure ClientHandshake (Key : Type) where
  key : Key
  /-- The bytes committed to, sent as they are. -/
  clientFinishedMsg : Bytes
  clientInitMsg : Bytes
  deriving DecidableEq, Repr

/-- `ClientHandshake::start`. -/
def ClientHandshake.start (key : Option Key) (random : Option Bytes) :
    Except Error (ClientHandshake Key × Bytes) := do
  let key ← orCrypto key
  let clientFinishedMsg := clientFinished (← encodePublicKey s key)
  let commitment ← sha512 s clientFinishedMsg
  let clientInitMsg := clientInit (← orCrypto random) commitment
  return ({ key, clientFinishedMsg, clientInitMsg }, clientInitMsg)

structure ServerInit where
  version : Option Nat := none
  random : Option Bytes := none
  cipher : Option Nat := none
  publicKey : Option Bytes := none
  deriving DecidableEq, Repr

/-- A round of the loop in `handle_server_init`. -/
def serverInitStep (si : ServerInit) : Field → Except Error ServerInit
  | .varint n v =>
      .ok (if n = siVersion then { si with version := some v }
        else if n = siCipher then { si with cipher := some v } else si)
  | .bytes n v =>
      .ok (if n = siRandom then { si with random := some v }
        else if n = siPublicKey then { si with publicKey := some v } else si)

/-- `random` is there and has 32 bytes. -/
def goodRandom (random : Option Bytes) : Bool :=
  match random with
  | some r => r.length = randomSize
  | none => false

/-- `ClientHandshake::handle_server_init`. -/
def ClientHandshake.handleServerInit (client : ClientHandshake Key) (serverInitMsg : Bytes) :
    Except Error (Bytes × HandshakeResult) := do
  let body ← unwrap serverInitMsg typeServerInit
  let si ← readFields .protobuf serverInitStep body {}
  ensure (si.version = some protocolVersion) "server version is not 1"
  ensure (goodRandom si.random) "server random is not 32 bytes"
  ensure (si.cipher = some cipherP256Sha512) "server chose a cipher we did not offer"
  let publicKey ← orMalformed si.publicKey "no server public_key"
  let peer ← decodePublicKey s publicKey
  let dhs ← sharedSecret s client.key peer
  return (client.clientFinishedMsg,
    { dhs, clientInitMsg := client.clientInitMsg, serverInitMsg })

/-! ## The server -/

structure ServerHandshake (Key : Type) where
  key : Key
  commitment : Bytes
  clientInitMsg : Bytes
  serverInitMsg : Bytes
  deriving DecidableEq, Repr

/-- The loop of `cipher_commitment`. -/
def cipherCommitmentStep :
    Option Nat × Option Bytes → Field → Except Error (Option Nat × Option Bytes) :=
  lastOfEach ccCipher ccCommitment

/-- The commitment in one `CipherCommitment`, if it is for the cipher we speak. -/
def cipherCommitment (entry : Bytes) : Except Error (Option Bytes) := do
  let (cipher, commitment) ← readFields .protobuf cipherCommitmentStep entry (none, none)
  return if cipher = some cipherP256Sha512 then commitment else none

structure ClientInit where
  version : Option Nat := none
  random : Option Bytes := none
  nextProtocol : Option Bytes := none
  commitment : Option Bytes := none
  deriving DecidableEq, Repr

/-- A round of the loop in `handle_client_init`.  Once there is a commitment, the
entries behind it are not looked into. -/
def clientInitStep (ci : ClientInit) : Field → Except Error ClientInit
  | .varint n v => .ok (if n = ciVersion then { ci with version := some v } else ci)
  | .bytes n v =>
      if n = ciRandom then .ok { ci with random := some v }
      else if n = ciNextProtocol then .ok { ci with nextProtocol := some v }
      else if n = ciCommitments then
        if ci.commitment.isNone then do
          match ← cipherCommitment v with
          | some c => return { ci with commitment := some c }
          | none => return ci
        else .ok ci
      else .ok ci

/-- `ServerHandshake::handle_client_init`. -/
def ServerHandshake.handleClientInit (key : Option Key) (random : Option Bytes)
    (clientInitMsg : Bytes) : Except Error (ServerHandshake Key × Bytes) := do
  let body ← unwrap clientInitMsg typeClientInit
  let ci ← readFields .protobuf clientInitStep body {}
  ensure (ci.version = some protocolVersion) "client version is not 1"
  ensure (goodRandom ci.random) "client random is not 32 bytes"
  ensure (ci.nextProtocol = some nextProtocol) "client asked for another next_protocol"
  let commitment ← orMalformed ci.commitment "no P256_SHA512 commitment"
  let key ← orCrypto key
  let random ← orCrypto random
  let serverInitMsg := serverInit random (← encodePublicKey s key)
  return ({ key, commitment, clientInitMsg, serverInitMsg }, serverInitMsg)

/-- `ServerHandshake::handle_client_finished`: the commitment is checked before
anything is parsed. -/
def ServerHandshake.handleClientFinished (server : ServerHandshake Key)
    (clientFinishedMsg : Bytes) : Except Error HandshakeResult := do
  let digest ← sha512 s clientFinishedMsg
  ensure (digest = server.commitment) "client finished does not match its commitment"
  let body ← unwrap clientFinishedMsg typeClientFinish
  let publicKey ← require body cfPublicKey "no client public_key"
  let peer ← decodePublicKey s publicKey
  let dhs ← sharedSecret s server.key peer
  return { dhs, clientInitMsg := server.clientInitMsg, serverInitMsg := server.serverInitMsg }

end Ukey2

end Protocol
