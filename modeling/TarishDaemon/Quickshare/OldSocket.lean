import TarishDaemon.Protocol.ChannelTalk
import TarishDaemon.Quickshare.SendOutcome
import TarishDaemon.Quickshare.WiredSend
import TarishDaemon.Quickshare.WiredServe

/-!
# The old socket

What holds of the two main loops on their sockets, over whole runs: what follows a
LAST_WRITE, and what becomes of the peer's frames.

For the concrete runs one session is on record, with the keys of `Link.Hello` and what
HMAC-SHA256 and AES-256-CBC make of five frames.  The sender has accepted an offer and
comes to `wait_for_upgrade`; the receiver is asked for a group before anything else.
-/

namespace Quickshare

open Rust Protocol Fallible

namespace Wired

variable {W E : Type} {c : Crypto} {L : Loop c W E} {v : Wired W}

/-- The loop before its first step.  The wires are all that the peer ever writes, on the
socket the loop is on and on those it moves to. -/
def start (w : W) (channel : SecureChannel) (left : List Bytes) (later : List (List Bytes)) :
    Wired W :=
  { loop := w, channel := channel, left := left, later := later }

/-- The steps of a loop in which a handover meets nothing it does not leave the old
socket well for. -/
abbrev CalmStep (L : Loop c W E) : Wired W → E × Bool → Wired W → Prop :=
  Lts.Restrict (Lts.ofPartial (step L)) (Calm L)

/-- The steps of a loop in which the peer closes the old socket as it should. -/
abbrev ReleasedStep (L : Loop c W E) : Wired W → E × Bool → Wired W → Prop :=
  Lts.Restrict (Lts.ofPartial (step L)) fun v m => released L v m = true

/-! ## What the loop has had of the conversation -/

/-- The frames that were decrypted, but for those a release exchange was over. -/
def conversation (log : List (Bytes × Fate)) : List Bytes :=
  log.filterMap fun e =>
    match e.2 with
    | .released _ => none
    | .kept plain | .met plain => some plain
    | .garbled => none

/-- The loop took all of the conversation, in order and each frame once, from wires that
were taken off in order and decrypted once. -/
structure Lossless (L : Loop c W E) (channel : SecureChannel) (peer : List Bytes)
    (v : Wired W) : Prop where
  taken : v.processed ++ L.deferred v.loop = conversation v.seen
  wires : v.seen.map Prod.fst ++ (v.left ++ v.later.flatten) = peer
  decrypted : Decrypted c channel v.seen v.channel

theorem forLoop_eq_conversation {log : List (Bytes × Fate)} (h : ∀ e ∈ log, e.2.OfRelease) :
    forLoop log = conversation log := by
  apply List.filterMap_congr
  intro e he
  have hfate := h e he
  cases hcase : e.2 with
  | met plain =>
      rw [hcase] at hfate
      exact hfate.elim
  | kept plain => rfl
  | released plain => rfl
  | garbled => rfl

/-- On the receiving side nothing but the release exchange is kept from the loop. -/
theorem Accounted.lossless {channel : SecureChannel} {peer : List Bytes} {v : Wired Serve}
    (accounted : Accounted (Serve.loop c) channel peer v) :
    Lossless (Serve.loop c) channel peer v :=
  ⟨accounted.taken.trans (forLoop_eq_conversation accounted.fates), accounted.wires,
    accounted.decrypted⟩

end Wired

/-! ## A session on record -/

namespace OnRecord

open Link Link.Hello SecureMessage

/-- An offer of the network we are both on. -/
def path : Upgrade.UpgradePath :=
  { medium := .wifiLan
    wifi := none
    lan := some { ip := [192, 168, 1, 7], port := 5555 }
    supportsIntroductionAck := false
    supportsDisablingEncryption := false }

def acceptance : Bytes :=
  Frames.payloadData
    { id := 1, payloadType := .bytes, totalSize := (Sharing.response .accept).length }
    { flags := Frames.flagLastChunk, body := Sharing.response .accept }

def safe : Bytes :=
  Upgrade.safeToClosePrior Upgrade.staFrequencyNotSet

/-- A frame, its number, and what came of it under the keys of its sender. -/
structure Sealed where
  frame : Bytes
  number : Nat
  body : Bytes
  tag : Bytes

def Sealed.plain (s : Sealed) : Bytes :=
  d2dBytes s.number s.frame

def Sealed.signed (s : Sealed) : Bytes :=
  Protobuf.bytes hbHeader (headerBytes vector) ++ Protobuf.bytes hbBody s.body

def Sealed.wire (s : Sealed) : Bytes :=
  Protobuf.bytes smHeaderAndBody s.signed ++ Protobuf.bytes smSignature s.tag

def fromServer : List Sealed :=
  [⟨acceptance, 1,
      bigEndian 48 0x6931d2ad5415c65a5167b0566cb796a0116b9379dbee389eadcb78d4aa065b92e11159c4f0c94b3d34230b54bfafc065,
      bigEndian 32 0x2f67db32492f725358fd764378682719db5af015e19d5e88fb431287acf0f9a1⟩,
    ⟨Upgrade.pathAvailable path, 2,
      bigEndian 48 0x5c0425a1c4d723357665e9484a2417a21d921113e2cd1a7278fc2b626bee58d0a37a8973991fbe2120c51247ca05c0e4,
      bigEndian 32 0xd37cea3d41a831f4b57e3fddf712b247714bf2fb1fc59b36a19bd4a30c6d36f6⟩,
    ⟨safe, 3,
      bigEndian 32 0xc503c1a99f92523b279d58f156f734d58c2f25a5dc83820077d129e48adb3748,
      bigEndian 32 0xa1fd5d9807277b4de8de171981292d0a87b0394bcf24f49b2af6281fb73e8ef9⟩]

def fromClient : List Sealed :=
  [⟨Upgrade.pathRequest [.wifiDirect], 1,
      bigEndian 48 0x4b667a628d89422ab6bd65000ac3b90c090271b9d55247bd89ae7d1dfbf4ff59af1e618b74ff36e56e942ae87539a529,
      bigEndian 32 0x79b9a5f1695b79d922cd4b15db00c67e5157b1bd2a5d1abd020361e7628bc304⟩,
    ⟨safe, 2,
      bigEndian 32 0x16e0ff36b237f6acad42fb0e7c6d5199b359da5888cd9af9fdb274cd25853d17,
      bigEndian 32 0x3ce41e4cdfa40087530249555218c16601997e26178f734cd9f8a55488a8e85e⟩]

def record : Link.Record where
  tags := fromServer.map (fun s => (serverHmac, s.signed, s.tag)) ++
    fromClient.map (fun s => (clientHmac, s.signed, s.tag))
  bodies := fromServer.map (fun s => (serverEncrypt, vector, s.plain, s.body)) ++
    fromClient.map (fun s => (clientEncrypt, vector, s.plain, s.body))

abbrev crypto : Crypto :=
  record.crypto

/-- The channel at its first frame. -/
def channel (role : Role) : SecureChannel :=
  { keys := helloKeys, role := role }

def sender (left : List Bytes) : Wired Send :=
  .start (.init .bluetooth [threeBytesFile] samePeer) (channel .client) left []

/-- One step, with whether a frame arrives in it. -/
def sendStep (adopting : Adopting) (arrives : Bool) : (SendEnv × Adopting) × Bool :=
  (({}, adopting), arrives)

/-- Everything up to the peer's acceptance, and then the wait for its offer. -/
def sends (adopting : Adopting) : List ((SendEnv × Adopting) × Bool) :=
  List.replicate 5 (sendStep {} false) ++ [sendStep {} true, sendStep adopting false]

def receiver (left : List Bytes) : Wired Serve :=
  .start (.init .bluetooth (some Sharing.someFill) 1 ∅) (channel .server) left []

def serveStep (offering : Offering) (arrives : Bool) : (Env × Offering) × Bool :=
  (({}, offering), arrives)

/-- Our first frame, and the peer's request. -/
def serves (offering : Offering) : List ((Env × Offering) × Bool) :=
  [serveStep {} false, serveStep offering true]

def group : WifiGroup :=
  { ssid := "DIRECT-a".toList
    passphrase := "12345678".toList
    goAddress := "192.168.49.1".toList
    frequency := 5180 }

/-- A sender that joins and introduces itself. -/
def joins (release : List Poll) : Offering :=
  { port := 5555
    group := some group
    intro := .frame (Upgrade.clientIntroduction "ABCD".toList)
    release := release }

/-- A host that we join once its offer has come. -/
def joined (release : List Poll) : Adopting :=
  { endpointId := "ABCD".toList, waits := [(false, .arrives)], release := release }

def fromHost : List Bytes :=
  fromServer.map Sealed.wire

def fromJoiner : List Bytes :=
  fromClient.map Sealed.wire

/-- The steps on record in which the peer closes the old socket as it should. -/
abbrev receivesReleased (v : Wired Serve) (m : (Env × Offering) × Bool) : Prop :=
  Wired.released (Serve.loop crypto) v m = true

abbrev sendsReleased (u : Wired Send) (m : (SendEnv × Adopting) × Bool) : Prop :=
  Wired.released (Send.loop crypto) u m = true

end OnRecord

/-! ## After the LAST_WRITE -/

open Wired (start CalmStep ReleasedStep SaysNoMore Lossless Accounted onSocket)
open OnRecord (crypto sender receiver sends serves joined joins fromHost fromJoiner
  sendsReleased receivesReleased)

/-- **What follows a LAST_WRITE.**  Where no handover that the loop outlives goes wrong
between its LAST_WRITE and the end of the release exchange, a socket that a LAST_WRITE
went to carries our SAFE_TO_CLOSE after it, and nothing else. -/
theorem only_safe_after_last_write {c : Crypto} {channel channel' : SecureChannel}
    {left left' : List Bytes} {later later' : List (List Bytes)}
    {bootstrap bootstrap' : Upgrade.Medium} {fill : Option Sharing.RandomFill} {id : Int}
    {inbox : HashMap Text Bytes} {files : List OutFile} {handshake : Handshake}
    {serving : List ((Env × Offering) × Bool)} {sending : List ((SendEnv × Adopting) × Bool)}
    {v : Wired Serve} {u : Wired Send}
    (served : Lts.Run (CalmStep (Serve.loop c))
      (start (.init bootstrap fill id inbox) channel left later) serving v)
    (sent : Lts.Run (CalmStep (Send.loop c))
      (start (.init bootstrap' files handshake) channel' left' later') sending u) :
    SaysNoMore v.wrote ∧ SaysNoMore u.wrote :=
  ⟨Wired.says_no_more rfl rfl served, Wired.says_no_more rfl rfl sent⟩

/-- An adoption whose release exchange waits in vain. -/
theorem adoptCalm_quiet {c : Crypto} {e : Adopting} {path : Upgrade.UpgradePath} {m : Moving}
    (hrelease : e.release = [] ∨ e.release = [.quiet]) (hgoes : e.safeGoes = true) :
    AdoptCalm c e path m := by
  intro n _
  refine ⟨?_, hgoes⟩
  rcases hrelease with h | h <;> simp [h, Undisturbed]

/-- `wait_for_upgrade` is calm where every adoption is. -/
theorem waitCalm_of_adopt {c : Crypto} {e : Adopting}
    (h : ∀ path m, AdoptCalm c e path m) (waits : List (Bool × Poll)) (m : Moving) :
    WaitCalm c e waits m := by
  induction waits generalizing m with
  | nil => trivial
  | cons wait waits ih =>
      obtain ⟨cancelled, p⟩ := wait
      cases cancelled with
      | true => trivial
      | false =>
          unfold WaitCalm
          split
          · trivial
          · trivial
          · exact ih _
          · split
            · trivial
            · exact fun path _ => .inl (h path _)
            · exact ih _

theorem sendCalm_of_adopt {c : Crypto} {m : SendEnv × Adopting}
    (h : ∀ path n, AdoptCalm c m.2 path n) (w : Send) (n : Moving) : Send.Calm c w m n := by
  unfold Send.Calm
  split
  · exact waitCalm_of_adopt h _ _
  · exact fun body _ path _ => .inl (h path _)

/-- Two handovers in which nobody releases us. -/
theorem quiet_releases_say_no_more :
    ∃ (v : Wired Serve) (u : Wired Send), SaysNoMore v.wrote ∧ SaysNoMore u.wrote ∧
      (Upgrade.lastWriteToPrior ∈ onSocket 0 v.wrote ∧ v.socket = 1) ∧
      Upgrade.lastWriteToPrior ∈ onSocket 0 u.wrote ∧ u.socket = 1 := by
  obtain ⟨v, served, hv⟩ := Lts.run_observe (Wired.step (Serve.loop crypto))
    (fun v => (decide (Upgrade.lastWriteToPrior ∈ onSocket 0 v.wrote), v.socket))
    (show ((serves (joins [.quiet])).foldlM (Wired.step (Serve.loop crypto))
        (receiver fromJoiner)).map _ =
      some (true, 1) by decide +kernel)
  obtain ⟨u, sent, hu⟩ := Lts.run_observe (Wired.step (Send.loop crypto))
    (fun u => (decide (Upgrade.lastWriteToPrior ∈ onSocket 0 u.wrote), u.socket))
    (show ((sends (joined [.quiet])).foldlM (Wired.step (Send.loop crypto))
        (sender fromHost)).map _ =
      some (true, 1) by decide +kernel)
  obtain ⟨hlast, hsocket⟩ := Prod.mk.inj hv
  obtain ⟨hlast', hsocket'⟩ := Prod.mk.inj hu
  have calm : ∀ m ∈ serves (joins [.quiet]), ∀ v, Wired.Calm (Serve.loop crypto) v m := by
    intro m hm v _ _ n _
    simp only [serves, List.mem_cons, List.not_mem_nil, or_false] at hm
    rcases hm with rfl | rfl <;> exact ⟨trivial, rfl⟩
  have calm' : ∀ m ∈ sends (joined [.quiet]), ∀ u, Wired.Calm (Send.loop crypto) u m := by
    intro m hm u _
    apply sendCalm_of_adopt
    intro path n
    simp only [sends, List.mem_append, List.mem_replicate, List.mem_cons, List.not_mem_nil,
      or_false] at hm
    rcases hm with ⟨-, rfl⟩ | rfl | rfl
    · exact adoptCalm_quiet (.inl rfl) rfl
    · exact adoptCalm_quiet (.inl rfl) rfl
    · exact adoptCalm_quiet (.inr rfl) rfl
  obtain ⟨hafter, hafter'⟩ :=
    only_safe_after_last_write (served.to_restrict calm) (sent.to_restrict calm')
  exact ⟨v, u, hafter, hafter', ⟨of_decide_eq_true hlast, hsocket⟩, of_decide_eq_true hlast',
    hsocket'⟩

/-- The old socket breaks once our LAST_WRITE is out, with a frame that does not decrypt,
and an UPGRADE_FAILURE goes out on it. -/
theorem failure_after_last_write :
    ∃ u, Lts.Run (Lts.ofPartial (Wired.step (Send.loop crypto)))
        (sender (fromHost.take 2 ++ [[0]])) (sends (joined [.arrives])) u ∧
      ¬ SaysNoMore u.wrote := by
  obtain ⟨u, sent, hu⟩ := Lts.run_observe (Wired.step (Send.loop crypto))
    (fun u => (onSocket 0 u.wrote).drop 7)
    (show ((sends (joined [.arrives])).foldlM (Wired.step (Send.loop crypto))
        (sender (fromHost.take 2 ++ [[0]]))).map _ =
      some [Upgrade.lastWriteToPrior, Upgrade.failure] by decide +kernel)
  refine ⟨u, sent, fun hafter => ?_⟩
  have hsplit : onSocket 0 u.wrote =
      (onSocket 0 u.wrote).take 7 ++ Upgrade.lastWriteToPrior :: [Upgrade.failure] := by
    rw [← hu]
    exact (List.take_append_drop 7 _).symm
  rcases hafter 0 _ _ hsplit with habs | habs
  · cases habs
  · exact absurd habs (by decide)

/-! ## The conversation -/

theorem Serve.init_deferred (bootstrap : Upgrade.Medium) (fill : Option Sharing.RandomFill)
    (id : Int) (inbox : HashMap Text Bytes) :
    (Serve.init bootstrap fill id inbox).deferred = [] := by
  unfold init
  split
  rfl

theorem Send.init_deferred (bootstrap : Upgrade.Medium) (files : List OutFile)
    (handshake : Handshake) : (Send.init bootstrap files handshake).deferred = [] := by
  unfold init
  dsimp only
  split
  · rfl
  · split
    · rfl
    · rfl

/-- **What the loop has had of the peer.**  Provided that the peer writes nothing on the
old socket after a SAFE_TO_CLOSE that the handover has had, the receiving loop takes all
the frames of the conversation, in order and each once.  On the sending side the frame
that `wait_for_upgrade` ends on is handled there, and is not the loop's. -/
theorem conversation_kept {c : Crypto} {channel channel' : SecureChannel}
    {left left' : List Bytes} {later later' : List (List Bytes)}
    {bootstrap bootstrap' : Upgrade.Medium} {fill : Option Sharing.RandomFill} {id : Int}
    {inbox : HashMap Text Bytes} {files : List OutFile} {handshake : Handshake}
    {serving : List ((Env × Offering) × Bool)} {sending : List ((SendEnv × Adopting) × Bool)}
    {v : Wired Serve} {u : Wired Send}
    (served : Lts.Run (ReleasedStep (Serve.loop c))
      (start (.init bootstrap fill id inbox) channel left later) serving v)
    (sent : Lts.Run (ReleasedStep (Send.loop c))
      (start (.init bootstrap' files handshake) channel' left' later') sending u) :
    Lossless (Serve.loop c) channel (left ++ later.flatten) v ∧
      Accounted (Send.loop c) channel' (left' ++ later'.flatten) u := by
  have received := Wired.accounted_run (Serve.init_deferred bootstrap fill id inbox) rfl rfl served
  have heard := Wired.accounted_run (Send.init_deferred bootstrap' files handshake) rfl rfl sent
  exact ⟨Wired.Accounted.lossless received, heard⟩

/-- Two handovers that move the conversation. -/
theorem conversations_move :
    ∃ (v : Wired Serve) (u : Wired Send),
      (Lossless (Serve.loop crypto) (OnRecord.channel .server) (fromJoiner ++ []) v ∧
        v.socket = 1) ∧
      Accounted (Send.loop crypto) (OnRecord.channel .client) (fromHost ++ []) u ∧
        u.socket = 1 := by
  obtain ⟨v, served, hv⟩ := Lts.run_observe
    (Lts.guarded (Wired.step (Serve.loop crypto)) receivesReleased) Wired.socket
    (show ((serves (joins [.arrives])).foldlM (Lts.guarded (Wired.step (Serve.loop crypto))
        receivesReleased) (receiver fromJoiner)).map _ = some 1 by decide +kernel)
  obtain ⟨u, sent, hu⟩ := Lts.run_observe
    (Lts.guarded (Wired.step (Send.loop crypto)) sendsReleased) Wired.socket
    (show ((sends (joined [.arrives])).foldlM (Lts.guarded (Wired.step (Send.loop crypto))
        sendsReleased) (sender fromHost)).map _ = some 1 by decide +kernel)
  obtain ⟨hserved, hsent⟩ := conversation_kept served.of_guarded sent.of_guarded
  exact ⟨v, u, ⟨hserved, hv⟩, hsent, hu⟩

/-- The offer that `wait_for_upgrade` comes upon does not reach the loop. -/
theorem offer_not_taken :
    ∃ u, Lts.Run (ReleasedStep (Send.loop crypto)) (sender fromHost)
        (sends (joined [.arrives])) u ∧
      ¬ Lossless (Send.loop crypto) (OnRecord.channel .client) fromHost u := by
  obtain ⟨u, sent, hu⟩ := Lts.run_observe
    (Lts.guarded (Wired.step (Send.loop crypto)) sendsReleased)
    (fun u => decide (u.processed ++ u.loop.deferred = Wired.conversation u.seen))
    (show ((sends (joined [.arrives])).foldlM (Lts.guarded (Wired.step (Send.loop crypto))
        sendsReleased) (sender fromHost)).map _ = some false by decide +kernel)
  refine ⟨u, sent.of_guarded, fun lossless => ?_⟩
  exact of_decide_eq_false hu lossless.taken

end Quickshare
