import TarishDaemon.Quickshare.Serve
import TarishDaemon.Sharingd.Ask
import TarishDaemon.Sharingd.Names

/-!
# What a prompt shows

`onTransferOffered` is called in three places: by `offered` for an `/Ask`, by
`serve` when it announces an introduction, and by `QsHost::ask` when it waits for
the person's answer.  Each passes the name of a sender and the names of the files
to every registered client.

`describe_offer` refuses a body with a name that is not safe to show.  On the
other side the name of the sender comes from the endpoint info, which is tried for
control characters only, or from the endpoint name, which is trimmed, and the names
of the files come out of the introduction as the peer wrote them.
-/

namespace Sharingd

open Rust Quickshare
open Protocol.Frames (ConnectionRequest)
open Protocol.Sharing (Introduction FileMetadata)

/-! ## Text that is safe to show -/

/-- A number in decimal is safe to show. -/
theorem displaySafe_toDigits (n : Nat) : displaySafe (Nat.toDigits 10 n) = true := by
  rw [displaySafe_iff]
  intro c hc
  obtain ⟨d, hd, rfl⟩ := mem_toDigits (by omega) hc
  exact isShowable_digitChar hd

/-- An address in dotted form. -/
def dotted (a b c d : UInt8) : Text :=
  Nat.toDigits 10 a.toNat ++ ['.'] ++ Nat.toDigits 10 b.toNat ++ ['.'] ++
    Nat.toDigits 10 c.toNat ++ ['.'] ++ Nat.toDigits 10 d.toNat

theorem displaySafe_dotted (a b c d : UInt8) : displaySafe (dotted a b c d) = true := by
  have hdot : displaySafe ['.'] = true := by decide
  simp only [dotted, displaySafe_append, displaySafe_toDigits, hdot, and_self]

/-- Without a control character only an override is left to look for. -/
theorem displaySafe_of_noControl {t : Text} (plain : t.any isControl = false) :
    displaySafe t = true ↔ t.any isOverride = false := by
  simp only [List.any_eq_false] at plain ⊢
  rw [displaySafe_iff]
  refine forall₂_congr fun c hc => ?_
  have hnul : c.toNat ≠ 0 := by
    intro hzero
    exact plain c hc (by simp [isControl, hzero])
  simp [isShowable, plain c hc, hnul]

/-! ## The names a peer is shown under -/

/-- Where the length of the name stands in the endpoint info. -/
def nameLenAt : Nat := 17

/-- The device name out of an endpoint info, where the peer published one. -/
def nameFromInfo (info : Bytes) : Option Text := do
  let len := (← info[nameLenAt]?).toNat
  let start := nameLenAt + 1
  if len = 0 ∨ info.length < start + len then none
  else
    let name := fromUtf8Lossy ((info.drop start).take len)
    if name.any isControl then none else some name

/-- The name `serve` shows: out of the endpoint info, or else the endpoint name. -/
def peerName (req : ConnectionRequest) : Text :=
  let trimmed := trim req.endpointName
  ((nameFromInfo req.endpointInfo).or (if trimmed ≠ [] then some trimmed else none)).getD
    "A nearby device".toList

/-- What `QsHost` has for a peer.  The listener is bound to `0.0.0.0`, so an address
has four parts. -/
inductive Peer
  /-- It came over Bluetooth, or its address could not be read. -/
  | nearby
  | ip (a b c d : UInt8)
  deriving DecidableEq, Repr

def Peer.name : Peer → Text
  | .nearby => "a nearby device".toList
  | .ip a b c d => dotted a b c d

/-! ## The three places -/

/-- What one call of `onTransferOffered` shows. -/
structure Prompt where
  sender : Text
  names : List Text
  deriving DecidableEq, Repr

def Prompt.Safe (p : Prompt) : Prop :=
  displaySafe p.sender = true ∧ ∀ n ∈ p.names, displaySafe n = true

/-- The prompts for an `/Ask` that took the slot: nobody is asked about a body that is
refused, or where the policy accepts by itself. -/
def offered (autoAccept : Bool) (clients : Nat) (body : Bytes) : List Prompt :=
  match describeOffer body with
  | none => []
  | some (sender, names) =>
      if autoAccept then [] else List.replicate clients ⟨sender, names⟩

def fileNames (intro : Introduction) : List Text := intro.files.map (·.name)

/-- The prompts of `serve`, before it asks. -/
def announced (clients : Nat) (req : ConnectionRequest) (intro : Introduction) : List Prompt :=
  List.replicate clients ⟨peerName req, fileNames intro⟩

/-- The prompts of `QsHost::ask`. -/
def asked (q : Asking) (peer : Peer) (intro : Introduction) : List Prompt :=
  if q.autoAccept then [] else List.replicate q.clients ⟨peer.name, fileNames intro⟩

/-! ## What is shown for an `/Ask` -/

/-- **An offer that is put to the person is safe to show.** -/
theorem describeOffer_safe {body : Bytes} {sender : Text} {names : List Text}
    (h : describeOffer body = some (sender, names)) : (Prompt.mk sender names).Safe := by
  rw [describeOffer] at h
  cases hparse : Plist.parse body with
  | none =>
      rw [hparse] at h
      cases h
      exact ⟨rfl, fun n hn => absurd hn List.not_mem_nil⟩
  | some v =>
      rw [hparse] at h
      dsimp only at h
      split at h
      next => cases h
      next shown hnames =>
        split at h
        next => cases h
        next hsafe =>
          cases h
          rw [Bool.not_eq_true', Bool.not_eq_false] at hsafe
          refine ⟨hsafe, ?_⟩
          split at hnames
          next items => exact offeredNames_shown hnames
          next =>
            cases hnames
            exact fun n hn => absurd hn List.not_mem_nil

theorem offered_safe (autoAccept : Bool) (clients : Nat) (body : Bytes) :
    ∀ p ∈ offered autoAccept clients body, p.Safe := by
  intro p hp
  rw [offered] at hp
  cases hoffer : describeOffer body with
  | none =>
      rw [hoffer] at hp
      cases hp
  | some offer =>
      obtain ⟨sender, names⟩ := offer
      rw [hoffer] at hp
      dsimp only at hp
      split at hp
      next => cases hp
      next =>
        rw [List.eq_of_mem_replicate hp]
        exact describeOffer_safe hoffer

/-! ## What is shown for an introduction -/

theorem nameFromInfo_noControl {info : Bytes} {name : Text} (h : nameFromInfo info = some name) :
    name.any isControl = false := by
  unfold nameFromInfo at h
  obtain ⟨len, -, h⟩ := Option.bind_eq_some_iff.mp h
  dsimp only at h
  split at h
  next => cases h
  next =>
    split at h
    next => cases h
    next hplain =>
      cases h
      simpa using hplain

/-- What the name in a connection request has to be like: the one in the endpoint
info without an override, or else the endpoint name safe as it is trimmed. -/
def Showable (req : ConnectionRequest) : Prop :=
  match nameFromInfo req.endpointInfo with
  | some name => name.any isOverride = false
  | none => displaySafe (trim req.endpointName) = true

theorem peerName_safe_iff (req : ConnectionRequest) :
    displaySafe (peerName req) = true ↔ Showable req := by
  unfold peerName Showable
  cases hinfo : nameFromInfo req.endpointInfo with
  | some name => exact displaySafe_of_noControl (nameFromInfo_noControl hinfo)
  | none =>
      by_cases hempty : trim req.endpointName = []
      · rw [hempty]
        decide
      · simp [hempty]

theorem Peer.name_safe (peer : Peer) : displaySafe peer.name = true := by
  cases peer with
  | nearby => decide
  | ip a b c d => exact displaySafe_dotted a b c d

def FilesShowable (intro : Introduction) : Prop :=
  ∀ f ∈ intro.files, displaySafe f.name = true

theorem fileNames_safe_iff (intro : Introduction) :
    (∀ n ∈ fileNames intro, displaySafe n = true) ↔ FilesShowable intro := by
  simp [fileNames, FilesShowable]

theorem replicate_safe_iff (clients : Nat) (p : Prompt) :
    (∀ q ∈ List.replicate clients p, q.Safe) ↔ clients = 0 ∨ p.Safe := by
  grind

theorem announced_safe_iff (clients : Nat) (req : ConnectionRequest) (intro : Introduction) :
    (∀ p ∈ announced clients req intro, p.Safe) ↔
      clients = 0 ∨ Showable req ∧ FilesShowable intro := by
  rw [announced, replicate_safe_iff, Prompt.Safe, peerName_safe_iff, fileNames_safe_iff]

theorem asked_safe_iff (q : Asking) (peer : Peer) (intro : Introduction) :
    (∀ p ∈ asked q peer intro, p.Safe) ↔
      q.autoAccept = true ∨ q.clients = 0 ∨ FilesShowable intro := by
  unfold asked
  cases q.autoAccept with
  | true => simp
  | false =>
      rw [if_neg (by decide), replicate_safe_iff, Prompt.Safe, fileNames_safe_iff]
      simp [peer.name_safe]

/-- **Which prompts are safe to show**: every one for an `/Ask`; for an introduction
those alone whose names a peer wrote without a control character and without an
override, unless there is nobody they are shown to. -/
theorem prompts_safe_iff (autoAccept : Bool) (clients listening : Nat) (body : Bytes)
    (req : ConnectionRequest) (q : Asking) (peer : Peer) (intro : Introduction) :
    (∀ p ∈ offered autoAccept clients body ++ announced listening req intro ++
        asked q peer intro, p.Safe) ↔
      (listening = 0 ∨ Showable req ∧ FilesShowable intro) ∧
        (q.autoAccept = true ∨ q.clients = 0 ∨ FilesShowable intro) := by
  have hoffered := offered_safe autoAccept clients body
  have hannounced := announced_safe_iff listening req intro
  have hasked := asked_safe_iff q peer intro
  grind

/-- A photo, as it is displayed. -/
def turnedName : FileMetadata := { name := "photo\u202Egpj.exe".toList }

/-- The name of an executable is shown in the prompt as the name of a photo. -/
theorem turnedName_shown :
    ¬ ∀ (autoAccept : Bool) (clients listening : Nat) (body : Bytes) (req : ConnectionRequest)
      (q : Asking) (peer : Peer) (intro : Introduction),
      ∀ p ∈ offered autoAccept clients body ++ announced listening req intro ++
        asked q peer intro, p.Safe := by
  intro claim
  have hshown := claim true 0 1 [] {} {} .nearby { files := [turnedName] }
    ⟨peerName {}, fileNames { files := [turnedName] }⟩ (by simp [announced])
  have hname : displaySafe turnedName.name = true := hshown.2 _ (by simp [fileNames])
  exact absurd hname (by decide)

/-- A name of one override, in the endpoint info. -/
example : nameFromInfo (List.replicate 17 0 ++ [3, 0xE2, 0x80, 0xAE]) = some ['\u202E'] := by
  decide

end Sharingd
