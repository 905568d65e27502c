import TarishDaemon.Quickshare.Deliver
import TarishDaemon.Quickshare.MovingTalk

/-!
# What a handover buffers

While `offer_group` runs, the frames it reads from the old socket are queued for the
main loop.  `drain_old` counts them against a cap and stops reading at it, over both
of its waits (`drainOld_metered`).  The release loop queues as well and counts
nothing, so the cap holds for the call exactly where what that loop keeps still fits
(`offerGroup_bounded_iff`).
-/

namespace Quickshare

open Rust Protocol Fallible
open Protocol.Upgrade (Channel UpgradePath)

/-! ## Bytes of a queue -/

def bytesOf (frames : List Bytes) : Nat :=
  (frames.map List.length).sum

/-- The length of the longest frame. -/
def longest (frames : List Bytes) : Nat :=
  (frames.map List.length).foldr max 0

@[simp]
theorem bytesOf_append (frames more : List Bytes) :
    bytesOf (frames ++ more) = bytesOf frames + bytesOf more := by
  simp [bytesOf]

theorem bytesOf_single (frame : Bytes) : bytesOf [frame] = frame.length := by
  simp [bytesOf]

@[simp]
theorem longest_append (frames more : List Bytes) :
    longest (frames ++ more) = max (longest frames) (longest more) := by
  induction frames with
  | nil => simp [longest]
  | cons frame frames ih =>
      simp only [longest, List.cons_append, List.map_cons, List.foldr_cons] at ih ⊢
      rw [ih, max_assoc]

theorem longest_single (frame : Bytes) : longest [frame] = frame.length := by
  simp [longest]

theorem longest_replicate_le (n : Nat) (frame : Bytes) :
    longest (List.replicate n frame) ≤ frame.length := by
  induction n with
  | zero => exact Nat.zero_le _
  | succ n ih =>
      rw [List.replicate_succ', longest_append, longest_single]
      exact max_le ih (Nat.le_refl _)

theorem bytesOf_replicate (n : Nat) (frame : Bytes) :
    bytesOf (List.replicate n frame) = n * frame.length := by
  simp [bytesOf]

/-- At most the cap, and one frame. -/
def Bounded (frames : List Bytes) : Prop :=
  bytesOf frames ≤ handoverDeferCap + longest frames

/-! ## The drains -/

section Drains

variable {c : Crypto} {p : Poll}

/-- Every queued byte is counted, and they keep to the cap. -/
structure Metered (m : Moving) : Prop where
  held : m.held = bytesOf m.deferred
  bounded : Bounded m.deferred

/-- A frame is queued and counted, below the cap. -/
theorem Metered.push {m m' : Moving} (metered : Metered m) (below : m.held < handoverDeferCap)
    {plain : Bytes} (hdeferred : m'.deferred = m.deferred ++ [plain])
    (hheld : m'.held = m.held + plain.length) : Metered m' := by
  obtain ⟨held, bounded⟩ := metered
  have hsum : bytesOf m'.deferred = bytesOf m.deferred + plain.length := by
    rw [hdeferred, bytesOf_append, bytesOf_single]
  refine ⟨by omega, ?_⟩
  have hlong : plain.length ≤ longest m'.deferred := by
    rw [hdeferred, longest_append, longest_single]
    exact le_max_right _ _
  unfold Bounded
  omega

theorem Metered.of_eq {m m' : Moving} (metered : Metered m) (hdeferred : m'.deferred = m.deferred)
    (hheld : m'.held = m.held) : Metered m' := by
  refine ⟨?_, ?_⟩
  · rw [hdeferred, hheld]
    exact metered.held
  · rw [hdeferred]
    exact metered.bounded

/-- What a wait does to the queue. -/
theorem nextWithin_queue (judge : Bytes → Fate) (m : Moving) :
    Ends (nextWithin c judge p) m fun r m' =>
      m'.held = m.held ∧ m'.deferred = m.deferred ++
        match r with
        | some (.frame plain) => (judge plain).forLoop.toList
        | _ => [] := by
  unfold Ends nextWithin
  split
  · exact ⟨rfl, (List.append_nil _).symm⟩
  · exact ⟨rfl, (List.append_nil _).symm⟩
  · exact ⟨rfl, (List.append_nil _).symm⟩
  · split
    · exact ⟨rfl, rfl⟩
    · exact ⟨rfl, rfl⟩

/-- A step keeps to the cap. -/
def Caps (m m' : Moving) : Prop :=
  Metered m → Metered m'

theorem Caps.refl (m : Moving) : Caps m m :=
  id

theorem Caps.trans {m m' m'' : Moving} (h : Caps m m') (h' : Caps m' m'') : Caps m m'' :=
  h' ∘ h

theorem write_caps (goes : Bool) (on : Channel) (frame : Bytes) :
    Keeps Caps (write goes on frame) := by
  intro m metered
  unfold write
  split
  · exact metered.of_eq rfl rfl
  · exact metered

/-- **The drains keep to the cap.** -/
theorem drainOld_metered (polls : List Poll) (spent : Bool) :
    Keeps Caps (drainOld c polls spent) := by
  induction polls generalizing spent with
  | nil => exact keeps_pure Caps.refl ()
  | cons p polls ih =>
      intro m metered
      change Ends (drainOld c (p :: polls) spent) m fun _ m' => Metered m'
      unfold drainOld
      rw [ends_bind, ends_get]
      dsimp only
      split
      · exact ih spent m metered
      next reading =>
        have below : m.held < handoverDeferCap := by
          simp only [Bool.or_eq_true, decide_eq_true_eq, not_or, Nat.not_le] at reading
          exact reading.2
        apply (nextWithin_queue .kept m).bind
        · intro got n hgot
          obtain ⟨hheld, hdeferred⟩ := hgot
          cases got with
          | quiet => exact ih spent n (metered.of_eq (by simpa using hdeferred) hheld)
          | broke => exact ih true n (metered.of_eq (by simpa using hdeferred) hheld)
          | frame plain =>
              dsimp only
              rw [ends_bind, ends_modify]
              apply ih spent
              exact metered.push below hdeferred (by rw [← hheld])
        · intro n hgot
          exact metered.of_eq (by simpa using hgot.2) hgot.1

theorem offerPath_metered (e : Offering) : Keeps Caps (offerPath c e) :=
  offerPath_keeps Caps.refl Caps.trans write_caps (fun polls => drainOld_metered polls false) e

end Drains

/-! ## The release loop -/

/-- The frames the release loop keeps for the main loop. -/
def releaseKept (c : Crypto) : List Poll → SecureChannel → List Bytes → List Bytes
  | [], _, _ | .quiet :: _, _, _ | .broke :: _, _, _ | .arrives :: _, _, [] => []
  | .arrives :: polls, channel, wire :: left =>
      match channel.decrypt c wire with
      | (.error _, _) => []
      | (.ok plain, channel) =>
          match Upgrade.read plain with
          | some (.safeToClosePrior _) => []
          | some .lastWriteToPrior => releaseKept c polls channel left
          | _ => plain :: releaseKept c polls channel left

variable {c : Crypto}

theorem releaseHost_queue (polls : List Poll) (m : Moving) :
    Ends (releaseHost c polls) m fun _ m' =>
      m'.deferred = m.deferred ++ releaseKept c polls m.channel m.left := by
  induction polls generalizing m with
  | nil => exact (List.append_nil _).symm
  | cons p polls ih =>
      unfold releaseHost
      rw [ends_bind]
      unfold Ends nextWithin
      cases p with
      | quiet => exact (List.append_nil _).symm
      | broke => exact (List.append_nil _).symm
      | arrives =>
          cases hleft : m.left with
          | nil => exact (List.append_nil _).symm
          | cons wire left =>
              dsimp only [releaseKept]
              rcases hopen : m.channel.decrypt c wire with ⟨result, channel⟩
              cases result with
              | error e => rfl
              | ok plain =>
                  have hrest : ∀ fate, Ends (releaseHost c polls) (m.take channel left wire fate)
                      fun _ m' => m'.deferred = m.deferred ++
                        (fate.forLoop.toList ++ releaseKept c polls channel left) := by
                    intro fate
                    rw [← List.append_assoc]
                    exact ih (m.take channel left wire fate)
                  dsimp only
                  unfold releaseFate
                  generalize Upgrade.read plain = read
                  cases read with
                  | none => exact hrest (.kept plain)
                  | some frame =>
                      cases frame with
                      | safeToClosePrior _ => rfl
                      | lastWriteToPrior => exact hrest (.released plain)
                      | _ => exact hrest (.kept plain)

/-- What `offer_group` queues: what was read up to the LAST_WRITE, and what the release loop
keeps. -/
theorem offerGroup_queue (e : Offering) (m : Moving) :
    (offerGroup c e m).2.deferred = (offerPath c e m).2.deferred ++
      if (offerPath c e m).1 = some true then
        releaseKept c e.release (offerPath c e m).2.channel (offerPath c e m).2.left
      else [] := by
  have hpath : Ends (offerPath c e) m fun r n => offerPath c e m = (r, n) := rfl
  change Ends (offerGroup c e) m fun _ m' => m'.deferred = _
  apply hpath.bind
  · intro there n heq
    rw [heq]
    cases there with
    | false => exact (List.append_nil _).symm
    | true =>
        rw [if_pos rfl]
        have hwritten : Keeps (fun m m' : Moving => m'.deferred = m.deferred) (do
            write e.safeGoes .old (Upgrade.safeToClosePrior Upgrade.staFrequencyNotSet)
            moveOver
            return true) := by
          intro t
          unfold write
          split
          · rfl
          · rfl
        apply (releaseHost_queue e.release n).bind
        · intro _ t hkept
          exact (hwritten t).trans hkept
        · intro t hkept
          exact hkept
  · intro n heq
    rw [heq]
    exact (List.append_nil _).symm

/-- What the release loop keeps fits in what the drains have left of the cap, and one frame. -/
def ReleaseFits (c : Crypto) (e : Offering) (m : Moving) : Prop :=
  ∀ n, offerPath c e m = (some true, n) →
    n.held + bytesOf (releaseKept c e.release n.channel n.left) ≤
      handoverDeferCap + longest (n.deferred ++ releaseKept c e.release n.channel n.left)

/-- **The buffer of a handover.**  Whatever the peer has written, the bytes queued keep to the
cap and one frame if and only if the release loop is not reached or what it keeps fits. -/
theorem offerGroup_bounded_iff (c : Crypto) (e : Offering) (channel : SecureChannel)
    (left : List Bytes) :
    Bounded (offerGroup c e { channel := channel, left := left }).2.deferred ↔
      ReleaseFits c e { channel := channel, left := left } := by
  have start : Metered { channel := channel, left := left } := ⟨rfl, Nat.zero_le _⟩
  have path := offerPath_metered (c := c) e _ start
  rw [offerGroup_queue]
  generalize { channel := channel, left := left : Moving } = m at path ⊢
  unfold ReleaseFits
  rcases hpath : offerPath c e m with ⟨there, n⟩
  rw [hpath] at path
  by_cases hthere : there = some true
  · subst hthere
    rw [if_pos rfl]
    constructor
    · intro bounded n' hn
      cases hn
      rw [path.held, ← bytesOf_append]
      exact bounded
    · intro fits
      have hfits := fits n rfl
      rw [path.held, ← bytesOf_append] at hfits
      exact hfits
  · rw [if_neg hthere, List.append_nil]
    constructor
    · intro _ n' hn
      cases hn
      exact absurd rfl hthere
    · intro _
      exact path.bounded

/-! ## A flood after the LAST_WRITE -/

section Flood

variable {far near : SecureChannel} {iv plain : Bytes}

/-- `n` copies of a frame, sealed one after another. -/
def sealCopies (c : Crypto) (iv plain : Bytes) : Nat → SecureChannel → List Bytes
  | 0, _ => []
  | n + 1, channel =>
      (channel.encrypt c (some iv) plain).1.toOption.toList ++
        sealCopies c iv plain n (channel.encrypt c (some iv) plain).2

/-- A frame that is no upgrade frame is kept as often as it comes. -/
theorem releaseKept_sealCopies (ideal : c.Ideal) (hkeys : near.keys = far.keys)
    (hrole : far.role = near.role.peer) (hseq : near.recvSeq = far.sendSeq)
    (hkey : (far.keys.send far.role).1.length = 32) (hiv : iv.length = 16)
    (hread : Upgrade.read plain = none) (hlen : plain.length + 300 < Framing.maxFrame) (n : Nat) :
    (∀ wire ∈ sealCopies c iv plain n far, wire.length < Framing.maxFrame) ∧
      releaseKept c (List.replicate n .arrives) near (sealCopies c iv plain n far) =
        List.replicate n plain := by
  induction n generalizing far near with
  | zero => exact ⟨by simp [sealCopies], rfl⟩
  | succ n ih =>
      obtain ⟨wire, hwire, -, hgrown⟩ := SecureChannel.encrypt_ideal ideal hkey hiv plain
      have hmax : Framing.maxFrame < 2 ^ 64 := by decide
      have hd2d : (SecureMessage.d2dBytes (nextSeq far.sendSeq) plain).length < 2 ^ 64 := by
        have hmessage := Protobuf.bytes_length_le SecureMessage.d2dMessage plain
        have hnumber := Protobuf.varint_length_le SecureMessage.d2dSequenceNumber
          (toU64 (nextSeq far.sendSeq))
        rw [SecureMessage.d2dBytes, List.length_append]
        omega
      have hopen := SecureChannel.decrypt_encrypt ideal.inverse hkeys hrole hseq hwire hd2d
        (by omega)
      have hsnd := SecureChannel.encrypt_snd (c := c) far (some iv) plain
      have hcopies : sealCopies c iv plain (n + 1) far =
          wire :: sealCopies c iv plain n { far with sendSeq := nextSeq far.sendSeq } := by
        rw [sealCopies, hwire, hsnd]
        rfl
      obtain ⟨hsmall, hkept⟩ := @ih { far with sendSeq := nextSeq far.sendSeq }
        { near with recvSeq := nextSeq near.recvSeq } hkeys hrole (by rw [hseq]) hkey
      rw [hcopies, List.replicate_succ, List.replicate_succ]
      constructor
      · intro w hw
        rcases List.mem_cons.mp hw with rfl | hw
        · omega
        · exact hsmall w hw
      · simp only [releaseKept, hopen, hread, hkept]

/-- A frame with `size` bytes of a file. -/
def fileFrame (size : Nat) : Bytes :=
  Frames.payloadData { id := 1, payloadType := .file, totalSize := 0, fileName := [] }
    { offset := 0, flags := 0, body := List.replicate size 0 }

theorem length_fileFrame (size : Nat) :
    size ≤ (fileFrame size).length ∧ (fileFrame size).length ≤ size + 400 := by
  have hle := Frames.body_length_le
    { id := 1, payloadType := .file, totalSize := 0, fileName := [] }
    { offset := 0, flags := 0, body := List.replicate size 0 }
  have hge := Frames.payloadData_length_le
    { id := 1, payloadType := .file, totalSize := 0, fileName := [] }
    { offset := 0, flags := 0, body := List.replicate size 0 }
  rw [List.length_replicate] at hle hge
  exact ⟨hle, hge⟩

theorem read_fileFrame {size : Nat} (h : size < 2 ^ 63) : Upgrade.read (fileFrame size) = none := by
  have hlen := (length_fileFrame size).2
  have hheader : Frames.PayloadHeader.Fits
      { id := 1, payloadType := .file, totalSize := 0, fileName := [] } := by
    simp [Frames.PayloadHeader.Fits]
  have hchunk : Frames.PayloadChunk.Fits
      { offset := 0, flags := 0, body := List.replicate size 0 } := by
    simp [Frames.PayloadChunk.Fits]
  have hparse := Frames.parse_payloadData _ _ hheader hchunk (by
    change (fileFrame size).length < 2 ^ 64
    omega)
  unfold Upgrade.read fileFrame
  rw [hparse]

open Link.Hello in
/-- The sender's end of a session, and ours. -/
def senderEnd : SecureChannel := { keys := helloKeys, role := .client }

open Link.Hello in
def ourEnd : SecureChannel := { keys := helloKeys, role := .server }

/-- The sender joins at once, and does not stop sending the file. -/
def floodedOffer : Offering where
  group := some { ssid := [], passphrase := [], goAddress := [], frequency := 0 }
  intro := .frame (Upgrade.clientIntroduction [])
  release := List.replicate 20 .arrives

theorem offerPath_floodedOffer (left : List Bytes) :
    ∃ wrote, offerPath c floodedOffer { channel := ourEnd, left := left } =
      (some true, { channel := ourEnd, left := left, wrote := wrote }) := by
  have hread : Upgrade.read (Upgrade.clientIntroduction []) = some (.clientIntroduction []) :=
    Upgrade.read_clientIntroduction (by decide)
  unfold offerPath floodedOffer
  dsimp only
  rw [hread]
  exact ⟨_, rfl⟩

/-- Twenty mebibytes of a file after the LAST_WRITE. -/
theorem not_bounded_flood :
    ¬ ∀ (c : Crypto) (e : Offering) (channel : SecureChannel) (left : List Bytes),
      (∀ wire ∈ left, wire.length < Framing.maxFrame) →
      Bounded (offerGroup c e { channel := channel, left := left }).2.deferred := by
  intro claim
  obtain ⟨size, hsize⟩ : ∃ size, size = 1024 * 1024 := ⟨_, rfl⟩
  have hlong := (length_fileFrame size).1
  have hshort := (length_fileFrame size).2
  have hroom : (fileFrame size).length + 300 < Framing.maxFrame := by
    unfold Framing.maxFrame
    omega
  obtain ⟨hsmall, hkept⟩ := @releaseKept_sealCopies (Deliver.completed Deliver.Hi.record)
    senderEnd ourEnd Link.Hello.vector (fileFrame size) Deliver.Hi.ideal rfl rfl rfl (by decide)
    (by decide) (read_fileFrame (by omega)) hroom 20
  have bounded := claim (Deliver.completed Deliver.Hi.record) floodedOffer ourEnd _ hsmall
  rw [offerGroup_queue] at bounded
  obtain ⟨wrote, hpath⟩ := @offerPath_floodedOffer (Deliver.completed Deliver.Hi.record)
    (sealCopies (Deliver.completed Deliver.Hi.record) Link.Hello.vector (fileFrame size) 20
      senderEnd)
  rw [hpath, if_pos rfl] at bounded
  change Bounded ([] ++ releaseKept _ (List.replicate 20 .arrives) ourEnd _) at bounded
  rw [hkept, List.nil_append] at bounded
  have hlongest := longest_replicate_le 20 (fileFrame size)
  unfold Bounded handoverDeferCap at bounded
  rw [bytesOf_replicate] at bounded
  omega

end Flood

end Quickshare
