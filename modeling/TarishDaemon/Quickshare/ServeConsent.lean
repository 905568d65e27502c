import TarishDaemon.Quickshare.ServeStep

/-!
# What arrives, and with whose consent

Two readings of the invariant over whole runs.  Nothing is opened or written but
for a payload the person said yes to, and nothing after its last chunk
(`serve_consented`).  And every file stands for one file of the introduction the
person accepted (`arrived_as_announced`): it is created from that file's name, or
from the name in its payload's header where the introduction gives none, and it
never grows past the size in that header.

The sizes of the introduction itself are shown and then not looked at again.
-/

namespace Quickshare

open Rust Protocol Protocol.Sharing Protocol.Fsm Sharingd
open Protocol.Frames (PayloadHeader)

variable {w : Serve} {bootstrap : Upgrade.Medium} {fill : Option RandomFill} {host : Int}
  {inbox : HashMap Text Bytes} {steps : List Env}

/-- **Consent.**  In every run of the loop, whatever the peer sends and in whatever
order, with handovers and cancels in between: `create` and every write are for a
payload that an introduction lists to which the person, or the policy in their
place, said yes before, and whose last chunk has not been delivered. -/
theorem serve_consented
    (run : Lts.Run (Lts.ofPartial Serve.step) (.init bootstrap fill host inbox) steps w) :
    History.Justified Allowed w.log :=
  (inv_of_run run).safe.record.allowed

/-! ## A peer, for the concrete runs -/

/-- A sharing frame in one BYTES chunk. -/
def peerFrame (id : Int) (frame : Bytes) : Env :=
  { read := some (Frames.payloadData
      { id := id, payloadType := .bytes, totalSize := frame.length }
      { flags := Frames.flagLastChunk, body := frame }) }

/-- One chunk of a file. -/
def peerChunk (header : PayloadHeader) (offset : Int) (body : Bytes) (last : Bool) : Env :=
  { read := some (Frames.payloadData header
      { flags := if last then Frames.flagLastChunk else 0, offset := offset, body := body }) }

/-- The opening of a connection on a shared network, up to the question about `i`
and the effects of the answer. -/
def untilAnswered (i : Introduction) (answer : Bool) : List Env :=
  [{}, peerFrame 1 (pairedKeyResult .unable), peerFrame 2 (introduction i),
    { asking := { answer := some answer } }, {}, {}, {}]

/-- A photo in two chunks, accepted. -/
def photo : Introduction :=
  { files := [{ name := "a.jpg".toList, payloadId := 7, size := 3 }] }

def photoHeader : PayloadHeader :=
  { id := 7, payloadType := .file, totalSize := 3 }

def photoReceived : List Env :=
  untilAnswered photo true ++
    [peerChunk photoHeader 0 [1, 2] false, peerChunk photoHeader 2 [3] true, {}]

theorem photoReceived_consented :
    ∃ w, Lts.Run (Lts.ofPartial Serve.step) (.init .wifiLan (some someFill) 5 ∅) photoReceived w ∧
      .wrote 7 [3] ∈ w.log ∧ History.Justified Allowed w.log := by
  obtain ⟨w, run, hwrote⟩ := Lts.run_observe Serve.step (fun w => decide (.wrote 7 [3] ∈ w.log))
    (show (photoReceived.foldlM Serve.step (.init .wifiLan (some someFill) 5 ∅)).map _ =
      some true by decide +kernel)
  exact ⟨w, run, by simpa using hwrote, serve_consented run⟩

/-! ## What arrives -/

/-- Every file opened stands for a file of the introduction, no two for the same
one, and the two are related by `ok`. -/
def Matches (i : Introduction) (w : Serve) (ok : Opened → FileMetadata → Prop) : Prop :=
  ∃ source : Opened → FileMetadata,
    (∀ o ∈ openings w.log, source o ∈ i.files ∧ ok o (source o)) ∧
      ∀ o ∈ openings w.log, ∀ p ∈ openings w.log, source o = source p → o = p

/-- The name and the size the prompt showed. -/
def AsShown (w : Serve) (o : Opened) (f : FileMetadata) : Prop :=
  o.name = f.name ∧
    ∀ data, w.host.inbox.lookup o.path = some data → (data.length : Int) ≤ f.size

/-- The name announced, if there is one, and the size in the header of the chunk
that opened the file, if it says one. -/
def AsAnnounced (w : Serve) (o : Opened) (f : FileMetadata) : Prop :=
  o.id = f.payloadId ∧ o.name = Serve.pickName f o.header ∧
    ∀ data, w.host.inbox.lookup o.path = some data → 0 < o.header.totalSize →
      (data.length : Int) ≤ o.header.totalSize

/-- Whoever is asked twice is asked about the same introduction. -/
theorem asked_unique {log : List Act} (once : (offers log).length ≤ 1) {i j : Introduction}
    {yes yes' : Bool} (hi : .asked i yes ∈ log) (hj : .asked j yes' ∈ log) : i = j := by
  have hi : i ∈ offers log := List.mem_filterMap.mpr ⟨_, hi, rfl⟩
  have hj : j ∈ offers log := List.mem_filterMap.mpr ⟨_, hj, rfl⟩
  match hoffers : offers log with
  | [] =>
      rw [hoffers] at hi
      cases hi
  | [k] =>
      rw [hoffers] at hi hj
      exact (List.mem_singleton.mp hi).trans (List.mem_singleton.mp hj).symm
  | _ :: _ :: _ =>
      rw [hoffers] at once
      simp at once

/-- **What arrives.**  In every run in which the person accepted `i`, every file
opened in the inbox stands for a file of `i`, each for another one; it was created
from the announced name, or from the name in its payload's own header where the
announced one is empty; and it never holds more bytes than the size in the header
of the chunk that opened it, where that is positive. -/
theorem arrived_as_announced
    (run : Lts.Run (Lts.ofPartial Serve.step) (.init bootstrap fill host inbox) steps w)
    {i : Introduction} (accepted : .asked i true ∈ w.log) : Matches i w (AsAnnounced w) := by
  have safe := (inv_of_run run).safe
  have announced : ∀ o, ∃ f : FileMetadata, o ∈ openings w.log → f ∈ i.files ∧
      AsAnnounced w o f := by
    intro o
    by_cases ho : o ∈ openings w.log
    · obtain ⟨f, ⟨j, hj, hf, hid⟩, hname⟩ := safe.record.announced o ho
      rw [← asked_unique safe.offers_le accepted hj] at hf
      exact ⟨f, fun _ => ⟨hf, hid.symm, hname, fun data => safe.within o ho data⟩⟩
    · exact ⟨{}, fun h => absurd h ho⟩
  choose source hsource using announced
  refine ⟨source, hsource, ?_⟩
  intro o ho p hp hsame
  have hids : o.id = p.id := by
    rw [(hsource o ho).2.1, (hsource p hp).2.1, hsame]
  exact List.inj_on_of_nodup_map safe.ids ho hp hids

theorem photoReceived_as_announced :
    ∃ w, Lts.Run (Lts.ofPartial Serve.step) (.init .wifiLan (some someFill) 5 ∅) photoReceived w ∧
      .asked photo true ∈ w.log ∧ openings w.log ≠ [] ∧ Matches photo w (AsAnnounced w) := by
  obtain ⟨w, run, hview⟩ := Lts.run_observe Serve.step
    (fun w => (decide (.asked photo true ∈ w.log), (openings w.log).length))
    (show (photoReceived.foldlM Serve.step (.init .wifiLan (some someFill) 5 ∅)).map _ =
      some (true, 1) by decide +kernel)
  obtain ⟨hasked, hopen⟩ := Prod.mk.inj hview
  have accepted : .asked photo true ∈ w.log := by simpa using hasked
  refine ⟨w, run, accepted, ?_, arrived_as_announced run accepted⟩
  intro hnil
  rw [hnil] at hopen
  cases hopen

/-- The prompt shows a file of one byte; the payload's header says three. -/
def small : Introduction :=
  { files := [{ name := "a.jpg".toList, payloadId := 7, size := 1 }] }

/-- The prompt shows a file without a name. -/
def nameless : Introduction :=
  { files := [{ payloadId := 7, size := 3 }] }

/-- Three bytes in one chunk, under a name of the header's own. -/
def threeBytes : Env :=
  peerChunk { photoHeader with fileName := "b.jpg".toList } 0 [1, 2, 3] true

/-- Three bytes arrive where the prompt showed one, and a name arrives where the
prompt showed none. -/
theorem arrived_not_as_shown :
    (∃ steps w, Lts.Run (Lts.ofPartial Serve.step) (.init .wifiLan (some someFill) 5 ∅) steps w ∧
        .asked small true ∈ w.log ∧ ¬ Matches small w (AsShown w)) ∧
      ∃ steps w, Lts.Run (Lts.ofPartial Serve.step) (.init .wifiLan (some someFill) 5 ∅) steps w ∧
        .asked nameless true ∈ w.log ∧ ¬ Matches nameless w (AsShown w) := by
  constructor
  · obtain ⟨w, run, hview⟩ := Lts.run_observe Serve.step
      (fun w => (decide (.asked small true ∈ w.log), openings w.log,
        w.host.inbox.lookup (inboxPath "a.jpg".toList)))
      (show ((untilAnswered small true ++ [threeBytes]).foldlM Serve.step
          (.init .wifiLan (some someFill) 5 ∅)).map _ =
        some (true, [⟨7, { photoHeader with fileName := "b.jpg".toList }, "a.jpg".toList,
          inboxPath "a.jpg".toList⟩], some [1, 2, 3]) by decide +kernel)
    obtain ⟨hasked, hrest⟩ := Prod.mk.inj hview
    obtain ⟨hopen, hdata⟩ := Prod.mk.inj hrest
    refine ⟨_, w, run, by simpa using hasked, ?_⟩
    rintro ⟨source, hsource, -⟩
    rw [hopen] at hsource
    obtain ⟨hmem, -, hsize⟩ := hsource _ (List.mem_singleton.mpr rfl)
    have hle := hsize _ hdata
    rw [List.mem_singleton.mp hmem] at hle
    revert hle
    decide
  · obtain ⟨w, run, hview⟩ := Lts.run_observe Serve.step
      (fun w => (decide (.asked nameless true ∈ w.log), (openings w.log).map (·.name)))
      (show ((untilAnswered nameless true ++ [threeBytes]).foldlM Serve.step
          (.init .wifiLan (some someFill) 5 ∅)).map _ =
        some (true, ["b.jpg".toList]) by decide +kernel)
    obtain ⟨hasked, hopen⟩ := Prod.mk.inj hview
    refine ⟨_, w, run, by simpa using hasked, ?_⟩
    rintro ⟨source, hsource, -⟩
    obtain ⟨o, ho, hname⟩ := List.mem_map.mp
      (show "b.jpg".toList ∈ (openings w.log).map (·.name) by rw [hopen]; simp)
    obtain ⟨hmem, hshown, -⟩ := hsource o ho
    rw [List.mem_singleton.mp hmem, hname] at hshown
    revert hshown
    decide

end Quickshare
