import TarishDaemon.Quickshare.Handovers
import TarishDaemon.Quickshare.OldSocket

/-!
# The acceptance and the handover

On an acceptance the sharing machine asks for two things: the Accept is to be sent, and
then the transfer begins.  `serve` performs them in that order, so the sender has the
Accept before the handover of the transfer's beginning starts, and may stream into it.

`Watched` is the receive loop on its sockets with a record of the handovers made where a
transfer begins: what had gone out by the time each returned, and the wires it took off
the old socket.
-/

namespace Quickshare

open Rust Protocol Protocol.Sharing Protocol.Fsm Fallible

variable {w w' : Serve} {e : Env}

/-- The Accept is among the frames. -/
def Accepted (frames : List Bytes) : Prop :=
  ∃ id, (wrapBytes id (response .accept)).2 <:+: frames

theorem Accepted.append {frames : List Bytes} (h : Accepted frames) (more : List Bytes) :
    Accepted (frames ++ more) := by
  obtain ⟨id, hwithin⟩ := h
  exact ⟨id, hwithin.trans (List.prefix_append _ _).isInfix⟩

namespace Serve

/-- While the loop goes on, whatever begins to receive has the Accept sent right before. -/
def AcceptsFirst (w : Serve) : Prop :=
  w.outcome = none → Led (Accepted w.sent) w.queue

/-- A frame that was sent with success went out whole. -/
theorem sent_of_perform {frame : Bytes} (h : (w.perform e (.send frame)).outcome = none) :
    (w.perform e (.send frame)).sent = w.sent ++ (wrapBytes w.nextPayloadId frame).2 := by
  unfold perform writeOrFail write at h ⊢
  dsimp only at h ⊢
  split at h
  next hall =>
    rw [if_pos hall]
    change (w.log ++ List.map Act.sent _).filterMap Act.frame = _
    rw [List.filterMap_append, Act.frames_sent, of_decide_eq_true hall, List.take_length]
    rfl
  next => cases h

theorem acceptsFirst_step (h : w.AcceptsFirst) (hstep : w.step e = some w') :
    w'.AcceptsFirst := by
  intro hlive'
  have moves := step_moves hstep
  obtain ⟨es, hqueue, led⟩ := moves.queued
  obtain ⟨frames, hsent⟩ := moves.wrote
  have hmore : Accepted w.sent → Accepted w'.sent := by
    intro accepted
    rw [hsent]
    exact accepted.append frames
  rw [hqueue]
  refine Led.append ?_ led
  have hlive := running_of_step hstep
  have hled := h hlive
  cases hbatch : w.batch with
  | nil =>
      rw [popped_nil hbatch]
      exact hled.mono hmore
  | cons effect rest =>
      have hwhole : w.queue = effect :: w.popped.queue := by
        rw [popped_cons hbatch, queue, queue, hbatch]
        rfl
      rw [hwhole] at hled
      cases effect with
      | send frame =>
          have hperform : w' = { w with batch := rest }.perform e (.send frame) := by
            cases steps_of_step hstep with
            | effect _ _ _ hsame =>
                rw [hbatch] at hsame
                cases hsame
                rfl
            | turn _ hnone =>
                rw [hbatch] at hnone
                cases hnone
          refine Led.mono hled ?_
          intro haccept
          rw [hperform] at hlive' ⊢
          rw [sent_of_perform hlive', haccept]
          exact ⟨_, (List.suffix_append _ _).isInfix⟩
      | beginReceiving i => exact hled.2.mono False.elim
      | askUser i => exact Led.mono hled False.elim
      | beginSending f => exact Led.mono hled False.elim
      | done => exact Led.mono hled False.elim
      | cancelled => exact Led.mono hled False.elim
      | failed why => exact Led.mono hled False.elim

theorem acceptsFirst_init (bootstrap : Upgrade.Medium) (fill : Option RandomFill) (id : Int)
    (inbox : HashMap Text Bytes) : (init bootstrap fill id inbox).AcceptsFirst := by
  intro _
  have start : Led False (({} : Inbound).start fill).2 := by
    unfold Inbound.start
    cases pairedKeyEncryption fill with
    | ok frame => trivial
    | error err => trivial
  have fields : (init bootstrap fill id inbox).queue = (({} : Inbound).start fill).2 := by
    rw [queue, init]
    exact List.append_nil _
  rw [fields]
  exact start.mono False.elim

/-- **Where a transfer begins, the Accept is out.** -/
theorem accepted_of_begins (h : w.AcceptsFirst) (hlive : w.outcome = none)
    (hbegins : w.begins = true) : Accepted w.sent := by
  have hled := h hlive
  unfold begins at hbegins
  split at hbegins
  next i rest hbatch =>
    rw [queue, hbatch] at hled
    exact hled.1
  next => cases hbegins

end Serve

/-! ## On its sockets -/

/-- A frame of a FILE payload. -/
def isFileFrame (plain : Bytes) : Bool :=
  match Frames.parse plain with
  | .ok (.payloadTransfer pt) => decide (pt.header.payloadType = .file)
  | .ok _ | .error _ => false

/-- A wire with such a frame. -/
def carriesFile (wire : Bytes × Fate) : Bool :=
  wire.2.plain.any isFileFrame

/-- A handover made where a transfer begins. -/
structure BeginCall where
  /-- What had gone out by the time it returned. -/
  sent : List Bytes
  /-- The wires it took off the old socket, and what they came to. -/
  read : List (Bytes × Fate)

/-- The sender cannot have been streaming: it did not have the Accept, and sent no file. -/
structure BeginCall.Alone (call : BeginCall) : Prop where
  unaccepted : ¬ Accepted call.sent
  noFile : ∀ wire ∈ call.read, carriesFile wire = false

structure Watched where
  wired : Wired Serve
  calls : List BeginCall := []

def Watched.step (c : Crypto) (v : Watched) (m : (Env × Offering) × Bool) : Option Watched :=
  (Wired.step (Serve.loop c) v.wired m).map fun u =>
    { wired := u
      calls := v.calls ++
        if v.wired.loop.begins then
          [{ sent := u.loop.sent, read := (offerGroup c m.1.2 v.wired.moving).2.seen }]
        else [] }

/-- No handover is made where a transfer begins: the connection is fast, or has moved
already. -/
def Settled (v : Watched) (_ : (Env × Offering) × Bool) : Prop :=
  v.wired.loop.begins = false

instance (v : Watched) (m : (Env × Offering) × Bool) : Decidable (Settled v m) :=
  inferInstanceAs (Decidable (v.wired.loop.begins = false))

variable {c : Crypto} {v v' : Watched} {m : (Env × Offering) × Bool}

/-- A step on the sockets is a step of the loop. -/
theorem wired_loop_step {u u' : Wired Serve} (h : Wired.step (Serve.loop c) u m = some u') :
    ∃ e, u.loop.step e = some u'.loop := by
  obtain ⟨read, taken, htake, hcase⟩ := Wired.step_cases h
  obtain ⟨hloop, -⟩ := Wired.take_wrote (L := Serve.loop c) (v := u) m.1 m.2
  rw [htake] at hloop
  rcases hcase with ⟨w, -, hw, rfl⟩ | ⟨call, w, -, hw, rfl⟩
  · exact ⟨_, hloop ▸ hw⟩
  · exact ⟨_, hloop ▸ hw⟩

/-- Every handover where a transfer begins returns with the Accept out. -/
theorem alone_step (first : v.wired.loop.AcceptsFirst) (alone : ∀ call ∈ v.calls, call.Alone)
    (hstep : v.step c m = some v') : (∀ call ∈ v'.calls, call.Alone) ↔ Settled v m := by
  obtain ⟨u, hu, rfl⟩ := Option.map_eq_some_iff.mp hstep
  cases hbegins : v.wired.loop.begins with
  | false =>
      refine iff_of_true ?_ hbegins
      simpa using alone
  | true =>
      refine iff_of_false ?_ (by simp [Settled, hbegins])
      intro alone'
      obtain ⟨e, hw⟩ := wired_loop_step hu
      have hlive := Serve.running_of_step hw
      obtain ⟨frames, hsent⟩ := (Serve.step_moves hw).wrote
      have accepted : Accepted u.loop.sent := by
        rw [hsent]
        exact (Serve.accepted_of_begins first hlive hbegins).append frames
      have mem : ({ sent := u.loop.sent, read := (offerGroup c m.1.2 v.wired.moving).2.seen } :
          BeginCall) ∈ v.calls ++ [{ sent := u.loop.sent, read := _ }] :=
        List.mem_append_right _ (List.mem_singleton.mpr rfl)
      exact (alone' _ mem).unaccepted accepted

/-- The receive loop at its first step. -/
def watchedStart (bootstrap : Upgrade.Medium) (fill : Option RandomFill) (id : Int)
    (inbox : HashMap Text Bytes) (channel : SecureChannel) (left : List Bytes)
    (later : List (List Bytes)) : Watched :=
  { wired := .start (.init bootstrap fill id inbox) channel left later }

/-- **The handover and the payload.**  A handover made where a transfer begins is made
without the sender having the Accept, and reads nothing of a file, exactly where no such
handover is made. -/
theorem handover_alone_iff {bootstrap : Upgrade.Medium} {fill : Option RandomFill} {id : Int}
    {inbox : HashMap Text Bytes} {channel : SecureChannel} {left : List Bytes}
    {later : List (List Bytes)} {acts : List ((Env × Offering) × Bool)}
    (run : Lts.Run (Lts.ofPartial (Watched.step c))
      (watchedStart bootstrap fill id inbox channel left later) acts v) :
    (∀ pre u, pre <+: acts →
        Lts.Run (Lts.ofPartial (Watched.step c))
          (watchedStart bootstrap fill id inbox channel left later) pre u →
        ∀ call ∈ u.calls, call.Alone) ↔
      Lts.Run (Lts.Restrict (Lts.ofPartial (Watched.step c)) Settled)
        (watchedStart bootstrap fill id inbox channel left later) acts v := by
  apply run.restrict_iff (fun v => v.wired.loop.AcceptsFirst)
    (fun v => ∀ call ∈ v.calls, call.Alone)
  · exact Serve.acceptsFirst_init bootstrap fill id inbox
  · intro call hcall
    cases hcall
  · intro v m v' first hstep
    obtain ⟨u, hu, rfl⟩ := Option.map_eq_some_iff.mp hstep
    obtain ⟨e, hw⟩ := wired_loop_step hu
    exact Serve.acceptsFirst_step first hw
  · intro v m v' first alone hstep
    exact alone_step first alone hstep

/-! ## A sender that waits for the Accept -/

namespace OnRecord

open Link Link.Hello SecureMessage

/-- The verdict, an introduction, and the first chunk of the photo. -/
def fromStreamer : List Sealed :=
  [⟨((peerFrame 1 (pairedKeyResult .unable)).read).getD [], 1,
      bigEndian 48 0x39e582f58606f0f2c519dfb0c059270dca4c3fa7bddf4856a921256c20ce460ebf406a9c9c4193c1801d8264b84c8fa5,
      bigEndian 32 0x3bd4ee7ad057ea19c6dea8e3b413dfa5dfbef6f156669179da41245395d0315f⟩,
    ⟨((peerFrame 2 (introduction photo)).read).getD [], 2,
      bigEndian 96 0xe508d709e0e342e090640aa95630f796ed2f9cb7ed75603b05f353a045ee6448366c3016f1cec4fbee81140f827f7ab9be1757bf52f789dadca563320c14fc7dccc1490f59f706a2ade5be65bdf671ce0e1185b593764196d9e950a575ebae24,
      bigEndian 32 0xa3f190dad33e0d25b547c226d6ec55a253ff411a44933a1845421f7de877ceeb⟩,
    ⟨((peerChunk photoHeader 0 [1, 2] false).read).getD [], 3,
      bigEndian 48 0x8a798137c007db9f3ff7abcbe5dd0700114a2f0051733db57b1cd40db05ea02c4701364912d697485fcb99961ae8818f,
      bigEndian 32 0x1123053a6eb730296c54649edf1046046e8a0375450ffd795199d6951ea1ebea⟩]

def streamRecord : Link.Record where
  tags := fromStreamer.map fun s => (clientHmac, s.signed, s.tag)
  bodies := fromStreamer.map fun s => (clientEncrypt, vector, s.plain, s.body)

abbrev streamCrypto : Crypto :=
  streamRecord.crypto

def streamed (bootstrap : Upgrade.Medium) : Watched :=
  watchedStart bootstrap (some someFill) 5 ∅ (channel .server) (fromStreamer.map Sealed.wire) []

/-- Everything up to the Accept. -/
def untilAccept : List ((Env × Offering) × Bool) :=
  [serveStep {} false, serveStep {} true, serveStep {} true,
    (({ asking := { answer := some true } }, {}), false), serveStep {} false, serveStep {} false]

end OnRecord

/-- On a shared network nothing is handed over. -/
theorem wifiLan_alone :
    ∃ v : Watched, v.wired.loop.expected.keys = [7] ∧
      ∀ pre u, pre <+: OnRecord.untilAccept ++ [OnRecord.serveStep {} false] →
        Lts.Run (Lts.ofPartial (Watched.step OnRecord.streamCrypto))
          (OnRecord.streamed .wifiLan) pre u →
        ∀ call ∈ u.calls, call.Alone := by
  obtain ⟨v, run, hv⟩ := Lts.run_observe
    (Lts.guarded (Watched.step OnRecord.streamCrypto) Settled)
    (fun v => v.wired.loop.expected.keys)
    (show ((OnRecord.untilAccept ++ [OnRecord.serveStep {} false]).foldlM
        (Lts.guarded (Watched.step OnRecord.streamCrypto) Settled)
        (OnRecord.streamed .wifiLan)).map _ = some [7] by decide +kernel)
  exact ⟨v, hv, (handover_alone_iff run.of_guarded.of_restrict).mpr run.of_guarded⟩

/-- **A file in the handover.**  The sender sends a chunk once it has the Accept, and not
before; it is read while the receiver waits for its group. -/
theorem chunk_in_handover :
    ∃ (v v' : Watched) (m : (Env × Offering) × Bool),
      Lts.Run (Lts.ofPartial (Watched.step OnRecord.streamCrypto))
          (OnRecord.streamed .bluetooth) OnRecord.untilAccept v ∧
        (Accepted v.wired.loop.sent ∧ ∀ wire ∈ v.wired.seen, carriesFile wire = false) ∧
        v.step OnRecord.streamCrypto m = some v' ∧
        ∃ call ∈ v'.calls, Accepted call.sent ∧ ∃ wire ∈ call.read, carriesFile wire = true := by
  have hruns : ((OnRecord.untilAccept.foldlM (Watched.step OnRecord.streamCrypto)
      (OnRecord.streamed .bluetooth)).bind fun v =>
        (v.step OnRecord.streamCrypto (OnRecord.serveStep { groupPolls := [.arrives] } false)).map
          fun v' =>
            (v.wired.loop.sent.drop 2, v.wired.seen.any carriesFile,
              v'.calls.map fun call => ((call.sent.drop 2).take 2, call.read.any carriesFile))) =
      some ((wrapBytes 2 (response .accept)).2, false,
        [((wrapBytes 2 (response .accept)).2, true)]) := by
    decide +kernel
  obtain ⟨v, hv, hrest⟩ := Option.bind_eq_some_iff.mp hruns
  obtain ⟨v', hv', hobserved⟩ := Option.map_eq_some_iff.mp hrest
  obtain ⟨hsent, hseen, hcalls⟩ : _ ∧ _ ∧ _ := by simpa only [Prod.mk.injEq] using hobserved
  have accepted : ∀ frames : List Bytes,
      (frames.drop 2).take 2 = (wrapBytes 2 (response .accept)).2 → Accepted frames := by
    intro frames h
    refine ⟨2, ?_⟩
    rw [← h]
    exact (List.take_prefix 2 _).isInfix.trans (List.drop_suffix 2 _).isInfix
  refine ⟨v, v', _, Lts.run_foldlM _ hv, ⟨?_, ?_⟩, hv', ?_⟩
  · apply accepted
    rw [hsent]
    rfl
  · intro wire hwire
    by_contra hfile
    rw [List.any_eq_false] at hseen
    exact hseen wire hwire (by simpa using hfile)
  · obtain ⟨call, hcall⟩ := List.map_eq_singleton_iff.mp hcalls
    obtain ⟨hcall, hobs⟩ := hcall
    obtain ⟨hcallSent, hcallRead⟩ := Prod.mk.inj hobs
    refine ⟨call, ?_, accepted _ hcallSent, ?_⟩
    · rw [hcall]
      exact List.mem_singleton.mpr rfl
    · exact List.any_eq_true.mp hcallRead

end Quickshare
