import TarishDaemon.Quickshare.Send

/-!
# The phases of a send

`send` reads its result off the machine's last state and the number of bytes on
offer.  The machine ends in the same state after a refusal, and files may be empty,
so the result is right in some runs only.  `honest` says of a step, from the state
before it, whether it is one of the steps that end in the wrong result.

A send goes through the phases of `Phase`.  Of these only two can reach `Done`, and
in them nothing is read from the peer any more (`done_truthful`); in the others every
exit is a failure before the files are through.
-/

namespace Quickshare

open Rust Protocol Protocol.Sharing Protocol.Fsm

def SendAct.stream : SendAct → Option (OutFile × Int)
  | .streamed f id => some (f, id)
  | _ => none

/-- The files whose terminator went out, in order. -/
def streams (log : List SendAct) : List (OutFile × Int) :=
  log.filterMap SendAct.stream

/-- The peer accepted, and every file went out to its terminator. -/
structure Send.Delivered (w : Send) : Prop where
  accepted : .heard (.response .accept) ∈ w.log
  streamed : (streams w.log).map Prod.fst = w.files
  completed : .completed ∈ w.log

/-- The result says so exactly where it is so. -/
def Send.Truthful (w : Send) : Prop :=
  w.outcome = some (.ok true) ↔ w.Delivered

/-- The goodbye goes out, or none is due. -/
def Send.partsCleanly (w : Send) (e : SendEnv) : Bool :=
  !w.peerSafeDisconnect || decide (1 ≤ e.writes.getD 1)

/-- At `Done` after an acceptance there are bytes on offer and the goodbye goes out;
at `Done` after a refusal there are none, or it does not. -/
def Send.honest (w : Send) (e : SendEnv) : Bool :=
  match w.batch with
  | .done :: _ =>
      if .heard (.response .accept) ∈ w.log then decide (0 < w.total) && w.partsCleanly e
      else decide (w.total = 0) || !w.partsCleanly e
  | _ => true

/-! ## The machine -/

/-- An effect that neither starts the files nor ends the exchange. -/
def isPlain : Effect → Bool
  | .beginSending _ | .done => false
  | _ => true

theorem on_over {m : Outbound} {event : Event} (h : m.state.isOver = true) :
    m.on event = (m, []) := by
  unfold Outbound.on
  rw [if_pos h]

theorem on_cancel {m : Outbound} (h : m.state.isOver = false) :
    m.on .userCancelled = ({ m with state := .cancelled }, [.send cancel, .cancelled]) := by
  unfold Outbound.on
  rw [if_neg (by rw [h]; simp)]

theorem on_complete {m : Outbound} (h : m.state = .transferring) :
    m.on .transferComplete = ({ m with state := .done }, [.done]) := by
  unfold Outbound.on
  rw [h]
  rfl

/-- What a frame does to a machine that waits for an answer: it is the answer, or
nothing happens, or it is all over. -/
inductive Answers (m : Outbound) (frame : Sharing.Frame) : Outbound × List Effect → Prop
  | accept (h : frame = .response .accept) :
      Answers m frame ({ m with state := .transferring }, [.beginSending m.introduction])
  | refuse {s : Status} (h : frame = .response s) (other : s ≠ .accept) :
      Answers m frame ({ m with state := .done }, [.done])
  | ignore (h : ∀ s, frame ≠ .response s) : Answers m frame (m, [])
  | ended {state : State} {effects : List Effect} (h : ∀ s, frame ≠ .response s)
      (ended : state = .cancelled ∨ state = .failed) (quiet : ∀ x ∈ effects, isPlain x = true) :
      Answers m frame ({ m with state := state }, effects)

theorem answers_on {m : Outbound} (h : m.state = .introduction) (frame : Sharing.Frame) :
    Answers m frame (m.on (.frame frame)) := by
  have running : m.on (.frame frame) = m.onFrame frame := by
    unfold Outbound.on
    rw [if_neg (by rw [h]; simp [State.isOver])]
  rw [running]
  unfold Outbound.onFrame
  rw [h]
  cases frame with
  | cancel => exact .ended nofun (.inl rfl) (by simp [isPlain])
  | response s =>
      cases s with
      | accept => exact .accept rfl
      | _ => exact .refuse rfl nofun
  | pairedKeyEncryption _ _ => exact .ignore nofun
  | pairedKeyResult _ => exact .ignore nofun
  | unknown _ => exact .ignore nofun
  | introduction i => exact .ended nofun (.inr rfl) (by simp [isPlain])

/-! ## The phases of a send -/

section Phases

variable (log : List SendAct) (announced : List (OutFile × Int)) (asked : Bool)
  (batch pending : List Effect) (state : State) (streaming : Option Stream)

/-- Where a send that has not returned stands: from what it did and heard, the files
it announced, whether its first pass has asked its questions, the effects to come, the
machine's state and the streaming. -/
inductive Phase : Prop
  /-- The peer has not answered. -/
  | waiting (idle : streaming = none) (state : state = .introduction)
      (plain : ∀ x ∈ batch ++ pending, isPlain x = true)
      (unanswered : ∀ s, .heard (.response s) ∉ log) (nothing : streams log = [])
      (unfinished : .completed ∉ log)
  /-- The peer said yes and no byte has gone out. -/
  | accepted {i : Introduction} (idle : streaming = none) (state : state = .transferring)
      (batch : batch = [.beginSending i]) (pending : pending = []) (asked : asked = true)
      (accepted : .heard (.response .accept) ∈ log) (nothing : streams log = [])
      (unfinished : .completed ∉ log)
  | streaming {s : Stream} (streaming : streaming = some s) (state : state = .transferring)
      (batch : batch = []) (pending : pending = []) (asked : asked = true)
      (accepted : .heard (.response .accept) ∈ log)
      (streamed : streams log ++ s.left = announced) (unfinished : .completed ∉ log)
  /-- Everything went out. -/
  | complete (idle : streaming = none) (state : state = .done)
      (queue : batch ++ pending = [.done]) (asked : asked = true)
      (accepted : .heard (.response .accept) ∈ log) (streamed : streams log = announced)
      (completed : .completed ∈ log)
  /-- The peer said anything but yes. -/
  | refused (idle : streaming = none) (state : state = .done)
      (queue : batch ++ pending = [.done]) (asked : asked = true)
      (refused : .heard (.response .accept) ∉ log)
  /-- Cancelled, or failed. -/
  | ended (idle : streaming = none) (state : state = .cancelled ∨ state = .failed)
      (plain : ∀ x ∈ batch ++ pending, isPlain x = true) (unfinished : .completed ∉ log)

end Phases

/-- A send that has not returned is in one of the phases. -/
def Sound (w : Send) : Prop :=
  w.payloadIds.length = w.files.length ∧
    Phase w.log (w.files.zip w.payloadIds) (w.solicited && w.pinChecked) w.batch w.pending
      w.fsm.state w.streaming

/-- What every step comes to but the last one of an exchange that reached `Done`. -/
structure Fair (w : Send) : Prop where
  sound : w.outcome = none → Sound w
  truthful : w.outcome ≠ none → w.Truthful

variable {w : Send} {e : SendEnv}

theorem Fair.running (sound : Sound w) (running : w.outcome = none) : Fair w :=
  ⟨fun _ => sound, fun h => absurd running h⟩

/-- Leaving before the files are through, with anything but success. -/
theorem Fair.left {result : Except SendError Bool} (out : w.outcome = some result)
    (other : result ≠ .ok true) (unfinished : .completed ∉ w.log) : Fair w := by
  refine ⟨fun h => ?_, fun _ => ⟨fun h => ?_, fun delivered => ?_⟩⟩
  · rw [out] at h
    cases h
  · rw [out] at h
    exact absurd (Option.some.inj h) other
  · exact absurd delivered.completed unfinished

def SendAct.isQuiet : SendAct → Bool
  | .sent _ | .progress _ _ => true
  | _ => false

variable {log acts : List SendAct}

theorem streams_append : streams (log ++ acts) = streams log ++ streams acts :=
  List.filterMap_append

theorem streams_quiet (quiet : ∀ a ∈ acts, a.isQuiet = true) : streams acts = [] := by
  apply List.filterMap_eq_nil_iff.mpr
  intro a ha
  have := quiet a ha
  cases a <;> first | rfl | cases this

/-- What is neither written nor reported was there before. -/
theorem mem_quiet {a : SendAct} (quiet : ∀ a ∈ acts, a.isQuiet = true)
    (loud : a.isQuiet = false) : a ∈ log ++ acts ↔ a ∈ log := by
  refine ⟨fun h => ?_, fun h => List.mem_append_left _ h⟩
  rcases List.mem_append.mp h with h | h
  · exact h
  · rw [quiet a h] at loud
    cases loud

/-- Writing and reporting do not change the phase. -/
theorem Sound.quiet (sound : Sound w) (quiet : ∀ a ∈ acts, a.isQuiet = true) :
    Sound (w.note acts) := by
  have same : streams (w.log ++ acts) = streams w.log := by
    rw [streams_append, streams_quiet quiet, List.append_nil]
  obtain ⟨lengths, phase⟩ := sound
  refine ⟨lengths, ?_⟩
  change Phase (w.log ++ acts) _ _ _ _ _ _
  cases phase with
  | waiting idle state plain unanswered nothing unfinished =>
      refine .waiting idle state plain (fun s => ?_) (same.trans nothing) ?_
      · rw [mem_quiet quiet rfl]
        exact unanswered s
      · rw [mem_quiet quiet rfl]
        exact unfinished
  | accepted idle state batch pending asked accepted nothing unfinished =>
      refine .accepted idle state batch pending asked (List.mem_append_left _ accepted)
        (same.trans nothing) ?_
      rw [mem_quiet quiet rfl]
      exact unfinished
  | streaming streaming state batch pending asked accepted streamed unfinished =>
      refine .streaming streaming state batch pending asked (List.mem_append_left _ accepted)
        (by rw [same]; exact streamed) ?_
      rw [mem_quiet quiet rfl]
      exact unfinished
  | complete idle state queue asked accepted streamed completed =>
      exact .complete idle state queue asked (List.mem_append_left _ accepted)
        (same.trans streamed) (List.mem_append_left _ completed)
  | refused idle state queue asked refused =>
      refine .refused idle state queue asked ?_
      rw [mem_quiet quiet rfl]
      exact refused
  | ended idle state plain unfinished =>
      refine .ended idle state plain ?_
      rw [mem_quiet quiet rfl]
      exact unfinished

/-! ## Step by step -/

theorem sent_isQuiet (frames : List Bytes) :
    ∀ a ∈ frames.map SendAct.sent, a.isQuiet = true := by
  intro a ha
  obtain ⟨frame, -, rfl⟩ := List.mem_map.mp ha
  rfl

theorem unfinished_quiet (unfinished : .completed ∉ log)
    (quiet : ∀ a ∈ acts, a.isQuiet = true) : .completed ∉ log ++ acts := by
  rw [mem_quiet quiet rfl]
  exact unfinished

theorem Fair.writeOrFail {frames : List Bytes} (sound : Sound w) (running : w.outcome = none)
    (unfinished : .completed ∉ w.log) : Fair (w.writeOrFail e frames) := by
  unfold Send.writeOrFail
  dsimp only
  split
  next => exact .running (sound.quiet (sent_isQuiet _)) running
  next => exact .left rfl nofun (unfinished_quiet unfinished (sent_isQuiet _))

theorem Fair.handOver {h : Handover} (sound : Sound w) (running : w.outcome = none)
    (unfinished : .completed ∉ w.log) : Fair (w.handOver h) := by
  unfold Send.handOver
  dsimp only
  split
  next => exact .left rfl nofun (unfinished_quiet unfinished (sent_isQuiet _))
  next =>
      have queued : Sound { w with deferred := w.deferred ++ h.queued } := sound
      exact .running (queued.quiet (sent_isQuiet _)) running

theorem Fair.feed {event : Event} {m : Outbound} {effects : List Effect}
    (on : w.fsm.on event = (m, effects)) (running : w.outcome = none)
    (lengths : w.payloadIds.length = w.files.length)
    (phase : Phase w.log (w.files.zip w.payloadIds) (w.solicited && w.pinChecked) w.batch
      (w.pending ++ effects) m.state w.streaming) : Fair (w.feed event) := by
  refine .running ⟨lengths, ?_⟩ running
  unfold Send.feed
  dsimp only
  rw [on]
  exact phase

/-- An effect that neither starts nor ends anything. -/
theorem Fair.plain {effect : Effect} (plain : isPlain effect = true) (sound : Sound w)
    (running : w.outcome = none) (unfinished : .completed ∉ w.log) :
    Fair (w.perform e effect) := by
  cases effect with
  | send frame =>
      exact .writeOrFail (w := { w with nextPayloadId := _ }) sound running unfinished
  | askUser i => exact .running sound running
  | beginReceiving i => exact .running sound running
  | cancelled => exact .left rfl nofun unfinished
  | failed why => exact .left rfl nofun unfinished
  | beginSending i => cases plain
  | done => cases plain

theorem delivered_quiet {w' : Send} (hfiles : w'.files = w.files)
    (hlog : w'.log = w.log ++ acts) (quiet : ∀ a ∈ acts, a.isQuiet = true) :
    w'.Delivered ↔ w.Delivered := by
  have same : streams w'.log = streams w.log := by
    rw [hlog, streams_append, streams_quiet quiet, List.append_nil]
  constructor
  · rintro ⟨accepted, streamed, completed⟩
    rw [hlog, mem_quiet quiet rfl] at accepted completed
    rw [same, hfiles] at streamed
    exact ⟨accepted, streamed, completed⟩
  · rintro ⟨accepted, streamed, completed⟩
    refine ⟨?_, ?_, ?_⟩
    · rw [hlog]
      exact List.mem_append_left _ accepted
    · rw [same, hfiles]
      exact streamed
    · rw [hlog]
      exact List.mem_append_left _ completed

/-- The goodbye is all that is written at the end. -/
theorem finishCleanly_eq (w : Send) (e : SendEnv) :
    ∃ acts, (∀ a ∈ acts, a.isQuiet = true) ∧
      w.finishCleanly e = (w.note acts, w.partsCleanly e) := by
  unfold Send.finishCleanly Send.partsCleanly
  cases w.peerSafeDisconnect with
  | true =>
      refine ⟨[Frames.disconnection true false].take (min 1 (e.writes.getD 1)) |>.map .sent,
        sent_isQuiet _, ?_⟩
      have counts : (min 1 (e.writes.getD 1) = 1) ↔ 1 ≤ e.writes.getD 1 := by omega
      simp [Send.write, counts]
  | false => exact ⟨[], nofun, by simp [Send.note]⟩

theorem done_returns (w : Send) (e : SendEnv) : (w.perform e .done).outcome ≠ none := by
  unfold Send.perform
  dsimp only
  split <;> nofun

theorem truthful_iff {result : Except SendError Bool} {told delivered : Prop}
    (out : w.outcome = some result) (htold : result = .ok true ↔ told)
    (hdelivered : w.Delivered ↔ delivered) : w.Truthful ↔ (told ↔ delivered) := by
  unfold Send.Truthful
  rw [out, Option.some_inj, htold, hdelivered]

/-- **The end of the exchange.**  What `Done` returns is the truth exactly where the
step is honest. -/
theorem done_truthful {rest : List Effect} (state : w.fsm.state = .done)
    (hbatch : w.batch = .done :: rest)
    (delivered : .heard (.response .accept) ∈ w.log → w.Delivered) :
    ({ w with batch := rest }.perform e .done).Truthful ↔ w.honest e = true := by
  obtain ⟨acts, quiet, parted⟩ := finishCleanly_eq { w with batch := rest } e
  have same : ∀ outcome, Send.Delivered { ({ w with batch := rest } : Send).note acts with
      outcome := outcome } ↔ .heard (.response .accept) ∈ w.log := by
    intro outcome
    have told : Send.Delivered { ({ w with batch := rest } : Send).note acts with
        outcome := outcome } ↔ w.Delivered :=
      delivered_quiet rfl rfl quiet
    exact told.trans ⟨fun h => h.accepted, delivered⟩
  have parts : ({ w with batch := rest } : Send).partsCleanly e = w.partsCleanly e := rfl
  unfold Send.perform Send.honest
  simp only [parted, parts, hbatch]
  cases w.partsCleanly e with
  | true =>
      have told : (Except.ok (decide (w.fsm.state = .done) && decide (0 < w.total)) :
          Except SendError Bool) = .ok true ↔ 0 < w.total := by
        simp [state]
      refine (truthful_iff rfl told (same _)).trans ?_
      by_cases accepted : .heard (.response .accept) ∈ w.log
      · simp [accepted]
      · simp [accepted]
  | false =>
      have told : (Except.error .transport : Except SendError Bool) = .ok true ↔ False := by simp
      refine (truthful_iff rfl told (same _)).trans ?_
      by_cases accepted : .heard (.response .accept) ∈ w.log
      · simp [accepted]
      · simp [accepted]

/-! ## Streaming -/

/-- What holds between two chunks. -/
structure Midway (w : Send) (left : List (OutFile × Int)) : Prop where
  lengths : w.payloadIds.length = w.files.length
  state : w.fsm.state = .transferring
  batch : w.batch = []
  pending : w.pending = []
  asked : (w.solicited && w.pinChecked) = true
  accepted : .heard (.response .accept) ∈ w.log
  streamed : streams w.log ++ left = w.files.zip w.payloadIds
  unfinished : .completed ∉ w.log

theorem Sound.midway {s : Stream} (sound : Sound w) (here : w.streaming = some s) :
    Midway w s.left := by
  obtain ⟨lengths, phase⟩ := sound
  cases phase with
  | streaming streaming state batch pending asked accepted streamed unfinished =>
      cases here.symm.trans streaming
      exact ⟨lengths, state, batch, pending, asked, accepted, streamed, unfinished⟩
  | waiting idle | accepted idle | complete idle | refused idle | ended idle =>
      rw [idle] at here
      cases here

variable {left : List (OutFile × Int)}

theorem Midway.quiet (mid : Midway w left) (quiet : ∀ a ∈ acts, a.isQuiet = true) :
    Midway (w.note acts) left where
  lengths := mid.lengths
  state := mid.state
  batch := mid.batch
  pending := mid.pending
  asked := mid.asked
  accepted := List.mem_append_left _ mid.accepted
  streamed := by
    change streams (w.log ++ acts) ++ left = _
    rw [streams_append, streams_quiet quiet, List.append_nil]
    exact mid.streamed
  unfinished := unfinished_quiet mid.unfinished quiet

theorem Midway.write {frames : List Bytes} (mid : Midway w left) :
    Midway (w.write e frames).1 left :=
  mid.quiet (sent_isQuiet _)

theorem Midway.progress (mid : Midway w left) (done total : Nat) :
    Midway (w.note [.progress done total]) left := by
  apply mid.quiet
  intro a ha
  rw [List.mem_singleton.mp ha]
  rfl

/-- The terminator of the first file left. -/
theorem Midway.terminate {f : OutFile} {id : Int} (mid : Midway w ((f, id) :: left)) :
    Midway (w.note [.streamed f id]) left where
  lengths := mid.lengths
  state := mid.state
  batch := mid.batch
  pending := mid.pending
  asked := mid.asked
  accepted := List.mem_append_left _ mid.accepted
  streamed := by
    change streams (w.log ++ [SendAct.streamed f id]) ++ left = _
    rw [streams_append, List.append_assoc]
    exact mid.streamed
  unfinished := by
    change _ ∉ w.log ++ [SendAct.streamed f id]
    simpa using mid.unfinished

theorem Midway.goesOn {s : Stream} (mid : Midway w s.left) (running : w.outcome = none) :
    Fair { w with streaming := some s } :=
  .running ⟨mid.lengths, .streaming rfl mid.state mid.batch mid.pending mid.asked mid.accepted
    mid.streamed mid.unfinished⟩ running

theorem Midway.complete (mid : Midway w []) (running : w.outcome = none) :
    Fair (({ w with streaming := none }.note [.completed]).feed .transferComplete) := by
  refine .feed (on_complete mid.state) running mid.lengths ?_
  refine .complete rfl rfl ?_ mid.asked (List.mem_append_left _ mid.accepted) ?_
    (List.mem_append_right _ (List.mem_singleton.mpr rfl))
  · change w.batch ++ (w.pending ++ [Effect.done]) = [.done]
    rw [mid.batch, mid.pending]
    rfl
  · change streams (w.log ++ [SendAct.completed]) = _
    rw [streams_append]
    exact mid.streamed

theorem Midway.cancel (mid : Midway w left) (running : w.outcome = none) :
    Fair ({ w with streaming := none }.feed .userCancelled) := by
  refine .feed (on_cancel (by rw [mid.state]; rfl)) running mid.lengths ?_
  refine .ended rfl (.inl rfl) ?_ mid.unfinished
  change ∀ x ∈ w.batch ++ (w.pending ++ [Effect.send Sharing.cancel, .cancelled]), isPlain x = true
  rw [mid.batch, mid.pending]
  simp [isPlain]

theorem Fair.stream {s : Stream} (sound : Sound w) (running : w.outcome = none)
    (here : w.streaming = some s) : Fair (w.stream e s) := by
  have mid := sound.midway here
  unfold Send.stream
  split
  next none =>
      rw [none] at mid
      exact mid.complete running
  next f id rest file =>
      dsimp only
      split
      next eof =>
          rw [file] at mid
          split
          next ok =>
              exact Midway.goesOn (s := { left := rest, done := s.done })
                mid.write.terminate running
          next failed => exact .left rfl nofun mid.write.unfinished
      next more =>
          split
          next => exact mid.cancel running
          next =>
              split
              next => exact .left rfl nofun mid.unfinished
              next => exact Midway.goesOn (s := { s with eof := true }) mid running
              next body nonempty hfill =>
                  split
                  next ok =>
                      exact Midway.goesOn (s := { s with
                        offset := s.offset + body.length, eof := decide (body.length < chunk)
                        done := s.done + body.length }) (mid.write.progress _ _) running
                  next failed => exact .left rfl nofun mid.write.unfinished

end Quickshare
