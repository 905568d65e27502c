import TarishDaemon.Quickshare.SendPhase
import TarishDaemon.Lib.Run

/-!
# What a send says about itself

The rest of a pass: the questions of the first one, and the frame it reads.  Then
whole runs: a run that returns is truthful exactly when all its steps are honest, and
one that is through with the files returns (`send_truthful_iff`).
-/

namespace Quickshare

open Rust Protocol Protocol.Sharing Protocol.Fsm

variable {w : Send} {e : SendEnv} {log acts : List SendAct}

/-! ## The rest of a pass -/

/-- Before its questions have been asked a send waits for an answer, or is over. -/
theorem Sound.unasked (sound : Sound w) (unasked : (w.solicited && w.pinChecked) = false) :
    .completed ∉ w.log ∧ ∀ asked, Phase w.log (w.files.zip w.payloadIds) asked w.batch w.pending
      w.fsm.state w.streaming := by
  obtain ⟨-, phase⟩ := sound
  cases phase with
  | waiting idle state plain unanswered nothing unfinished =>
      exact ⟨unfinished, fun _ => .waiting idle state plain unanswered nothing unfinished⟩
  | ended idle state plain unfinished =>
      exact ⟨unfinished, fun _ => .ended idle state plain unfinished⟩
  | accepted _ _ _ _ asked | streaming _ _ _ _ asked | complete _ _ _ asked
  | refused _ _ _ asked =>
      rw [asked] at unasked
      cases unasked

theorem Fair.solicit (sound : Sound w) (running : w.outcome = none)
    (unasked : w.solicited = false) : Fair (w.solicit e) := by
  obtain ⟨unfinished, phase⟩ := sound.unasked (by rw [unasked]; rfl)
  have asked : Sound { w with solicited := true } := ⟨sound.1, phase _⟩
  unfold Send.solicit
  dsimp only
  split
  next =>
      split
      next => exact .running (asked.quiet (sent_isQuiet _)) running
      next => exact .left rfl nofun (unfinished_quiet unfinished (sent_isQuiet _))
  next => exact .running asked running

theorem Fair.checkPin (sound : Sound w) (running : w.outcome = none)
    (unasked : w.pinChecked = false) : Fair (w.checkPin e) := by
  obtain ⟨unfinished, phase⟩ := sound.unasked (by rw [unasked, Bool.and_false])
  unfold Send.checkPin
  dsimp only
  split
  next => exact .running ⟨sound.1, phase _⟩ running
  next => exact .left rfl nofun (unfinished_quiet unfinished (sent_isQuiet _))

theorem Fair.nextPass (fair : Fair w) (done : w.batch = []) : Fair w.nextPass := by
  have same : w.nextPass.Delivered ↔ w.Delivered :=
    delivered_quiet rfl (List.append_nil _).symm nofun
  refine ⟨fun running => ?_, fun out => (fair.truthful out).trans same.symm⟩
  obtain ⟨lengths, phase⟩ := fair.sound running
  have queue : w.pending ++ [] = w.batch ++ w.pending := by
    rw [done, List.append_nil, List.nil_append]
  refine ⟨lengths, ?_⟩
  change Phase _ _ _ w.pending [] _ _
  cases phase with
  | waiting idle state plain unanswered nothing unfinished =>
      exact .waiting idle state (queue ▸ plain) unanswered nothing unfinished
  | accepted _ _ batch =>
      rw [batch] at done
      cases done
  | streaming streaming state batch pending asked accepted streamed unfinished =>
      exact .streaming streaming state pending rfl asked accepted streamed unfinished
  | complete idle state hqueue asked accepted streamed completed =>
      exact .complete idle state (queue.trans hqueue) asked accepted streamed completed
  | refused idle state hqueue asked refused =>
      exact .refused idle state (queue.trans hqueue) asked refused
  | ended idle state plain unfinished => exact .ended idle state (queue ▸ plain) unfinished

theorem Fair.feedNext {event : Event} {m : Outbound} {effects : List Effect}
    (on : w.fsm.on event = (m, effects)) (running : w.outcome = none)
    (lengths : w.payloadIds.length = w.files.length)
    (phase : Phase w.log (w.files.zip w.payloadIds) (w.solicited && w.pinChecked)
      (w.pending ++ effects) [] m.state w.streaming) : Fair (w.feed event).nextPass := by
  refine .running ⟨lengths, ?_⟩ running
  unfold Send.nextPass Send.feed
  dsimp only
  rw [on]
  exact phase

/-- A frame of the peer, with nothing else to do. -/
theorem Sound.hear {frame : Sharing.Frame} (sound : Sound w) (running : w.outcome = none)
    (asked : (w.solicited && w.pinChecked) = true) (idle : w.streaming = none)
    (hbatch : w.batch = []) (hpending : w.pending = []) :
    Fair ((w.note [.heard frame]).feed (.frame frame)).nextPass := by
  obtain ⟨lengths, phase⟩ := sound
  have last : .heard frame ∈ w.log ++ [SendAct.heard frame] := by simp
  have unfinished_heard : .completed ∉ w.log → .completed ∉ w.log ++ [SendAct.heard frame] := by
    intro unfinished
    simpa using unfinished
  have streams_heard : streams (w.log ++ [SendAct.heard frame]) = streams w.log := by
    rw [streams_append]
    exact List.append_nil _
  have effects : ∀ effects, (w.note [.heard frame]).pending ++ effects = effects := by
    intro effects
    change w.pending ++ effects = effects
    rw [hpending, List.nil_append]
  cases phase with
  | waiting _ state plain unanswered nothing unfinished =>
      have answers := answers_on state frame
      generalize hon : w.fsm.on (.frame frame) = result at answers
      cases answers with
      | accept h =>
          subst h
          exact .feedNext hon running lengths (.accepted idle rfl (effects _) rfl asked last
            (streams_heard.trans nothing) (unfinished_heard unfinished))
      | refuse h other =>
          refine .feedNext hon running lengths (.refused idle rfl ?_ asked ?_)
          · rw [effects]
            rfl
          · change _ ∉ w.log ++ [SendAct.heard frame]
            simp [unanswered, h, Ne.symm other]
      | ignore h =>
          refine .feedNext hon running lengths (.waiting idle state ?_ ?_
            (streams_heard.trans nothing) (unfinished_heard unfinished))
          · rw [effects]
            nofun
          · intro s
            change _ ∉ w.log ++ [SendAct.heard frame]
            simp [unanswered, Ne.symm (h s)]
      | ended h ended quiet =>
          refine .feedNext hon running lengths (.ended idle ended ?_ (unfinished_heard unfinished))
          rw [effects, List.append_nil]
          exact quiet
  | ended _ state plain unfinished =>
      refine .feedNext (on_over ?_) running lengths
        (.ended idle state ?_ (unfinished_heard unfinished))
      · change w.fsm.state.isOver = true
        rcases state with h | h <;> rw [h] <;> rfl
      · rw [effects]
        nofun
  | accepted _ _ batch =>
      rw [batch] at hbatch
      cases hbatch
  | streaming streaming =>
      rw [streaming] at idle
      cases idle
  | complete _ _ queue | refused _ _ queue =>
      rw [hbatch, hpending] at queue
      cases queue

theorem Fair.cancel (sound : Sound w) (running : w.outcome = none) (hbatch : w.batch = [])
    (idle : w.streaming = none) : Fair (w.feed .userCancelled) := by
  obtain ⟨lengths, phase⟩ := sound
  cases phase with
  | waiting _ state plain unanswered nothing unfinished =>
      refine .feed (on_cancel (by rw [state]; rfl)) running lengths ?_
      refine .ended idle (.inl rfl) ?_ unfinished
      intro x hx
      rw [← List.append_assoc] at hx
      rcases List.mem_append.mp hx with hx | hx
      · exact plain x hx
      · revert hx
        simp only [List.mem_cons, List.not_mem_nil, or_false]
        rintro (rfl | rfl) <;> rfl
  | accepted _ _ batch =>
      rw [batch] at hbatch
      cases hbatch
  | streaming streaming =>
      rw [streaming] at idle
      cases idle
  | complete _ state queue asked accepted streamed completed =>
      refine .feed (on_over (by rw [state]; rfl)) running lengths ?_
      rw [List.append_nil]
      exact .complete idle state queue asked accepted streamed completed
  | refused _ state queue asked refused =>
      refine .feed (on_over (by rw [state]; rfl)) running lengths ?_
      rw [List.append_nil]
      exact .refused idle state queue asked refused
  | ended _ state plain unfinished =>
      refine .feed (on_over (by rcases state with h | h <;> rw [h] <;> rfl)) running lengths ?_
      rw [List.append_nil]
      exact .ended idle state plain unfinished

/-- A send that has nothing to do but read. -/
structure Reading (w : Send) : Prop where
  sound : Sound w
  running : w.outcome = none
  asked : (w.solicited && w.pinChecked) = true
  idle : w.streaming = none
  batch : w.batch = []
  pending : w.pending = []

theorem Reading.unfinished (reading : Reading w) : .completed ∉ w.log := by
  obtain ⟨-, phase⟩ := reading.sound
  cases phase with
  | waiting _ _ _ _ _ unfinished | accepted _ _ _ _ _ _ _ unfinished
  | streaming _ _ _ _ _ _ _ unfinished | ended _ _ _ unfinished => exact unfinished
  | complete _ _ queue | refused _ _ queue =>
      rw [reading.batch, reading.pending] at queue
      cases queue

theorem writeOrFail_batch (w : Send) (e : SendEnv) (frames : List Bytes) :
    (w.writeOrFail e frames).batch = w.batch := by
  unfold Send.writeOrFail
  dsimp only
  split <;> rfl

theorem handOver_batch (w : Send) (h : Handover) : (w.handOver h).batch = w.batch := by
  unfold Send.handOver
  dsimp only
  split <;> rfl

theorem Reading.onUpgradeFrame (reading : Reading w) (e : SendEnv) (body : Bytes) :
    Fair (w.onUpgradeFrame e body) ∧ (w.onUpgradeFrame e body).batch = [] := by
  unfold Send.onUpgradeFrame
  split
  next =>
      refine ⟨.handOver reading.sound reading.running reading.unfinished, ?_⟩
      rw [handOver_batch]
      exact reading.batch
  next => exact ⟨.running reading.sound reading.running, reading.batch⟩
  next => exact ⟨.running reading.sound reading.running, reading.batch⟩

/-- The upgrade's deadline is no part of the phase. -/
theorem Fair.noDeadline (fair : Fair w) : Fair { w with upgradeDeadline := false } := by
  have same : Send.Delivered { w with upgradeDeadline := false } ↔ w.Delivered :=
    delivered_quiet rfl (List.append_nil _).symm nofun
  exact ⟨fair.sound, fun out => (fair.truthful out).trans same.symm⟩

theorem Reading.handleFrame {frame : Frames.Frame} (reading : Reading w) :
    Fair (w.handleFrame e frame).nextPass := by
  have unfinished := reading.unfinished
  have here : Fair w := .running reading.sound reading.running
  cases frame with
  | payloadTransfer pt =>
      rw [Send.handleFrame]
      generalize w.assembler.accept pt = result
      obtain ⟨a, event⟩ := result
      have kept : Sound { w with assembler := a } := reading.sound
      cases event with
      | error err => exact Fair.nextPass (.left rfl nofun unfinished) reading.batch
      | ok event =>
          cases event with
          | bytes id data =>
              dsimp only
              split
              next => exact Fair.nextPass (.left rfl nofun unfinished) reading.batch
              next =>
                  exact kept.hear reading.running reading.asked reading.idle reading.batch
                    reading.pending
          | fileChunk | cancelled | failed | pending =>
              exact Fair.nextPass (.running kept reading.running) reading.batch
  | keepAlive ack seqNum =>
      cases ack with
      | false =>
          exact Fair.nextPass (.writeOrFail reading.sound reading.running unfinished)
            ((writeOrFail_batch w e _).trans reading.batch)
      | true => exact here.nextPass reading.batch
  | disconnection requestSafe ackSafe =>
      rw [Send.handleFrame]
      refine Fair.nextPass (.left rfl nofun ?_) ?_
      · cases requestSafe with
        | true => exact unfinished_quiet unfinished (sent_isQuiet _)
        | false => exact unfinished
      · cases requestSafe with
        | true => exact reading.batch
        | false => exact reading.batch
  | bandwidthUpgrade body =>
      obtain ⟨fair, done⟩ := reading.onUpgradeFrame e body
      exact fair.noDeadline.nextPass done
  | connectionRequest _ => exact here.nextPass reading.batch
  | connectionResponse _ => exact here.nextPass reading.batch
  | unknown _ => exact here.nextPass reading.batch

theorem Reading.read (reading : Reading w) : Fair (w.read e).nextPass := by
  unfold Send.read
  split
  next => exact Fair.nextPass (.left rfl nofun reading.unfinished) reading.batch
  next plain hplain =>
      have tail : Reading { w with deferred := w.deferred.tail } :=
        ⟨reading.sound, reading.running, reading.asked, reading.idle, reading.batch,
          reading.pending⟩
      dsimp only
      split
      next => exact Fair.nextPass (.left rfl nofun tail.unfinished) reading.batch
      next frame hframe => exact tail.handleFrame

theorem Fair.turn (sound : Sound w) (running : w.outcome = none)
    (asked : (w.solicited && w.pinChecked) = true) (idle : w.streaming = none)
    (hbatch : w.batch = []) : Fair (w.turn e) := by
  unfold Send.turn
  split
  next => exact (Fair.cancel sound running hbatch idle).nextPass hbatch
  next =>
      split
      next => exact (Fair.running sound running).nextPass hbatch
      next hpending => exact Reading.read ⟨sound, running, asked, idle, hbatch, not_not.mp hpending⟩

/-! ## Whole runs -/

/-- What a step from `w` leads to: on, and then it was honest; or back to the caller,
and then with the truth exactly if it was honest. -/
def Leads (w : Send) (e : SendEnv) (w' : Send) : Prop :=
  (w'.outcome = none → Sound w' ∧ w.honest e = true) ∧
    (w'.outcome ≠ none → (w'.Truthful ↔ w.honest e = true))

theorem Fair.leads {w' : Send} (fair : Fair w') (honest : w.honest e = true) : Leads w e w' :=
  ⟨fun h => ⟨fair.sound h, honest⟩, fun h => iff_of_true (fair.truthful h) honest⟩

/-- Only `Done` can be dishonest. -/
theorem honest_of_head {effect : Effect} {rest : List Effect} (hbatch : w.batch = effect :: rest)
    (other : effect ≠ .done) : w.honest e = true := by
  unfold Send.honest
  rw [hbatch]
  cases effect with
  | done => exact absurd rfl other
  | _ => rfl

theorem honest_of_nil (hbatch : w.batch = []) : w.honest e = true := by
  unfold Send.honest
  rw [hbatch]

/-- The first effect of a queue that is the machine's last word. -/
theorem head_of_queue {x effect : Effect} {rest more : List Effect}
    (queue : (effect :: rest) ++ more = [x]) : effect = x := by
  rw [List.cons_append] at queue
  exact (List.cons.inj queue).1

theorem isPlain_tail {effect : Effect} {rest more : List Effect}
    (plain : ∀ x ∈ (effect :: rest) ++ more, isPlain x = true) :
    isPlain effect = true ∧ ∀ x ∈ rest ++ more, isPlain x = true := by
  rw [List.cons_append] at plain
  exact List.forall_mem_cons.mp plain

theorem ne_done_of_isPlain {effect : Effect} (plain : isPlain effect = true) : effect ≠ .done := by
  rintro rfl
  cases plain

theorem Sound.perform {effect : Effect} {rest : List Effect} (sound : Sound w)
    (running : w.outcome = none) (hbatch : w.batch = effect :: rest) :
    Leads w e ({ w with batch := rest }.perform e effect) := by
  obtain ⟨lengths, phase⟩ := sound
  cases phase with
  | waiting idle state plain unanswered nothing unfinished =>
      rw [hbatch] at plain
      obtain ⟨first, others⟩ := isPlain_tail plain
      have popped : Sound { w with batch := rest } :=
        ⟨lengths, .waiting idle state others unanswered nothing unfinished⟩
      exact (Fair.plain first popped running unfinished).leads
        (honest_of_head hbatch (ne_done_of_isPlain first))
  | ended idle state plain unfinished =>
      rw [hbatch] at plain
      obtain ⟨first, others⟩ := isPlain_tail plain
      have popped : Sound { w with batch := rest } :=
        ⟨lengths, .ended idle state others unfinished⟩
      exact (Fair.plain first popped running unfinished).leads
        (honest_of_head hbatch (ne_done_of_isPlain first))
  | accepted idle state batch pending asked accepted nothing unfinished =>
      rw [batch] at hbatch
      obtain ⟨rfl, rfl⟩ := List.cons.inj hbatch
      have begun : Sound { w with
          batch := [], upgradeDeadline := false
          streaming := some { left := w.files.zip w.payloadIds } } :=
        ⟨lengths, .streaming rfl state rfl pending asked accepted (by rw [nothing]; rfl) unfinished⟩
      refine Fair.leads ?_ (honest_of_head batch nofun)
      unfold Send.perform
      dsimp only
      split
      next => exact .handOver begun running unfinished
      next => exact .running begun running
  | streaming _ _ batch =>
      rw [batch] at hbatch
      cases hbatch
  | complete idle state queue asked accepted streamed completed =>
      rw [hbatch] at queue
      cases head_of_queue queue
      have files : (streams w.log).map Prod.fst = w.files := by
        rw [streamed]
        exact List.map_fst_zip (Nat.le_of_eq lengths.symm)
      exact ⟨fun h => absurd h (done_returns _ e),
        fun _ => done_truthful state hbatch fun _ => ⟨accepted, files, completed⟩⟩
  | refused idle state queue asked refused =>
      rw [hbatch] at queue
      cases head_of_queue queue
      exact ⟨fun h => absurd h (done_returns _ e),
        fun _ => done_truthful state hbatch fun h => absurd h refused⟩

theorem Sound.step {w' : Send} (sound : Sound w) (h : w.step e = some w') : Leads w e w' := by
  cases Send.steps_of_step h with
  | stream s running here =>
      exact (Fair.stream sound running here).leads (honest_of_nil (sound.midway here).batch)
  | effect effect rest running _ hbatch => exact sound.perform running hbatch
  | solicit running _ hbatch unasked =>
      exact (Fair.solicit sound running unasked).leads (honest_of_nil hbatch)
  | checkPin running _ hbatch _ unchecked =>
      exact (Fair.checkPin sound running unchecked).leads (honest_of_nil hbatch)
  | turn running idle hbatch solicited checked =>
      have asked : (w.solicited && w.pinChecked) = true := by rw [solicited, checked]; rfl
      exact (Fair.turn sound running asked idle hbatch).leads (honest_of_nil hbatch)

variable {bootstrap : Upgrade.Medium} {files : List OutFile} {h : Handshake}

/-- The loop starts waiting, and where it is not reached nothing has been heard. -/
theorem fair_init (bootstrap : Upgrade.Medium) (files : List OutFile) (h : Handshake) :
    Fair (.init bootstrap files h) := by
  unfold Send.init
  dsimp only
  split
  next => exact .left rfl nofun (by simp)
  next =>
      split
      next => exact .left rfl nofun (by simp)
      next enough =>
          refine .running ⟨?_, ?_⟩ rfl
          · change (h.draws.take files.length).length = files.length
            rw [List.length_take]
            omega
          · unfold Outbound.start
            dsimp only
            rw [if_neg (by simp)]
            split
            next => exact .ended rfl (.inr rfl) (by simp [isPlain]) (by simp)
            next => exact .waiting rfl rfl (by simp [isPlain]) (by simp) rfl (by simp)

variable {steps : List SendEnv}

/-- A run that has not returned has been honest. -/
theorem honest_so_far
    (run : Lts.Run (Lts.ofPartial Send.step) (.init bootstrap files h) steps w) :
    w.outcome = none → Sound w ∧
      Lts.Run (Lts.Restrict (Lts.ofPartial Send.step) fun w e => w.honest e = true)
        (.init bootstrap files h) steps w := by
  apply run.invariant_acts (fun steps w => w.outcome = none → Sound w ∧
    Lts.Run (Lts.Restrict (Lts.ofPartial Send.step) fun w e => w.honest e = true)
      (.init bootstrap files h) steps w)
  · intro running
    exact ⟨(fair_init bootstrap files h).sound running, .nil⟩
  · intro acts s e s' ih step running
    obtain ⟨sound, honest⟩ := ih (Send.running_of_step step)
    obtain ⟨sound', here⟩ := (sound.step step).1 running
    exact ⟨sound', honest.snoc ⟨step, here⟩⟩

/-- Whatever the world answers, the loop returns within two steps. -/
def Send.Returning (w : Send) : Prop :=
  ∀ e e', ∃ w', w.step e = some w' ∧
    (w'.outcome ≠ none ∨ ∃ w'', w'.step e' = some w'' ∧ w''.outcome ≠ none)

/-- `Done` is all that is left to do. -/
theorem step_done {rest : List Effect} (running : w.outcome = none) (idle : w.streaming = none)
    (hbatch : w.batch = .done :: rest) :
    w.step e = some ({ w with batch := rest }.perform e .done) := by
  unfold Send.step
  rw [running, idle, hbatch]

/-- A pass that finds `Done` pending starts the next one with it, cancelled or not. -/
theorem turn_done (state : w.fsm.state = .done) (hpending : w.pending = [.done]) :
    (w.turn e).outcome = w.outcome ∧ (w.turn e).streaming = w.streaming ∧
      (w.turn e).batch = [.done] := by
  unfold Send.turn
  split
  next =>
      unfold Send.feed Send.nextPass
      rw [on_over (by rw [state]; rfl)]
      exact ⟨rfl, rfl, by rw [List.append_nil, hpending]⟩
  next =>
      rw [if_pos (by rw [hpending]; nofun)]
      exact ⟨rfl, rfl, hpending⟩

theorem returning_of_done (running : w.outcome = none) (idle : w.streaming = none)
    (asked : (w.solicited && w.pinChecked) = true) (state : w.fsm.state = .done)
    (queue : w.batch ++ w.pending = [.done]) : w.Returning := by
  intro e e'
  cases hbatch : w.batch with
  | cons effect rest =>
      rw [hbatch] at queue
      cases head_of_queue queue
      exact ⟨_, step_done running idle hbatch, .inl (done_returns _ e)⟩
  | nil =>
      rw [hbatch, List.nil_append] at queue
      obtain ⟨solicited, checked⟩ := Bool.and_eq_true_iff.mp asked
      obtain ⟨hout, hidle, hdone⟩ := turn_done (e := e) state queue
      refine ⟨w.turn e, ?_, .inr ⟨_, step_done (hout.trans running) (hidle.trans idle) hdone, ?_⟩⟩
      · unfold Send.step
        rw [running, idle, hbatch, solicited, checked]
        rfl
      · exact done_returns _ e'

/-- Once the files are through nothing holds the loop up. -/
theorem Sound.returning (sound : Sound w) (running : w.outcome = none)
    (completed : .completed ∈ w.log) : w.Returning := by
  obtain ⟨-, phase⟩ := sound
  cases phase with
  | waiting _ _ _ _ _ unfinished | accepted _ _ _ _ _ _ _ unfinished
  | streaming _ _ _ _ _ _ _ unfinished | ended _ _ _ unfinished =>
      exact absurd completed unfinished
  | complete idle state queue asked | refused idle state queue asked =>
      exact returning_of_done running idle asked state queue

/-- **What a send says.**  A run that has returned says success exactly where the peer
accepted and every file went out to its terminator, if and only if every step of it
was honest: at `Done` after an acceptance there were bytes on offer and the goodbye
went out, and at `Done` after a refusal there were none, or it did not.  And a run
that is through with the files returns. -/
theorem send_truthful_iff
    (run : Lts.Run (Lts.ofPartial Send.step) (.init bootstrap files h) steps w) :
    (w.outcome ≠ none → (w.Truthful ↔
      Lts.Run (Lts.Restrict (Lts.ofPartial Send.step) fun w e => w.honest e = true)
        (.init bootstrap files h) steps w)) ∧
      (w.outcome = none → .completed ∈ w.log → w.Returning) := by
  refine ⟨fun returned => ⟨fun truthful => ?_, fun honest => ?_⟩, fun running completed => ?_⟩
  · cases run with
    | nil => exact .nil
    | snoc run last =>
        obtain ⟨sound, honest⟩ := honest_so_far run (Send.running_of_step last)
        have here := (sound.step last).2 returned
        exact honest.snoc ⟨last, here.mp truthful⟩
  · cases honest with
    | nil => exact (fair_init bootstrap files h).truthful returned
    | snoc earlier last =>
        obtain ⟨sound, -⟩ := honest_so_far earlier.of_restrict (Send.running_of_step last.1)
        have here := (sound.step last.1).2 returned
        exact here.mpr last.2
  · exact (honest_so_far run running).1.returning running completed

/-! ## A peer, for the concrete runs -/

/-- The peer's answer, as one BYTES chunk. -/
def answer (s : Status) : SendEnv :=
  { read := some (Frames.payloadData
      { id := 1, payloadType := .bytes, totalSize := (response s).length }
      { flags := Frames.flagLastChunk, body := response s }) }

/-- A peer like ourselves, on the same network. -/
def samePeer : Handshake where
  response := some (Frames.connectionResponse .accept .android)
  draws := [7]
  fill := some someFill

/-- Everything we say at once, the questions of the first pass, and the answer. -/
def untilAnswer (s : Status) : List SendEnv :=
  [{}, {}, {}, {}, {}, answer s]

def threeBytesFile : OutFile :=
  { name := "a.jpg".toList, mime := "image/jpeg".toList, size := 3 }

def emptyFile : OutFile :=
  { name := "a.txt".toList, mime := "text/plain".toList, size := 0 }

/-- One file in one chunk, accepted. -/
def accepted (body : Bytes) : List SendEnv :=
  untilAnswer .accept ++ ([{}, { reads := [some body] }, {}, {}, {}, {}] : List SendEnv)

theorem accepted_truthful :
    ∃ w, Lts.Run (Lts.ofPartial Send.step) (.init .wifiLan [threeBytesFile] samePeer)
        (accepted [1, 2, 3]) w ∧ w.outcome = some (.ok true) ∧ w.Truthful := by
  obtain ⟨w, run, hout⟩ := Lts.run_observe
    (Lts.guarded Send.step fun w e => w.honest e = true) Send.outcome
    (show ((accepted [1, 2, 3]).foldlM (Lts.guarded Send.step fun w e => w.honest e = true)
        (.init .wifiLan [threeBytesFile] samePeer)).map Send.outcome =
      some (some (.ok true)) by decide +kernel)
  have honest := run.of_guarded
  have returned : w.outcome ≠ none := by
    rw [hout]
    nofun
  exact ⟨w, honest.of_restrict, hout,
    ((send_truthful_iff honest.of_restrict).1 returned).mpr honest⟩

/-- The peer says no, and the goodbye goes out. -/
def declined : List SendEnv :=
  untilAnswer .reject ++ ([{}] : List SendEnv)

/-- A refusal is reported as a success, and a file of no bytes that was accepted and
sent as a refusal. -/
theorem send_untruthful :
    (∃ w, Lts.Run (Lts.ofPartial Send.step) (.init .wifiLan [threeBytesFile] samePeer)
        declined w ∧ .heard (.response .reject) ∈ w.log ∧
        w.outcome = some (.ok true) ∧ ¬ w.Truthful) ∧
      ∃ w, Lts.Run (Lts.ofPartial Send.step) (.init .wifiLan [emptyFile] samePeer)
        (accepted []) w ∧ w.Delivered ∧ w.outcome = some (.ok false) ∧ ¬ w.Truthful := by
  constructor
  · obtain ⟨w, run, hview⟩ := Lts.run_observe Send.step
      (fun w => (w.outcome, decide (.heard (.response .reject) ∈ w.log),
        decide (.completed ∈ w.log)))
      (show (declined.foldlM Send.step (.init .wifiLan [threeBytesFile] samePeer)).map _ =
        some (some (.ok true), true, false) by decide +kernel)
    obtain ⟨hout, hrest⟩ := Prod.mk.inj hview
    obtain ⟨hheard, hcompleted⟩ := Prod.mk.inj hrest
    refine ⟨w, run, of_decide_eq_true hheard, hout, ?_⟩
    intro truthful
    exact of_decide_eq_false hcompleted (truthful.mp hout).completed
  · obtain ⟨w, run, hview⟩ := Lts.run_observe Send.step
      (fun w => (w.outcome, decide (.heard (.response .accept) ∈ w.log),
        decide ((streams w.log).map Prod.fst = w.files), decide (.completed ∈ w.log)))
      (show ((accepted []).foldlM Send.step (.init .wifiLan [emptyFile] samePeer)).map _ =
        some (some (.ok false), true, true, true) by decide +kernel)
    obtain ⟨hout, hrest⟩ := Prod.mk.inj hview
    obtain ⟨hheard, hrest⟩ := Prod.mk.inj hrest
    obtain ⟨hstreamed, hcompleted⟩ := Prod.mk.inj hrest
    have delivered : w.Delivered :=
      ⟨of_decide_eq_true hheard, of_decide_eq_true hstreamed, of_decide_eq_true hcompleted⟩
    refine ⟨w, run, delivered, hout, ?_⟩
    intro truthful
    rw [truthful.mpr delivered] at hout
    cases hout

end Quickshare
