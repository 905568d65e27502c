import TarishDaemon.Quickshare.Send
import TarishDaemon.Quickshare.Wired

/-!
# The send loop on its sockets

`wait_for_upgrade` is called before the payload, where an answer to the request for a
faster medium is still awaited, and `on_upgrade_frame` for an offer that the loop reads
itself.  An error of either ends the connection; both turn an error of `adopt` into an
UPGRADE_FAILURE.
-/

namespace Quickshare

open Rust Protocol Protocol.Sharing Protocol.Fsm Fallible
open Protocol.Frames (PayloadHeader)

variable {w w' w'' : Send} {e : SendEnv}

def SendAct.frame : SendAct → Option Bytes
  | .sent frame => some frame
  | _ => none

theorem SendAct.eq_of_frame {act : SendAct} {f : Bytes} (h : act.frame = some f) :
    act = .sent f := by
  cases act with
  | sent frame => exact congrArg SendAct.sent (Option.some.inj h)
  | _ => cases h

theorem SendAct.frames_sent (frames : List Bytes) :
    (frames.map SendAct.sent).filterMap SendAct.frame = frames := by
  rw [List.filterMap_map]
  exact List.filterMap_some

namespace Send

/-- The frames that went out. -/
def sent (w : Send) : List Bytes :=
  w.log.filterMap SendAct.frame

/-! ## What is no handover -/

/-- The queue stays, and what is written is no LAST_WRITE. -/
abbrev Plain (w w' : Send) : Prop :=
  Untouched deferred log (.sent Upgrade.lastWriteToPrior) w w'

/-- One act that is no frame. -/
theorem note_plain (h : Plain w w') {act : SendAct} (hact : act.frame = none) :
    Plain w (w'.note [act]) := by
  refine h.adds rfl rfl ?_
  intro hmem
  rw [← List.mem_singleton.mp hmem] at hact
  cases hact

theorem fail_plain (h : Plain w w') (err : SendError) : Plain w (w'.fail err) :=
  h.set rfl rfl

theorem feed_plain (h : Plain w w') (event : Event) : Plain w (w'.feed event) :=
  h.set rfl rfl

theorem write_plain (h : Plain w w') (e : SendEnv) {frames : List Bytes}
    (hframes : Upgrade.lastWriteToPrior ∉ frames) : Plain w (w'.write e frames).1 := by
  refine h.adds rfl rfl ?_
  intro hmem
  obtain ⟨frame, hframe, heq⟩ := List.mem_map.mp hmem
  cases heq
  exact hframes (List.mem_of_mem_take hframe)

theorem finish_plain (h : Plain w w') (ok : Bool) : Plain w (w'.finish ok) :=
  h.set rfl rfl

theorem writeOrFail_plain (h : Plain w w') (e : SendEnv) {frames : List Bytes}
    (hframes : Upgrade.lastWriteToPrior ∉ frames) : Plain w (w'.writeOrFail e frames) := by
  have written := write_plain h e hframes
  unfold Send.writeOrFail
  dsimp only
  split
  · exact written
  · exact fail_plain written _

theorem finishCleanly_plain (h : Plain w w') (e : SendEnv) :
    Plain w (w'.finishCleanly e).1 := by
  unfold Send.finishCleanly
  split
  · exact write_plain h e (noLast_frame (disconnection_ne true false))
  · exact h

/-- The loop is about to send, and an answer to its request is still awaited. -/
def waits (w : Send) : Bool :=
  match w.streaming, w.batch with
  | none, .beginSending _ :: _ => w.upgradeDeadline
  | _, _ => false

/-- Every effect but a handover. -/
theorem perform_plain (w : Send) (e : SendEnv) {effect : Effect}
    (h : ∀ i, effect = .beginSending i → w.upgradeDeadline = false) :
    Plain w (w.perform e effect) := by
  cases effect with
  | send frame =>
      refine writeOrFail_plain ?_ e (wrapBytes_noLast _ _)
      exact .of_eq rfl rfl
  | beginSending i =>
      simp only [perform, h i rfl, Bool.false_eq_true, if_false]
      exact .of_eq rfl rfl
  | done =>
      have parted := finishCleanly_plain (.refl w) e
      unfold perform
      dsimp only
      split
      · exact parted.set rfl rfl
      · exact fail_plain parted _
  | cancelled => exact .of_eq rfl rfl
  | failed why => exact .of_eq rfl rfl
  | askUser intro => exact .refl w
  | beginReceiving intro => exact .refl w

theorem stream_plain (w : Send) (e : SendEnv) (s : Stream) : Plain w (w.stream e s) := by
  unfold stream
  split
  · refine feed_plain (note_plain ?_ rfl) _
    exact .of_eq rfl rfl
  next f id rest =>
    dsimp only
    split
    · split
      · refine note_plain ?_ rfl
        exact (write_plain (.refl w) e (noLast_frame (payloadData_ne _ _))).set rfl rfl
      · exact fail_plain (write_plain (.refl w) e (noLast_frame (payloadData_ne _ _))) _
    · split
      · exact .of_eq rfl rfl
      · split
        · exact .of_eq rfl rfl
        · exact .of_eq rfl rfl
        · split
          · refine note_plain ?_ rfl
            exact (write_plain (.refl w) e (noLast_frame (payloadData_ne _ _))).set rfl rfl
          · exact fail_plain (write_plain (.refl w) e (noLast_frame (payloadData_ne _ _))) _

theorem solicit_plain (w : Send) (e : SendEnv) : Plain w (w.solicit e) := by
  have asked : Plain w (({ w with solicited := true } : Send).write e
      [Upgrade.pathRequest [.wifiDirect]]).1 := by
    refine write_plain ?_ e (noLast_frame (pathRequest_ne _))
    exact .of_eq rfl rfl
  unfold solicit
  dsimp only
  split
  · split
    · exact asked.set rfl rfl
    · exact fail_plain asked _
  · exact .of_eq rfl rfl

theorem checkPin_plain (w : Send) (e : SendEnv) : Plain w (w.checkPin e) := by
  unfold checkPin
  dsimp only
  split
  · exact .of_eq rfl rfl
  · refine finish_plain (write_plain ?_ e (noLast_frame (disconnection_ne _ _))) _
    exact .of_eq rfl rfl

/-- The body of an offer. -/
def offered (plain : Bytes) : Option Bytes :=
  match Frames.parse plain with
  | .ok (.bandwidthUpgrade body) =>
      match Upgrade.parse body with
      | .ok (.pathAvailable _) => some body
      | .ok _ | .error _ => none
  | .ok _ | .error _ => none

theorem handleFrame_plain (w : Send) (e : SendEnv) {plain : Bytes} {frame : Frames.Frame}
    (hparse : Frames.parse plain = .ok frame) (h : offered plain = none) :
    Plain w (w.handleFrame e frame) := by
  cases frame with
  | payloadTransfer pt =>
      unfold handleFrame
      dsimp only
      split
      · exact .of_eq rfl rfl
      · split
        · exact .of_eq rfl rfl
        · refine feed_plain (note_plain ?_ rfl) _
          exact .of_eq rfl rfl
      · exact .of_eq rfl rfl
  | bandwidthUpgrade body =>
      unfold handleFrame onUpgradeFrame
      dsimp only
      split
      next path hbody =>
        rw [offered, hparse] at h
        dsimp only at h
        rw [hbody] at h
        cases h
      · exact .of_eq rfl rfl
      · exact .of_eq rfl rfl
  | keepAlive ack seqNum =>
      cases ack with
      | false =>
          exact writeOrFail_plain (.refl w) e (noLast_frame (keepAlive_ne true seqNum))
      | true => exact .refl w
  | disconnection requestSafe ackSafe =>
      unfold handleFrame
      dsimp only
      split
      · exact finish_plain (write_plain (.refl w) e (noLast_frame (disconnection_ne false true))) _
      · exact finish_plain (.refl w) _
  | connectionRequest r => exact .refl w
  | connectionResponse r => exact .refl w
  | unknown ty => exact .refl w

theorem read_plain (w : Send) (e : SendEnv) (h : (w.nextPlain e).bind offered = none) :
    Plain { w with deferred := w.deferred.tail } (w.read e) := by
  unfold read
  split
  next hnone =>
    refine .of_eq ?_ rfl
    unfold nextPlain at hnone
    split at hnone
    · cases hnone
    next hdeferred =>
      change w.deferred = w.deferred.tail
      rw [hdeferred]
      rfl
  next plain hplain =>
    rw [hplain] at h
    dsimp only
    split
    · exact .of_eq rfl rfl
    next frame hparse => exact handleFrame_plain { w with deferred := w.deferred.tail } e hparse h

/-! ## One step -/

/-- The step takes a frame. -/
def takes (w : Send) (e : SendEnv) : Bool :=
  w.streaming.isNone && w.batch.isEmpty && w.solicited && w.pinChecked && !e.cancelled &&
    w.pending.isEmpty

/-- What the queue is once the step has taken its frame. -/
def remaining (w : Send) (e : SendEnv) : List Bytes :=
  if w.takes e then w.deferred.tail else w.deferred

/-- The offer that the step takes up. -/
def takesUp (w : Send) (e : SendEnv) : Option Bytes :=
  if w.takes e then (w.nextPlain e).bind offered else none

/-- A step without a handover. -/
theorem step_plain (hwaits : w.waits = false) (htakesUp : w.takesUp e = none)
    (hstep : w.step e = some w') : Plain { w with deferred := w.remaining e } w' := by
  have stay : ∀ {u : Send}, w.takes e = false → Plain w u →
      Plain { w with deferred := w.remaining e } u := by
    intro u htakes hplain
    have hremaining : w.remaining e = w.deferred := by simp [remaining, htakes]
    rw [hremaining]
    exact hplain
  cases steps_of_step hstep with
  | stream s _ hstreaming => exact stay (by simp [takes, hstreaming]) (stream_plain w e s)
  | effect effect rest _ hidle hbatch =>
      apply stay (by simp [takes, hbatch])
      refine Untouched.since (perform_plain { w with batch := rest } e ?_) rfl rfl
      rintro i rfl
      rw [waits, hidle, hbatch] at hwaits
      exact hwaits
  | solicit _ _ _ hunasked => exact stay (by simp [takes, hunasked]) (solicit_plain w e)
  | checkPin _ _ _ _ hunchecked => exact stay (by simp [takes, hunchecked]) (checkPin_plain w e)
  | turn _ hidle hbatch hasked hchecked =>
      unfold turn
      split
      next hcancelled => exact stay (by simp [takes, hcancelled]) (.of_eq rfl rfl)
      next hcancelled =>
        split
        next hpending => exact stay (by simp [takes, hpending]) (.of_eq rfl rfl)
        next hpending =>
          have hnone : w.pending = [] := by simpa using hpending
          have htakes : w.takes e = true := by
            simp [takes, hidle, hbatch, hasked, hchecked, hcancelled, hnone]
          have hremaining : w.remaining e = w.deferred.tail := if_pos htakes
          rw [takesUp, if_pos htakes] at htakesUp
          rw [hremaining]
          exact (read_plain w e htakesUp).set rfl rfl

/-! ## A step with a handover -/

/-- What a handover leaves of the loop's variables. -/
structure HandsOver (h : Handover) (queue : List Bytes) (record : List SendAct) (w' : Send) :
    Prop where
  deferred : w'.deferred = queue ++ h.queued
  log : w'.log = record ++ h.wrote.map .sent
  fatal : h.result = none → w'.outcome.isSome = true

theorem handOver_hands (w : Send) (h : Handover) :
    HandsOver h w.deferred w.log (w.handOver h) := by
  unfold handOver
  dsimp only
  split
  · exact ⟨rfl, rfl, fun _ => rfl⟩
  next hresult => exact ⟨rfl, rfl, fun habs => absurd habs hresult⟩

/-- The loop waits for the offer. -/
theorem step_waits {h : Handover} (hwaits : w.waits = true)
    (hstep : w.step { e with handover := h } = some w') :
    HandsOver h (w.remaining e) w.log w' := by
  unfold waits at hwaits
  split at hwaits
  next i rest hidle hbatch =>
    have hremaining : w.remaining e = w.deferred := by simp [remaining, takes, hbatch]
    unfold step at hstep
    rw [hidle, hbatch] at hstep
    split at hstep
    · cases hstep
    · cases hstep
      simp only [perform, hwaits, if_true, hremaining]
      exact handOver_hands { w with
        batch := rest
        upgradeDeadline := false
        streaming := some { left := w.files.zip w.payloadIds } } h
  · cases hwaits

theorem read_offered (w : Send) (e : SendEnv) {body : Bytes}
    (h : (w.nextPlain e).bind offered = some body) :
    w.read e =
      { { w with deferred := w.deferred.tail }.handOver e.handover with
        upgradeDeadline := false } := by
  obtain ⟨plain, hplain, hoffered⟩ := Option.bind_eq_some_iff.mp h
  unfold offered at hoffered
  split at hoffered
  next body' hparse =>
    split at hoffered
    next path hbody => simp only [read, hplain, hparse, handleFrame, onUpgradeFrame, hbody]
    · cases hoffered
    · cases hoffered
  · cases hoffered
  · cases hoffered

/-- The loop reads the offer itself. -/
theorem step_takesUp {h : Handover} {body : Bytes} (hbody : w.takesUp e = some body)
    (hstep : w.step { e with handover := h } = some w') :
    HandsOver h (w.remaining e) w.log w' := by
  obtain ⟨htakes, hoffered⟩ := Option.ite_none_right_eq_some.mp hbody
  have hremaining : w.remaining e = w.deferred.tail := if_pos htakes
  simp only [takes, Bool.and_eq_true, Option.isNone_iff_eq_none, List.isEmpty_iff,
    Bool.not_eq_true'] at htakes
  obtain ⟨⟨⟨⟨⟨hidle, hbatch⟩, hsolicited⟩, hpin⟩, hcancelled⟩, hpending⟩ := htakes
  have hturn : w.turn { e with handover := h } =
      (w.read { e with handover := h }).nextPass := by
    simp [turn, hcancelled, hpending]
  have hread := read_offered w { e with handover := h } hoffered
  unfold step at hstep
  rw [hidle, hbatch] at hstep
  split at hstep
  · cases hstep
  · simp only [hsolicited, hpin, Bool.not_true, Bool.false_eq_true, if_false] at hstep
    rw [← Option.some.inj hstep, hturn, hread, hremaining]
    obtain ⟨hdeferred, hlog, hfatal⟩ :=
      handOver_hands { w with deferred := w.deferred.tail } h
    exact ⟨hdeferred, hlog, hfatal⟩

/-! ## The loop -/

/-- What a step calls. -/
def called (c : Crypto) (w : Send) (m : SendEnv × Adopting) : Option (Fallible Moving Unit) :=
  if w.waits then some (waitForUpgrade c m.2 m.2.waits)
  else (w.takesUp m.1).map (Quickshare.onUpgradeFrame c m.2)

theorem called_eq_none {c : Crypto} {m : SendEnv × Adopting} (h : w.called c m = none) :
    w.waits = false ∧ w.takesUp m.1 = none := by
  unfold called at h
  split at h
  · cases h
  next hwaits => exact ⟨by simpa using hwaits, Option.map_eq_none_iff.mp h⟩

theorem step_called {c : Crypto} {m : SendEnv × Adopting} {call : Fallible Moving Unit}
    {h : Handover} (hcalled : w.called c m = some call)
    (hstep : w.step { m.1 with handover := h } = some w') :
    HandsOver h (w.remaining m.1) w.log w' := by
  unfold called at hcalled
  split at hcalled
  next hwaits => exact step_waits hwaits hstep
  next =>
    obtain ⟨body, hbody, -⟩ := Option.map_eq_some_iff.mp hcalled
    exact step_takesUp hbody hstep

/-- Where a step calls a handover, an error of `adopt` finds the old socket as it was, or
the UPGRADE_FAILURE that answers it does not go out. -/
def Calm (c : Crypto) (w : Send) (m : SendEnv × Adopting) (n : Moving) : Prop :=
  if w.waits then WaitCalm c m.2 m.2.waits n
  else ∀ body, w.takesUp m.1 = some body → UpgradeCalm c m.2 body n

theorem called_hears {c : Crypto} {m : SendEnv × Adopting} {call : Fallible Moving Unit}
    (hcalled : w.called c m = some call) : Keeps (Hears c Fate.OfUpgrade) call := by
  unfold called at hcalled
  split at hcalled
  · cases hcalled
    exact waitForUpgrade_hears m.2 m.2.waits
  · obtain ⟨body, -, rfl⟩ := Option.map_eq_some_iff.mp hcalled
    exact onUpgradeFrame_hears m.2 body

theorem called_parts {c : Crypto} {m : SendEnv × Adopting} {call : Fallible Moving Unit}
    {n : Moving} (hcalled : w.called c m = some call) (hn : n.moved = false)
    (calm : Calm c w m n) : Ends call n fun r n' => Parts (r ≠ none) n n' := by
  unfold called at hcalled
  unfold Calm at calm
  split at hcalled
  next hwaits =>
    cases hcalled
    rw [if_pos hwaits] at calm
    exact waitForUpgrade_parts m.2 m.2.waits hn calm
  next hwaits =>
    obtain ⟨body, hbody, rfl⟩ := Option.map_eq_some_iff.mp hcalled
    rw [if_neg hwaits] at calm
    exact onUpgradeFrame_parts m.2 body hn (calm body hbody)

/-- The send loop, with what it may meet in a handover. -/
def loop (c : Crypto) : Loop c Send (SendEnv × Adopting) where
  step w m := w.step m.1
  ended w := w.outcome.isSome
  deferred := deferred
  sent := sent
  takes w m := w.takes m.1
  receive m read := ({ m.1 with read := read }, m.2)
  calls w m := (w.called c m).map fun call => do
    call
    return false
  settle m h := ({ m.1 with handover := h }, m.2)
  Calm := Calm c
  Fated := Fate.OfUpgrade
  takes_receive := rfl
  step_ended := by
    intro w m w' hstep
    rw [running_of_step hstep]
    rfl
  deferred_plain := by
    intro w m w' hcalls hstep
    obtain ⟨hwaits, htakesUp⟩ := called_eq_none (Option.map_eq_none_iff.mp hcalls)
    exact (step_plain hwaits htakesUp hstep).queued
  sent_plain := by
    intro w m w' hcalls hstep
    obtain ⟨hwaits, htakesUp⟩ := called_eq_none (Option.map_eq_none_iff.mp hcalls)
    exact (step_plain hwaits htakesUp hstep).frames fun _ => SendAct.eq_of_frame
  deferred_call := by
    intro w m call h w' hcalls hstep
    obtain ⟨called, hcalled, -⟩ := Option.map_eq_some_iff.mp hcalls
    exact (step_called hcalled hstep).deferred
  sent_call := by
    intro w m call h w' hcalls hstep
    obtain ⟨called, hcalled, -⟩ := Option.map_eq_some_iff.mp hcalls
    rw [sent, (step_called hcalled hstep).log, List.filterMap_append, SendAct.frames_sent]
    rfl
  fated_kept := trivial
  fated_garbled := trivial
  hears := by
    intro w m call hcalls
    obtain ⟨called, hcalled, rfl⟩ := Option.map_eq_some_iff.mp hcalls
    exact hears_bind (called_hears hcalled) fun _ => keeps_pure Hears.refl _
  parts := by
    intro w m call n w' hcalls hn calm hstep
    obtain ⟨called, hcalled, rfl⟩ := Option.map_eq_some_iff.mp hcalls
    have hparts : Parts ((called n).1 ≠ none) n (called n).2 := called_parts hcalled hn calm
    have hfatal := (step_called hcalled hstep).fatal
    rw [bind_pure_apply] at hfatal ⊢
    refine hparts.mono fun hgoes hnone => ?_
    have hended : w'.outcome.isSome = true := hfatal (by simp [Moving.report, hnone])
    rw [hgoes] at hended
    cases hended

end Send

end Quickshare
