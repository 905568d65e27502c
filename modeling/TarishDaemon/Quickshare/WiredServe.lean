import TarishDaemon.Quickshare.Wired

/-!
# The receive loop on its sockets

`offer_group` is called in two places: before a transfer begins, where an error of it
is not fatal, and for a sender that asks, where it is.  Everything else the loop does
leaves its queue alone and is no LAST_WRITE (`Serve.Plain`).
-/

namespace Quickshare

open Rust Protocol Protocol.Sharing Protocol.Fsm Fallible
open Protocol.Frames (PayloadHeader)

variable {c : Crypto} {w w' w'' : Serve} {e : Env}

def Act.frame : Act → Option Bytes
  | .sent frame => some frame
  | _ => none

theorem Act.eq_of_frame {act : Act} {f : Bytes} (h : act.frame = some f) : act = .sent f := by
  cases act with
  | sent frame => exact congrArg Act.sent (Option.some.inj h)
  | _ => cases h

theorem Act.frames_sent (frames : List Bytes) :
    (frames.map Act.sent).filterMap Act.frame = frames := by
  rw [List.filterMap_map]
  exact List.filterMap_some

namespace Serve

/-- The frames that went out. -/
def sent (w : Serve) : List Bytes :=
  w.log.filterMap Act.frame

/-! ## What is no handover -/

/-- The queue stays, and what is written is no LAST_WRITE. -/
abbrev Plain (w w' : Serve) : Prop :=
  Untouched deferred log (.sent Upgrade.lastWriteToPrior) w w'

/-- One act that is no frame. -/
theorem note_plain (h : Plain w w') {act : Act} (hact : act.frame = none) :
    Plain w (w'.note [act]) := by
  refine h.adds rfl rfl ?_
  intro hmem
  rw [← List.mem_singleton.mp hmem] at hact
  cases hact

theorem fail_plain (h : Plain w w') (err : Error) : Plain w (w'.fail err) :=
  h.set rfl rfl

theorem feed_plain (h : Plain w w') (event : Event) : Plain w (w'.feed event) :=
  h.set rfl rfl

theorem write_plain (h : Plain w w') (e : Env) {frames : List Bytes}
    (hframes : Upgrade.lastWriteToPrior ∉ frames) : Plain w (w'.write e frames).1 := by
  refine h.adds rfl rfl ?_
  intro hmem
  obtain ⟨frame, hframe, heq⟩ := List.mem_map.mp hmem
  cases heq
  exact hframes (List.mem_of_mem_take hframe)

theorem writeOrFail_plain (h : Plain w w') (e : Env) {frames : List Bytes}
    (hframes : Upgrade.lastWriteToPrior ∉ frames) : Plain w (w'.writeOrFail e frames) := by
  have written := write_plain h e hframes
  unfold Serve.writeOrFail
  dsimp only
  split
  · exact written
  · exact fail_plain written _

theorem finish_plain (h : Plain w w') : Plain w w'.finish := by
  unfold Serve.finish
  split
  · exact note_plain h rfl
  · exact h

theorem finishWith_plain (h : Plain w w') (o : ServeOutcome) : Plain w (w'.finishWith o) :=
  (finish_plain h).set rfl rfl

/-- Every effect but a handover. -/
theorem perform_plain (w : Serve) (e : Env) {effect : Effect}
    (h : ∀ i, effect = .beginReceiving i → (!w.upgraded && w.bootstrapIsSlow) = false) :
    Plain w (w.perform e effect) := by
  cases effect with
  | send frame =>
      refine writeOrFail_plain ?_ e (wrapBytes_noLast _ _)
      exact .of_eq rfl rfl
  | askUser intro =>
      refine feed_plain (note_plain ?_ rfl) _
      exact .of_eq rfl rfl
  | beginReceiving intro =>
      have hstay : (!(w.expect intro).upgraded && (w.expect intro).bootstrapIsSlow) = false :=
        h intro rfl
      simp only [perform, hstay, Bool.false_eq_true, if_false]
      exact .of_eq rfl rfl
  | beginSending i => exact .refl w
  | done =>
      have written := write_plain (.refl w) e (noLast_frame (disconnection_ne true false))
      unfold perform
      dsimp only
      split
      · exact finishWith_plain written _
      · exact fail_plain written _
  | cancelled =>
      refine finishWith_plain (note_plain ?_ rfl) _
      exact .of_eq rfl rfl
  | failed why => exact fail_plain (finish_plain (.refl w)) _

theorem report_plain (h : Plain w w') (data : Bytes) (last : Bool) :
    Plain w (w'.report data last) := by
  unfold Serve.report
  dsimp only
  split
  · refine note_plain ?_ rfl
    exact h.set rfl rfl
  · exact h.set rfl rfl

theorem complete_plain (h : Plain w w') (e : Env) (id : Int) : Plain w (w'.complete e id) := by
  unfold Serve.complete
  dsimp only
  split
  · exact h.set rfl rfl
  · split
    · exact h.set rfl rfl
    · exact h.set rfl rfl

theorem writeChunk_plain (h : Plain w w') (e : Env) (id : Int) (path : Text) (data : Bytes)
    (last : Bool) : Plain w (w'.writeChunk e id path data last) := by
  have wrote : Plain w ({ w' with
      host := (w'.host.write path data e.diskStops).1 }.note [.wrote id data]) := by
    refine note_plain ?_ rfl
    exact h.set rfl rfl
  unfold Serve.writeChunk
  dsimp only
  split
  · exact fail_plain wrote _
  · split
    · exact complete_plain (note_plain (report_plain wrote data last) rfl) e id
    · exact report_plain wrote data last

theorem openSink_plain {id : Int} {header : PayloadHeader} {name path : Text}
    (h : w.openSink e id header name = .ok (w', path)) : Plain w w' := by
  unfold openSink at h
  split at h
  · cases h
    exact .refl w
  · split at h
    · cases h
    · cases h
      refine note_plain ?_ rfl
      exact .of_eq rfl rfl

theorem fileChunk_plain (w : Serve) (e : Env) (id : Int) (data : Bytes) (last : Bool)
    (header : PayloadHeader) : Plain w (w.fileChunk e id data last header) := by
  unfold fileChunk
  split
  · exact .of_eq rfl rfl
  · split
    · exact fail_plain (note_plain (.refl w) rfl) _
    next w' path hopen => exact writeChunk_plain (openSink_plain hopen) e id path data last

theorem dropSink_plain (w : Serve) (id : Int) : Plain w (w.dropSink id) := by
  unfold dropSink
  split
  · refine note_plain ?_ rfl
    exact .of_eq rfl rfl
  · exact .refl w

theorem payloadEvent_plain (w : Serve) (e : Env) (event : Payload.Event) :
    Plain w (w.payloadEvent e event) := by
  cases event with
  | bytes id data =>
      unfold payloadEvent
      dsimp only
      split
      · exact .of_eq rfl rfl
      · exact .of_eq rfl rfl
  | fileChunk id offset data last header => exact fileChunk_plain w e id data last header
  | cancelled id => exact feed_plain (dropSink_plain w id) _
  | failed id => exact .of_eq rfl rfl
  | pending => exact .refl w

/-- Whether a sender that asks for these media is offered a group. -/
def hosts (w : Serve) (mediums : List Upgrade.Medium) : Bool :=
  !w.upgraded && w.bootstrapIsSlow && decide (w.upgradeAttempts < maxUpgradeAttempts) &&
    decide (.wifiDirect ∈ mediums)

theorem pathRequest_plain (w : Serve) (e : Env) {mediums : List Upgrade.Medium}
    (h : w.hosts mediums = false) : Plain w (w.pathRequest e mediums) := by
  unfold pathRequest
  split
  · exact .refl w
  split
  · exact writeOrFail_plain (.refl w) e (noLast_frame failure_ne)
  split
  · exact writeOrFail_plain (.refl w) e (noLast_frame failure_ne)
  split
  · exact writeOrFail_plain (.refl w) e (noLast_frame failure_ne)
  next hupgraded hslow hattempts hmember =>
    simp only [hosts] at h
    simp_all

theorem pathRequest_hosts (w : Serve) (e : Env) {mediums : List Upgrade.Medium}
    (h : w.hosts mediums = true) :
    w.pathRequest e mediums =
      if e.handover.result = none then (w.offerGroup e.handover).fail .transport
      else w.offerGroup e.handover := by
  simp only [hosts, Bool.and_eq_true, Bool.not_eq_true', decide_eq_true_eq] at h
  obtain ⟨⟨⟨hupgraded, hslow⟩, hattempts⟩, hmember⟩ := h
  simp [pathRequest, hupgraded, hslow, Nat.not_le.mpr hattempts, hmember]

theorem disconnected_plain (w : Serve) (e : Env) (requestSafe : Bool) :
    Plain w (w.disconnected e requestSafe) := by
  unfold disconnected
  dsimp only
  split
  · exact finishWith_plain (write_plain (.refl w) e (noLast_frame (disconnection_ne false true))) _
  · exact finishWith_plain (.refl w) _

/-! ## One step -/

/-- The step performs an effect that has `offer_group` called. -/
def begins (w : Serve) : Bool :=
  match w.batch with
  | .beginReceiving _ :: _ => !w.upgraded && w.bootstrapIsSlow
  | _ => false

/-- The frame has `offer_group` called. -/
def asked (w : Serve) (plain : Bytes) : Bool :=
  match Upgrade.read plain with
  | some (.pathRequest mediums) => w.hosts mediums
  | _ => false

/-- The step takes a frame. -/
def takes (w : Serve) (e : Env) : Bool :=
  w.batch.isEmpty && !e.cancelled && w.pending.isEmpty

def offersGroup (w : Serve) (e : Env) : Bool :=
  w.begins || (w.takes e && (w.nextPlain e).any w.asked)

/-- What the queue is once the step has taken its frame. -/
def remaining (w : Serve) (e : Env) : List Bytes :=
  if w.takes e then w.deferred.tail else w.deferred

theorem handleFrame_plain (w : Serve) (e : Env) {plain : Bytes} {frame : Frames.Frame}
    (hparse : Frames.parse plain = .ok frame) (h : w.asked plain = false) :
    Plain w (w.handleFrame e frame) := by
  cases frame with
  | payloadTransfer pt =>
      unfold handleFrame
      dsimp only
      split
      · exact .of_eq rfl rfl
      next assembler event haccept =>
        exact (payloadEvent_plain { w with assembler := assembler } e event).since rfl rfl
  | bandwidthUpgrade body =>
      unfold handleFrame
      dsimp only
      split
      next mediums hbody =>
        apply pathRequest_plain
        rw [asked, Upgrade.read, hparse] at h
        dsimp only at h
        rw [hbody] at h
        exact h
      · exact .refl w
      · exact .refl w
  | keepAlive ack seqNum =>
      cases ack with
      | false => exact writeOrFail_plain (.refl w) e (noLast_frame (keepAlive_ne true seqNum))
      | true => exact .refl w
  | disconnection requestSafe ackSafe => exact disconnected_plain w e requestSafe
  | connectionRequest r => exact .refl w
  | connectionResponse r => exact .refl w
  | unknown ty => exact .refl w

theorem read_plain (w : Serve) (e : Env) (h : (w.nextPlain e).any w.asked = false) :
    Plain { w with deferred := w.deferred.tail } (w.read e) := by
  unfold read
  split
  next hnone =>
    refine .of_eq ?_ rfl
    unfold nextPlain at hnone
    split at hnone
    · cases hnone
    next hdeferred =>
      change w.deferred = w.deferred.tail
      rw [hdeferred]
      rfl
  next plain hplain =>
    rw [hplain] at h
    dsimp only
    split
    · exact .of_eq rfl rfl
    next frame hparse => exact handleFrame_plain { w with deferred := w.deferred.tail } e hparse h

/-- A step without a handover. -/
theorem step_plain (h : w.offersGroup e = false) (hstep : w.step e = some w') :
    Plain { w with deferred := w.remaining e } w' := by
  simp only [offersGroup, Bool.or_eq_false_iff] at h
  obtain ⟨hbegins, hasked⟩ := h
  cases steps_of_step hstep with
  | effect effect rest _ hbatch =>
      have hqueue : w.remaining e = w.deferred := by
        simp [remaining, takes, hbatch]
      rw [hqueue]
      refine Untouched.since (perform_plain { w with batch := rest } e ?_) rfl rfl
      rintro i rfl
      rw [begins, hbatch] at hbegins
      exact hbegins
  | turn _ hbatch =>
      unfold turn
      split
      next hcancelled =>
        have hqueue : w.remaining e = w.deferred := by
          simp [remaining, takes, hcancelled]
        rw [hqueue]
        exact .of_eq rfl rfl
      · split
        next hpending =>
          have hqueue : w.remaining e = w.deferred := by
            simp [remaining, takes, hpending]
          rw [hqueue]
          exact .of_eq rfl rfl
        next hcancelled hpending =>
          have hidle : w.pending = [] := by simpa using hpending
          have htakes : w.takes e = true := by
            simp [takes, hbatch, hcancelled, hidle]
          have hqueue : w.remaining e = w.deferred.tail := if_pos htakes
          rw [htakes, Bool.true_and] at hasked
          rw [hqueue]
          exact (read_plain w e hasked).set rfl rfl

/-! ## A step with a handover -/

theorem perform_begins (w : Serve) (e : Env) (i : Introduction)
    (h : (!w.upgraded && w.bootstrapIsSlow) = true) :
    w.perform e (.beginReceiving i) = (w.expect i).offerGroup e.handover := by
  have hthere : (!(w.expect i).upgraded && (w.expect i).bootstrapIsSlow) = true := h
  simp only [perform, hthere, if_true]

theorem read_asked (w : Serve) (e : Env) (h : (w.nextPlain e).any w.asked = true) :
    ∃ mediums, w.hosts mediums = true ∧
      w.read e = { w with deferred := w.deferred.tail }.pathRequest e mediums := by
  obtain ⟨plain, hplain, hasked⟩ := (Option.any_eq_true _ _).mp h
  unfold asked at hasked
  split at hasked
  next mediums hread =>
    refine ⟨mediums, hasked, ?_⟩
    unfold Upgrade.read at hread
    split at hread
    next body hparse =>
      have hbody : Upgrade.parse body = .ok (.pathRequest mediums) := by
        cases hparsed : Upgrade.parse body with
        | error err =>
            rw [hparsed] at hread
            cases hread
        | ok frame =>
            rw [hparsed] at hread
            cases hread
            rfl
      simp only [read, hplain, hparse, handleFrame, hbody]
    next => cases hread
  next => cases hasked

/-- `offer_group` adds to the queue and to what went out, and where the step is not
about to receive, an error of it ends the connection. -/
theorem step_offer {h : Handover} (hoffers : w.offersGroup e = true)
    (hstep : w.step { e with handover := h } = some w') :
    w'.deferred = w.remaining e ++ h.queued ∧ w'.log = w.log ++ h.wrote.map .sent ∧
      (w.begins = false → h.result = none → w'.outcome.isSome = true) := by
  cases steps_of_step hstep with
  | effect effect rest _ hbatch =>
      have htakes : w.takes e = false := by simp [takes, hbatch]
      have hremaining : w.remaining e = w.deferred := by simp [remaining, htakes]
      have hbegins : w.begins = true := by
        rw [offersGroup, htakes, Bool.false_and, Bool.or_false] at hoffers
        exact hoffers
      have hthere := hbegins
      rw [begins, hbatch] at hthere
      cases effect with
      | beginReceiving i =>
          rw [perform_begins { w with batch := rest } _ i hthere, hremaining]
          refine ⟨rfl, rfl, fun habs => ?_⟩
          rw [hbegins] at habs
          cases habs
      | _ => cases hthere
  | turn _ hbatch =>
      have hbegins : w.begins = false := by rw [begins, hbatch]
      rw [offersGroup, hbegins, Bool.false_or, Bool.and_eq_true] at hoffers
      obtain ⟨htakes, hasked⟩ := hoffers
      have hremaining : w.remaining e = w.deferred.tail := if_pos htakes
      simp only [takes, hbatch, List.isEmpty_nil, Bool.true_and, Bool.and_eq_true,
        Bool.not_eq_true', List.isEmpty_iff] at htakes
      obtain ⟨hcancelled, hpending⟩ := htakes
      obtain ⟨mediums, hhosts, hread⟩ := read_asked w { e with handover := h } hasked
      have hturn : w.turn { e with handover := h } =
          (w.read { e with handover := h }).nextPass := by
        simp [turn, hcancelled, hpending]
      rw [hturn, hread, pathRequest_hosts { w with deferred := w.deferred.tail } _ hhosts,
        hremaining]
      dsimp only
      split
      · exact ⟨rfl, rfl, fun _ _ => rfl⟩
      next hresult => exact ⟨rfl, rfl, fun _ habs => absurd habs hresult⟩

/-! ## The loop -/

/-- The receive loop, with the `offer_group` it may call in each step. -/
def loop (c : Crypto) : Loop c Serve (Env × Offering) where
  step w m := w.step m.1
  ended w := w.outcome.isSome
  deferred := deferred
  sent := sent
  takes w m := w.takes m.1
  receive m read := ({ m.1 with read := read }, m.2)
  calls w m := if w.offersGroup m.1 then some (Quickshare.offerGroup c m.2) else none
  settle m h := ({ m.1 with handover := h }, m.2)
  Calm w m n := w.begins = true → OfferCalm c m.2 n
  Fated := Fate.OfRelease
  takes_receive := rfl
  step_ended := by
    intro w m w' hstep
    rw [running_of_step hstep]
    rfl
  deferred_plain := by
    intro w m w' hcalls hstep
    exact (step_plain (by simpa using hcalls) hstep).queued
  sent_plain := by
    intro w m w' hcalls hstep
    exact (step_plain (by simpa using hcalls) hstep).frames fun _ => Act.eq_of_frame
  deferred_call := by
    intro w m call h w' hcalls hstep
    exact (step_offer (Option.ite_none_right_eq_some.mp hcalls).1 hstep).1
  sent_call := by
    intro w m call h w' hcalls hstep
    obtain ⟨-, hlog, -⟩ := step_offer (Option.ite_none_right_eq_some.mp hcalls).1 hstep
    rw [sent, hlog, List.filterMap_append, Act.frames_sent]
    rfl
  fated_kept := trivial
  fated_garbled := trivial
  hears := by
    intro w m call hcalls
    obtain ⟨-, hcall⟩ := Option.ite_none_right_eq_some.mp hcalls
    rw [← Option.some.inj hcall]
    exact offerGroup_hears m.2
  parts := by
    intro w m call n w' hcalls hmoved calm hstep
    obtain ⟨hoffers, hcall⟩ := Option.ite_none_right_eq_some.mp hcalls
    rw [← Option.some.inj hcall] at hstep ⊢
    obtain ⟨-, -, hfatal⟩ := step_offer hoffers hstep
    have hparts : Parts ((Quickshare.offerGroup c m.2 n).1 ≠ none ∨ OfferCalm c m.2 n) n
        (Quickshare.offerGroup c m.2 n).2 := offerGroup_parts m.2 n
    refine hparts.mono fun hgoes => ?_
    by_cases hbegins : w.begins = true
    · exact .inr (calm hbegins)
    · left
      intro hnone
      rw [hfatal (by simpa using hbegins) hnone] at hgoes
      cases hgoes

end Serve

end Quickshare
