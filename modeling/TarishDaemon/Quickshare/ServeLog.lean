import TarishDaemon.Quickshare.Serve

/-!
# What is on record stays there

No step of the receive loop takes anything out of its log, whatever it does and however it
ends (`log_step`).
-/

namespace Quickshare

open Rust Protocol Protocol.Sharing Protocol.Fsm Sharingd
open Protocol.Frames (PayloadHeader)

namespace Serve

variable {w w' : Serve}

theorem log_note (w : Serve) (acts : List Act) : w.log <+: (w.note acts).log :=
  List.prefix_append _ _

theorem log_write (w : Serve) (e : Env) (frames : List Bytes) :
    w.log <+: (w.write e frames).1.log :=
  log_note w _

theorem log_writeOrFail (w : Serve) (e : Env) (frames : List Bytes) :
    w.log <+: (w.writeOrFail e frames).log := by
  have wrote := log_write w e frames
  unfold writeOrFail
  dsimp only
  split
  · exact wrote
  · exact wrote

theorem log_finish (w : Serve) : w.log <+: w.finish.log := by
  unfold finish
  split
  · exact log_note w _
  · exact List.prefix_refl _

theorem log_perform (w : Serve) (e : Env) (effect : Effect) :
    w.log <+: (w.perform e effect).log := by
  cases effect with
  | send frame =>
      exact log_writeOrFail { w with nextPayloadId := (wrapBytes w.nextPayloadId frame).1 } e _
  | askUser intro => exact List.prefix_append _ _
  | beginReceiving intro =>
      unfold perform
      dsimp only
      split
      · exact List.prefix_append _ _
      · exact List.prefix_refl _
  | beginSending i => exact List.prefix_refl _
  | done =>
      have wrote := log_write w e [Frames.disconnection true false]
      unfold perform
      dsimp only
      split
      · exact wrote.trans (log_finish _)
      · exact wrote
  | cancelled =>
      exact (List.prefix_append w.log [.discarded]).trans
        (log_finish ({ w with sinks := ∅, host := w.host.discard e.stuck }.note [.discarded]))
  | failed why => exact log_finish w

/-! ## Receiving -/

theorem log_report (w : Serve) (data : Bytes) (last : Bool) :
    w.log <+: (w.report data last).log := by
  unfold report
  dsimp only
  split
  · exact List.prefix_append _ _
  · exact List.prefix_refl _

theorem log_complete (w : Serve) (e : Env) (id : Int) : w.log <+: (w.complete e id).log := by
  unfold complete
  dsimp only
  split
  · exact List.prefix_refl _
  · split
    · exact List.prefix_refl _
    · exact List.prefix_refl _

theorem log_writeChunk (w : Serve) (e : Env) (id : Int) (path : Text) (data : Bytes)
    (last : Bool) : w.log <+: (w.writeChunk e id path data last).log := by
  have wrote : w.log <+: ({ w with
      host := (w.host.write path data e.diskStops).1 }.note [.wrote id data]).log :=
    List.prefix_append _ _
  unfold writeChunk
  dsimp only
  split
  · exact wrote
  · have reported := wrote.trans (log_report _ data last)
    split
    · exact (reported.trans (log_note _ [.delivered id])).trans (log_complete _ e id)
    · exact reported

theorem log_openSink {e : Env} {id : Int} {header : PayloadHeader} {name path : Text}
    (h : w.openSink e id header name = .ok (w', path)) : w.log <+: w'.log := by
  unfold openSink at h
  split at h
  · cases h
    exact List.prefix_refl _
  · split at h
    · cases h
    · cases h
      exact List.prefix_append _ _

theorem log_fileChunk (w : Serve) (e : Env) (id : Int) (data : Bytes) (last : Bool)
    (header : PayloadHeader) : w.log <+: (w.fileChunk e id data last header).log := by
  unfold fileChunk
  split
  · exact List.prefix_refl _
  · split
    · exact List.prefix_append _ _
    next opened path hopen => exact (log_openSink hopen).trans (log_writeChunk _ e id path data last)

theorem log_payloadEvent (w : Serve) (e : Env) (event : Payload.Event) :
    w.log <+: (w.payloadEvent e event).log := by
  cases event with
  | bytes id data =>
      unfold payloadEvent
      dsimp only
      split
      · exact List.prefix_refl _
      · exact List.prefix_refl _
  | fileChunk id _ data last header => exact log_fileChunk w e id data last header
  | cancelled id =>
      have dropped : w.log <+: (w.dropSink id).log := by
        unfold dropSink
        split
        · exact List.prefix_append _ _
        · exact List.prefix_refl _
      exact dropped
  | failed id => exact List.prefix_refl _
  | pending => exact List.prefix_refl _

theorem log_pathRequest (w : Serve) (e : Env) (mediums : List Upgrade.Medium) :
    w.log <+: (w.pathRequest e mediums).log := by
  have refused := log_writeOrFail w e [Upgrade.failure]
  have offered : w.log <+: (w.offerGroup e.handover).log := List.prefix_append _ _
  unfold pathRequest
  split
  · exact List.prefix_refl _
  split
  · exact refused
  split
  · exact refused
  split
  · exact refused
  dsimp only
  split
  · exact offered
  · exact offered

theorem log_disconnected (w : Serve) (e : Env) (requestSafe : Bool) :
    w.log <+: (w.disconnected e requestSafe).log := by
  unfold disconnected finishWith
  dsimp only
  split
  · exact (log_write w e _).trans (log_finish _)
  · exact log_finish w

theorem log_handleFrame (w : Serve) (e : Env) (frame : Frames.Frame) :
    w.log <+: (w.handleFrame e frame).log := by
  cases frame with
  | payloadTransfer pt =>
      unfold handleFrame
      dsimp only
      split
      · exact List.prefix_refl _
      next assembler event _ => exact log_payloadEvent { w with assembler := assembler } e event
  | bandwidthUpgrade body =>
      unfold handleFrame
      dsimp only
      split
      next mediums _ => exact log_pathRequest w e mediums
      · exact List.prefix_refl _
      · exact List.prefix_refl _
  | keepAlive ack seqNum =>
      cases ack with
      | false => exact log_writeOrFail w e _
      | true => exact List.prefix_refl _
  | disconnection requestSafe _ => exact log_disconnected w e requestSafe
  | connectionRequest _ => exact List.prefix_refl _
  | connectionResponse _ => exact List.prefix_refl _
  | unknown _ => exact List.prefix_refl _

theorem log_read (w : Serve) (e : Env) : w.log <+: (w.read e).log := by
  unfold read
  split
  · exact List.prefix_refl _
  · dsimp only
    split
    · exact List.prefix_refl _
    next frame _ => exact log_handleFrame { w with deferred := w.deferred.tail } e frame

/-- **A step adds to the log.** -/
theorem log_step {e : Env} (h : w.step e = some w') : w.log <+: w'.log := by
  cases steps_of_step h with
  | effect effect rest _ _ => exact log_perform { w with batch := rest } e effect
  | turn _ _ =>
      unfold turn
      split
      · exact List.prefix_refl _
      split
      · exact List.prefix_refl _
      · exact log_read w e

end Serve

end Quickshare
