import TarishDaemon.Quickshare.ServeConsent
import TarishDaemon.Quickshare.WiredServe

/-!
# How many handovers a connection makes

`offer_group` is called in two places.  A peer that asks for a handover is turned down
once `MAX_UPGRADE_ATTEMPTS` have been made; where a transfer begins the count is not
looked at.  What the two places do look at are the `Gates`, and nothing but a handover
changes those.

`Goes` says what all the rest of the loop may do: it queues effects, sends frames, and
leaves the gates alone.
-/

namespace Quickshare

open Rust Protocol Protocol.Sharing Protocol.Fsm
open Protocol.Frames (PayloadHeader)

variable {w w' w'' : Serve} {e : Env}

/-- What decides whether a handover is made. -/
structure Gates where
  slow : Bool
  upgraded : Bool
  attempts : Nat

/-- The gates once `offer_group` has returned. -/
def Gates.tried (g : Gates) (result : Option Bool) : Gates :=
  { g with
    upgraded := g.upgraded || decide (result = some true)
    attempts := g.attempts + 1 }

/-- Whoever begins to receive has the Accept sent right before; in front of the first effect
that is what `before` says. -/
def Led (before : Prop) : List Effect → Prop
  | [] => True
  | .beginReceiving _ :: rest => before ∧ Led False rest
  | .send frame :: rest => Led (frame = response .accept) rest
  | .askUser _ :: rest | .beginSending _ :: rest | .done :: rest | .cancelled :: rest
  | .failed _ :: rest => Led False rest

theorem Led.mono {before before' : Prop} {es : List Effect} (h : Led before es)
    (imp : before → before') : Led before' es := by
  cases es with
  | nil => trivial
  | cons effect es =>
      cases effect with
      | beginReceiving i => exact ⟨imp h.1, h.2⟩
      | _ => exact h

theorem Led.append {before : Prop} {es more : List Effect} (h : Led before es)
    (hmore : Led False more) : Led before (es ++ more) := by
  induction es generalizing before with
  | nil => exact hmore.mono False.elim
  | cons effect es ih =>
      cases effect with
      | beginReceiving i => exact ⟨h.1, ih h.2⟩
      | _ => exact ih h

/-- So it is with all that the sharing machine asks for. -/
theorem led_on (m : Inbound) (event : Event) : Led False (m.on event).2 := by
  have reply := reply_on m event
  generalize (m.on event).2 = es at reply
  generalize (m.on event).1 = m' at reply
  cases reply with
  | accept here => exact ⟨rfl, trivial⟩
  | _ => trivial

namespace Serve

def gates (w : Serve) : Gates :=
  { slow := w.bootstrapIsSlow, upgraded := w.upgraded, attempts := w.upgradeAttempts }

/-! ## What the loop does besides handovers -/

/-- Effects are queued behind the batch, and frames go out. -/
structure Adds (w w' : Serve) : Prop where
  batch : w'.batch = w.batch
  queued : ∃ es, w'.pending = w.pending ++ es ∧ Led False es
  wrote : ∃ frames, w'.sent = w.sent ++ frames

theorem Adds.refl (w : Serve) : Adds w w :=
  ⟨rfl, ⟨[], (List.append_nil _).symm, trivial⟩, [], (List.append_nil _).symm⟩

theorem Adds.trans (h : Adds w w') (h' : Adds w' w'') : Adds w w'' := by
  obtain ⟨es, hes, led⟩ := h.queued
  obtain ⟨more, hmore, led'⟩ := h'.queued
  obtain ⟨frames, hframes⟩ := h.wrote
  obtain ⟨frames', hframes'⟩ := h'.wrote
  refine ⟨h'.batch.trans h.batch, ⟨es ++ more, ?_, led.append led'⟩, frames ++ frames', ?_⟩
  · rw [hmore, hes, List.append_assoc]
  · rw [hframes', hframes, List.append_assoc]

/-- And the gates are as they were. -/
structure Goes (w w' : Serve) : Prop extends Adds w w' where
  gates : w'.gates = w.gates

theorem Goes.refl (w : Serve) : Goes w w :=
  ⟨.refl w, rfl⟩

theorem Goes.trans (h : Goes w w') (h' : Goes w' w'') : Goes w w'' :=
  ⟨h.toAdds.trans h'.toAdds, h'.gates.trans h.gates⟩

/-- Other fields have changed. -/
theorem Goes.set (h : Goes w w') (hbatch : w''.batch = w'.batch)
    (hpending : w''.pending = w'.pending) (hsent : w''.sent = w'.sent)
    (hgates : w''.gates = w'.gates) : Goes w w'' :=
  h.trans
    ⟨⟨hbatch, ⟨[], hpending.trans (List.append_nil _).symm, trivial⟩, [],
      hsent.trans (List.append_nil _).symm⟩, hgates⟩

theorem Goes.note (h : Goes w w') (acts : List Act) : Goes w (w'.note acts) := by
  refine h.trans
    ⟨⟨rfl, ⟨[], (List.append_nil _).symm, trivial⟩, acts.filterMap Act.frame, ?_⟩, rfl⟩
  exact List.filterMap_append

theorem Goes.fail (h : Goes w w') (err : Error) : Goes w (w'.fail err) :=
  h.set rfl rfl rfl rfl

theorem Goes.feed (h : Goes w w') (event : Event) : Goes w (w'.feed event) := by
  exact h.trans ⟨⟨rfl, ⟨_, rfl, led_on w'.fsm event⟩, [], (List.append_nil _).symm⟩, rfl⟩

theorem Goes.write (h : Goes w w') (e : Env) (frames : List Bytes) :
    Goes w (w'.write e frames).1 :=
  h.note _

theorem Goes.writeOrFail (h : Goes w w') (e : Env) (frames : List Bytes) :
    Goes w (w'.writeOrFail e frames) := by
  unfold Serve.writeOrFail
  dsimp only
  split
  · exact h.write e frames
  · exact (h.write e frames).fail _

theorem Goes.finish (h : Goes w w') : Goes w w'.finish := by
  unfold Serve.finish
  split
  · exact h.note _
  · exact h

theorem Goes.finishWith (h : Goes w w') (o : ServeOutcome) : Goes w (w'.finishWith o) :=
  h.finish.set rfl rfl rfl rfl

theorem Goes.report (h : Goes w w') (data : Bytes) (last : Bool) :
    Goes w (w'.report data last) := by
  unfold Serve.report
  dsimp only
  split
  · apply Goes.note
    exact h.set rfl rfl rfl rfl
  · exact h.set rfl rfl rfl rfl

theorem Goes.complete (h : Goes w w') (e : Env) (id : Int) : Goes w (w'.complete e id) := by
  unfold Serve.complete
  dsimp only
  split
  · exact h.set rfl rfl rfl rfl
  · split
    · apply Goes.feed
      exact h.set rfl rfl rfl rfl
    · exact h.set rfl rfl rfl rfl

theorem Goes.writeChunk (h : Goes w w') (e : Env) (id : Int) (path : Text) (data : Bytes)
    (last : Bool) : Goes w (w'.writeChunk e id path data last) := by
  unfold Serve.writeChunk
  dsimp only
  have hwrote : Goes w ({ w' with host := (w'.host.write path data e.diskStops).1 }.note
      [.wrote id data]) := by
    apply Goes.note
    exact h.set rfl rfl rfl rfl
  split
  · exact hwrote.fail _
  · split
    · exact ((hwrote.report data last).note _).complete e id
    · exact hwrote.report data last

theorem goes_openSink {id : Int} {header : PayloadHeader} {name path : Text}
    (h : w.openSink e id header name = .ok (w', path)) : Goes w w' := by
  unfold openSink at h
  split at h
  · cases h
    exact .refl w
  · split at h
    · cases h
    · cases h
      apply Goes.note
      exact (Goes.refl w).set rfl rfl rfl rfl

theorem goes_fileChunk (w : Serve) (e : Env) (id : Int) (data : Bytes) (last : Bool)
    (header : PayloadHeader) : Goes w (w.fileChunk e id data last header) := by
  unfold fileChunk
  split
  · exact (Goes.refl w).fail _
  · split
    · exact ((Goes.refl w).note _).fail _
    next hopen => exact (goes_openSink hopen).writeChunk e id _ data last

theorem goes_dropSink (w : Serve) (id : Int) : Goes w (w.dropSink id) := by
  unfold dropSink
  split
  · apply Goes.note
    exact (Goes.refl w).set rfl rfl rfl rfl
  · exact .refl w

theorem goes_payloadEvent (w : Serve) (e : Env) (event : Payload.Event) :
    Goes w (w.payloadEvent e event) := by
  cases event with
  | bytes id data =>
      unfold payloadEvent
      dsimp only
      split
      · exact (Goes.refl w).fail _
      · exact (Goes.refl w).feed _
  | fileChunk id offset data last header => exact goes_fileChunk w e id data last header
  | cancelled id => exact (goes_dropSink w id).feed _
  | failed id => exact (Goes.refl w).fail _
  | pending => exact .refl w

theorem goes_disconnected (w : Serve) (e : Env) (requestSafe : Bool) :
    Goes w (w.disconnected e requestSafe) := by
  unfold disconnected
  dsimp only
  split
  · exact ((Goes.refl w).write e _).finishWith _
  · exact (Goes.refl w).finishWith _

theorem goes_pathRequest {mediums : List Upgrade.Medium} (h : w.hosts mediums = false) :
    Goes w (w.pathRequest e mediums) := by
  unfold pathRequest
  split
  · exact .refl w
  split
  · exact (Goes.refl w).writeOrFail e _
  split
  · exact (Goes.refl w).writeOrFail e _
  split
  · exact (Goes.refl w).writeOrFail e _
  next hupgraded hslow hattempts hmember =>
    simp only [hosts] at h
    simp_all

theorem goes_handleFrame {plain : Bytes} {frame : Frames.Frame}
    (hparse : Frames.parse plain = .ok frame) (h : w.asked plain = false) :
    Goes w (w.handleFrame e frame) := by
  cases frame with
  | payloadTransfer pt =>
      unfold handleFrame
      dsimp only
      split
      · exact (Goes.refl w).set rfl rfl rfl rfl
      next assembler event haccept =>
        refine Goes.trans ?_ (goes_payloadEvent { w with assembler := assembler } e event)
        exact (Goes.refl w).set rfl rfl rfl rfl
  | bandwidthUpgrade body =>
      unfold handleFrame
      dsimp only
      split
      next mediums hbody =>
        apply goes_pathRequest
        rw [asked, Upgrade.read, hparse] at h
        dsimp only at h
        rw [hbody] at h
        exact h
      · exact .refl w
      · exact .refl w
  | keepAlive ack seqNum =>
      cases ack with
      | false => exact (Goes.refl w).writeOrFail e _
      | true => exact .refl w
  | disconnection requestSafe ackSafe => exact goes_disconnected w e requestSafe
  | connectionRequest r => exact .refl w
  | connectionResponse r => exact .refl w
  | unknown ty => exact .refl w

theorem goes_read (h : (w.nextPlain e).any w.asked = false) : Goes w (w.read e) := by
  unfold read
  split
  · exact (Goes.refl w).fail _
  next plain hplain =>
    rw [hplain] at h
    dsimp only
    have htaken : Goes w { w with deferred := w.deferred.tail } := (Goes.refl w).set rfl rfl rfl rfl
    split
    · exact htaken.fail _
    next frame hparse =>
      exact htaken.trans
        (goes_handleFrame (w := { w with deferred := w.deferred.tail }) hparse h)

theorem goes_expect (w : Serve) (i : Introduction) : Goes w (w.expect i) :=
  (Goes.refl w).set rfl rfl rfl rfl

theorem goes_perform {effect : Effect}
    (h : ∀ i, effect = .beginReceiving i → (!w.upgraded && w.bootstrapIsSlow) = false) :
    Goes w (w.perform e effect) := by
  cases effect with
  | send frame =>
      unfold perform
      apply Goes.writeOrFail
      exact (Goes.refl w).set rfl rfl rfl rfl
  | askUser i =>
      unfold perform
      dsimp only
      apply Goes.feed
      apply Goes.note
      exact (Goes.refl w).set rfl rfl rfl rfl
  | beginReceiving i =>
      have hthere : (!(w.expect i).upgraded && (w.expect i).bootstrapIsSlow) = false := h i rfl
      unfold perform
      simp only [hthere, Bool.false_eq_true, if_false]
      exact goes_expect w i
  | beginSending f => exact .refl w
  | done =>
      unfold perform
      dsimp only
      split
      · exact ((Goes.refl w).write e _).finishWith _
      · exact ((Goes.refl w).write e _).fail _
  | cancelled =>
      unfold perform
      dsimp only
      apply Goes.finishWith
      apply Goes.note
      exact (Goes.refl w).set rfl rfl rfl rfl
  | failed why => exact (Goes.refl w).finish.fail _

/-- What a step does to the effects still to be performed, and to what went out. -/
structure Moves (w w' : Serve) : Prop where
  queued : ∃ es, w'.queue = w.queue ++ es ∧ Led False es
  wrote : ∃ frames, w'.sent = w.sent ++ frames

theorem Adds.moves (h : Adds w w') : Moves w w' := by
  obtain ⟨es, hes, led⟩ := h.queued
  refine ⟨⟨es, ?_, led⟩, h.wrote⟩
  rw [queue, queue, h.batch, hes, List.append_assoc]

/-- A pass with every effect performed takes the next batch. -/
theorem Adds.nextPass (h : Adds w w') (hbatch : w.batch = []) : Moves w w'.nextPass := by
  obtain ⟨es, hes, led⟩ := h.queued
  refine ⟨⟨es, ?_, led⟩, h.wrote⟩
  change w'.pending ++ [] = _
  rw [queue, hbatch, hes, List.append_nil, List.nil_append]

/-- The loop without the effect that the step performs. -/
def popped (w : Serve) : Serve :=
  { w with batch := w.batch.tail }

theorem popped_cons {effect : Effect} {rest : List Effect} (hbatch : w.batch = effect :: rest) :
    w.popped = { w with batch := rest } := by
  rw [popped, hbatch]
  rfl

theorem popped_nil (hbatch : w.batch = []) : w.popped = w := by
  rw [popped, hbatch, List.tail_nil, ← hbatch]

/-- **A step without a handover.** -/
theorem step_goes (h : w.offersGroup e = false) (hstep : w.step e = some w') :
    Moves w.popped w' ∧ w'.gates = w.gates := by
  simp only [offersGroup, Bool.or_eq_false_iff] at h
  obtain ⟨hbegins, hasked⟩ := h
  cases steps_of_step hstep with
  | effect effect rest _ hbatch =>
      have hpopped := popped_cons hbatch
      have goes : Goes { w with batch := rest } ({ w with batch := rest }.perform e effect) := by
        apply goes_perform
        intro i heffect
        rw [begins, hbatch, heffect] at hbegins
        exact hbegins
      rw [hpopped]
      exact ⟨goes.moves, goes.gates⟩
  | turn _ hbatch =>
      have hpopped := popped_nil hbatch
      rw [hpopped]
      unfold turn
      split
      · have goes := (Goes.refl w).feed .userCancelled
        exact ⟨goes.nextPass hbatch, goes.gates⟩
      split
      · exact ⟨(Adds.refl w).nextPass hbatch, rfl⟩
      next hcancelled hpending =>
        have hidle : w.pending = [] := by simpa using hpending
        have htakes : w.takes e = true := by simp [takes, hbatch, hcancelled, hidle]
        rw [htakes, Bool.true_and] at hasked
        have goes := goes_read hasked
        exact ⟨goes.nextPass hbatch, goes.gates⟩

/-! ## What a handover does to them -/

/-- A handover is made over a slow transport, once only with success, and for a peer that
asks only while attempts are left. -/
structure Opens (w : Serve) : Prop where
  slow : w.bootstrapIsSlow = true
  staying : w.upgraded = false
  left : w.begins = true ∨ w.upgradeAttempts < maxUpgradeAttempts

theorem adds_offerGroup (w : Serve) (h : Handover) : Adds w (w.offerGroup h) := by
  refine ⟨rfl, ⟨[], (List.append_nil _).symm, trivial⟩, h.wrote, ?_⟩
  change (w.log ++ h.wrote.map Act.sent).filterMap Act.frame = _
  rw [List.filterMap_append, Act.frames_sent]
  rfl

/-- **A step with a handover.** -/
theorem step_offers (hoffers : w.offersGroup e = true) (hstep : w.step e = some w') :
    Moves w.popped w' ∧ w'.gates = w.gates.tried e.handover.result ∧ Opens w := by
  cases steps_of_step hstep with
  | effect effect rest _ hbatch =>
      have hpopped := popped_cons hbatch
      have htakes : w.takes e = false := by simp [takes, hbatch]
      have hbegins : w.begins = true := by
        rw [offersGroup, htakes, Bool.false_and, Bool.or_false] at hoffers
        exact hoffers
      have hthere := hbegins
      rw [begins, hbatch] at hthere
      cases effect with
      | beginReceiving i =>
          have hthere : (!w.upgraded && w.bootstrapIsSlow) = true := hthere
          rw [perform_begins { w with batch := rest } _ i hthere, hpopped]
          rw [Bool.and_eq_true, Bool.not_eq_true'] at hthere
          have expects := (goes_expect { w with batch := rest } i).toAdds
          exact ⟨(expects.trans (adds_offerGroup _ _)).moves, rfl, hthere.2, hthere.1,
            .inl hbegins⟩
      | _ => cases hthere
  | turn _ hbatch =>
      have hpopped := popped_nil hbatch
      have hbegins : w.begins = false := by rw [begins, hbatch]
      rw [offersGroup, hbegins, Bool.false_or, Bool.and_eq_true] at hoffers
      obtain ⟨htakes, hasked⟩ := hoffers
      simp only [takes, hbatch, List.isEmpty_nil, Bool.true_and, Bool.and_eq_true,
        Bool.not_eq_true', List.isEmpty_iff] at htakes
      obtain ⟨hcancelled, hpending⟩ := htakes
      obtain ⟨mediums, hhosts, hread⟩ := read_asked w e hasked
      have hturn : w.turn e = (w.read e).nextPass := by
        simp [turn, hcancelled, hpending]
      rw [hturn, hread, pathRequest_hosts { w with deferred := w.deferred.tail } _ hhosts, hpopped]
      simp only [hosts, Bool.and_eq_true, Bool.not_eq_true', decide_eq_true_eq] at hhosts
      obtain ⟨⟨⟨hupgraded, hslow⟩, hattempts⟩, -⟩ := hhosts
      have opens : Opens w := ⟨hslow, hupgraded, .inr hattempts⟩
      have taken : Goes w { w with deferred := w.deferred.tail } :=
        (Goes.refl w).set rfl rfl rfl rfl
      have offers := taken.toAdds.trans (adds_offerGroup _ e.handover)
      split
      · have fails : Adds w (({ w with deferred := w.deferred.tail }.offerGroup
            e.handover).fail .transport) :=
          offers.trans ((Goes.refl _).fail _).toAdds
        exact ⟨fails.nextPass hbatch, rfl, opens⟩
      · exact ⟨offers.nextPass hbatch, rfl, opens⟩

theorem step_moves (hstep : w.step e = some w') : Moves w.popped w' := by
  cases hoffers : w.offersGroup e with
  | false => exact (step_goes hoffers hstep).1
  | true => exact (step_offers hoffers hstep).1

end Serve

/-! ## Counting them -/

/-- The receive loop, with what each `offer_group` has returned, oldest first. -/
structure Counted where
  loop : Serve
  handovers : List (Option Bool) := []

def Counted.step (v : Counted) (e : Env) : Option Counted :=
  (v.loop.step e).map fun w =>
    { loop := w
      handovers := v.handovers ++ if v.loop.offersGroup e then [e.handover.result] else [] }

/-- How many handovers there may be, and when. -/
structure Capped (bootstrap : Upgrade.Medium) (handovers : List (Option Bool)) : Prop where
  atMost : handovers.length ≤ maxUpgradeAttempts
  /-- None follows one that succeeded. -/
  last : ∀ before after, handovers = before ++ some true :: after → after = []
  bluetooth : bootstrap ≠ .bluetooth → handovers = []

/-- Where a transfer begins, attempts are left. -/
def InBudget (v : Counted) (_ : Env) : Prop :=
  v.loop.begins = true → v.loop.upgradeAttempts < maxUpgradeAttempts

instance (v : Counted) (e : Env) : Decidable (InBudget v e) :=
  inferInstanceAs (Decidable (v.loop.begins = true → v.loop.upgradeAttempts < maxUpgradeAttempts))

/-- What the loop remembers of its handovers. -/
structure Remembers (bootstrap : Upgrade.Medium) (v : Counted) : Prop where
  slow : v.loop.bootstrapIsSlow = decide (bootstrap = .bluetooth)
  upgraded : v.loop.upgraded = decide (some true ∈ v.handovers)
  attempts : v.loop.upgradeAttempts = v.handovers.length

variable {bootstrap : Upgrade.Medium} {v v' : Counted}

/-- What one step of the loop is to the count. -/
theorem counted_cases (hstep : v.step e = some v') :
    (v'.handovers = v.handovers ∧ v'.loop.gates = v.loop.gates ∧
        v.loop.begins = false) ∨
      (v'.handovers = v.handovers ++ [e.handover.result] ∧ v.loop.Opens ∧
        v'.loop.gates = v.loop.gates.tried e.handover.result) := by
  obtain ⟨w, hw, rfl⟩ := Option.map_eq_some_iff.mp hstep
  cases hoffers : v.loop.offersGroup e with
  | false =>
      refine .inl ⟨by simp, (Serve.step_goes hoffers hw).2, ?_⟩
      rw [Serve.offersGroup, Bool.or_eq_false_iff] at hoffers
      exact hoffers.1
  | true =>
      obtain ⟨-, hgates, opens⟩ := Serve.step_offers hoffers hw
      exact .inr ⟨by simp, opens, hgates⟩

theorem remembers_of_gates (hgates : v.loop.gates = ⟨decide (bootstrap = .bluetooth),
      decide (some true ∈ v.handovers), v.handovers.length⟩) : Remembers bootstrap v := by
  obtain ⟨hslow, hupgraded, hattempts⟩ := Gates.mk.inj hgates
  exact ⟨hslow, hupgraded, hattempts⟩

theorem Remembers.gates (remembers : Remembers bootstrap v) :
    v.loop.gates = ⟨decide (bootstrap = .bluetooth), decide (some true ∈ v.handovers),
      v.handovers.length⟩ := by
  rw [Serve.gates, remembers.slow, remembers.upgraded, remembers.attempts]

theorem remembers_step (remembers : Remembers bootstrap v) (hstep : v.step e = some v') :
    Remembers bootstrap v' := by
  have hgates := remembers.gates
  rcases counted_cases hstep with ⟨hsame, hkept, -⟩ | ⟨hmore, -, htried⟩
  · apply remembers_of_gates
    rw [hkept, hgates, hsame]
  · apply remembers_of_gates
    rw [htried, hgates, hmore]
    simp [Gates.tried, eq_comm]

/-- What is not in a list, and is in it with one more element, is that element. -/
theorem last_of_notMem {α : Type} {xs before after : List α} {x y : α} (h : x ∉ xs)
    (hsplit : xs ++ [y] = before ++ x :: after) : after = [] := by
  induction after using List.reverseRecOn with
  | nil => rfl
  | append_singleton after z _ =>
      have hassoc : xs ++ [y] = (before ++ x :: after) ++ [z] := by
        rw [hsplit]
        simp
      have hxs := (List.append_inj' hassoc rfl).1
      rw [hxs] at h
      exact absurd (List.mem_append_right _ List.mem_cons_self) h

theorem capped_step (remembers : Remembers bootstrap v) (capped : Capped bootstrap v.handovers)
    (hstep : v.step e = some v') : Capped bootstrap v'.handovers ↔ InBudget v e := by
  rcases counted_cases hstep with ⟨hsame, -, hstays⟩ | ⟨hmore, opens, -⟩
  · rw [hsame]
    refine iff_of_true capped ?_
    intro hbegins
    rw [hstays] at hbegins
    cases hbegins
  · have hbluetooth : bootstrap = .bluetooth := by
      have := remembers.slow
      rw [opens.slow] at this
      exact of_decide_eq_true this.symm
    have hnone : some true ∉ v.handovers := by
      have := remembers.upgraded
      rw [opens.staying] at this
      exact of_decide_eq_false this.symm
    rw [hmore]
    constructor
    · intro capped' _
      have hlen := capped'.atMost
      rw [List.length_append, List.length_singleton] at hlen
      rw [remembers.attempts]
      omega
    · intro budget
      have hleft : v.loop.upgradeAttempts < maxUpgradeAttempts :=
        opens.left.elim budget fun h => h
      rw [remembers.attempts] at hleft
      refine ⟨?_, ?_, ?_⟩
      · rw [List.length_append, List.length_singleton]
        omega
      · intro before after hsplit
        exact last_of_notMem hnone hsplit
      · intro hother
        exact absurd hbluetooth hother

/-- **The number of handovers.**  Over a whole run there are at most as many as may be, none
after one that succeeded and none over a fast transport, exactly where attempts are left
whenever a transfer begins. -/
theorem handovers_capped {fill : Option RandomFill} {id : Int} {inbox : HashMap Text Bytes}
    {acts : List Env} (run : Lts.Run (Lts.ofPartial Counted.step)
      { loop := .init bootstrap fill id inbox } acts v) :
    (∀ pre m, pre <+: acts →
        Lts.Run (Lts.ofPartial Counted.step) { loop := .init bootstrap fill id inbox } pre m →
        Capped bootstrap m.handovers) ↔
      Lts.Run (Lts.Restrict (Lts.ofPartial Counted.step) InBudget)
        { loop := .init bootstrap fill id inbox } acts v := by
  apply run.restrict_iff (Remembers bootstrap) (fun v => Capped bootstrap v.handovers)
  · exact ⟨rfl, rfl, rfl⟩
  · refine ⟨Nat.zero_le _, ?_, fun _ => rfl⟩
    intro before after hsplit
    simp at hsplit
  · intro v e v' remembers hstep
    exact remembers_step remembers hstep
  · intro v e v' remembers capped hstep
    exact capped_step remembers capped hstep

/-- A peer that asks for a handover, and a client that will not host. -/
def asksInVain : Env :=
  { read := some (Upgrade.pathRequest [.wifiDirect]), handover := { wrote := [Upgrade.failure] } }

/-- The peer asks some times before it introduces a photo, which the person accepts. -/
def asksFirst (times : Nat) (handover : Handover) : List Env :=
  {} :: List.replicate times asksInVain ++
    (untilAnswered photo true).tail.dropLast ++ [{ handover := handover }]

def countedStart : Counted :=
  { loop := .init .bluetooth (some someFill) 5 ∅ }

/-- A second attempt that succeeds. -/
theorem asksOnce_capped :
    ∃ v : Counted, v.handovers = [some false, some true] ∧
      ∀ pre m, pre <+: asksFirst 1 { result := some true } →
        Lts.Run (Lts.ofPartial Counted.step) countedStart pre m →
        Capped .bluetooth m.handovers := by
  obtain ⟨v, run, hv⟩ := Lts.run_observe (Lts.guarded Counted.step InBudget) Counted.handovers
    (show ((asksFirst 1 { result := some true }).foldlM (Lts.guarded Counted.step InBudget)
        countedStart).map _ = some [some false, some true] by decide +kernel)
  exact ⟨v, hv, (handovers_capped run.of_guarded.of_restrict).mpr run.of_guarded⟩

/-- **A third handover.**  The peer has asked twice in vain before the transfer begins. -/
theorem asksTwice_not_capped :
    ∃ v, Lts.Run (Lts.ofPartial Counted.step) countedStart
        (asksFirst 2 { wrote := [Upgrade.failure] }) v ∧ ¬ Capped .bluetooth v.handovers := by
  obtain ⟨v, run, hv⟩ := Lts.run_observe Counted.step Counted.handovers
    (show ((asksFirst 2 { wrote := [Upgrade.failure] }).foldlM Counted.step countedStart).map _ =
      some [some false, some false, some false] by decide +kernel)
  refine ⟨v, run, ?_⟩
  intro capped
  have hlen := capped.atMost
  rw [hv] at hlen
  exact absurd hlen (by decide)

end Quickshare
