import TarishDaemon.Lib.History
import TarishDaemon.Sharingd.Transfers
import Mathlib.Logic.Function.Basic

/-!
# Consent in the AirDrop receiver

Every accepted connection has its own thread, and all of them share one
`TransferState`.  A thread answers requests until it hangs up; `/Ask` and
`/Upload` take several steps each, because other threads run between their calls
on the shared state.  `Server.step` is that interleaving: connections, the person
at the screen, the sends and Quick Share transfers that use the same slot, and
the policy switches.

The gate on `/Upload` reads "`current` is non-zero", on the grounds that it is
non-zero "only between an accepted `/Ask` and the upload that follows it".  It is
non-zero from the *arrival* of an `/Ask`, and during every other transfer too:
`upload_while_asking` walks an upload past a prompt nobody has answered.
`upload_consented` is what the gate does give: an upload that is let in while the
current id is an AirDrop offer nobody is still being asked about runs with
consent.
-/

namespace Sharingd

/-- What a peer can ask for.  An `/Ask` carries what `describe_offer` reads from
its body. -/
inductive Request
  | head
  | discover
  | ask (offer : Option (String × List String))
  | upload
  | other
  | tooLarge
  deriving DecidableEq, Repr

/-- Where a connection's thread stands. -/
inductive Conn
  | waiting
  /-- `/Ask` holds the slot as `id`; the offer has not been looked at. -/
  | begun (id : Int) (offer : Option (String × List String)) (keepAlive : Bool)
  | asking (id : Int) (keepAlive : Bool)
  | refusing (id : Int)
  /-- `/Upload` has passed the gate and not yet read the id. -/
  | admitted
  | uploading (id : Int)
  | closed
  deriving DecidableEq, Repr

/-- What the consent property is about. -/
inductive Fact
  | asked (id : Int)
  | autoAccepted (id : Int)
  | answered (id : Int) (accept : Bool)
  | upload (c : Nat) (id : Int)
  deriving DecidableEq, Repr

structure Server where
  shared : TransferState := {}
  now : Nat := 0
  discoverable : Bool := false
  autoAccept : Bool := false
  conn : Nat → Conn := fun _ => .waiting
  /-- Ids that a send or a Quick Share transfer claimed. -/
  others : List Int := []
  log : List Fact := []

/-- The connection after a reply: only one that was sent, and asked for
keep-alive, leaves it open. -/
def afterReply (keepAlive sent : Bool) : Conn :=
  if keepAlive && sent then .waiting else .closed

/-- Calls on the shared state that neither begin, end nor answer a transfer. -/
def Call.isSide : Call → Bool
  | .touch _ | .armWifiDirect | .armAbort _ _ | .cancel _ | .cancelGrace _
  | .provideUpgrade _ _ | .awaitUpgrade _ => true
  | .tryBegin _ _ _ | .finish _ | .answer _ _ | .awaitAnswer _ => false

inductive Move
  /-- A request arrives; `sent` says whether the reply, if there is one at once,
  could be written. -/
  | request (c : Nat) (r : Request) (keepAlive sent : Bool)
  | decide (c : Nat) (sent : Bool)
  | poll (c : Nat) (sent : Bool)
  /-- The wait ended without an answer: it ran out, or the sender hung up. -/
  | giveUp (c : Nat)
  | refuse (c : Nat)
  | load (c : Nat)
  | progress (c : Nat)
  | stored (c : Nat)
  | hangUp (c : Nat)
  | userAnswer (id : Int) (accept : Bool)
  | beginOther (needsAwdl : Bool)
  | finishOther (id : Int)
  | pollOther (id : Int)
  | side (call : Call)
  | setDiscoverable (on : Bool)
  | setAutoAccept (on : Bool)
  | tick (ns : Nat)
  deriving DecidableEq, Repr

namespace Server

def setConn (s : Server) (c : Nat) (k : Conn) : Server :=
  { s with conn := Function.update s.conn c k }

def note (s : Server) (f : Fact) : Server :=
  { s with log := s.log ++ [f] }

def finish (s : Server) (id : Int) : Server :=
  { s with shared := s.shared.finish id }

/-- The first step of `handle`, up to the first call that another thread can
come between. -/
def request (s : Server) (c : Nat) (keepAlive sent : Bool) : Request → Server
  | .tooLarge => s.setConn c .closed
  | .head | .discover =>
      if s.discoverable then s.setConn c (afterReply keepAlive sent) else s.setConn c .closed
  | .ask offer =>
      if s.discoverable then
        match s.shared.tryBegin s.now s.now true with
        | (some id, shared) =>
            ({ s with shared := shared }.note (.asked id)).setConn c (.begun id offer keepAlive)
        | (none, shared) => { s with shared := shared }.setConn c .closed
      else s.setConn c .closed
  | .upload =>
      if s.shared.current = 0 then s.setConn c .closed else s.setConn c .admitted
  | .other => s.setConn c (afterReply keepAlive sent)

def step (s : Server) : Move → Option Server
  | .request c r keepAlive sent =>
      if s.conn c = .waiting then some (s.request c keepAlive sent r) else none
  | .decide c sent =>
      match s.conn c with
      -- a name that is not display-safe is refused before anyone is asked
      | .begun id none _ => some (s.setConn c (.refusing id))
      | .begun id (some _) keepAlive =>
          if s.autoAccept then
            let s := { s with shared := s.shared.answer id true }.note (.autoAccepted id)
            some (s.setConn c (afterReply keepAlive sent))
          else some (s.setConn c (.asking id keepAlive))
      | _ => none
  | .poll c sent =>
      match s.conn c with
      | .asking id keepAlive =>
          let (answer, shared) := s.shared.awaitAnswer id
          let s := { s with shared := shared }
          match answer with
          | some true => some (s.setConn c (afterReply keepAlive sent))
          | some false => some (s.setConn c (.refusing id))
          | none => some s
      | _ => none
  | .giveUp c =>
      match s.conn c with
      | .asking id _ => some (s.setConn c (.refusing id))
      | _ => none
  | .refuse c =>
      match s.conn c with
      | .refusing id => some ((s.finish id).setConn c .closed)
      | _ => none
  | .load c =>
      match s.conn c with
      | .admitted =>
          let id := s.shared.current
          some ((s.note (.upload c id)).setConn c (.uploading id))
      | _ => none
  | .progress c =>
      match s.conn c with
      | .uploading _ => some { s with shared := s.shared.touch s.now }
      | _ => none
  -- `receive_upload` is over, with or without an error: the id is finished
  | .stored c =>
      match s.conn c with
      | .uploading id => some ((s.finish id).setConn c .closed)
      | _ => none
  | .hangUp c =>
      if s.conn c = .waiting then some (s.setConn c .closed) else none
  | .userAnswer id accept =>
      some ({ s with shared := s.shared.answer id accept }.note (.answered id accept))
  | .beginOther needsAwdl =>
      match s.shared.tryBegin s.now s.now needsAwdl with
      | (some id, shared) => some { s with shared := shared, others := id :: s.others }
      | (none, shared) => some { s with shared := shared }
  | .finishOther id => if id ∈ s.others then some (s.finish id) else none
  | .pollOther id =>
      if id ∈ s.others then some { s with shared := (s.shared.awaitAnswer id).2 } else none
  | .side call =>
      if call.isSide then some { s with shared := s.shared.call call } else none
  | .setDiscoverable on => some { s with discoverable := on }
  | .setAutoAccept on => some { s with autoAccept := on }
  | .tick ns => some { s with now := s.now + ns }

/-- What a step is made of. -/
inductive Steps (s : Server) : Move → Server → Prop
  | request {c : Nat} {r : Request} {keepAlive sent : Bool} (here : s.conn c = .waiting) :
      Steps s (.request c r keepAlive sent) (s.request c keepAlive sent r)
  | unsafeName {c : Nat} {sent : Bool} {id : Int} {keepAlive : Bool}
      (here : s.conn c = .begun id none keepAlive) :
      Steps s (.decide c sent) (s.setConn c (.refusing id))
  | policy {c : Nat} {sent : Bool} {id : Int} {offer : String × List String} {keepAlive : Bool}
      (here : s.conn c = .begun id (some offer) keepAlive) (hauto : s.autoAccept = true) :
      Steps s (.decide c sent)
        (({ s with shared := s.shared.answer id true }.note (.autoAccepted id)).setConn c
          (afterReply keepAlive sent))
  | asks {c : Nat} {sent : Bool} {id : Int} {offer : String × List String} {keepAlive : Bool}
      (here : s.conn c = .begun id (some offer) keepAlive) (hauto : ¬ s.autoAccept = true) :
      Steps s (.decide c sent) (s.setConn c (.asking id keepAlive))
  | accepted {c : Nat} {sent : Bool} {id : Int} {keepAlive : Bool}
      (here : s.conn c = .asking id keepAlive)
      (hanswer : (s.shared.awaitAnswer id).1 = some true) :
      Steps s (.poll c sent)
        ({ s with shared := (s.shared.awaitAnswer id).2 }.setConn c (afterReply keepAlive sent))
  | declined {c : Nat} {sent : Bool} {id : Int} {keepAlive : Bool}
      (here : s.conn c = .asking id keepAlive)
      (hanswer : (s.shared.awaitAnswer id).1 = some false) :
      Steps s (.poll c sent)
        ({ s with shared := (s.shared.awaitAnswer id).2 }.setConn c (.refusing id))
  | unanswered {c : Nat} {sent : Bool} {id : Int} {keepAlive : Bool}
      (here : s.conn c = .asking id keepAlive) (hanswer : (s.shared.awaitAnswer id).1 = none) :
      Steps s (.poll c sent) { s with shared := (s.shared.awaitAnswer id).2 }
  | giveUp {c : Nat} {id : Int} {keepAlive : Bool} (here : s.conn c = .asking id keepAlive) :
      Steps s (.giveUp c) (s.setConn c (.refusing id))
  | refuse {c : Nat} {id : Int} (here : s.conn c = .refusing id) :
      Steps s (.refuse c) ((s.finish id).setConn c .closed)
  | load {c : Nat} (here : s.conn c = .admitted) :
      Steps s (.load c) ((s.note (.upload c s.shared.current)).setConn c
        (.uploading s.shared.current))
  | progress {c : Nat} {id : Int} (here : s.conn c = .uploading id) :
      Steps s (.progress c) { s with shared := s.shared.touch s.now }
  | stored {c : Nat} {id : Int} (here : s.conn c = .uploading id) :
      Steps s (.stored c) ((s.finish id).setConn c .closed)
  | hangUp {c : Nat} (here : s.conn c = .waiting) : Steps s (.hangUp c) (s.setConn c .closed)
  | userAnswer {id : Int} {accept : Bool} :
      Steps s (.userAnswer id accept)
        ({ s with shared := s.shared.answer id accept }.note (.answered id accept))
  | beginOther {needsAwdl : Bool} {id : Int} {shared : TransferState}
      (hbegin : s.shared.tryBegin s.now s.now needsAwdl = (some id, shared)) :
      Steps s (.beginOther needsAwdl) { s with shared := shared, others := id :: s.others }
  | busy {needsAwdl : Bool} {shared : TransferState}
      (hbegin : s.shared.tryBegin s.now s.now needsAwdl = (none, shared)) :
      Steps s (.beginOther needsAwdl) { s with shared := shared }
  | finishOther {id : Int} (hid : id ∈ s.others) : Steps s (.finishOther id) (s.finish id)
  | pollOther {id : Int} (hid : id ∈ s.others) :
      Steps s (.pollOther id) { s with shared := (s.shared.awaitAnswer id).2 }
  | side {call : Call} (hside : call.isSide = true) :
      Steps s (.side call) { s with shared := s.shared.call call }
  | setDiscoverable {on : Bool} : Steps s (.setDiscoverable on) { s with discoverable := on }
  | setAutoAccept {on : Bool} : Steps s (.setAutoAccept on) { s with autoAccept := on }
  | tick {ns : Nat} : Steps s (.tick ns) { s with now := s.now + ns }

/-- **Inversion.** -/
theorem steps_of_step {s s' : Server} {m : Move} (h : s.step m = some s') : s.Steps m s' := by
  cases m with
  | request c r keepAlive sent =>
      simp only [step] at h
      split at h
      next here =>
        cases h
        exact .request here
      next => cases h
  | decide c sent =>
      simp only [step] at h
      split at h
      next here =>
        cases h
        exact .unsafeName here
      next here =>
        split at h
        next hauto =>
          cases h
          exact .policy here hauto
        next hauto =>
          cases h
          exact .asks here hauto
      next => cases h
  | poll c sent =>
      simp only [step] at h
      split at h
      next here =>
        split at h
        next hanswer =>
          cases h
          exact .accepted here hanswer
        next hanswer =>
          cases h
          exact .declined here hanswer
        next hanswer =>
          cases h
          exact .unanswered here hanswer
      next => cases h
  | giveUp c =>
      simp only [step] at h
      split at h
      next here =>
        cases h
        exact .giveUp here
      next => cases h
  | refuse c =>
      simp only [step] at h
      split at h
      next here =>
        cases h
        exact .refuse here
      next => cases h
  | load c =>
      simp only [step] at h
      split at h
      next here =>
        cases h
        exact .load here
      next => cases h
  | progress c =>
      simp only [step] at h
      split at h
      next here =>
        cases h
        exact .progress here
      next => cases h
  | stored c =>
      simp only [step] at h
      split at h
      next here =>
        cases h
        exact .stored here
      next => cases h
  | hangUp c =>
      simp only [step] at h
      split at h
      next here =>
        cases h
        exact .hangUp here
      next => cases h
  | userAnswer id accept =>
      cases h
      exact .userAnswer
  | beginOther needsAwdl =>
      simp only [step] at h
      split at h
      next hbegin =>
        cases h
        exact .beginOther hbegin
      next hbegin =>
        cases h
        exact .busy hbegin
  | finishOther id =>
      simp only [step] at h
      split at h
      next hid =>
        cases h
        exact .finishOther hid
      next => cases h
  | pollOther id =>
      simp only [step] at h
      split at h
      next hid =>
        cases h
        exact .pollOther hid
      next => cases h
  | side call =>
      simp only [step] at h
      split at h
      next hside =>
        cases h
        exact .side hside
      next => cases h
  | setDiscoverable on =>
      cases h
      exact .setDiscoverable
  | setAutoAccept on =>
      cases h
      exact .setAutoAccept
  | tick ns =>
      cases h
      exact .tick

/-- Offer `id` was made, and somebody said yes to it or policy did. -/
def Consented (log : List Fact) (id : Int) : Prop :=
  .asked id ∈ log ∧ (.answered id true ∈ log ∨ .autoAccepted id ∈ log)

/-- Every upload so far ran with consent that was already there when it began. -/
def UploadsConsented (s : Server) : Prop :=
  History.Justified
    (fun before fact => ∀ c id, fact = .upload c id → Consented before id) s.log

/-- Whether a connection is still inside the `/Ask` handler for `id`. -/
def inAsk (id : Int) : Conn → Bool
  | .begun who _ _ | .asking who _ | .refusing who => decide (who = id)
  | .waiting | .admitted | .uploading _ | .closed => false

/-- What the gate would have to ask for when `/Upload` reads the id: some
transfer is current, it is not a send or a Quick Share transfer, and no
connection is still in the `/Ask` handler for it. -/
def GateMeant (s : Server) : Move → Prop
  | .load _ =>
      s.shared.current ≠ 0 ∧ s.shared.current ∉ s.others ∧
        ∀ c, inAsk s.shared.current (s.conn c) = false
  | _ => True

/-! ## The invariant -/

/-- What the gate can rely on.  A claimed slot belongs to a send or Quick Share
transfer, to a connection that is still asking, or to an offer with consent. -/
structure Gate (s : Server) : Prop where
  slot : s.shared.current ≠ 0 →
    s.shared.current ∈ s.others ∨ (∃ c, inAsk s.shared.current (s.conn c) = true) ∨
      Consented s.log s.shared.current
  decided : ∀ id, s.shared.decision = some (id, true) →
    .answered id true ∈ s.log ∨ .autoAccepted id ∈ s.log
  asked : ∀ c id, inAsk id (s.conn c) = true → .asked id ∈ s.log
  uploads : UploadsConsented s

variable {s s' : Server}

theorem gate_init : Gate {} := by
  refine ⟨?_, ?_, ?_, History.justified_nil⟩ <;> simp [inAsk]

theorem Consented.mono {log : List Fact} {id : Int} (h : Consented log id)
    (f : Fact) : Consented (log ++ [f]) id := by
  obtain ⟨hasked, hyes⟩ := h
  refine ⟨List.mem_append_left _ hasked, ?_⟩
  rcases hyes with h | h
  · exact .inl (List.mem_append_left _ h)
  · exact .inr (List.mem_append_left _ h)

theorem Gate.note (gate : Gate s) {f : Fact}
    (hf : ∀ c id, f = .upload c id → Consented s.log id) : Gate (s.note f) := by
  refine ⟨?_, ?_, ?_, gate.uploads.concat hf⟩
  · intro hcur
    rcases gate.slot hcur with h | h | h
    · exact .inl h
    · exact .inr (.inl h)
    · exact .inr (.inr (h.mono f))
  · intro id hdec
    rcases gate.decided id hdec with h | h
    · exact .inl (List.mem_append_left _ h)
    · exact .inr (List.mem_append_left _ h)
  · intro c id hask
    exact List.mem_append_left _ (gate.asked c id hask)

/-- A connection moves.  If it leaves the `/Ask` handler of the current id, that
offer must have consent. -/
theorem Gate.setConn (gate : Gate s) {c : Nat} {k : Conn}
    (leaves : ∀ id, inAsk id (s.conn c) = true →
      inAsk id k = true ∨ Consented s.log id ∨ s.shared.current ≠ id ∨ s.shared.current = 0)
    (enters : ∀ id, inAsk id k = true → .asked id ∈ s.log) : Gate (s.setConn c k) := by
  refine ⟨?_, gate.decided, ?_, gate.uploads⟩
  · intro hcur
    rcases gate.slot hcur with h | ⟨d, hd⟩ | h
    · exact .inl h
    · by_cases hdc : d = c
      · subst hdc
        rcases leaves _ hd with h | h | h | h
        · exact .inr (.inl ⟨d, by simpa [Server.setConn] using h⟩)
        · exact .inr (.inr h)
        · exact absurd rfl h
        · exact absurd h hcur
      · exact .inr (.inl ⟨d, by simpa [Server.setConn, Function.update, hdc] using hd⟩)
    · exact .inr (.inr h)
  · intro d id hask
    by_cases hdc : d = c
    · subst hdc
      exact enters id (by simpa [Server.setConn] using hask)
    · exact gate.asked d id (by simpa [Server.setConn, Function.update, hdc] using hask)

/-- A connection moves within the `/Ask` handler, or outside it. -/
theorem Gate.setConn_within (gate : Gate s) {c : Nat} {k : Conn}
    (same : ∀ id, inAsk id (s.conn c) = inAsk id k) : Gate (s.setConn c k) := by
  refine gate.setConn ?_ ?_
  · intro id h
    exact .inl (same id ▸ h)
  · intro id h
    exact gate.asked c id (same id ▸ h)

/-- The shared state changes without a new claim and without a new answer. -/
theorem Gate.shared (gate : Gate s) {x : TransferState}
    (hcur : x.current = s.shared.current ∨ x.current = 0)
    (hdec : x.decision = s.shared.decision ∨ x.decision = none) :
    Gate { s with shared := x } := by
  refine ⟨?_, ?_, gate.asked, gate.uploads⟩
  · intro hne
    have hsame : x.current = s.shared.current := by
      rcases hcur with h | h
      · exact h
      · exact absurd h hne
    have hslot := gate.slot (by rw [← hsame]; exact hne)
    simpa only [hsame] using hslot
  · intro id hid
    rcases hdec with h | h
    · exact gate.decided id (h ▸ hid)
    · simp [h] at hid

theorem Gate.finish (gate : Gate s) (id : Int) : Gate (s.finish id) := by
  refine gate.shared ?_ (.inl rfl)
  show casClear s.shared.current id = s.shared.current ∨ casClear s.shared.current id = 0
  unfold casClear
  split
  · exact .inr rfl
  · exact .inl rfl

theorem Gate.awaitAnswer (gate : Gate s) (id : Int) :
    Gate { s with shared := (s.shared.awaitAnswer id).2 } := by
  unfold TransferState.awaitAnswer
  split
  · exact gate.shared (.inl rfl) (.inr rfl)
  · exact gate.shared (.inl rfl) (.inl rfl)

theorem afterReply_outside (keepAlive sent : Bool) (id : Int) :
    inAsk id (afterReply keepAlive sent) = false := by
  unfold afterReply
  split <;> rfl

theorem isSide_call {call : Call} (h : call.isSide = true) (x : TransferState) :
    (x.call call).current = x.current ∧ (x.call call).decision = x.decision := by
  cases call with
  | touch now => exact ⟨rfl, rfl⟩
  | armWifiDirect =>
      simp only [TransferState.call, TransferState.armWifiDirect]
      split
      · exact ⟨rfl, rfl⟩
      · split <;> exact ⟨rfl, rfl⟩
  | armAbort id sock => cases sock <;> exact ⟨rfl, rfl⟩
  | cancel id => exact ⟨rfl, rfl⟩
  | cancelGrace id =>
      simp only [TransferState.call, TransferState.cancelGrace]
      split <;> exact ⟨rfl, rfl⟩
  | provideUpgrade id sock => exact ⟨rfl, rfl⟩
  | awaitUpgrade id =>
      simp only [TransferState.call, TransferState.awaitUpgrade]
      split
      · split <;> exact ⟨rfl, rfl⟩
      · exact ⟨rfl, rfl⟩
  | tryBegin checked stamped needsAwdl => cases h
  | finish id => cases h
  | answer id accept => cases h
  | awaitAnswer id => cases h

/-- A send or a Quick Share transfer claims the slot. -/
theorem Gate.beginOther (gate : Gate s) {x : TransferState}
    (hdec : x.decision = s.shared.decision) :
    Gate { s with shared := x, others := x.current :: s.others } :=
  ⟨fun _ => .inl (by simp), fun id hid => gate.decided id (hdec ▸ hid), gate.asked,
    gate.uploads⟩

/-- An `/Ask` claims the slot. -/
theorem Gate.ask (gate : Gate s) {x : TransferState} {c : Nat}
    {offer : Option (String × List String)} {keepAlive : Bool}
    (hdec : x.decision = s.shared.decision) :
    Gate (({ s with shared := x }.note (.asked x.current)).setConn c
      (.begun x.current offer keepAlive)) := by
  refine ⟨fun _ => .inr (.inl ⟨c, by simp [Server.setConn, Server.note, inAsk]⟩), ?_, ?_,
    gate.uploads.concat (by simp)⟩
  · intro id hid
    have hid' : s.shared.decision = some (id, true) := hdec ▸ hid
    rcases gate.decided id hid' with h | h
    · exact .inl (List.mem_append_left _ h)
    · exact .inr (List.mem_append_left _ h)
  · intro d id hask
    by_cases hdc : d = c
    · subst hdc
      have hid : x.current = id := by simpa [Server.setConn, inAsk] using hask
      exact hid ▸ List.mem_append_right _ (List.mem_singleton.mpr rfl)
    · have hask' : inAsk id (s.conn d) = true := by
        simpa [Server.setConn, Server.note, Function.update, hdc] using hask
      exact List.mem_append_left _ (gate.asked d id hask')

theorem Gate.request (gate : Gate s) {c : Nat} (here : s.conn c = .waiting)
    (keepAlive sent : Bool) (r : Request) : Gate (s.request c keepAlive sent r) := by
  have outside : ∀ k, (∀ id, inAsk id k = false) → Gate (s.setConn c k) := fun k hk =>
    gate.setConn_within fun id => by rw [here, hk id]; rfl
  have close : Gate (s.setConn c .closed) := outside _ fun _ => rfl
  have reply : Gate (s.setConn c (afterReply keepAlive sent)) :=
    outside _ (afterReply_outside _ _)
  cases r with
  | head | discover =>
      simp only [Server.request]
      split
      · exact reply
      · exact close
  | ask offer =>
      simp only [Server.request]
      split
      · rcases s.shared.tryBegin_cases s.now s.now true with ⟨-, h⟩ | ⟨x, h, hcur, hdec⟩
        · rw [h]
          exact close
        · rw [h, ← hcur]
          exact gate.ask hdec
      · exact close
  | upload =>
      simp only [Server.request]
      split
      · exact close
      · exact outside _ fun _ => rfl
  | other => exact reply
  | tooLarge => exact close

/-- The `/Ask` handler settles whether to ask. -/
theorem Gate.decide (gate : Gate s) {c : Nat} {sent : Bool}
    (h : s.step (.decide c sent) = some s') : Gate s' := by
  cases steps_of_step h with
  | unsafeName here => exact gate.setConn_within fun j => by rw [here]; rfl
  | policy here hauto =>
      rename_i id offer keepAlive
      have hasked : .asked id ∈ s.log := gate.asked c id (by rw [here]; simp [inAsk])
      have noted : Gate ({ s with shared := s.shared.answer id true }.note
          (.autoAccepted id)) := by
        have hlog := gate.note (f := .autoAccepted id) (by simp)
        refine ⟨hlog.slot, ?_, hlog.asked, hlog.uploads⟩
        intro j hj
        have hji : id = j := by simpa [Server.note, TransferState.answer] using hj
        exact .inr (by simp [Server.note, hji])
      refine noted.setConn ?_ ?_
      · intro j hj
        have hji : id = j := by
          simpa [Server.note, here, inAsk] using hj
        refine .inr (.inl ⟨List.mem_append_left _ (hji ▸ hasked), .inr ?_⟩)
        exact List.mem_append_right _ (by simp [hji])
      · intro j hj
        rw [afterReply_outside] at hj
        cases hj
  | asks here _ => exact gate.setConn_within fun j => by rw [here]; rfl

/-- One look at the answer slot by the `/Ask` handler. -/
theorem Gate.poll (gate : Gate s) {c : Nat} {sent : Bool}
    (h : s.step (.poll c sent) = some s') : Gate s' := by
  cases steps_of_step h with
  | accepted here hanswer =>
      rename_i id keepAlive
      have hasked : .asked id ∈ s.log := gate.asked c id (by rw [here]; simp [inAsk])
      -- an accept was in the slot, so somebody put it there
      have hdec : s.shared.decision = some (id, true) := by
        unfold TransferState.awaitAnswer at hanswer
        split at hanswer
        next who accept hslot =>
          simp only [Option.ite_none_right_eq_some, Option.some.injEq] at hanswer
          rw [hslot, hanswer.1, hanswer.2]
        next => cases hanswer
      refine (gate.awaitAnswer id).setConn ?_ ?_
      · intro j hj
        have hji : id = j := by simpa [here, inAsk] using hj
        exact .inr (.inl (hji ▸ ⟨hasked, gate.decided id hdec⟩))
      · intro j hj
        rw [afterReply_outside] at hj
        cases hj
  | declined here _ =>
      exact (gate.awaitAnswer _).setConn_within fun j => by rw [here]; rfl
  | unanswered _ _ => exact gate.awaitAnswer _

/-- A connection that gives its id back and closes. -/
theorem Gate.release (gate : Gate s) {c : Nat} {id : Int}
    (only : ∀ j, inAsk j (s.conn c) = true → j = id) :
    Gate ((s.finish id).setConn c .closed) := by
  refine (gate.finish id).setConn ?_ (by simp [inAsk])
  intro j hj
  have hji := only j hj
  subst hji
  refine .inr (.inr ?_)
  show casClear s.shared.current j ≠ j ∨ casClear s.shared.current j = 0
  unfold casClear
  grind

/-- An upload that passes a gate which means what it says has the sender's consent. -/
theorem Gate.load (gate : Gate s) {c : Nat} (meant : GateMeant s (.load c))
    (h : s.step (.load c) = some s') : Gate s' := by
  cases Server.steps_of_step h with
  | load here =>
      obtain ⟨hcur, hothers, hquiet⟩ := meant
      have consented : Consented s.log s.shared.current := by
        rcases gate.slot hcur with h | ⟨d, hd⟩ | h
        · exact absurd h hothers
        · rw [hquiet d] at hd
          cases hd
        · exact h
      have noted := gate.note (f := .upload c s.shared.current) (by
        intro d id hid
        cases hid
        exact consented)
      exact noted.setConn_within fun j => by simp [Server.note, here, inAsk]

/-- Any answer is on record before it is looked at. -/
theorem Gate.userAnswer (gate : Gate s) (id : Int) (accept : Bool) :
    Gate ({ s with shared := s.shared.answer id accept }.note (.answered id accept)) := by
  have noted := gate.note (f := .answered id accept) (by simp)
  refine ⟨noted.slot, ?_, noted.asked, noted.uploads⟩
  intro j hj
  have hj' : id = j ∧ accept = true := by
    simpa [Server.note, TransferState.answer] using hj
  exact .inl (by simp [Server.note, hj'])

/-- **One step.**  Every move keeps the invariant, an upload's included when the
gate means what it says. -/
theorem Gate.step (gate : Gate s) {m : Move} (meant : GateMeant s m)
    (h : s.step m = some s') : Gate s' := by
  cases m with
  | request c r keepAlive sent =>
      cases Server.steps_of_step h with
      | request here => exact gate.request here keepAlive sent r
  | decide c sent => exact gate.decide h
  | poll c sent => exact gate.poll h
  | giveUp c =>
      cases Server.steps_of_step h with
      | giveUp here => exact gate.setConn_within fun j => by rw [here]; rfl
  | refuse c =>
      cases Server.steps_of_step h with
      | refuse here =>
          refine gate.release fun j hj => ?_
          simpa [here, inAsk, eq_comm] using hj
  | load c => exact gate.load meant h
  | progress c =>
      cases Server.steps_of_step h with
      | progress _ => exact gate.shared (.inl rfl) (.inl rfl)
  | stored c =>
      cases Server.steps_of_step h with
      | stored here =>
          refine gate.release fun j hj => ?_
          simp [here, inAsk] at hj
  | hangUp c =>
      cases Server.steps_of_step h with
      | hangUp here => exact gate.setConn_within fun j => by rw [here]; rfl
  | userAnswer id accept => exact Option.some.inj h ▸ gate.userAnswer id accept
  | beginOther needsAwdl =>
      simp only [Server.step] at h
      rcases s.shared.tryBegin_cases s.now s.now needsAwdl with ⟨-, hb⟩ | ⟨x, hb, hcur, hdec⟩
      · rw [hb] at h
        cases h
        exact gate
      · rw [hb, ← hcur] at h
        cases h
        exact gate.beginOther hdec
  | finishOther id =>
      cases Server.steps_of_step h with
      | finishOther _ => exact gate.finish id
  | pollOther id =>
      cases Server.steps_of_step h with
      | pollOther _ => exact gate.awaitAnswer id
  | side call =>
      cases Server.steps_of_step h with
      | side hside =>
          obtain ⟨hcur, hdec⟩ := isSide_call hside s.shared
          exact gate.shared (.inl hcur) (.inl hdec)
  | setDiscoverable on =>
      cases h
      exact ⟨gate.slot, gate.decided, gate.asked, gate.uploads⟩
  | setAutoAccept on =>
      cases h
      exact ⟨gate.slot, gate.decided, gate.asked, gate.uploads⟩
  | tick ns =>
      cases h
      exact ⟨gate.slot, gate.decided, gate.asked, gate.uploads⟩

/-- **Consent.**  In every run in which `/Upload` reads the id only while the gate
means what it says, every upload runs for an offer that was made and accepted
before the upload began, by a person or by policy. -/
theorem upload_consented {moves : List Move}
    (run : Lts.Run (Lts.Restrict (Lts.ofPartial Server.step) GateMeant) {} moves s) :
    UploadsConsented s := by
  have gate : Gate s := run.invariant Gate gate_init fun _ _ _ gate h => gate.step h.2 h.1
  exact gate.uploads

/-- A peer asks, the person accepts, and the upload follows on the same
connection. -/
def acceptedUpload : List Move :=
  [.setDiscoverable true, .request 0 (.ask (some ("Mac", ["photo.heic"]))) true true,
    .decide 0 true, .userAnswer 1 true, .poll 0 true, .request 0 .upload true true]

/-- The plain exchange, as an instance. -/
theorem acceptedUpload_consented :
    ∃ s, Lts.Run (Lts.Restrict (Lts.ofPartial Server.step) GateMeant) {}
        (acceptedUpload ++ [Move.load 0]) s ∧
      .upload 0 1 ∈ s.log ∧ UploadsConsented s := by
  obtain ⟨s, hs, hcur, hothers, hquiet, s', hload, hmem⟩ :
      ∃ s, acceptedUpload.foldlM Server.step {} = some s ∧ s.shared.current ≠ 0 ∧
        s.shared.current ∉ s.others ∧ (∀ c, inAsk s.shared.current (s.conn c) = false) ∧
        ∃ s', s.step (.load 0) = some s' ∧ Fact.upload 0 1 ∈ s'.log :=
    ⟨_, rfl, by decide, by decide, fun c => by cases c <;> rfl, _, rfl, by decide⟩
  have asked : Lts.Run (Lts.Restrict (Lts.ofPartial Server.step) GateMeant) {}
      acceptedUpload s :=
    (Lts.run_foldlM Server.step hs).to_restrict (by simp [acceptedUpload, GateMeant])
  have run := asked.snoc ⟨hload, hcur, hothers, hquiet⟩
  exact ⟨s', run, hmem, upload_consented run⟩

/-- While offer 1 is on screen on connection 0, connection 1 posts its
upload. -/
theorem upload_while_asking :
    ∃ moves s, Lts.Run (Lts.ofPartial Server.step) {} moves s ∧
      s.log = [.asked 1, .upload 1 1] ∧ ¬ UploadsConsented s := by
  obtain ⟨s, run, hlog⟩ := Lts.run_observe Server.step (fun s => s.log)
    (show ([Move.setDiscoverable true,
        .request 0 (.ask (some ("Mac", ["photo.heic"]))) true true, .decide 0 true,
        .request 1 .upload false true, .load 1].foldlM Server.step {}).map _ =
      some [.asked 1, .upload 1 1] by decide)
  refine ⟨_, s, run, hlog, ?_⟩
  intro consented
  obtain ⟨-, h⟩ := consented [.asked 1] (.upload 1 1) [] hlog 1 1 rfl
  simp at h

end Server

end Sharingd
