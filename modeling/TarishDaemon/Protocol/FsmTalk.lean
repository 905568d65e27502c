import TarishDaemon.Lib.History
import TarishDaemon.Lib.Run
import TarishDaemon.Protocol.Fsm
import TarishDaemon.Protocol.SharingWire

/-!
# A sender and a receiver that speak without waiting

The sending machine says all it has to say as soon as it is started; the receiving
one may be started before, in between or after.  The frames between them are
bytes, kept in order in each direction, and the receiver's user answers once,
after having been asked.

`agreement` says what they agree on, whatever the order: the user is asked about
the sender's own introduction, the sender begins only after the receiver did, and
neither machine ever fails unless the random source failed it at its start.
-/

namespace Protocol

open Rust Sharing

namespace Fsm

inductive Party
  | sender
  | receiver
  deriving DecidableEq, Repr

/-- Both machines, the frames on their way, whether the user has answered, and all
effects so far. -/
structure Pair where
  sender : Outbound
  receiver : Inbound := {}
  toReceiver : List Bytes := []
  toSender : List Bytes := []
  answered : Bool := false
  log : List (Party × Effect) := []

/-- Whether the user has been asked. -/
def askedUser (log : List (Party × Effect)) : Bool :=
  log.any fun
    | (.receiver, .askUser _) => true
    | _ => false

namespace Pair

def perform (s : Pair) (party : Party) (e : Effect) : Pair :=
  let s := match party, e with
    | .sender, .send b => { s with toReceiver := s.toReceiver ++ [b] }
    | .receiver, .send b => { s with toSender := s.toSender ++ [b] }
    | _, _ => s
  { s with log := s.log ++ [(party, e)] }

def sends (s : Pair) (out : Outbound × List Effect) : Pair :=
  out.2.foldl (·.perform .sender ·) { s with sender := out.1 }

def receives (s : Pair) (out : Inbound × List Effect) : Pair :=
  out.2.foldl (·.perform .receiver ·) { s with receiver := out.1 }

/-- A call of `start` with what the random source returns to it, a delivery, or the
user's answer. -/
inductive Act
  | startSender (fill : Option RandomFill)
  | startReceiver (fill : Option RandomFill)
  | toReceiver
  | toSender
  | answer (accept : Bool)

def step (s : Pair) : Act → Option Pair
  | .startSender fill => some (s.sends (s.sender.start fill))
  | .startReceiver fill => some (s.receives (s.receiver.start fill))
  | .toReceiver => match s.toReceiver with
      | [] => none
      | b :: rest =>
          let s := { s with toReceiver := rest }
          match parse b with
          | .ok f => some (s.receives (s.receiver.on (.frame f)))
          | .error _ => some s
  | .toSender => match s.toSender with
      | [] => none
      | b :: rest =>
          let s := { s with toSender := rest }
          match parse b with
          | .ok f => some (s.sends (s.sender.on (.frame f)))
          | .error _ => some s
  | .answer accept =>
      if askedUser s.log && !s.answered then
        let s := { s with answered := true }
        some (s.receives (s.receiver.on (if accept then .userAccepted else .userRejected)))
      else none

def start (i : Introduction) : Pair where
  sender := { introduction := i }

end Pair

/-- The effects so far agree with the introduction `i`: it is what the user was
asked about, and the sender began with it only after the receiver. -/
structure Agrees (i : Introduction) (log : List (Party × Effect)) : Prop where
  asks : ∀ j, (.receiver, .askUser j) ∈ log → j = i
  begins : History.Justified (fun before entry =>
    ∀ j, entry = (.sender, .beginSending j) →
      j = i ∧ (.receiver, .beginReceiving i) ∈ before) log

/-! ## How far the conversation is -/

/-- The frame with the claimed identity. -/
def claim (fill : RandomFill) : Bytes :=
  wrap tPairedKeyEncryption v1PairedKeyEncryption
    (Protobuf.bytes pkeSignedData fill.signed ++ Protobuf.bytes pkeSecretIdHash fill.hash)

theorem pairedKeyEncryption_some (fill : RandomFill) :
    pairedKeyEncryption (some fill) = .ok (claim fill) := rfl

/-- All that the sender says before it is answered. -/
def opening (fill : RandomFill) (i : Introduction) : List Bytes :=
  [claim fill, pairedKeyResult .unable, introduction i]

/-- The sender's side, when the receiver has taken `k` of its frames and `queue` is
on its way. -/
inductive Speech (i : Introduction) (m : Outbound) (queue : List Bytes) : Nat → Prop
  | silent (unsent : m.sentPairedKey = false) (state : m.state = .pairedKey)
      (empty : queue = []) : Speech i m queue 0
  | failed (sent : m.sentPairedKey = true) (state : m.state = .failed)
      (empty : queue = []) : Speech i m queue 0
  | opened {k : Nat} (fill : RandomFill) (bound : k ≤ 3) (sent : m.sentPairedKey = true)
      (state : m.state = .introduction ∨ m.state = .transferring ∨ m.state = .done)
      (rest : queue = (opening fill i).drop k) : Speech i m queue k

/-- The receiver's side, when it has taken `k` frames. -/
inductive Hearing (i : Introduction) (m : Inbound) (answered : Bool) : Nat → Prop
  | failed {k : Nat} (state : m.state = .failed) : Hearing i m answered k
  | pairing {k : Nat} (bound : k ≤ 1) (state : m.state = .pairedKey) : Hearing i m answered k
  | paired (state : m.state = .introduction) : Hearing i m answered 2
  | asking (state : m.state = .awaitingUser) (offer : m.introduction = some i)
      (unanswered : answered = false) : Hearing i m answered 3
  | told (state : m.state = .transferring ∨ m.state = .done) (closed : answered = true) :
      Hearing i m answered 3

/-- The answer that a frame carries. -/
def statusOf (b : Bytes) : Option Status :=
  match parse b with
  | .ok (.response status) => some status
  | _ => none

/-- The answers among the frames on their way to the sender. -/
def answers (queue : List Bytes) : List Status :=
  queue.filterMap statusOf

/-- What the receiver may have sent. -/
inductive Spoken : Bytes → Prop
  | claim (fill : RandomFill) : Spoken (claim fill)
  | result : Spoken (pairedKeyResult .unable)
  | answer (accept : Bool) : Spoken (response (if accept then .accept else .reject))

/-- The receiver has not answered yet. -/
def Waits (m : Inbound) : Prop :=
  m.state = .pairedKey ∨ m.state = .introduction ∨ m.state = .awaitingUser

/-- What holds after every run, `acts` being the run. -/
structure Talks (i : Introduction) (acts : List Pair.Act) (s : Pair) : Prop where
  offer : s.sender.introduction = i
  stage : ∃ k, Speech i s.sender s.toReceiver k ∧ Hearing i s.receiver s.answered k ∧
    (askedUser s.log = true → k = 3)
  closed : s.answered = true → askedUser s.log = true
  replies : ∀ b ∈ s.toSender, Spoken b
  one : answers s.toSender = [] ∨
    ∃ status, answers s.toSender = [status] ∧ s.sender.state = .introduction
  quiet : Waits s.receiver →
    answers s.toSender = [] ∧ s.sender.state ≠ .transferring ∧ s.sender.state ≠ .done
  accepted : .accept ∈ answers s.toSender → (.receiver, .beginReceiving i) ∈ s.log
  agrees : Agrees i s.log
  senderFailed : s.sender.state = .failed → .startSender none ∈ acts
  receiverFailed : s.receiver.state = .failed → .startReceiver none ∈ acts

/-! ## The history -/

theorem askedUser_append (log more : List (Party × Effect)) :
    askedUser (log ++ more) = (askedUser log || askedUser more) :=
  List.any_append

theorem Agrees.concat {i : Introduction} {log : List (Party × Effect)} {entry : Party × Effect}
    (h : Agrees i log) (hask : ∀ j, entry = (.receiver, .askUser j) → j = i)
    (hbegin : ∀ j, entry = (.sender, .beginSending j) →
      j = i ∧ (.receiver, .beginReceiving i) ∈ log) : Agrees i (log ++ [entry]) := by
  refine ⟨?_, h.begins.concat hbegin⟩
  intro j hj
  rcases List.mem_append.mp hj with hj | hj
  · exact h.asks j hj
  · exact hask j (List.mem_singleton.mp hj).symm

/-- Effects that neither ask nor begin to send. -/
theorem Agrees.append {i : Introduction} {log more : List (Party × Effect)} (h : Agrees i log)
    (hmore : ∀ entry ∈ more, (∀ j, entry ≠ (.receiver, .askUser j)) ∧
      ∀ j, entry ≠ (.sender, .beginSending j)) : Agrees i (log ++ more) := by
  induction more using List.reverseRecOn with
  | nil => rwa [List.append_nil]
  | append_singleton more entry ih =>
      rw [← List.append_assoc]
      obtain ⟨hask, hbegin⟩ := hmore entry (by simp)
      refine (ih fun e he => hmore e (by simp [he])).concat ?_ ?_
      · intro j hj
        exact absurd hj (hask j)
      · intro j hj
        exact absurd hj (hbegin j)

theorem agrees_nil (i : Introduction) : Agrees i [] :=
  ⟨fun _ h => absurd h (by simp), History.justified_nil⟩

/-! ## What each frame is to its reader -/

theorem parse_claim (fill : RandomFill) :
    parse (claim fill) = .ok (.pairedKeyEncryption fill.signed fill.hash) :=
  parse_pairedKeyEncryption (pairedKeyEncryption_some fill)

theorem statusOf_claim (fill : RandomFill) : statusOf (claim fill) = none := by
  rw [statusOf, parse_claim]

theorem statusOf_result (r : PairedKeyResult) : statusOf (pairedKeyResult r) = none := by
  rw [statusOf, parse_pairedKeyResult]

theorem statusOf_response (status : Status) : statusOf (response status) = some status := by
  rw [statusOf, parse_response]

/-! ## One step -/

variable {i : Introduction} {acts : List Pair.Act} {s s' : Pair}

theorem Talks.start (i : Introduction) : Talks i [] (Pair.start i) where
  offer := rfl
  stage := ⟨0, .silent rfl rfl rfl, .pairing (by decide) rfl, fun h => by cases h⟩
  closed := fun h => by cases h
  replies := fun _ h => by cases h
  one := Or.inl rfl
  quiet := fun _ => ⟨rfl, by simp [Pair.start], by simp [Pair.start]⟩
  accepted := fun h => by cases h
  agrees := agrees_nil i
  senderFailed := fun h => by cases h
  receiverFailed := fun h => by cases h

/-- A step that changes nothing. -/
theorem Talks.idle (inv : Talks i acts s) (a : Pair.Act) : Talks i (acts ++ [a]) s :=
  { inv with
    senderFailed := fun h => List.mem_append_left _ (inv.senderFailed h)
    receiverFailed := fun h => List.mem_append_left _ (inv.receiverFailed h) }

/-- Effects that ask nothing leave the question where it is. -/
theorem asked_append {log more : List (Party × Effect)} {k : Nat} (hmore : askedUser more = false)
    (hasked : askedUser log = true → k = 3) : askedUser (log ++ more) = true → k = 3 := by
  rw [askedUser_append, hmore, Bool.or_false]
  exact hasked

theorem Talks.closed_append (inv : Talks i acts s) (more : List (Party × Effect))
    (h : s.answered = true) : askedUser (s.log ++ more) = true := by
  rw [askedUser_append, inv.closed h]
  rfl

/-- Effects that neither ask nor begin to send go on record. -/
theorem Talks.note (inv : Talks i acts s) {more : List (Party × Effect)}
    (hasks : askedUser more = false)
    (hmore : ∀ entry ∈ more, (∀ j, entry ≠ (.receiver, .askUser j)) ∧
      ∀ j, entry ≠ (.sender, .beginSending j)) : Talks i acts { s with log := s.log ++ more } := by
  obtain ⟨k, speech, hearing, hasked⟩ := inv.stage
  exact
    { inv with
      stage := ⟨k, speech, hearing, asked_append hasks hasked⟩
      closed := inv.closed_append more
      accepted := fun h => List.mem_append_left _ (inv.accepted h)
      agrees := inv.agrees.append hmore }

theorem Talks.startSender (inv : Talks i acts s) (fill : Option RandomFill) :
    Talks i (acts ++ [Pair.Act.startSender fill]) (s.sends (s.sender.start fill)) := by
  cases hsent : s.sender.sentPairedKey with
  | true =>
      have hnone : s.sends (s.sender.start fill) = s := by
        simp [Pair.sends, Outbound.start, hsent]
      rw [hnone]
      exact inv.idle _
  | false =>
      obtain ⟨k, speech, hearing, hasked⟩ := inv.stage
      cases speech with
      | failed sent _ _ => exact absurd (hsent.symm.trans sent) (by decide)
      | opened _ _ sent _ _ => exact absurd (hsent.symm.trans sent) (by decide)
      | silent _ state empty =>
          have hanswers : answers s.toSender = [] := by
            rcases inv.one with h | ⟨status, -, h⟩
            · exact h
            · exact absurd (state.symm.trans h) (by decide)
          cases fill with
          | none =>
              have heq : s.sends (s.sender.start none) =
                  { s with
                    sender := { s.sender with sentPairedKey := true, state := .failed }
                    log := s.log ++
                      [(.sender, .failed "could not build the paired-key frame")] } := by
                simp [Pair.sends, Outbound.start, hsent, pairedKeyEncryption, Pair.perform]
              rw [heq]
              exact
                { (inv.idle _).note rfl (by simp) with
                  stage := ⟨0, .failed rfl rfl empty, hearing, asked_append rfl hasked⟩
                  one := Or.inl hanswers
                  quiet := fun _ => ⟨hanswers, by simp, by simp⟩
                  senderFailed := fun _ => by simp }
          | some fill =>
              have heq : s.sends (s.sender.start (some fill)) =
                  { s with
                    sender := { s.sender with sentPairedKey := true, state := .introduction }
                    toReceiver := opening fill i
                    log := s.log ++ (opening fill i).map fun b => (.sender, .send b) } := by
                simp [Pair.sends, Outbound.start, hsent, pairedKeyEncryption_some, Pair.perform,
                  empty, inv.offer, opening]
              rw [heq]
              exact
                { (inv.idle _).note rfl (by simp [opening]) with
                  stage := ⟨0, .opened fill (by decide) rfl (Or.inl rfl) rfl, hearing,
                    asked_append rfl hasked⟩
                  one := Or.inl hanswers
                  quiet := fun _ => ⟨hanswers, by simp, by simp⟩
                  senderFailed := fun h => by cases h }

theorem answers_append (queue more : List Bytes) :
    answers (queue ++ more) = answers queue ++ answers more :=
  List.filterMap_append

/-- A receiver in another state that is as far as before. -/
theorem Hearing.mono {m m' : Inbound} {answered : Bool} {k : Nat} (h : Hearing i m answered k)
    (hstate : m'.state = m.state) (hoffer : m'.introduction = m.introduction) :
    Hearing i m' answered k := by
  cases h with
  | failed state => exact .failed (hstate.trans state)
  | pairing bound state => exact .pairing bound (hstate.trans state)
  | paired state => exact .paired (hstate.trans state)
  | asking state offer unanswered =>
      exact .asking (hstate.trans state) (hoffer.trans offer) unanswered
  | told state closed => exact .told (by rwa [hstate]) closed

theorem Talks.startReceiver (inv : Talks i acts s) (fill : Option RandomFill) :
    Talks i (acts ++ [Pair.Act.startReceiver fill]) (s.receives (s.receiver.start fill)) := by
  obtain ⟨k, speech, hearing, hasked⟩ := inv.stage
  cases hsent : s.receiver.sentPairedKey with
  | true =>
      have hnone : s.receives (s.receiver.start fill) = s := by
        simp [Pair.receives, Inbound.start, hsent]
      rw [hnone]
      exact inv.idle _
  | false =>
      cases fill with
      | none =>
          have heq : s.receives (s.receiver.start none) =
              { s with
                receiver := { s.receiver with sentPairedKey := true, state := .failed }
                log := s.log ++
                  [(.receiver, .failed "could not build the paired-key frame")] } := by
            simp [Pair.receives, Inbound.start, hsent, pairedKeyEncryption, Pair.perform]
          rw [heq]
          exact
            { (inv.idle _).note rfl (by simp) with
              stage := ⟨k, speech, .failed rfl, asked_append rfl hasked⟩
              quiet := fun h => by simp [Waits] at h
              receiverFailed := fun _ => by simp }
      | some fill =>
          have heq : s.receives (s.receiver.start (some fill)) =
              { s with
                receiver := { s.receiver with sentPairedKey := true }
                toSender := s.toSender ++ [claim fill]
                log := s.log ++ [(Party.receiver, .send (claim fill))] } := by
            simp [Pair.receives, Inbound.start, hsent, pairedKeyEncryption_some, Pair.perform]
          have hanswers : answers (s.toSender ++ [claim fill]) = answers s.toSender := by
            simp [answers, statusOf_claim]
          rw [heq]
          exact
            { (inv.idle _).note rfl (by simp) with
              stage := ⟨k, speech, hearing.mono rfl rfl, asked_append rfl hasked⟩
              replies := by
                intro b hb
                rcases List.mem_append.mp hb with hb | hb
                · exact inv.replies b hb
                · rw [List.mem_singleton.mp hb]
                  exact .claim fill
              one := by
                rw [hanswers]
                exact inv.one
              quiet := fun h => by
                rw [hanswers]
                exact inv.quiet h
              accepted := fun h => by
                rw [hanswers] at h
                exact List.mem_append_left _ (inv.accepted h) }

/-- A frame that is no answer leaves the sender as it is. -/
theorem Outbound.on_of_no_answer (m : Outbound) {f : Frame}
    (hf : (∃ signed hash, f = .pairedKeyEncryption signed hash) ∨
      ∃ result, f = .pairedKeyResult result) : m.on (.frame f) = (m, []) := by
  cases hover : m.state.isOver with
  | true => simp [Outbound.on, hover]
  | false =>
      rcases hf with ⟨signed, hash, rfl⟩ | ⟨result, rfl⟩
      · cases hstate : m.state <;> simp_all [Outbound.on, Outbound.onFrame, State.isOver]
      · cases hstate : m.state <;> simp_all [Outbound.on, Outbound.onFrame, State.isOver]

/-- A frame that is no answer changes nothing but the queue. -/
theorem Talks.skip (inv : Talks i acts s) {b : Bytes} {rest : List Bytes}
    (hqueue : s.toSender = b :: rest) (hstatus : statusOf b = none) :
    Talks i (acts ++ [Pair.Act.toSender]) { s with toSender := rest } := by
  have hanswers : answers s.toSender = answers rest := by
    simp [hqueue, answers, hstatus]
  exact
    { inv.idle .toSender with
      replies := fun c hc => inv.replies c (by simp [hqueue, hc])
      one := hanswers ▸ inv.one
      quiet := hanswers ▸ inv.quiet
      accepted := hanswers ▸ inv.accepted }

/-- While an answer is on its way, it is the only one and the sender waits for it. -/
theorem Talks.awaited (inv : Talks i acts s) {status : Status} {rest : List Bytes}
    (hqueue : s.toSender = response status :: rest) :
    answers rest = [] ∧ s.sender.state = .introduction ∧ ¬ Waits s.receiver := by
  have hanswers : answers s.toSender = status :: answers rest := by
    simp [hqueue, answers, statusOf_response]
  have hclosed : ¬ Waits s.receiver := by
    intro hwaits
    have hnone := (inv.quiet hwaits).1
    rw [hanswers] at hnone
    cases hnone
  rcases inv.one with h | ⟨other, h, hstate⟩
  · rw [hanswers] at h
    cases h
  · rw [hanswers] at h
    exact ⟨(List.cons.inj h).2, hstate, hclosed⟩

/-- The sender takes its answer and leaves for `next`. -/
theorem Talks.told (inv : Talks i acts s) {status : Status} {rest : List Bytes}
    (hqueue : s.toSender = response status :: rest) {next : State}
    (hnext : next = .transferring ∨ next = .done) {effect : Effect}
    (hask : askedUser [(.sender, effect)] = false)
    (hagrees : Agrees i (s.log ++ [(Party.sender, effect)])) :
    Talks i (acts ++ [Pair.Act.toSender]) { s with
      sender := { s.sender with state := next }
      toSender := rest
      log := s.log ++ [(Party.sender, effect)] } := by
  obtain ⟨k, speech, hearing, hasked⟩ := inv.stage
  obtain ⟨hrest, hstate, hclosed⟩ := inv.awaited hqueue
  cases speech with
  | silent _ state _ => exact absurd (state.symm.trans hstate) (by decide)
  | failed _ state _ => exact absurd (state.symm.trans hstate) (by decide)
  | opened fill bound sent _ queued =>
      exact
        { inv.idle .toSender with
          stage := ⟨k, .opened fill bound sent (Or.inr hnext) queued, hearing,
            asked_append hask hasked⟩
          closed := inv.closed_append _
          replies := fun c hc => inv.replies c (by simp [hqueue, hc])
          one := Or.inl hrest
          quiet := fun h => absurd h hclosed
          accepted := fun h => by
            rw [hrest] at h
            cases h
          agrees := hagrees
          senderFailed := fun h => by rcases hnext with rfl | rfl <;> cases h }

theorem Talks.toSender (inv : Talks i acts s)
    (hstep : s.step .toSender = some s') : Talks i (acts ++ [Pair.Act.toSender]) s' := by
  cases hqueue : s.toSender with
  | nil => simp [Pair.step, hqueue] at hstep
  | cons b rest =>
      have hreply := inv.replies b (by simp [hqueue])
      cases hreply with
      | claim fill =>
          have heq : s' = { s with toSender := rest } := by
            simpa [Pair.step, hqueue, parse_claim, Pair.sends,
              Outbound.on_of_no_answer s.sender (Or.inl ⟨_, _, rfl⟩)] using hstep.symm
          rw [heq]
          exact inv.skip hqueue (statusOf_claim fill)
      | result =>
          have heq : s' = { s with toSender := rest } := by
            simpa [Pair.step, hqueue, parse_pairedKeyResult, Pair.sends,
              Outbound.on_of_no_answer s.sender (Or.inr ⟨_, rfl⟩)] using hstep.symm
          rw [heq]
          exact inv.skip hqueue (statusOf_result _)
      | answer accept =>
          obtain ⟨-, hstate, -⟩ := inv.awaited hqueue
          cases accept with
          | true =>
              have heq : s' = { s with
                  sender := { s.sender with state := .transferring }
                  toSender := rest
                  log := s.log ++ [(Party.sender, .beginSending i)] } := by
                simpa [Pair.step, hqueue, parse_response, Pair.sends, Outbound.on,
                  Outbound.onFrame, hstate, State.isOver, Pair.perform, inv.offer] using hstep.symm
              have hbegan := inv.accepted (by simp [hqueue, answers, statusOf_response])
              rw [heq]
              refine inv.told hqueue (Or.inl rfl) rfl (inv.agrees.concat (by simp) ?_)
              intro j hj
              cases hj
              exact ⟨rfl, hbegan⟩
          | false =>
              have heq : s' = { s with
                  sender := { s.sender with state := .done }
                  toSender := rest
                  log := s.log ++ [(Party.sender, .done)] } := by
                simpa [Pair.step, hqueue, parse_response, Pair.sends, Outbound.on,
                  Outbound.onFrame, hstate, State.isOver, Pair.perform] using hstep.symm
              rw [heq]
              exact inv.told hqueue (Or.inr rfl) rfl (inv.agrees.append (by simp))

/-- What the receiver makes of the frames of the opening, the `k`-th being `f`:
where it leaves the user alone. -/
theorem Talks.takes (inv : Talks i acts s) (k : Nat) (m : Inbound) (sent : List Bytes)
    {fill : RandomFill} {b : Bytes} {rest : List Bytes} (hk : k < 3)
    (hsent : s.sender.sentPairedKey = true)
    (hstate : s.sender.state = .introduction ∨ s.sender.state = .transferring ∨
      s.sender.state = .done) (hqueue : s.toReceiver = (opening fill i).drop k)
    (hrest : s.toReceiver = b :: rest)
    (hasked : askedUser s.log = false) (hm : Hearing i m s.answered (k + 1))
    (hfailed : m.state = .failed → s.receiver.state = .failed)
    (hwaits : Waits m → Waits s.receiver) (hreply : ∀ c ∈ sent, Spoken c)
    (hquiet : answers sent = []) :
    Talks i (acts ++ [Pair.Act.toReceiver])
      { s with
        receiver := m
        toReceiver := rest
        toSender := s.toSender ++ sent
        log := s.log ++ sent.map fun c => (.receiver, .send c) } := by
  have hanswers : answers (s.toSender ++ sent) = answers s.toSender := by
    rw [answers_append, hquiet, List.append_nil]
  have hdrop : rest = (opening fill i).drop (k + 1) := by
    rw [← List.tail_drop, ← hqueue, hrest]
    rfl
  have hunasked : askedUser (sent.map fun c => (Party.receiver, Effect.send c)) = false := by
    simp [askedUser]
  exact
    { (inv.idle _).note hunasked (by simp) with
      stage := ⟨k + 1, .opened fill hk hsent hstate hdrop, hm,
        asked_append hunasked fun h => absurd (hasked.symm.trans h) (by decide)⟩
      replies := by
        intro c hc
        rcases List.mem_append.mp hc with hc | hc
        · exact inv.replies c hc
        · exact hreply c hc
      one := by
        rw [hanswers]
        exact inv.one
      quiet := fun h => by
        rw [hanswers]
        exact inv.quiet (hwaits h)
      accepted := fun h => by
        rw [hanswers] at h
        exact List.mem_append_left _ (inv.accepted h)
      receiverFailed := fun h => List.mem_append_left _ (inv.receiverFailed (hfailed h)) }

/-- A receiver that has failed takes the frame and does nothing. -/
theorem Talks.deaf (inv : Talks i acts s) (hfailed : s.receiver.state = .failed)
    (hstep : s.step .toReceiver = some s') : Talks i (acts ++ [Pair.Act.toReceiver]) s' := by
  have hover : ∀ f, s.receiver.on (.frame f) = (s.receiver, []) := by
    intro f
    simp [Inbound.on, hfailed, State.isOver]
  obtain ⟨k, speech, -, hasked⟩ := inv.stage
  cases hqueue : s.toReceiver with
  | nil => simp [Pair.step, hqueue] at hstep
  | cons b rest =>
      have heq : s' = { s with toReceiver := rest } := by
        cases hparse : parse b with
        | ok f => simpa [Pair.step, hqueue, hparse, Pair.receives, hover] using hstep.symm
        | error e => simpa [Pair.step, hqueue, hparse] using hstep.symm
      rw [heq]
      cases speech with
      | silent _ _ empty => cases hqueue.symm.trans empty
      | failed _ _ empty => cases hqueue.symm.trans empty
      | opened fill bound sent state queued =>
          have hk : k < 3 := by
            have hlen := congrArg List.length (hqueue.symm.trans queued)
            simp only [List.length_cons, List.length_drop, opening, List.length_nil] at hlen
            omega
          cases hasks : askedUser s.log with
          | true =>
              have := hasked hasks
              omega
          | false =>
              simpa using inv.takes k s.receiver [] hk sent state queued hqueue hasks
                (.failed hfailed) (fun _ => hfailed) (fun h => h) (by simp) rfl

/-- The introduction reaches a receiver that waits for one: the user is asked. -/
theorem Talks.asks (inv : Talks i acts s) (fill : RandomFill)
    (sent : s.sender.sentPairedKey = true)
    (state : s.sender.state = .introduction ∨ s.sender.state = .transferring ∨
      s.sender.state = .done)
    (hpaired : s.receiver.state = .introduction) (hunasked : askedUser s.log = false) :
    Talks i (acts ++ [Pair.Act.toReceiver]) { s with
      receiver := { s.receiver with introduction := some i, state := .awaitingUser }
      toReceiver := []
      log := s.log ++ [(Party.receiver, .askUser i)] } := by
  have hopen : s.answered = false := by
    cases h : s.answered with
    | false => rfl
    | true => exact absurd (hunasked.symm.trans (inv.closed h)) (by decide)
  exact
    { inv.idle .toReceiver with
      stage := ⟨3, .opened fill (by decide) sent state rfl, .asking rfl rfl hopen, fun _ => rfl⟩
      closed := inv.closed_append _
      quiet := fun _ => inv.quiet (Or.inr (Or.inl hpaired))
      accepted := fun h => List.mem_append_left _ (inv.accepted h)
      agrees := inv.agrees.concat (by
        intro j hj
        cases hj
        rfl) (by simp)
      receiverFailed := fun h => by cases h }

theorem Talks.toReceiver (fits : i.Fits) (nonempty : i.files ≠ [] ∨ i.texts ≠ [])
    (inv : Talks i acts s) (hstep : s.step .toReceiver = some s') :
    Talks i (acts ++ [Pair.Act.toReceiver]) s' := by
  by_cases hfailed : s.receiver.state = .failed
  · exact inv.deaf hfailed hstep
  obtain ⟨k, speech, hearing, hasked⟩ := inv.stage
  cases speech with
  | silent _ _ empty => simp [Pair.step, empty] at hstep
  | failed _ _ empty => simp [Pair.step, empty] at hstep
  | opened fill bound sent state rest =>
      have hk : k = 0 ∨ k = 1 ∨ k = 2 ∨ k = 3 := by omega
      have hunasked : k < 3 → askedUser s.log = false := by
        intro hk
        cases h : askedUser s.log with
        | false => rfl
        | true =>
            have := hasked h
            omega
      rcases hk with rfl | rfl | rfl | rfl
      · -- the claim
        have hqueue : s.toReceiver = claim fill :: [pairedKeyResult .unable, introduction i] := rest
        cases hearing with
        | failed h => exact absurd h hfailed
        | pairing _ hpairing =>
            have hnext := inv.takes 0 s.receiver [pairedKeyResult .unable] (by decide) sent
              state rest hqueue (hunasked (by decide)) (.pairing (by decide) hpairing) (fun h => h)
              (fun h => h) (by simpa using Spoken.result)
              (by simp [answers, statusOf_result])
            have heq : s' = { s with
                toReceiver := [pairedKeyResult .unable, introduction i]
                toSender := s.toSender ++ [pairedKeyResult .unable]
                log := s.log ++ [(Party.receiver, .send (pairedKeyResult .unable))] } := by
              simpa [Pair.step, hqueue, parse_claim, Pair.receives, Inbound.on, Inbound.onFrame,
                hpairing, State.isOver, Pair.perform] using hstep.symm
            rw [heq]
            simpa using hnext
      · -- the verdict on our claim
        have hqueue : s.toReceiver = pairedKeyResult .unable :: [introduction i] := rest
        cases hearing with
        | failed h => exact absurd h hfailed
        | pairing _ hpairing =>
            have hnext := inv.takes 1
              { s.receiver with seenPeerResult := true, state := .introduction } [] (by decide)
              sent state rest hqueue (hunasked (by decide)) (.paired rfl) (fun h => by cases h)
              (fun _ => Or.inl hpairing) (by simp) rfl
            have heq : s' = { s with
                receiver := { s.receiver with seenPeerResult := true, state := .introduction }
                toReceiver := [introduction i] } := by
              simpa [Pair.step, hqueue, parse_pairedKeyResult, Pair.receives, Inbound.on,
                Inbound.onFrame, hpairing, State.isOver] using hstep.symm
            rw [heq]
            simpa using hnext
      · -- the introduction
        have hqueue : s.toReceiver = [introduction i] := rest
        cases hearing with
        | failed h => exact absurd h hfailed
        | pairing hbad _ => omega
        | paired hpaired =>
            have hsome : ¬ (i.files = [] ∧ i.texts = []) := by
              rintro ⟨hfiles, htexts⟩
              rcases nonempty with h | h
              · exact h hfiles
              · exact h htexts
            have heq : s' = { s with
                receiver := { s.receiver with introduction := some i, state := .awaitingUser }
                toReceiver := []
                log := s.log ++ [(Party.receiver, .askUser i)] } := by
              simpa [Pair.step, hqueue, parse_introduction fits, Pair.receives, Inbound.on,
                Inbound.onFrame, hpaired, State.isOver, hsome, Pair.perform] using hstep.symm
            rw [heq]
            exact inv.asks fill sent state hpaired (hunasked (by decide))
      · exact absurd hstep (by simp [Pair.step, rest, opening])

/-- The user's answer goes out, and the receiver leaves for `next`. -/
theorem Talks.decides (inv : Talks i acts s) (accept : Bool) (hyes : askedUser s.log = true)
    (hstate : s.receiver.state = .awaitingUser) {next : State}
    (hnext : next = .transferring ∨ next = .done) {effect : Effect}
    (hmore : ∀ entry ∈ [(.receiver, .send (response (if accept then .accept else .reject))),
        (.receiver, effect)],
      (∀ j, entry ≠ (Party.receiver, .askUser j)) ∧ ∀ j, entry ≠ (.sender, .beginSending j))
    (hbegan : accept = true → effect = .beginReceiving i) :
    Talks i (acts ++ [Pair.Act.answer accept]) { s with
      receiver := { s.receiver with state := next }
      toSender := s.toSender ++ [response (if accept then .accept else .reject)]
      answered := true
      log := s.log ++ [(Party.receiver, .send (response (if accept then .accept else .reject))),
        (.receiver, effect)] } := by
  obtain ⟨k, speech, -, hasked⟩ := inv.stage
  obtain rfl := hasked hyes
  obtain ⟨hnone, hnot, hnot'⟩ := inv.quiet (Or.inr (Or.inr hstate))
  have hintro : s.sender.state = .introduction := by
    cases speech with
    | opened _ _ _ state _ =>
        rcases state with h | h | h
        · exact h
        · exact absurd h hnot
        · exact absurd h hnot'
  have hanswers : answers (s.toSender ++ [response (if accept then .accept else .reject)]) =
      [if accept then .accept else .reject] := by
    rw [answers_append, hnone]
    simp [answers, statusOf_response]
  exact
    { inv.idle (.answer accept) with
      stage := ⟨3, speech, .told hnext rfl, fun _ => rfl⟩
      closed := fun _ => by
        rw [askedUser_append, hyes]
        rfl
      replies := by
        intro b hb
        rcases List.mem_append.mp hb with hb | hb
        · exact inv.replies b hb
        · rw [List.mem_singleton.mp hb]
          exact .answer accept
      one := Or.inr ⟨_, hanswers, hintro⟩
      quiet := fun h => by rcases hnext with rfl | rfl <;> simp [Waits] at h
      accepted := fun h => by
        rw [hanswers] at h
        cases accept with
        | true => simp [hbegan rfl]
        | false => simp at h
      agrees := inv.agrees.append hmore
      senderFailed := fun h => absurd (hintro.symm.trans h) (by decide)
      receiverFailed := fun h => by rcases hnext with rfl | rfl <;> cases h }

theorem Talks.answer (inv : Talks i acts s) (accept : Bool)
    (hstep : s.step (.answer accept) = some s') :
    Talks i (acts ++ [Pair.Act.answer accept]) s' := by
  obtain ⟨k, speech, hearing, hasked⟩ := inv.stage
  cases hguard : askedUser s.log && !s.answered with
  | false => simp [Pair.step, hguard] at hstep
  | true =>
      obtain ⟨hyes, hopen⟩ := Bool.and_eq_true_iff.mp hguard
      have hopen : s.answered = false := by simpa using hopen
      obtain rfl := hasked hyes
      cases hearing with
      | pairing bound _ => omega
      | told _ closed => exact absurd (hopen.symm.trans closed) (by decide)
      | failed hfailed =>
          have heq : s' = { s with answered := true } := by
            simpa [Pair.step, hguard, Pair.receives, Inbound.on, hfailed, State.isOver]
              using hstep.symm
          rw [heq]
          exact
            { inv.idle (.answer accept) with
              stage := ⟨3, speech, .failed hfailed, fun _ => rfl⟩
              closed := fun _ => hyes }
      | asking hstate hoffer _ =>
          cases accept with
          | true =>
              have heq : s' = { s with
                  receiver := { s.receiver with state := .transferring }
                  toSender := s.toSender ++ [response .accept]
                  answered := true
                  log := s.log ++ [(Party.receiver, .send (response .accept)),
                    (.receiver, .beginReceiving i)] } := by
                simpa [Pair.step, hguard, Pair.receives, Inbound.on, hstate, State.isOver,
                  hoffer, Pair.perform] using hstep.symm
              rw [heq]
              exact inv.decides true hyes hstate (Or.inl rfl) (by simp) fun _ => rfl
          | false =>
              have heq : s' = { s with
                  receiver := { s.receiver with state := .done }
                  toSender := s.toSender ++ [response .reject]
                  answered := true
                  log := s.log ++ [(Party.receiver, .send (response .reject)),
                    (.receiver, .done)] } := by
                simpa [Pair.step, hguard, Pair.receives, Inbound.on, hstate, State.isOver,
                  Pair.perform] using hstep.symm
              rw [heq]
              exact inv.decides false hyes hstate (Or.inr rfl) (by simp) fun h => by cases h

theorem Talks.step (fits : i.Fits) (nonempty : i.files ≠ [] ∨ i.texts ≠ [])
    (inv : Talks i acts s) {a : Pair.Act} (hstep : s.step a = some s') :
    Talks i (acts ++ [a]) s' := by
  cases a with
  | startSender fill =>
      obtain rfl := Option.some.inj hstep
      exact inv.startSender fill
  | startReceiver fill =>
      obtain rfl := Option.some.inj hstep
      exact inv.startReceiver fill
  | toReceiver => exact inv.toReceiver fits nonempty hstep
  | toSender => exact inv.toSender hstep
  | answer accept => exact inv.answer accept hstep

/-- **Sender and receiver agree.**  For an introduction with something in it, in
every run: the user is asked about exactly that introduction, the sender begins to
send it only after the receiver began to receive it, and a machine has failed only
if the random source failed a call of its `start`. -/
theorem agreement (i : Introduction) (fits : i.Fits) (nonempty : i.files ≠ [] ∨ i.texts ≠ [])
    {acts : List Pair.Act} {s : Pair}
    (run : Lts.Run (Lts.ofPartial Pair.step) (Pair.start i) acts s) :
    Agrees i s.log ∧
    (s.sender.state = .failed → .startSender none ∈ acts) ∧
    (s.receiver.state = .failed → .startReceiver none ∈ acts) := by
  have inv : Talks i acts s := run.invariant_acts (Talks i) (Talks.start i) (by
    intro acts s a s' inv hstep
    exact inv.step fits nonempty hstep)
  exact ⟨inv.agrees, inv.senderFailed, inv.receiverFailed⟩

/-- One file on offer. -/
def photo : Introduction where
  files := [{ name := "é.jpg".toList, fileType := .image, payloadId := -7, size := 3, id := 1 }]

theorem photo_fits : photo.Fits := by
  refine ⟨?_, ?_, by decide +kernel⟩
  · intro f hf
    rw [List.mem_singleton.mp hf]
    exact ⟨⟨by decide, by decide⟩, ⟨by decide, by decide⟩, ⟨by decide, by decide⟩,
      ⟨by decide, by decide⟩⟩
  · intro t ht
    cases ht

/-- The receiver is started last and the user accepts. -/
def accepting : List Pair.Act :=
  [.startSender (some someFill), .toReceiver, .toReceiver, .toReceiver, .toSender, .answer true,
    .startReceiver (some someFill), .toSender]

theorem photo_agreed :
    ∃ s, Lts.Run (Lts.ofPartial Pair.step) (Pair.start photo) accepting s ∧
      s.sender.state = .transferring ∧ s.receiver.state = .transferring ∧
      Agrees photo s.log := by
  have heval : (accepting.foldlM Pair.step (Pair.start photo)).map
      (fun s => (s.sender.state, s.receiver.state)) = some (.transferring, .transferring) := by
    decide +kernel
  obtain ⟨s, run, hstates⟩ := Lts.run_observe _ _ heval
  obtain ⟨hsender, hreceiver⟩ := Prod.mk.inj hstates
  exact ⟨s, run, hsender, hreceiver,
    (agreement photo photo_fits (Or.inl (by decide)) run).1⟩

/-- Where the random source fails, the sender fails at its start. -/
theorem start_can_fail :
    ∃ s, Lts.Run (Lts.ofPartial Pair.step) (Pair.start photo) [.startSender none] s ∧
      s.sender.state = .failed :=
  ⟨_, Lts.Run.nil.snoc rfl, rfl⟩

end Fsm

end Protocol
