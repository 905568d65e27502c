import TarishDaemon.Lib.Run
import TarishDaemon.Protocol.FramesWire
import TarishDaemon.Protocol.Handover

/-!
# The two sides of a handover

A host and a joiner with the old and the new channel between them.  Each channel
keeps its order in each direction, and there is no order between the channels, so
the acknowledgement (on the new one) and the teardown (on the old one) can
overtake each other.

A side is to fall silent on the old channel once it has called it safe to close,
and to leave it only after its own last write.  `handover_orderly` proves this of
every run in which the host's last write does not reach the joiner while that
still waits for the acknowledgement: such a conversation goes through the phases
of `Phase` and no others.
-/

namespace Protocol

open Rust

namespace Upgrade

inductive Side
  | host
  | joiner
  deriving DecidableEq, Repr

/-- Both machines, the frames on their way, the joins that have not been answered
yet, and all effects so far. -/
structure Talk where
  host : Host
  joiner : Joiner
  oldToJoiner : List Bytes
  newToJoiner : List Bytes
  oldToHost : List Bytes
  newToHost : List Bytes
  joins : Nat
  log : List (Side × Effect)

namespace Talk

def send (s : Talk) : Side → Channel → Bytes → Talk
  | .host, .old, b => { s with oldToJoiner := s.oldToJoiner ++ [b] }
  | .host, .new, b => { s with newToJoiner := s.newToJoiner ++ [b] }
  | .joiner, .old, b => { s with oldToHost := s.oldToHost ++ [b] }
  | .joiner, .new, b => { s with newToHost := s.newToHost ++ [b] }

def perform (s : Talk) (side : Side) (e : Effect) : Talk :=
  let s := match e with
    | .send ch b => s.send side ch b
    | .join _ => { s with joins := s.joins + 1 }
    | .closeOld | .upgraded | .abandoned _ => s
  { s with log := s.log ++ [(side, e)] }

def toJoiner (s : Talk) (e : Event) : Talk :=
  (s.joiner.on e).2.foldl (·.perform .joiner ·) { s with joiner := (s.joiner.on e).1 }

def toHost (s : Talk) (e : Event) : Talk :=
  (s.host.on e).2.foldl (·.perform .host ·) { s with host := (s.host.on e).1 }

/-- One thing that can happen: a frame arrives, or a join comes to an end. -/
inductive Act
  | toJoiner (channel : Channel)
  | toHost (channel : Channel)
  | connected
  | joinFailed
  deriving DecidableEq, Repr

def step (s : Talk) : Act → Option Talk
  | .toJoiner .old => match s.oldToJoiner with
      | [] => none
      | b :: rest =>
          let s := { s with oldToJoiner := rest }
          some ((read b).elim s fun f => s.toJoiner (.frame .old f))
  | .toJoiner .new => match s.newToJoiner with
      | [] => none
      | b :: rest =>
          let s := { s with newToJoiner := rest }
          some ((read b).elim s fun f => s.toJoiner (.frame .new f))
  | .toHost .old => match s.oldToHost with
      | [] => none
      | b :: rest =>
          let s := { s with oldToHost := rest }
          some ((read b).elim s fun f => s.toHost (.frame .old f))
  | .toHost .new => match s.newToHost with
      | [] => none
      | b :: rest =>
          let s := { s with newToHost := rest }
          some ((read b).elim s fun f => s.toHost (.frame .new f))
  | .connected => match s.joins with
      | 0 => none
      | joins + 1 => some ({ s with joins := joins }.toJoiner .connected)
  | .joinFailed => match s.joins with
      | 0 => none
      | joins + 1 => some ({ s with joins := joins }.toJoiner .joinFailed)

/-- The host has made its offer; the joiner has yet to see it. -/
def start (path : UpgradePath) (sta : Int) (id : Text) : Talk where
  host := (Host.start { path := path, staFrequency := sta }).1
  joiner := { endpointId := id }
  oldToJoiner := [pathAvailable path]
  newToJoiner := []
  oldToHost := []
  newToHost := []
  joins := 0
  log := [(.host, .send .old (pathAvailable path))]

end Talk

/-! ## What is asked of the effects -/

/-- The frame that an effect sends on the old channel. -/
def Effect.onOld : Effect → Option Frame
  | .send .old b => read b
  | _ => none

def Effect.sendsOld : Effect → Bool
  | .send .old _ => true
  | _ => false

def Effect.isSafe (e : Effect) : Bool :=
  match e.onOld with
  | some (.safeToClosePrior _) => true
  | _ => false

def Effect.isLast (e : Effect) : Bool :=
  match e.onOld with
  | some .lastWriteToPrior => true
  | _ => false

/-- Whether a side has called the old channel safe to close. -/
def saidSafe (side : Side) (log : List (Side × Effect)) : Bool :=
  log.any fun entry => decide (entry.1 = side) && entry.2.isSafe

/-- Whether a side has sent its last write. -/
def saidLast (side : Side) (log : List (Side × Effect)) : Bool :=
  log.any fun entry => decide (entry.1 = side) && entry.2.isLast

/-- What may follow what a side has done so far. -/
structure Proper (before : List (Side × Effect)) (entry : Side × Effect) : Prop where
  silent : entry.2.sendsOld = true → saidSafe entry.1 before = false
  last : entry.2 = .upgraded → saidLast entry.1 before = true

/-- After its SAFE_TO_CLOSE a side sends nothing more on the old channel, and it
has upgraded only after its own LAST_WRITE. -/
def Orderly (log : List (Side × Effect)) : Prop :=
  History.Justified Proper log

/-! ## The phases of a conversation -/

/-- What does not change in a conversation. -/
structure Parties where
  path : UpgradePath
  sta : Int
  id : Text
  fits : path.Fits
  reachable : path.wifi ≠ none ∨ path.lan ≠ none
  id_fits : (clientIntroduction id).length < 2 ^ 64

/-- `heard` says whether the joiner's last write has reached the host. -/
inductive Phase
  | offering
  | joining
  | failing
  | failed
  | introducing
  | acknowledging
  | arriving (heard : Bool)
  | draining (heard : Bool)
  | releasing (heard : Bool)
  | closing
  | moved
  deriving DecidableEq, Repr

namespace Phase

@[simp] def host : Phase → State
  | offering | joining | failing | introducing | arriving _ => .offered
  | failed => .abandoned
  | acknowledging | draining _ | releasing _ => .draining
  | closing | moved => .upgraded

@[simp] def joiner : Phase → State
  | offering => .idle
  | joining => .joining
  | failing | failed => .abandoned
  | introducing | acknowledging => .introduced
  | arriving _ | draining _ | releasing _ | closing => .draining
  | moved => .upgraded

@[simp] def joinerPath (p : Parties) : Phase → Option UpgradePath
  | offering => none
  | _ => some p.path

@[simp] def oldToJoiner (p : Parties) : Phase → List Bytes
  | offering => [pathAvailable p.path]
  | acknowledging | draining _ => [lastWriteToPrior]
  | closing => [safeToClosePrior p.sta]
  | _ => []

@[simp] def newToJoiner : Phase → List Bytes
  | acknowledging => [clientIntroductionAck]
  | _ => []

@[simp] def oldToHost : Phase → List Bytes
  | failing => [failure]
  | arriving false | draining false => [lastWriteToPrior]
  | releasing false => [lastWriteToPrior, safeToClosePrior staFrequencyNotSet]
  | releasing true => [safeToClosePrior staFrequencyNotSet]
  | _ => []

@[simp] def newToHost (p : Parties) : Phase → List Bytes
  | introducing | arriving _ => [clientIntroduction p.id]
  | _ => []

@[simp] def joins : Phase → Nat
  | joining => 1
  | _ => 0

/-- Who has sent a last write, and who has called the old channel safe. -/
@[simp] def last : Phase → Side → Bool
  | acknowledging, .host | draining _, .host | releasing _, .host => true
  | closing, .host | moved, .host => true
  | arriving _, .joiner | draining _, .joiner | releasing _, .joiner => true
  | closing, .joiner | moved, .joiner => true
  | _, _ => false

@[simp] def safe : Phase → Side → Bool
  | closing, .host | moved, .host => true
  | releasing _, .joiner | closing, .joiner | moved, .joiner => true
  | _, _ => false

/-- The conversation in a phase, up to its history. -/
def talk (p : Parties) (ph : Phase) (log : List (Side × Effect)) : Talk where
  host := { path := p.path, staFrequency := p.sta, state := ph.host }
  joiner := { endpointId := p.id, state := ph.joiner, path := ph.joinerPath p }
  oldToJoiner := ph.oldToJoiner p
  newToJoiner := ph.newToJoiner
  oldToHost := ph.oldToHost
  newToHost := ph.newToHost p
  joins := ph.joins
  log := log

/-- Only with an acknowledgement on offer is one waited for. -/
def Valid (p : Parties) : Phase → Prop
  | introducing | acknowledging => p.path.supportsIntroductionAck = true
  | arriving _ => p.path.supportsIntroductionAck = false
  | _ => True

end Phase

/-- The condition on a step: the host's last write does not arrive while the joiner
waits for the acknowledgement. -/
def AckFirst (s : Talk) (a : Talk.Act) : Prop :=
  a = .toJoiner .old → s.joiner.state = .introduced →
    s.oldToJoiner.head?.bind read ≠ some .lastWriteToPrior

instance (s : Talk) (a : Talk.Act) : Decidable (AckFirst s a) :=
  inferInstanceAs (Decidable (_ → _ → _ ≠ _))

/-- A step, as it moves between the phases: what comes next and which effects it
adds. -/
inductive Moves (p : Parties) : Phase → Talk.Act → Phase → Side → List Effect → Prop
  | offer : Moves p .offering (.toJoiner .old) .joining .joiner [.join p.path]
  | join (h : p.path.supportsIntroductionAck = true) :
      Moves p .joining .connected .introducing .joiner [.send .new (clientIntroduction p.id)]
  | joinNoAck (h : p.path.supportsIntroductionAck = false) :
      Moves p .joining .connected (.arriving false) .joiner
        [.send .new (clientIntroduction p.id), .send .old lastWriteToPrior]
  | fail : Moves p .joining .joinFailed .failing .joiner
      [.send .old failure, .abandoned "could not join the offered network"]
  | failHost : Moves p .failing (.toHost .old) .failed .host
      [.abandoned "the peer reported an upgrade failure"]
  | introduce : Moves p .introducing (.toHost .new) .acknowledging .host
      [.send .new clientIntroductionAck, .send .old lastWriteToPrior]
  | introduceNoAck (heard : Bool) :
      Moves p (.arriving heard) (.toHost .new) (.draining heard) .host
        [.send .old lastWriteToPrior]
  | acknowledge : Moves p .acknowledging (.toJoiner .new) (.draining false) .joiner
      [.send .old lastWriteToPrior]
  | hearEarly : Moves p (.arriving false) (.toHost .old) (.arriving true) .host []
  | hear : Moves p (.draining false) (.toHost .old) (.draining true) .host []
  | hearLate : Moves p (.releasing false) (.toHost .old) (.releasing true) .host []
  | release (heard : Bool) : Moves p (.draining heard) (.toJoiner .old) (.releasing heard) .joiner
      [.send .old (safeToClosePrior staFrequencyNotSet)]
  | close : Moves p (.releasing true) (.toHost .old) .closing .host
      [.send .old (safeToClosePrior p.sta), .closeOld, .upgraded]
  | move : Moves p .closing (.toJoiner .old) .moved .joiner [.closeOld, .upgraded]

/-- A step leads from a phase to the next one. -/
def Leads (p : Parties) (ph : Phase) (log : List (Side × Effect)) (a : Talk.Act) (s : Talk) :
    Prop :=
  ∃ ph' side effects, Moves p ph a ph' side effects ∧
    s = ph'.talk p (log ++ effects.map (Prod.mk side))

section Steps

variable {p : Parties} {ph : Phase} {log : List (Side × Effect)} {s : Talk}

theorem leads_of_oldToJoiner (hok : AckFirst (ph.talk p log) (.toJoiner .old))
    (hstep : (ph.talk p log).step (.toJoiner .old) = some s) :
    Leads p ph log (.toJoiner .old) s := by
  have hoffer := read_pathAvailable p.fits
  have hlast := read_lastWriteToPrior
  have hsafe := read_safeToClosePrior p.sta
  have hway : ¬ (p.path.wifi = none ∧ p.path.lan = none) := by
    rcases p.reachable with h | h
    · exact fun both => h both.1
    · exact fun both => h both.2
  cases ph with
  | offering =>
      refine ⟨_, _, _, .offer, ?_⟩
      simpa [Talk.step, Phase.talk, hoffer, Talk.toJoiner, Joiner.on, State.isOver, hway,
        Talk.perform] using hstep.symm
  | acknowledging => exact absurd hlast (hok rfl rfl)
  | draining heard =>
      refine ⟨_, _, _, .release heard, ?_⟩
      cases heard with
      | false =>
          simpa [Talk.step, Phase.talk, hlast, Talk.toJoiner, Joiner.on, State.isOver,
            Talk.perform, Talk.send] using hstep.symm
      | true =>
          simpa [Talk.step, Phase.talk, hlast, Talk.toJoiner, Joiner.on, State.isOver,
            Talk.perform, Talk.send] using hstep.symm
  | closing =>
      refine ⟨_, _, _, .move, ?_⟩
      simpa [Talk.step, Phase.talk, hsafe, Talk.toJoiner, Joiner.on, State.isOver,
        Talk.perform] using hstep.symm
  | _ => cases hstep

theorem leads_of_newToJoiner (hstep : (ph.talk p log).step (.toJoiner .new) = some s) :
    Leads p ph log (.toJoiner .new) s := by
  have hack := read_clientIntroductionAck
  cases ph with
  | acknowledging =>
      refine ⟨_, _, _, .acknowledge, ?_⟩
      simpa [Talk.step, Phase.talk, hack, Talk.toJoiner, Joiner.on, State.isOver,
        Talk.perform, Talk.send] using hstep.symm
  | _ => cases hstep

theorem leads_of_oldToHost (hstep : (ph.talk p log).step (.toHost .old) = some s) :
    Leads p ph log (.toHost .old) s := by
  have hlast := read_lastWriteToPrior
  have hfailure := read_failure
  have hsafe := read_safeToClosePrior staFrequencyNotSet
  cases ph with
  | failing =>
      refine ⟨_, _, _, .failHost, ?_⟩
      simpa [Talk.step, Phase.talk, hfailure, Talk.toHost, Host.on, State.isOver,
        Host.abandon, Talk.perform] using hstep.symm
  | arriving heard =>
      cases heard with
      | false =>
          refine ⟨_, _, _, .hearEarly, ?_⟩
          simpa [Talk.step, Phase.talk, hlast, Talk.toHost, Host.on, State.isOver]
            using hstep.symm
      | true => cases hstep
  | draining heard =>
      cases heard with
      | false =>
          refine ⟨_, _, _, .hear, ?_⟩
          simpa [Talk.step, Phase.talk, hlast, Talk.toHost, Host.on, State.isOver]
            using hstep.symm
      | true => cases hstep
  | releasing heard =>
      cases heard with
      | false =>
          refine ⟨_, _, _, .hearLate, ?_⟩
          simpa [Talk.step, Phase.talk, hlast, Talk.toHost, Host.on, State.isOver]
            using hstep.symm
      | true =>
          refine ⟨_, _, _, .close, ?_⟩
          simpa [Talk.step, Phase.talk, hsafe, Talk.toHost, Host.on, State.isOver,
            Talk.perform, Talk.send] using hstep.symm
  | _ => cases hstep

theorem leads_of_newToHost (valid : ph.Valid p)
    (hstep : (ph.talk p log).step (.toHost .new) = some s) : Leads p ph log (.toHost .new) s := by
  have hintro := read_clientIntroduction p.id_fits
  cases ph with
  | introducing =>
      refine ⟨_, _, _, .introduce, ?_⟩
      have hsupports : p.path.supportsIntroductionAck = true := valid
      simpa [Talk.step, Phase.talk, hintro, Talk.toHost, Host.on, State.isOver, hsupports,
        Talk.perform, Talk.send] using hstep.symm
  | arriving heard =>
      refine ⟨_, _, _, .introduceNoAck heard, ?_⟩
      have hsupports : p.path.supportsIntroductionAck = false := valid
      cases heard with
      | false =>
          simpa [Talk.step, Phase.talk, hintro, Talk.toHost, Host.on, State.isOver, hsupports,
            Talk.perform, Talk.send] using hstep.symm
      | true =>
          simpa [Talk.step, Phase.talk, hintro, Talk.toHost, Host.on, State.isOver, hsupports,
            Talk.perform, Talk.send] using hstep.symm
  | _ => cases hstep

theorem leads_of_connected (hstep : (ph.talk p log).step .connected = some s) :
    Leads p ph log .connected s := by
  cases ph with
  | joining =>
      cases hsupports : p.path.supportsIntroductionAck with
      | true =>
          refine ⟨_, _, _, .join hsupports, ?_⟩
          simpa [Talk.step, Phase.talk, Talk.toJoiner, Joiner.on, State.isOver, hsupports,
            Talk.perform, Talk.send] using hstep.symm
      | false =>
          refine ⟨_, _, _, .joinNoAck hsupports, ?_⟩
          simpa [Talk.step, Phase.talk, Talk.toJoiner, Joiner.on, State.isOver, hsupports,
            Talk.perform, Talk.send] using hstep.symm
  | _ => cases hstep

theorem leads_of_joinFailed (hstep : (ph.talk p log).step .joinFailed = some s) :
    Leads p ph log .joinFailed s := by
  cases ph with
  | joining =>
      refine ⟨_, _, _, .fail, ?_⟩
      simpa [Talk.step, Phase.talk, Talk.toJoiner, Joiner.on, State.isOver, Talk.perform,
        Talk.send] using hstep.symm
  | _ => cases hstep

/-- **What a step can do.**  From a phase of the conversation it leads to the next
one. -/
theorem leads_of_step {a : Talk.Act} (valid : ph.Valid p) (hok : AckFirst (ph.talk p log) a)
    (hstep : (ph.talk p log).step a = some s) : Leads p ph log a s := by
  cases a with
  | toJoiner channel =>
      cases channel with
      | old => exact leads_of_oldToJoiner hok hstep
      | new => exact leads_of_newToJoiner hstep
  | toHost channel =>
      cases channel with
      | old => exact leads_of_oldToHost hstep
      | new => exact leads_of_newToHost valid hstep
  | connected => exact leads_of_connected hstep
  | joinFailed => exact leads_of_joinFailed hstep

end Steps

/-! ## Every phase is orderly -/

theorem saidSafe_append (side : Side) (log more : List (Side × Effect)) :
    saidSafe side (log ++ more) = (saidSafe side log || saidSafe side more) :=
  List.any_append

theorem saidLast_append (side : Side) (log more : List (Side × Effect)) :
    saidLast side (log ++ more) = (saidLast side log || saidLast side more) :=
  List.any_append

/-- The history agrees with the phase on what has been said. -/
structure Tells (ph : Phase) (log : List (Side × Effect)) : Prop where
  last : ∀ side, saidLast side log = ph.last side
  safe : ∀ side, saidSafe side log = ph.safe side

theorem Moves.tells {p : Parties} {ph ph' : Phase} {a : Talk.Act} {side : Side}
    {effects : List Effect} {log : List (Side × Effect)}
    (h : Moves p ph a ph' side effects) (t : Tells ph log) :
    Tells ph' (log ++ effects.map (Prod.mk side)) := by
  have hsafe := read_safeToClosePrior p.sta
  have hsafeJoiner := read_safeToClosePrior staFrequencyNotSet
  constructor
  · intro sd
    rw [saidLast_append, t.last]
    cases sd <;> cases h <;>
      simp [saidLast, Effect.isLast, Effect.onOld, hsafe, hsafeJoiner, read_lastWriteToPrior,
        read_failure]
  · intro sd
    rw [saidSafe_append, t.safe]
    cases sd <;> cases h <;>
      simp [saidSafe, Effect.isSafe, Effect.onOld, hsafe, hsafeJoiner, read_lastWriteToPrior,
        read_failure]

/-- A side that has not called the channel safe may do what does not upgrade. -/
theorem proper_of_not_safe {log : List (Side × Effect)} {side : Side} {e : Effect}
    (hsafe : saidSafe side log = false) (he : e ≠ .upgraded) : Proper log (side, e) :=
  ⟨fun _ => hsafe, fun h => absurd h he⟩

/-- Leaving the old channel is no write, and it is not yet the end of the upgrade. -/
theorem proper_closeOld (log : List (Side × Effect)) (side : Side) :
    Proper log (side, .closeOld) where
  silent h := by cases h
  last h := by cases h

theorem proper_upgraded {log : List (Side × Effect)} (side : Side)
    (hlast : saidLast side log = true) : Proper log (side, .upgraded) where
  silent h := by cases h
  last _ := hlast

theorem Orderly.pair {log : List (Side × Effect)} {x y : Side × Effect} (orderly : Orderly log)
    (hx : Proper log x) (hy : Proper (log ++ [x]) y) : Orderly (log ++ [x, y]) := by
  have hboth := (orderly.concat hx).concat hy
  rwa [List.append_assoc] at hboth

theorem Moves.orderly {p : Parties} {ph ph' : Phase} {a : Talk.Act} {side : Side}
    {effects : List Effect} {log : List (Side × Effect)}
    (h : Moves p ph a ph' side effects) (t : Tells ph log) (orderly : Orderly log) :
    Orderly (log ++ effects.map (Prod.mk side)) := by
  cases h with
  | offer => exact orderly.concat (proper_of_not_safe (t.safe _) (by simp))
  | join _ => exact orderly.concat (proper_of_not_safe (t.safe _) (by simp))
  | joinNoAck _ =>
      apply orderly.pair (proper_of_not_safe (t.safe _) (by simp))
      exact proper_of_not_safe (by rw [saidSafe_append, t.safe]; rfl) (by simp)
  | fail =>
      apply orderly.pair (proper_of_not_safe (t.safe _) (by simp))
      exact ⟨fun h => absurd h (by decide), fun h => absurd h (by simp)⟩
  | failHost => exact orderly.concat (proper_of_not_safe (t.safe _) (by simp))
  | introduce =>
      apply orderly.pair (proper_of_not_safe (t.safe _) (by simp))
      exact proper_of_not_safe (by rw [saidSafe_append, t.safe]; rfl) (by simp)
  | introduceNoAck _ => exact orderly.concat (proper_of_not_safe (t.safe _) (by simp))
  | acknowledge => exact orderly.concat (proper_of_not_safe (t.safe _) (by simp))
  | hearEarly => simpa using orderly
  | hear => simpa using orderly
  | hearLate => simpa using orderly
  | release _ => exact orderly.concat (proper_of_not_safe (t.safe _) (by simp))
  | close =>
      have hfirst := orderly.concat (e := (Side.host, .send .old (safeToClosePrior p.sta)))
        (proper_of_not_safe (t.safe _) (by simp))
      have hall := Orderly.pair hfirst (proper_closeOld _ .host)
        (proper_upgraded .host
          (by rw [saidLast_append, saidLast_append, t.last]; rfl))
      rwa [List.append_assoc] at hall
  | move =>
      apply orderly.pair (proper_closeOld _ .joiner)
      exact proper_upgraded .joiner (by rw [saidLast_append, t.last]; rfl)

theorem Moves.valid {p : Parties} {ph ph' : Phase} {a : Talk.Act} {side : Side}
    {effects : List Effect} (h : Moves p ph a ph' side effects) (valid : ph.Valid p) :
    ph'.Valid p := by
  cases h with
  | join hsupports => exact hsupports
  | joinNoAck hsupports => exact hsupports
  | introduce => exact valid
  | hearEarly => exact valid
  | _ => trivial

/-- What holds after every run that meets the condition: the conversation is in a
phase, and its history is orderly. -/
structure InPhase (p : Parties) (s : Talk) : Prop where
  phase : ∃ ph : Phase, s = ph.talk p s.log ∧ ph.Valid p ∧ Tells ph s.log
  orderly : Orderly s.log

theorem InPhase.start (p : Parties) : InPhase p (Talk.start p.path p.sta p.id) := by
  have hoffer := read_pathAvailable p.fits
  constructor
  · refine ⟨.offering, rfl, trivial, ⟨?_, ?_⟩⟩
    · intro sd
      cases sd <;> simp [Talk.start, saidLast, Effect.isLast, Effect.onOld, hoffer]
    · intro sd
      cases sd <;> simp [Talk.start, saidSafe, Effect.isSafe, Effect.onOld, hoffer]
  · have hfirst := History.justified_nil (P := Proper)
    exact hfirst.concat ⟨fun _ => rfl, fun h => absurd h (by simp)⟩

theorem InPhase.step {p : Parties} {s s' : Talk} {a : Talk.Act} (inv : InPhase p s)
    (hok : AckFirst s a) (hstep : s.step a = some s') : InPhase p s' := by
  obtain ⟨ph, heq, valid, tells⟩ := inv.phase
  rw [heq] at hok hstep
  obtain ⟨ph', side, effects, moves, rfl⟩ := leads_of_step valid hok hstep
  exact ⟨⟨ph', rfl, moves.valid valid, moves.tells tells⟩, moves.orderly tells inv.orderly⟩

/-- Without an acknowledgement on offer the joiner never waits for one. -/
theorem InPhase.ackFirst {p : Parties} {s : Talk} (inv : InPhase p s)
    (hno : p.path.supportsIntroductionAck = false) (a : Talk.Act) : AckFirst s a := by
  obtain ⟨ph, heq, valid, -⟩ := inv.phase
  intro _ hintroduced
  rw [heq] at hintroduced
  have hwaits : ph = .introducing ∨ ph = .acknowledging := by
    cases ph <;> first | exact Or.inl rfl | exact Or.inr rfl | cases hintroduced
  rcases hwaits with rfl | rfl
  · exact absurd (hno.symm.trans valid) (by decide)
  · exact absurd (hno.symm.trans valid) (by decide)

/-- **An orderly handover.**  In every run in which the host's last write does not
reach the joiner while it waits for the acknowledgement, both sides fall silent on
the old channel once they have called it safe, and leave it only after their last
write.  Where no acknowledgement is on offer, every run is of that kind. -/
theorem handover_orderly (p : Parties) {acts : List Talk.Act} {s : Talk} :
    (Lts.Run (Lts.Restrict (Lts.ofPartial Talk.step) AckFirst)
        (Talk.start p.path p.sta p.id) acts s → Orderly s.log) ∧
    (p.path.supportsIntroductionAck = false →
      Lts.Run (Lts.ofPartial Talk.step) (Talk.start p.path p.sta p.id) acts s →
        Orderly s.log) := by
  constructor
  · intro run
    have inv := run.invariant (InPhase p) (InPhase.start p) (by
      intro s a s' inv hstep
      exact inv.step hstep.2 hstep.1)
    exact inv.orderly
  · intro hno run
    have inv := run.invariant (InPhase p) (InPhase.start p) (by
      intro s a s' inv hstep
      exact inv.step (inv.ackFirst hno a) hstep)
    exact inv.orderly

/-- A hotspot on offer, with an acknowledgement. -/
def hotspot : Parties where
  path := { medium := .wifiHotspot, wifi := none, lan := some ⟨[192, 168, 49, 1], 8080⟩,
            supportsIntroductionAck := true, supportsDisablingEncryption := false }
  sta := 2437
  id := "ABCD".toList
  fits := by
    refine ⟨?_, ?_, by decide +kernel⟩
    · intro c hc
      cases hc
    · intro l hl
      cases hl
      exact ⟨by decide, by decide⟩
  reachable := Or.inr (by simp)
  id_fits := by decide +kernel

/-- The handover as the protocol draws it. -/
def drawn : List Talk.Act :=
  [.toJoiner .old, .connected, .toHost .new, .toJoiner .new, .toHost .old, .toJoiner .old,
    .toHost .old, .toJoiner .old]

theorem hotspot_moves :
    ∃ s, Lts.Run (Lts.Restrict (Lts.ofPartial Talk.step) AckFirst)
        (Talk.start hotspot.path hotspot.sta hotspot.id) drawn s ∧
      s.host.state = .upgraded ∧ s.joiner.state = .upgraded ∧ Orderly s.log := by
  have heval : (drawn.foldlM (Lts.guarded Talk.step AckFirst)
      (Talk.start hotspot.path hotspot.sta hotspot.id)).map
        (fun s => (s.host.state, s.joiner.state)) = some (.upgraded, .upgraded) := by
    decide +kernel
  obtain ⟨s, run, hstates⟩ := Lts.run_observe _ _ heval
  obtain ⟨hhost, hjoiner⟩ := Prod.mk.inj hstates
  exact ⟨s, run.of_guarded, hhost, hjoiner, (handover_orderly hotspot).1 run.of_guarded⟩

/-- The host's last write overtakes its acknowledgement. -/
def overtaking : List Talk.Act :=
  [.toJoiner .old, .connected, .toHost .new, .toJoiner .old, .toJoiner .new]

/-- The joiner then calls the old channel safe and sends its own last write on
it. -/
theorem last_write_overtakes :
    ∃ s, Lts.Run (Lts.ofPartial Talk.step)
        (Talk.start hotspot.path hotspot.sta hotspot.id) overtaking s ∧ ¬ Orderly s.log := by
  have heval : (overtaking.foldlM Talk.step
      (Talk.start hotspot.path hotspot.sta hotspot.id)).map
        (fun s => (s.log.getLast?, saidSafe .joiner s.log.dropLast)) =
          some (some (.joiner, .send .old lastWriteToPrior), true) := by
    decide +kernel
  obtain ⟨s, run, hlog⟩ := Lts.run_observe _ _ heval
  refine ⟨s, run, fun orderly => ?_⟩
  obtain ⟨hlast, hsafe⟩ := Prod.mk.inj hlog
  have hsplit := List.dropLast_append_getLast? _ hlast
  have proper := orderly s.log.dropLast _ [] hsplit.symm
  exact absurd (proper.silent rfl) (by rw [hsafe]; decide)

end Upgrade

end Protocol
