import TarishDaemon.Lib.History
import TarishDaemon.Protocol.Upgrade

/-!
# The handover machines

A host stands up a faster medium and offers it; a joiner takes the offer and moves
across.  Both decide what to say and on which of the two sockets: the old one, or
the new one that the joiner opens.

Leaving the old channel is right only once the new one exists: for the host, when
the joiner has introduced itself on it; for the joiner, when its own connection
came up.  Neither machine looks at its state when it is told that the old channel
may close, and `keepsChannel_iff` says which orders of frames make that safe.
-/

namespace Protocol

open Rust

namespace Upgrade

/-- Which socket an effect belongs on. -/
inductive Channel
  | old
  | new
  deriving DecidableEq, Repr

inductive Effect
  | send (channel : Channel) (frame : Bytes)
  | join (path : UpgradePath)
  | closeOld
  | upgraded
  | abandoned (why : String)
  deriving DecidableEq, Repr

inductive State
  | idle
  | offered
  | joining
  | introduced
  | draining
  | upgraded
  | abandoned
  deriving DecidableEq, Repr

def State.isOver : State → Bool
  | .upgraded | .abandoned => true
  | .idle | .offered | .joining | .introduced | .draining => false

inductive Event
  | frame (channel : Channel) (f : Frame)
  | connected
  | joinFailed
  deriving DecidableEq, Repr

/-! ## The host -/

structure Host where
  path : UpgradePath
  staFrequency : Int
  state : State := .idle
  deriving DecidableEq, Repr

namespace Host

def start (h : Host) : Host × List Effect :=
  ({ h with state := .offered }, [.send .old (pathAvailable h.path)])

def abandon (h : Host) (why : String) : Host × List Effect :=
  ({ h with state := .abandoned }, [.abandoned why])

def on (h : Host) (event : Event) : Host × List Effect :=
  if h.state.isOver then (h, [])
  else
    match event with
    | .frame .new (.clientIntroduction _) =>
        ({ h with state := .draining },
          (if h.path.supportsIntroductionAck then [.send .new clientIntroductionAck] else []) ++
            [.send .old lastWriteToPrior])
    -- ours has already gone out
    | .frame .old .lastWriteToPrior => (h, [])
    | .frame .old (.safeToClosePrior _) =>
        ({ h with state := .upgraded },
          [.send .old (safeToClosePrior h.staFrequency), .closeOld, .upgraded])
    | .frame _ .failure => h.abandon "the peer reported an upgrade failure"
    | .joinFailed => h.abandon "could not join"
    | _ => (h, [])

end Host

/-! ## The joiner -/

structure Joiner where
  endpointId : Text
  state : State := .idle
  path : Option UpgradePath := none
  deriving DecidableEq, Repr

namespace Joiner

def abandon (j : Joiner) (why : String) : Joiner × List Effect :=
  ({ j with state := .abandoned }, [.abandoned why])

def on (j : Joiner) (event : Event) : Joiner × List Effect :=
  if j.state.isOver then (j, [])
  else
    match event with
    | .frame .old (.pathAvailable path) =>
        if path.wifi = none ∧ path.lan = none then
          j.abandon "the offer carried no way to reach the host"
        else ({ j with state := .joining, path := some path }, [.join path])
    | .connected =>
        if j.state ≠ .joining then j.abandon "connected without an offer"
        else if (j.path.map UpgradePath.supportsIntroductionAck).getD false then
          ({ j with state := .introduced }, [.send .new (clientIntroduction j.endpointId)])
        else
          ({ j with state := .draining },
            [.send .new (clientIntroduction j.endpointId), .send .old lastWriteToPrior])
    | .frame .new .clientIntroductionAck =>
        if j.state ≠ .introduced then (j, [])
        else ({ j with state := .draining }, [.send .old lastWriteToPrior])
    -- whatever the state: the host waits for this
    | .frame .old .lastWriteToPrior => (j, [.send .old (safeToClosePrior staFrequencyNotSet)])
    | .frame .old (.safeToClosePrior _) =>
        ({ j with state := .upgraded }, [.closeOld, .upgraded])
    | .joinFailed =>
        ({ j with state := .abandoned },
          [.send .old failure, .abandoned "could not join the offered network"])
    | .frame _ .failure => j.abandon "the peer reported an upgrade failure"
    | _ => (j, [])

end Joiner

/-! ## Leaving the old channel -/

/-- The old channel is given up. -/
def Leaves (effects : List Effect) : Prop :=
  .closeOld ∈ effects ∨ .upgraded ∈ effects

/-- The machines give up the old channel when they are told that it may close,
and then only, in whatever state. -/
theorem Host.leaves_iff (h : Host) (e : Event) :
    Leaves (h.on e).2 ↔
      h.state.isOver = false ∧ ∃ f, e = .frame .old (.safeToClosePrior f) := by
  unfold Host.on Leaves
  split
  · next hover => simp [hover]
  · next hover =>
      split
      · simp
      · simp
      · simpa using hover
      · simp [Host.abandon]
      · simp [Host.abandon]
      · next hsafe _ _ =>
          simp only [List.not_mem_nil, or_self, false_iff]
          rintro ⟨-, f, hf⟩
          exact hsafe f hf

theorem Joiner.leaves_iff (j : Joiner) (e : Event) :
    Leaves (j.on e).2 ↔
      j.state.isOver = false ∧ ∃ f, e = .frame .old (.safeToClosePrior f) := by
  unfold Joiner.on Leaves
  split
  · next hover => simp [hover]
  · next hover =>
      split
      · split <;> simp [Joiner.abandon]
      · split
        · simp [Joiner.abandon]
        · split <;> simp
      · split <;> simp
      · simp
      · simpa using hover
      · simp
      · simp [Joiner.abandon]
      · next hsafe _ _ =>
          simp only [List.not_mem_nil, or_self, false_iff]
          rintro ⟨-, f, hf⟩
          exact hsafe f hf

theorem Host.on_of_isOver {h : Host} (hover : h.state.isOver = true) (e : Event) :
    h.on e = (h, []) := by
  simp [Host.on, hover]

theorem Joiner.on_of_isOver {j : Joiner} (hover : j.state.isOver = true) (e : Event) :
    j.on e = (j, []) := by
  simp [Joiner.on, hover]

/-- A host that has been started and then fed the events. -/
def Host.after (h : Host) (events : List Event) : Host :=
  events.foldl (fun h e => (h.on e).1) h.start.1

def Joiner.after (j : Joiner) (events : List Event) : Joiner :=
  events.foldl (fun j e => (j.on e).1) j

/-- The joiner has introduced itself on the new channel. -/
def Introduced (events : List Event) : Prop :=
  ∃ id, .frame .new (.clientIntroduction id) ∈ events

/-- The connection came up while the joiner was joining an offered path. -/
def Joiner.ConnectedWhileJoining (j : Joiner) (events : List Event) : Prop :=
  ∃ early late, events = early ++ .connected :: late ∧ (j.after early).state = .joining

/-- The host gives up the old channel only if the new one exists. -/
def Host.KeepsChannel (h : Host) (events : List Event) : Prop :=
  History.Justified (fun before e => Leaves ((h.after before).on e).2 → Introduced before) events

def Joiner.KeepsChannel (j : Joiner) (events : List Event) : Prop :=
  History.Justified
    (fun before e => Leaves ((j.after before).on e).2 → j.ConnectedWhileJoining before) events

/-- As long as the handover is open, the peer does not call the old channel safe
to close before `ready` holds of the events so far. -/
def PeerWaits (isOpen : List Event → Prop) (ready : List Event → Prop)
    (events : List Event) : Prop :=
  History.Justified
    (fun before e => ∀ f, e = .frame .old (.safeToClosePrior f) → isOpen before → ready before)
    events

/-- A joiner that is connected without an offer abandons the upgrade; so one that
goes on was joining. -/
theorem Joiner.joining_of_connected {j : Joiner} {early late : List Event}
    (hopen : (j.after (early ++ .connected :: late)).state.isOver = false) :
    (j.after early).state = .joining := by
  have hstays : ∀ (k : Joiner) (events : List Event), k.state.isOver = true →
      (events.foldl (fun j e => (Joiner.on j e).1) k).state.isOver = true := by
    intro k events
    induction events generalizing k with
    | nil => exact fun hover => hover
    | cons e events ih =>
        intro hover
        rw [List.foldl_cons]
        apply ih
        rw [Joiner.on_of_isOver hover]
        exact hover
  by_contra hstate
  have hend : ((j.after early).on .connected).1.state.isOver = true := by
    cases hover : (j.after early).state.isOver with
    | true =>
        rw [Joiner.on_of_isOver hover]
        exact hover
    | false =>
        simp only [Joiner.on, hover, Bool.false_eq_true, if_false, ne_eq, hstate,
          not_false_eq_true, if_true]
        rfl
  have hover := hstays _ late hend
  rw [Joiner.after, List.foldl_append, List.foldl_cons] at hopen
  exact absurd (hopen.symm.trans hover) (by decide)

/-- **When the only channel is never abandoned.**  Both machines take the peer's
word that the old channel may close.  That is safe for the events in which, while
the handover is open, the word does not come before the introduction on the new
channel (to a host) or before the connection is up (to a joiner), and for no
others. -/
theorem keepsChannel_iff (h : Host) (j : Joiner) (events : List Event) :
    (h.KeepsChannel events ↔
      PeerWaits (fun before => (h.after before).state.isOver = false) Introduced events) ∧
    (j.KeepsChannel events ↔
      PeerWaits (fun before => (j.after before).state.isOver = false)
        (fun before => .connected ∈ before) events) := by
  constructor
  · apply History.justified_congr
    intro before e
    rw [Host.leaves_iff]
    constructor
    · intro hkeeps f hf hopen
      exact hkeeps ⟨hopen, f, hf⟩
    · rintro hwaits ⟨hopen, f, hf⟩
      exact hwaits f hf hopen
  · apply History.justified_congr
    intro before e
    rw [Joiner.leaves_iff]
    constructor
    · intro hkeeps f hf hopen
      obtain ⟨early, late, rfl, -⟩ := hkeeps ⟨hopen, f, hf⟩
      simp
    · rintro hwaits ⟨hopen, f, hf⟩
      obtain ⟨early, late, rfl⟩ := List.append_of_mem (hwaits f hf hopen)
      exact ⟨early, late, rfl, Joiner.joining_of_connected hopen⟩

/-- A first frame of the peer is enough: a host that has only made its offer, and
a joiner that has not even had one, close the channel they are talking on. -/
theorem only_channel_abandoned :
    ¬ Host.KeepsChannel
        { path := { medium := .wifiHotspot, wifi := none, lan := some ⟨[192, 168, 49, 1], 8080⟩,
                    supportsIntroductionAck := true, supportsDisablingEncryption := false }
          staFrequency := 2437 }
        [.frame .old (.safeToClosePrior 2437)] ∧
    ¬ Joiner.KeepsChannel { endpointId := "ABCD".toList }
        [.frame .old (.safeToClosePrior 2437)] := by
  constructor
  · intro h
    obtain ⟨id, hid⟩ := h [] _ [] rfl (Or.inl (by decide))
    exact absurd hid (by simp)
  · intro h
    obtain ⟨early, late, hsplit, -⟩ := h [] _ [] rfl (Or.inl (by decide))
    exact absurd hsplit (by simp)

end Upgrade

end Protocol
