import TarishDaemon.Lib.Run

/-!
# The transfer slot

`TransferState` is what every thread of the daemon shares about "the transfer in
flight": its id, who is waiting for an answer, which socket a cancel may shut
down, which radio hold is in force, and when it last showed activity.  Ids come
from a counter that never runs down within a boot and are therefore unbounded
integers here; `0` means idle.  Clock readings are nanoseconds since boot.

Each method is one definition on the state.  `finish` is written as the list of
its seven atomic operations, so that the interleaving model can stop between any
two of them and still run the same code.

The file ends with the frame of `finish`: what a *late* finish, one for an id
that is not current, does to the transfer that is.  Four of the six pieces are
guarded by the id and survive (`finish_late_guarded`).  The radio hold and the
activity clock are cleared for whoever owns them, and `late_finish_frames_iff`
says exactly when that is harmless.
-/

namespace Sharingd

abbrev Socket := Nat

abbrev File := Nat

/-- `n` seconds, as a difference of two clock readings. -/
def secs (n : Nat) : Nat := n * 1000000000

/-- A claimed slot with no activity for longer than this may be reclaimed. -/
def staleTransfer : Nat := secs 180

/-- Whether a last sign of life is too old.  An idle clock is not stale, and
`elapsed` of an instant in the future is zero. -/
def stampStale (stamp : Option Nat) (now : Nat) : Bool :=
  match stamp with
  | some t => decide (now - t > staleTransfer)
  | none => false

structure TransferState where
  /-- The answer to the offer on screen, until somebody waiting takes it. -/
  decision : Option (Int × Bool) := none
  current : Int := 0
  cancelled : Int := 0
  abort : Option (Int × Socket) := none
  next : Int := 0
  /-- `some (id, none)` is a decline, `none` is no reply yet. -/
  upgradeSocket : Option (Int × Option File) := none
  needsAwdl : Bool := false
  wifiDirectActive : Bool := false
  airdropPending : Int := 0
  lastActivity : Option Nat := none
  deriving DecidableEq, Repr

/-- `compare_exchange(id, 0)` on an atomic id whose result is ignored. -/
def casClear (value id : Int) : Int :=
  if value = id then 0 else value

/-- Empty a slot if it belongs to transfer `id`. -/
def dropOwn {α : Type} (slot : Option (Int × α)) (id : Int) : Option (Int × α) :=
  match slot with
  | some (who, x) => if who = id then none else some (who, x)
  | none => none

theorem casClear_of_ne {value id : Int} (h : value ≠ id) : casClear value id = value := by
  simp [casClear, h]

@[simp] theorem casClear_self (id : Int) : casClear id id = 0 := by
  simp [casClear]

/-- The seven operations of `finish`, in program order. -/
inductive FinishStage
  | drainArmed
  | releaseCurrent
  | releaseAirdropPending
  | clearUpgrade
  | releaseWifiDirect
  | clearAbort
  | clearActivity
  deriving DecidableEq, Repr

/-- One operation of `finish(id)`. -/
def FinishStage.run (id : Int) : FinishStage → TransferState → TransferState
  -- waits for the peer to have what was written; no field changes
  | .drainArmed, s => s
  | .releaseCurrent, s => { s with current := casClear s.current id }
  | .releaseAirdropPending, s => { s with airdropPending := casClear s.airdropPending id }
  | .clearUpgrade, s => { s with upgradeSocket := dropOwn s.upgradeSocket id }
  -- a plain swap: it does not ask whose hold this is
  | .releaseWifiDirect, s => { s with wifiDirectActive := false }
  | .clearAbort, s => { s with abort := dropOwn s.abort id }
  | .clearActivity, s => { s with lastActivity := none }

def finishStages : List FinishStage :=
  [.drainArmed, .releaseCurrent, .releaseAirdropPending, .clearUpgrade,
    .releaseWifiDirect, .clearAbort, .clearActivity]

namespace TransferState

variable (s : TransferState)

def finish (id : Int) : TransferState :=
  finishStages.foldl (fun s stage => stage.run id s) s

def touch (now : Nat) : TransferState :=
  { s with lastActivity := some now }

def isStale (now : Nat) : Bool :=
  stampStale s.lastActivity now

/-- The second half of `try_begin`: draw an id and claim the slot if it is
free. -/
def claim (now : Nat) (needsAwdl : Bool) : Option Int × TransferState :=
  let id := s.next + 1
  let s := { s with next := id }
  if s.current = 0 then
    let s := { s with
      current := id
      needsAwdl := needsAwdl
      airdropPending := if needsAwdl then id else s.airdropPending }
    (some id, s.touch now)
  else
    (none, s)

/-- `try_begin`, run without interruption.  The clock is read twice, for the
staleness check and for the claim's own stamp. -/
def tryBegin (checked stamped : Nat) (needsAwdl : Bool) : Option Int × TransferState :=
  if s.current ≠ 0 then
    if s.isStale checked then
      (s.finish s.current).claim stamped needsAwdl
    else
      (none, s)
  else
    s.claim stamped needsAwdl

def airdropBusy : Bool :=
  decide (s.airdropPending ≠ 0)

/-- `arm_wifi_direct`, as the state stands when its wait for AirDrop is over. -/
def armWifiDirect : Bool × TransferState :=
  if s.wifiDirectActive then (true, s)
  else if s.airdropBusy then (false, s)
  else (true, { s with wifiDirectActive := true })

/-- `arm_abort(id, Some(sock))` with the outcome of `try_clone`, or
`arm_abort(id, None)`. -/
def armAbort (id : Int) : Option (Option Socket) → TransferState
  | some clone => { s with abort := clone.map fun sock => (id, sock) }
  | none => { s with abort := dropOwn s.abort id }

def cancel (id : Int) : TransferState :=
  { s with cancelled := id }

/-- What the thread `cancel` spawned does once its grace period is over: a
transfer that still runs loses its socket. -/
def cancelGrace (id : Int) : TransferState :=
  if s.current ≠ id then s else { s with abort := dropOwn s.abort id }

def isCancelled (id : Int) : Bool :=
  decide (id ≠ 0 ∧ s.cancelled = id)

def provideUpgrade (id : Int) (sock : Option File) : TransferState :=
  { s with upgradeSocket := some (id, sock) }

/-- One look of `await_upgrade` at the slot: only an answer addressed to this
transfer is taken. -/
def awaitUpgrade (id : Int) : Option (Option File) × TransferState :=
  match s.upgradeSocket with
  | some (who, sock) =>
      if who = id then (some sock, { s with upgradeSocket := none }) else (none, s)
  | none => (none, s)

def answer (id : Int) (accept : Bool) : TransferState :=
  { s with decision := some (id, accept) }

/-- One look of `await_answer` at the slot.  Whatever is there is taken; only an
answer to this offer is an answer. -/
def awaitAnswer (id : Int) : Option Bool × TransferState :=
  match s.decision with
  | some (answered, accept) =>
      (if answered = id then some accept else none, { s with decision := none })
  | none => (none, s)

/-- The socket a cancel of `id` would shut down. -/
def abortOf (id : Int) : Option Socket :=
  match s.abort with
  | some (who, sock) => if who = id then some sock else none
  | none => none

/-- All of `finish` at once. -/
theorem finish_eq (id : Int) :
    s.finish id =
      { s with
        current := casClear s.current id
        airdropPending := casClear s.airdropPending id
        upgradeSocket := dropOwn s.upgradeSocket id
        wifiDirectActive := false
        abort := dropOwn s.abort id
        lastActivity := none } :=
  rfl

/-- A claim of the free slot succeeds. -/
theorem claim_of_free (hfree : s.current = 0) (now : Nat) (needsAwdl : Bool) :
    ∃ s', s.claim now needsAwdl = (some (s.next + 1), s') ∧
      s'.current = s.next + 1 ∧ s'.decision = s.decision := by
  refine ⟨(s.claim now needsAwdl).2, ?_, ?_, ?_⟩ <;> simp [claim, hfree, touch]

/-- What `try_begin` can answer when it is not interrupted: busy, with nothing
changed, or a fresh id that is now current. -/
theorem tryBegin_cases (checked stamped : Nat) (needsAwdl : Bool) :
    (s.current ≠ 0 ∧ s.tryBegin checked stamped needsAwdl = (none, s)) ∨
      ∃ s', s.tryBegin checked stamped needsAwdl = (some (s.next + 1), s') ∧
        s'.current = s.next + 1 ∧ s'.decision = s.decision := by
  by_cases hfree : s.current = 0
  · right
    simpa [tryBegin, hfree] using s.claim_of_free hfree stamped needsAwdl
  · by_cases hstale : s.isStale checked = true
    · right
      have hfree' : (s.finish s.current).current = 0 := casClear_self s.current
      have hclaim := (s.finish s.current).claim_of_free hfree' stamped needsAwdl
      simp only [tryBegin, if_pos hfree, if_pos hstale, ne_eq]
      exact hclaim
    · left
      exact ⟨hfree, by simp [tryBegin, hfree, hstale]⟩

end TransferState

/-! ## Runs of whole calls -/

/-- A call some thread of the daemon makes on the shared state. -/
inductive Call
  | tryBegin (checked stamped : Nat) (needsAwdl : Bool)
  | finish (id : Int)
  | touch (now : Nat)
  | armWifiDirect
  | armAbort (id : Int) (sock : Option (Option Socket))
  | cancel (id : Int)
  | cancelGrace (id : Int)
  | provideUpgrade (id : Int) (sock : Option File)
  | awaitUpgrade (id : Int)
  | answer (id : Int) (accept : Bool)
  | awaitAnswer (id : Int)
  deriving DecidableEq, Repr

def TransferState.call (s : TransferState) : Call → TransferState
  | .tryBegin checked stamped needsAwdl => (s.tryBegin checked stamped needsAwdl).2
  | .finish id => s.finish id
  | .touch now => s.touch now
  | .armWifiDirect => s.armWifiDirect.2
  | .armAbort id sock => s.armAbort id sock
  | .cancel id => s.cancel id
  | .cancelGrace id => s.cancelGrace id
  | .provideUpgrade id sock => s.provideUpgrade id sock
  | .awaitUpgrade id => (s.awaitUpgrade id).2
  | .answer id accept => s.answer id accept
  | .awaitAnswer id => (s.awaitAnswer id).2

/-- A state that some sequence of calls leads to from the daemon's first. -/
def Reachable (s : TransferState) : Prop :=
  ∃ calls, Lts.Run (Lts.ofFun TransferState.call) {} calls s

/-- AirDrop's claim on the radio is the current transfer's or nobody's. -/
def PendingOwned (s : TransferState) : Prop :=
  s.airdropPending = 0 ∨ s.airdropPending = s.current

theorem PendingOwned.finish {s : TransferState} (h : PendingOwned s) (id : Int) :
    PendingOwned (s.finish id) := by
  rw [TransferState.finish_eq]
  simp only [PendingOwned, casClear] at h ⊢
  grind

theorem PendingOwned.claim {s : TransferState} (h : PendingOwned s) (now : Nat)
    (needsAwdl : Bool) : PendingOwned (s.claim now needsAwdl).2 := by
  simp only [PendingOwned] at h
  by_cases hfree : s.current = 0
  · have hpending : s.airdropPending = 0 := by
      rcases h with h | h
      · exact h
      · rw [h, hfree]
    cases needsAwdl <;>
      simp [TransferState.claim, TransferState.touch, PendingOwned, hfree, hpending]
  · simpa [TransferState.claim, PendingOwned, hfree] using h

theorem PendingOwned.tryBegin {s : TransferState} (h : PendingOwned s)
    (checked stamped : Nat) (needsAwdl : Bool) :
    PendingOwned (s.tryBegin checked stamped needsAwdl).2 := by
  unfold TransferState.tryBegin
  split
  · split
    · exact (h.finish _).claim _ _
    · exact h
  · exact h.claim _ _

/-- Only `try_begin` and `finish` write the two ids. -/
theorem PendingOwned.call {s : TransferState} (h : PendingOwned s) (c : Call) :
    PendingOwned (s.call c) := by
  cases c with
  | tryBegin checked stamped needsAwdl => exact h.tryBegin _ _ _
  | finish id => exact h.finish id
  | armWifiDirect =>
      simp only [TransferState.call, TransferState.armWifiDirect]
      split
      · exact h
      · split <;> exact h
  | armAbort id sock => cases sock <;> exact h
  | cancelGrace id =>
      simp only [TransferState.call, TransferState.cancelGrace]
      split <;> exact h
  | awaitUpgrade id =>
      simp only [TransferState.call, TransferState.awaitUpgrade]
      split
      · split <;> exact h
      · exact h
  | awaitAnswer id =>
      simp only [TransferState.call, TransferState.awaitAnswer]
      split <;> exact h
  | touch now => exact h
  | cancel id => exact h
  | provideUpgrade id sock => exact h
  | answer id accept => exact h

theorem Reachable.pendingOwned {s : TransferState} (h : Reachable s) : PendingOwned s := by
  obtain ⟨calls, run⟩ := h
  refine run.invariant PendingOwned (.inl rfl) ?_
  rintro s c s' hs rfl
  exact hs.call c

/-! ## The frame of a late finish -/

/-- The transfer that is current in `before` keeps everything it owns. -/
structure Framed (before after : TransferState) : Prop where
  current : after.current = before.current
  airdropPending : after.airdropPending = before.airdropPending
  needsAwdl : after.needsAwdl = before.needsAwdl
  wifiDirectActive : after.wifiDirectActive = before.wifiDirectActive
  lastActivity : after.lastActivity = before.lastActivity
  abortSlot : after.abortOf before.current = before.abortOf before.current

theorem abortOf_dropOwn {s : TransferState} {id other : Int} (h : id ≠ other) :
    ({ s with abort := dropOwn s.abort id } : TransferState).abortOf other =
      s.abortOf other := by
  unfold TransferState.abortOf dropOwn
  grind

/-- The pieces of the state that `finish` guards by the id are untouched by a
finish for another transfer. -/
theorem finish_late_guarded (s : TransferState) {id : Int} (late : id ≠ s.current) :
    (s.finish id).current = s.current ∧
      (s.finish id).needsAwdl = s.needsAwdl ∧
      (s.finish id).abortOf s.current = s.abortOf s.current :=
  ⟨casClear_of_ne late.symm, rfl, abortOf_dropOwn (s := s) late⟩

/-- Clearing an atomic id changes nothing unless it holds that id, and `0` is
already clear. -/
theorem casClear_eq_self_iff {value id : Int} :
    casClear value id = value ↔ (value = id → id = 0) := by
  unfold casClear
  grind

/-- **What a late finish frames.**  A finish for an id that is not current leaves
the current transfer alone if and only if no Wi-Fi Direct hold is in force, the
activity clock is clear, and AirDrop's claim on the radio is not recorded under
that id.  The first two are cleared without asking whose they are. -/
theorem late_finish_frames_iff (s : TransferState) {id : Int} (late : id ≠ s.current) :
    Framed s (s.finish id) ↔
      s.wifiDirectActive = false ∧ s.lastActivity = none ∧
        (s.airdropPending = id → id = 0) := by
  obtain ⟨current, awdl, abort⟩ := finish_late_guarded s late
  constructor
  · intro framed
    exact ⟨framed.wifiDirectActive.symm, framed.lastActivity.symm,
      casClear_eq_self_iff.mp framed.airdropPending⟩
  · rintro ⟨wifi, activity, pending⟩
    exact ⟨current, casClear_eq_self_iff.mpr pending, awdl, wifi.symm, activity.symm,
      abort⟩

/-- Between whole calls the last condition always holds: a claim on the radio
that is not the current transfer's has been given up. -/
theorem Reachable.pending_not_late {s : TransferState} (reach : Reachable s) {id : Int}
    (late : id ≠ s.current) : s.airdropPending = id → id = 0 := by
  intro h
  rcases reach.pendingOwned with free | owned
  · exact h ▸ free
  · exact absurd (h ▸ owned) late

/-- Transfer 1 ends, a Quick Share transfer begins and takes the radio. -/
def afterHandover : List Call :=
  [.tryBegin 0 0 true, .finish 1, .tryBegin 5 5 false, .armWifiDirect]

/-- With transfer 2 running and its clock already cleared by one late finish of
transfer 1, another late finish takes nothing more. -/
theorem third_finish_frames :
    let s := [Call.tryBegin 0 0 true, .finish 1, .tryBegin 5 5 false, .finish 1].foldl
      TransferState.call {}
    s.current = 2 ∧ Framed s (s.finish 1) :=
  ⟨by decide, (late_finish_frames_iff _ (by decide)).mpr (by decide)⟩

/-- The second finish of transfer 1, the one its guard makes on drop, releases
the radio hold and clears the activity clock of transfer 2. -/
theorem second_finish_breaks_frame :
    ∃ s, Reachable s ∧ s.current = 2 ∧ ¬ Framed s (s.finish 1) := by
  refine ⟨afterHandover.foldl TransferState.call {}, ⟨_, Lts.run_foldl _ _ _⟩,
    by decide, ?_⟩
  intro framed
  exact absurd framed.wifiDirectActive (by decide)

end Sharingd
