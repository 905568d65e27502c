import Mathlib.Logic.Function.Basic
import TarishDaemon.Lib.Run
import TarishDaemon.Sharingd.Transfers

/-!
# Who may be seen, and for how long

`discoverable` is the consent model of the receiving side: whoever may see the device
may offer it a file.  Two calls write the flag.  `setDiscoverable` looks at the stored
policy first and writes last; in between it draws a generation and starts the timer that
is to switch the flag off again.  `setPolicy` takes the flag down if the new policy does
not allow receiving, and then stores the policy.

A step of `Visibility` is one operation of one call or timer on what they share, so a run
is an interleaving of calls on any number of threads.  A timer is told by the generation
it was started for.  `latest` records what the call with the highest generation asked for;
no branch reads it.
-/

namespace Sharingd

def modeOff : Int := 0

def modeReceive : Int := 1

def modeSend : Int := 2

def modeBoth : Int := 3

def allowsReceive (mode : Int) : Bool :=
  decide (mode = modeReceive) || decide (mode = modeBoth)

/-- Where a call stands: the operation named is the next one. -/
inductive BinderCall
  | idle
  | checkPolicy (durationSeconds : Int)
  | supersede (on : Bool) (durationSeconds : Int)
  | startTimer (gen : Nat) (durationSeconds : Int)
  | storeFlag (gen : Nat) (on : Bool)
  | readFlag (mode : Int)
  | hide (mode : Int)
  | storePolicy (mode : Int)
  deriving DecidableEq, Repr

/-- The generation a call of `setDiscoverable` has drawn. -/
def BinderCall.drawn : BinderCall → Option Nat
  | .startTimer gen _ | .storeFlag gen _ => some gen
  | .idle | .checkPolicy _ | .supersede _ _ | .readFlag _ | .hide _ | .storePolicy _ => none

inductive AutoOff
  | absent
  | sleeping (due : Nat)
  /-- It has found its generation current. -/
  | expiring
  | done
  deriving DecidableEq, Repr

/-- What a call asked for, and when the timer is due that it has started. -/
structure Wish where
  on : Bool
  due : Option Nat := none
  deriving DecidableEq, Repr

structure Visibility where
  /-- The AirDrop mode of the stored policy. -/
  mode : Int := modeOff
  discoverable : Bool := false
  generation : Nat := 0
  now : Nat := 0
  call : Nat → BinderCall := fun _ => .idle
  timer : Nat → AutoOff := fun _ => .absent
  latest : Option Wish := none

namespace Visibility

def setCall (w : Visibility) (t : Nat) (c : BinderCall) : Visibility :=
  { w with call := Function.update w.call t c }

def setTimer (w : Visibility) (gen : Nat) (s : AutoOff) : Visibility :=
  { w with timer := Function.update w.timer gen s }

section
variable (w : Visibility) (t gen : Nat) (c : BinderCall) (s : AutoOff)

@[grind =] theorem setCall_call (u : Nat) :
    (w.setCall t c).call u = if u = t then c else w.call u := by
  simp [setCall, Function.update_apply]

@[simp, grind =] theorem setCall_mode : (w.setCall t c).mode = w.mode := rfl
@[simp, grind =] theorem setCall_discoverable :
    (w.setCall t c).discoverable = w.discoverable := rfl
@[simp, grind =] theorem setCall_generation : (w.setCall t c).generation = w.generation := rfl
@[simp, grind =] theorem setCall_now : (w.setCall t c).now = w.now := rfl
@[simp, grind =] theorem setCall_timer : (w.setCall t c).timer = w.timer := rfl
@[simp, grind =] theorem setCall_latest : (w.setCall t c).latest = w.latest := rfl

@[grind =] theorem setTimer_timer (g : Nat) :
    (w.setTimer gen s).timer g = if g = gen then s else w.timer g := by
  simp [setTimer, Function.update_apply]

@[simp, grind =] theorem setTimer_mode : (w.setTimer gen s).mode = w.mode := rfl
@[simp, grind =] theorem setTimer_discoverable :
    (w.setTimer gen s).discoverable = w.discoverable := rfl
@[simp, grind =] theorem setTimer_generation : (w.setTimer gen s).generation = w.generation := rfl
@[simp, grind =] theorem setTimer_now : (w.setTimer gen s).now = w.now := rfl
@[simp, grind =] theorem setTimer_call : (w.setTimer gen s).call = w.call := rfl
@[simp, grind =] theorem setTimer_latest : (w.setTimer gen s).latest = w.latest := rfl

end

/-- The next operation of the call thread `t` is in. -/
def advance (w : Visibility) (t : Nat) : Option Visibility :=
  match w.call t with
  | .idle => none
  | .checkPolicy duration =>
      if allowsReceive w.mode then some (w.setCall t (.supersede true duration))
      else some (w.setCall t .idle)
  | .supersede on duration =>
      let gen := w.generation + 1
      let w := { w with generation := gen, latest := some { on := on } }
      if on && decide (0 < duration) then some (w.setCall t (.startTimer gen duration))
      else some (w.setCall t (.storeFlag gen on))
  | .startTimer gen duration =>
      let due := w.now + secs duration.toNat
      let latest :=
        if gen = w.generation then w.latest.map fun r => { r with due := some due } else w.latest
      some (({ w with latest := latest }.setTimer gen (.sleeping due)).setCall t
        (.storeFlag gen true))
  | .storeFlag _ on => some ({ w with discoverable := on }.setCall t .idle)
  | .readFlag mode =>
      if !allowsReceive mode && w.discoverable then some (w.setCall t (.hide mode))
      else some (w.setCall t (.storePolicy mode))
  | .hide mode => some ({ w with discoverable := false }.setCall t (.storePolicy mode))
  | .storePolicy mode => some ({ w with mode := mode }.setCall t .idle)

/-- The next operation of a timer; `none` while it sleeps. -/
def wake (w : Visibility) (gen : Nat) : Option Visibility :=
  match w.timer gen with
  | .absent | .done => none
  | .sleeping due =>
      if w.now < due then none
      else if w.generation = gen then some (w.setTimer gen .expiring)
      else some (w.setTimer gen .done)
  | .expiring => some ({ w with discoverable := false }.setTimer gen .done)

inductive Move
  | setDiscoverable (t : Nat) (on : Bool) (durationSeconds : Int)
  | setPolicy (t : Nat) (mode : Int)
  | advance (t : Nat)
  | wake (gen : Nat)
  | tick (ns : Nat)
  deriving DecidableEq, Repr

def step (w : Visibility) : Move → Option Visibility
  | .setDiscoverable t on duration =>
      if w.call t = .idle then
        -- switching it off is always allowed
        some (w.setCall t (if on then .checkPolicy duration else .supersede false duration))
      else none
  | .setPolicy t mode =>
      if w.call t = .idle then some (w.setCall t (.readFlag mode)) else none
  | .advance t => w.advance t
  | .wake gen => w.wake gen
  | .tick ns => some { w with now := w.now + ns }

/-- No call is in progress. -/
def Quiet (w : Visibility) : Prop :=
  ∀ t, w.call t = .idle

/-! ## The policy -/

/-- The flag goes up while the stored policy allows it, and no call of `setPolicy` that
forbids it has looked at the flag already and has yet to store its policy. -/
def ShowsAllowed (w : Visibility) : Move → Prop
  | .advance t =>
      match w.call t with
      | .storeFlag _ true =>
          allowsReceive w.mode = true ∧
            ∀ u mode, w.call u = .storePolicy mode → allowsReceive mode = true
      | _ => True
  | _ => True

/-- The device is seen only while the policy allows it and will go on to, or somebody is
about to take the flag down. -/
def Permitted (w : Visibility) : Prop :=
  w.discoverable = true →
    (∃ t mode, w.call t = .hide mode) ∨
      (allowsReceive w.mode = true ∧
        ∀ t mode, w.call t = .storePolicy mode → allowsReceive mode = true)

variable {w w' : Visibility}

/-- A call moves on that neither takes the flag down nor comes to store a forbidding
policy. -/
theorem Permitted.setCall (h : Permitted w) {t : Nat} {c : BinderCall}
    (here : ∀ mode, w.call t ≠ .hide mode)
    (next : ∀ mode, c = .storePolicy mode → allowsReceive mode = true) :
    Permitted (w.setCall t c) := by
  intro hvisible
  rcases h hvisible with ⟨u, mode, hu⟩ | ⟨hmode, hall⟩
  · refine .inl ⟨u, mode, ?_⟩
    have hne : u ≠ t := by
      rintro rfl
      exact here mode hu
    simpa [Visibility.setCall, Function.update_of_ne hne] using hu
  · refine .inr ⟨hmode, fun u mode hu => ?_⟩
    by_cases hut : u = t
    · subst hut
      exact next mode (by simpa [Visibility.setCall] using hu)
    · exact hall u mode (by simpa [Visibility.setCall, Function.update_of_ne hut] using hu)

/-- While the flag is down there is nothing to show. -/
theorem permitted_of_hidden (h : w.discoverable = false) : Permitted w := by
  intro hvisible
  rw [h] at hvisible
  cases hvisible

theorem Permitted.advance (h : Permitted w) {t : Nat} (hok : ShowsAllowed w (.advance t))
    (hstep : w.advance t = some w') : Permitted w' := by
  unfold Visibility.advance at hstep
  unfold ShowsAllowed at hok
  cases hcall : w.call t with
  | idle => simp [hcall] at hstep
  | checkPolicy duration =>
      simp only [hcall] at hstep
      split at hstep <;> cases hstep
      · exact h.setCall (by simp [hcall]) (by simp)
      · exact h.setCall (by simp [hcall]) (by simp)
  | supersede on duration =>
      have hsame : Permitted
          { w with generation := w.generation + 1, latest := some { on := on } } := h
      simp only [hcall] at hstep
      split at hstep <;> cases hstep
      · exact hsame.setCall (by simp [hcall]) (by simp)
      · exact hsame.setCall (by simp [hcall]) (by simp)
  | startTimer gen duration =>
      simp only [hcall] at hstep
      cases hstep
      refine Permitted.setCall ?_ (by simp [Visibility.setTimer, hcall]) (by simp)
      exact h
  | storeFlag gen on =>
      simp only [hcall] at hstep hok
      cases hstep
      cases on with
      | false => exact permitted_of_hidden rfl
      | true =>
          refine Permitted.setCall ?_ (by simp [hcall]) (by simp)
          exact fun _ => .inr hok
  | readFlag mode =>
      simp only [hcall] at hstep
      split at hstep
      next =>
        cases hstep
        exact h.setCall (by simp [hcall]) (by simp)
      next hpass =>
        cases hstep
        cases hvisible : w.discoverable with
        | false => exact permitted_of_hidden hvisible
        | true =>
            refine h.setCall (by simp [hcall]) ?_
            rintro _ ⟨⟩
            simpa [hvisible] using hpass
  | hide mode =>
      simp only [hcall] at hstep
      cases hstep
      exact permitted_of_hidden rfl
  | storePolicy mode =>
      simp only [hcall] at hstep
      cases hstep
      intro hvisible
      rcases h hvisible with ⟨u, other, hu⟩ | ⟨-, hall⟩
      · refine .inl ⟨u, other, ?_⟩
        have hne : u ≠ t := by
          rintro rfl
          rw [hcall] at hu
          cases hu
        simpa [Visibility.setCall, Function.update_of_ne hne] using hu
      · refine .inr ⟨hall t mode hcall, fun u other hu => ?_⟩
        by_cases hut : u = t
        · subst hut
          simp [Visibility.setCall] at hu
        · exact hall u other (by simpa [Visibility.setCall, Function.update_of_ne hut] using hu)

theorem Permitted.step (h : Permitted w) {move : Move} (hok : ShowsAllowed w move)
    (hstep : w.step move = some w') : Permitted w' := by
  cases move with
  | setDiscoverable t on duration =>
      simp only [Visibility.step] at hstep
      split at hstep
      next hidle =>
        cases hstep
        refine h.setCall (by simp [hidle]) ?_
        cases on <;> simp
      next => cases hstep
  | setPolicy t mode =>
      simp only [Visibility.step] at hstep
      split at hstep
      next hidle =>
        cases hstep
        exact h.setCall (by simp [hidle]) (by simp)
      next => cases hstep
  | advance t => exact h.advance hok hstep
  | wake gen =>
      simp only [Visibility.step, Visibility.wake] at hstep
      split at hstep
      · cases hstep
      · cases hstep
      · split at hstep
        · cases hstep
        · split at hstep <;> cases hstep <;> exact h
      · cases hstep
        exact permitted_of_hidden rfl
  | tick ns =>
      cases hstep
      exact h

/-- The thread a move is made on. -/
def Move.thread : Move → Option Nat
  | .setDiscoverable t _ _ | .setPolicy t _ | .advance t => some t
  | .wake _ | .tick _ => none

theorem call_of_step {move : Move} (hstep : w.step move = some w') {t : Nat}
    (h : move.thread ≠ some t) : w'.call t = w.call t := by
  cases move with
  | tick ns =>
      cases hstep
      rfl
  | wake gen =>
      simp only [Visibility.step, Visibility.wake] at hstep
      split at hstep
      · cases hstep
      · cases hstep
      · split at hstep
        · cases hstep
        · split at hstep <;> cases hstep <;> rfl
      · cases hstep
        rfl
  | setDiscoverable u on duration =>
      have hne : t ≠ u := fun heq => h (by rw [heq]; rfl)
      simp only [Visibility.step] at hstep
      split at hstep <;> cases hstep
      simp [setCall, Function.update_of_ne hne]
  | setPolicy u mode =>
      have hne : t ≠ u := fun heq => h (by rw [heq]; rfl)
      simp only [Visibility.step] at hstep
      split at hstep <;> cases hstep
      simp [setCall, Function.update_of_ne hne]
  | advance u =>
      have hne : t ≠ u := fun heq => h (by rw [heq]; rfl)
      simp only [Visibility.step, Visibility.advance] at hstep
      split at hstep
      · cases hstep
      all_goals
        first
        | cases hstep
          simp [setCall, setTimer, Function.update_of_ne hne]
        | split at hstep <;> cases hstep <;> simp [setCall, Function.update_of_ne hne]

open Lts

/-- A thread on which no call was made is in none. -/
theorem idle_of_run {acts : List Move} {w₀ : Visibility}
    (run : Run (ofPartial step) w₀ acts w) {t : Nat} (h₀ : w₀.call t = .idle)
    (h : ∀ move ∈ acts, move.thread ≠ some t) : w.call t = .idle := by
  induction run with
  | nil => exact h₀
  | snoc _ last ih =>
      rw [call_of_step last (h _ (by simp))]
      exact ih fun move hmove => h move (List.mem_append_left _ hmove)

/-- Every call has returned once those have that were made. -/
theorem quiet_of_run {acts : List Move} {w₀ : Visibility}
    (run : Run (ofPartial step) w₀ acts w) (h₀ : w₀.Quiet)
    (h : ∀ move ∈ acts, ∀ t, move.thread = some t → w.call t = .idle) : w.Quiet := by
  intro t
  by_cases hmade : ∃ move ∈ acts, move.thread = some t
  · obtain ⟨move, hmove, ht⟩ := hmade
    exact h move hmove t ht
  · exact idle_of_run run (h₀ t) fun move hmove ht => hmade ⟨move, hmove, ht⟩

/-- **Visible only where the policy allows receiving.** -/
theorem visible_allowed {mode : Int} {acts : List Move}
    (run : Run (Restrict (ofPartial step) ShowsAllowed) { mode := mode } acts w) (quiet : w.Quiet)
    (visible : w.discoverable = true) : allowsReceive w.mode = true := by
  have hpermitted : Permitted w :=
    run.invariant Permitted (permitted_of_hidden rfl) fun _ _ _ h hstep => h.step hstep.2 hstep.1
  rcases hpermitted visible with ⟨t, mode, ht⟩ | ⟨hmode, -⟩
  · rw [quiet t] at ht
    cases ht
  · exact hmode

/-- The policy comes to allow receiving, and the device is shown. -/
def shownAfterPolicy : List Move :=
  [.setPolicy 0 modeBoth, .advance 0, .advance 0, .setDiscoverable 0 true 0, .advance 0, .advance 0,
    .advance 0]

theorem shownAfterPolicy_allowed :
    ∃ w : Visibility, w.discoverable = true ∧ allowsReceive w.mode = true := by
  have hmeets : Meets step ShowsAllowed {} shownAfterPolicy := by
    refine ⟨trivial, trivial, trivial, trivial, trivial, trivial, ⟨rfl, ?_⟩, trivial⟩
    intro u mode hu
    by_cases hzero : u = 0
    · subst hzero
      cases hu
    · simp [setCall, Function.update_of_ne hzero] at hu
  have run : Run (Restrict (ofPartial step) ShowsAllowed) {} shownAfterPolicy _ :=
    run_meets step rfl hmeets
  refine ⟨_, rfl, visible_allowed run ?_ rfl⟩
  apply quiet_of_run run.of_restrict fun _ => rfl
  simp [shownAfterPolicy, Move.thread]
  rfl

/-- A call to show the device has looked at the policy when the policy is withdrawn. -/
def shownTooLate : List Move :=
  [.setPolicy 0 modeBoth, .advance 0, .advance 0, .setDiscoverable 0 true 0, .advance 0,
    .setPolicy 1 modeOff, .advance 1, .advance 1, .advance 0, .advance 0]

theorem visible_not_allowed :
    ∃ w, Run (ofPartial step) {} shownTooLate w ∧ w.Quiet ∧ w.discoverable = true ∧
      allowsReceive w.mode = false := by
  have run : Run (ofPartial step) {} shownTooLate _ := run_foldlM step rfl
  refine ⟨_, run, ?_, rfl, rfl⟩
  apply quiet_of_run run fun _ => rfl
  simp [shownTooLate, Move.thread]
  exact ⟨rfl, rfl, rfl⟩

end Visibility

end Sharingd
