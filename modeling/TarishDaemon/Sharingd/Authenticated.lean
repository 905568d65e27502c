import TarishDaemon.Lib.Run
import TarishDaemon.Sharingd.Transfers

/-!
# The authenticated window

`setAuthenticated` opens and closes the lockdown exemption from any binder
thread.  A call first bumps `auth_generation` and then writes the exempt
property; an opening call also starts a keepalive thread and an expiry timer,
each tied to the generation it drew.  The timer withdraws the exemption only if
its generation is still the current one, "or an earlier expiry closes a window a
later authentication just opened".

`Window` is that interleaving, one operation on the shared state at a time.  A
write of the property may fail, threads start when they are started, and the
generation, a 64-bit counter, does not run down.

Bump and write are two operations, so they can be in different orders in two
calls.  In `stale_open_stays` a closing call overtakes an opening one between
the two: the property ends at `1`, and the only timer there is belongs to a
generation that is over.  `window_bounded` says what keeps that from happening:
when a `1` is written, somebody who is bound to withdraw it is on the way.
-/

namespace Sharingd

def challengeEvery : Nat := secs 5

def challengeDeadline : Nat := secs 4

def challengeStrikes : Nat := 3

def maxWindow : Nat := 600

/-- The length of a window in seconds, out of what the client asked for. -/
def windowSecs (durationSeconds : Int) : Nat :=
  min (max (max durationSeconds 0).toNat 1) maxWindow

/-- What an opening call does next. -/
inductive Opening
  | writeExempt
  | startKeepalive
  | startTimer
  deriving DecidableEq, Repr

/-- What a keepalive thread does next. -/
inductive Beat
  | resetStrikes
  | checkCurrent
  | clearAnswer
  | postChallenge
  | callClients
  /-- Sleeping to the deadline, and then looking whether it is still wanted. -/
  | awaitAnswer (due : Nat)
  | readAnswer
  | forgive
  | strike
  /-- Nobody was there to ask. -/
  | strikeUnheard
  | pause (due : Nat)
  deriving DecidableEq, Repr

/-- What `shut` does next. -/
inductive Shutting
  | retire
  | dropChallenge
  | withdraw
  deriving DecidableEq, Repr

/-- A binder call or a thread, and how far it is. -/
inductive Task
  | done
  | opening (gen duration : Nat) (next : Opening)
  | closing
  | timer (gen due : Nat)
  /-- The timer has found its generation current. -/
  | expiring
  | keepalive (gen : Nat) (next : Beat)
  | shutting (gen : Nat) (next : Shutting)
  /-- `keepUnlocked` has taken the challenge posted at `sent`, and it was the one
  it answers. -/
  | answering (sent : Nat)
  | confirming (sent : Nat)
  /-- It has looked at the clock, and the answer was in time. -/
  | satisfying
  deriving DecidableEq, Repr

structure Window where
  generation : Nat := 0
  /-- Whether the property reads `1`. -/
  exempt : Bool := false
  challenge : Option (Int × Nat) := none
  keepaliveOk : Bool := false
  strikes : Nat := 0
  /-- Registered clients. -/
  callbacks : Nat := 0
  now : Nat := 0
  tasks : List Task := []
  deriving DecidableEq, Repr

namespace Window

/-- `set_exempt(on)`, with whether the property could be written. -/
def setExempt (w : Window) (on wrote : Bool) : Window :=
  if wrote then { w with exempt := on } else w

def become (w : Window) (who : Nat) (t : Task) : Window :=
  { w with tasks := w.tasks.set who t }

def spawn (w : Window) (t : Task) : Window :=
  { w with tasks := w.tasks ++ [t] }

/-- The next operation of an opening call.  The timer is the last thing it
starts. -/
def openStep (w : Window) (who gen duration : Nat) (wrote : Bool) : Opening → Window
  | .writeExempt =>
      (w.setExempt true wrote).become who (.opening gen duration .startKeepalive)
  | .startKeepalive =>
      (w.become who (.opening gen duration .startTimer)).spawn (.keepalive gen .resetStrikes)
  | .startTimer => (w.become who .done).spawn (.timer gen (w.now + secs duration))

/-- One more strike; the third withdraws the exemption. -/
def addStrike (w : Window) (who gen pause : Nat) : Window :=
  let n := w.strikes + 1
  let w := { w with strikes := n }
  if n ≥ challengeStrikes then w.become who (.shutting gen .retire)
  else w.become who (.keepalive gen (.pause (w.now + pause)))

/-- The next operation of a keepalive thread; `none` while it sleeps. -/
def beat (w : Window) (who gen : Nat) (nonce : Int) : Beat → Option Window
  | .resetStrikes => some ({ w with strikes := 0 }.become who (.keepalive gen .checkCurrent))
  | .checkCurrent =>
      if w.generation ≠ gen then some (w.become who .done)
      else some (w.become who (.keepalive gen .clearAnswer))
  | .clearAnswer =>
      some ({ w with keepaliveOk := false }.become who (.keepalive gen .postChallenge))
  | .postChallenge =>
      some ({ w with challenge := some (nonce, w.now) }.become who (.keepalive gen .callClients))
  | .callClients =>
      if w.callbacks = 0 then some (w.become who (.keepalive gen .strikeUnheard))
      else some (w.become who (.keepalive gen (.awaitAnswer (w.now + challengeDeadline))))
  | .awaitAnswer due =>
      if w.now < due then none
      else if w.generation ≠ gen then some (w.become who .done)
      else some (w.become who (.keepalive gen .readAnswer))
  | .readAnswer =>
      if w.keepaliveOk then some (w.become who (.keepalive gen .forgive))
      else some (w.become who (.keepalive gen .strike))
  | .forgive =>
      some ({ w with strikes := 0 }.become who
        (.keepalive gen (.pause (w.now + (challengeEvery - challengeDeadline)))))
  | .strike => some (w.addStrike who gen (challengeEvery - challengeDeadline))
  | .strikeUnheard => some (w.addStrike who gen challengeEvery)
  | .pause due =>
      if w.now < due then none else some (w.become who (.keepalive gen .checkCurrent))

/-- The next operation of `shut`. -/
def shut (w : Window) (who gen : Nat) (wrote : Bool) : Shutting → Window
  | .retire =>
      -- a compare-exchange whose result is ignored
      let w := if w.generation = gen then { w with generation := gen + 1 } else w
      w.become who (.shutting gen .dropChallenge)
  | .dropChallenge => { w with challenge := none }.become who (.shutting gen .withdraw)
  | .withdraw => (w.setExempt false wrote).become who .done

/-- The next operation of task `who`, as it stands. -/
def advance (w : Window) (who : Nat) (nonce : Int) (wrote : Bool) : Task → Option Window
  | .done => none
  | .opening gen duration next => some (w.openStep who gen duration wrote next)
  | .closing => some ((w.setExempt false wrote).become who .done)
  | .timer gen due =>
      if w.now < due then none
      else if w.generation = gen then some (w.become who .expiring)
      else some (w.become who .done)
  | .expiring => some ((w.setExempt false wrote).become who .done)
  | .keepalive gen next => w.beat who gen nonce next
  | .shutting gen next => some (w.shut who gen wrote next)
  | .answering sent => some ({ w with strikes := 0 }.become who (.confirming sent))
  | .confirming sent =>
      if w.now - sent > challengeDeadline then some (w.become who .done)
      else some (w.become who .satisfying)
  | .satisfying => some ({ w with keepaliveOk := true }.become who .done)

inductive Move
  | setAuthenticated (authenticated : Bool) (durationSeconds : Int)
  /-- Task `who` performs its next operation. -/
  | run (who : Nat) (nonce : Int) (wrote : Bool)
  | keepUnlocked (nonce : Int)
  | binderDied (wrote : Bool)
  | setCallbacks (n : Nat)
  | tick (ns : Nat)
  deriving DecidableEq, Repr

def step (w : Window) : Move → Option Window
  | .setAuthenticated authenticated durationSeconds =>
      let gen := w.generation + 1
      let w := { w with generation := gen }
      if authenticated then
        some (w.spawn (.opening gen (windowSecs durationSeconds) .writeExempt))
      else some (w.spawn .closing)
  | .run who nonce wrote =>
      match w.tasks[who]? with
      | some t => w.advance who nonce wrote t
      | none => none
  | .keepUnlocked nonce =>
      let taken := w.challenge
      let w := { w with challenge := none }
      match taken with
      | some (want, sent) => if want = nonce then some (w.spawn (.answering sent)) else some w
      | none => some w
  | .binderDied wrote => some (w.setExempt false wrote)
  | .setCallbacks n => some { w with callbacks := n }
  | .tick ns => some { w with now := w.now + ns }

/-- A task that will write `0` whatever happens. -/
def withdraws : Task → Bool
  | .closing | .expiring | .shutting _ _ => true
  | .done | .opening _ _ _ | .timer _ _ | .keepalive _ _ | .answering _ | .confirming _ => false
  | .satisfying => false

/-- The expiry timer of generation `gen`. -/
def isTimer (gen : Nat) : Task → Bool
  | .timer g _ => decide (g = gen)
  | _ => false

/-- A call of `setAuthenticated` that has not returned. -/
def inCall : Task → Bool
  | .opening _ _ _ | .closing => true
  | _ => false

/-- What the window promises: while the property reads `1` and nobody is inside
`setAuthenticated`, the current generation's timer is running and due within
`maxWindow`, or a write of `0` is already on its way. -/
def Bounded (w : Window) : Prop :=
  w.exempt = true → (∀ t ∈ w.tasks, inCall t = false) →
    (∃ due, .timer w.generation due ∈ w.tasks ∧ due ≤ w.now + secs maxWindow) ∨
      ∃ t ∈ w.tasks, withdraws t = true

/-- A task that ends the window of generation `gen`: it withdraws, or it is that
generation's timer or the call that will start it. -/
def ends (gen : Nat) : Task → Bool
  | .opening g _ _ => decide (g = gen)
  | t => withdraws t || isTimer gen t

/-- What a step must find.  A `1` is written while somebody is on the way who
ends the window, and a `0` that cannot be written is not the last hope. -/
def Safe (w : Window) : Move → Prop
  | .run who _ wrote =>
      match w.tasks[who]? with
      | some (.opening _ _ .writeExempt) =>
          wrote = true → w.tasks.any (ends w.generation) = true
      | some .closing | some .expiring | some (.shutting _ .withdraw) =>
          wrote = false → w.exempt = true →
            (w.tasks.set who .done).any (ends w.generation) = true
      | _ => True
  | _ => True

/-! ## The invariant -/

/-- While the property reads `1` somebody ends the window, and no timer sleeps
for longer than a window may last. -/
structure Guarded (w : Window) : Prop where
  covered : w.exempt = true → w.tasks.any (ends w.generation) = true
  capped : ∀ g due, .timer g due ∈ w.tasks → due ≤ w.now + secs maxWindow
  asked : ∀ g duration next, .opening g duration next ∈ w.tasks → duration ≤ maxWindow

variable {w w' : Window}

theorem guarded_init : Guarded {} := by
  refine ⟨?_, ?_, ?_⟩ <;> simp

theorem windowSecs_le (d : Int) : windowSecs d ≤ maxWindow :=
  Nat.min_le_right _ _

theorem secs_le {n m : Nat} (h : n ≤ m) : secs n ≤ secs m := by
  unfold secs
  omega

/-- What is on the list after one task has moved on: the others, and it. -/
theorem any_set_of_ends {l : List Task} {who : Nat} {old new : Task} {p q : Task → Bool}
    (here : l[who]? = some old) (h : l.any p = true) (hold : p old = true → q new = true)
    (hrest : ∀ t, p t = true → q t = true ∨ q new = true) : (l.set who new).any q = true := by
  obtain ⟨hlt, hget⟩ := List.getElem?_eq_some_iff.mp here
  have hnew : q new = true → (l.set who new).any q = true := fun hq =>
    List.any_eq_true.mpr ⟨new, List.mem_set hlt new, hq⟩
  obtain ⟨t, ht, hp⟩ := List.any_eq_true.mp h
  obtain ⟨j, hj, rfl⟩ := List.mem_iff_getElem.mp ht
  by_cases hjw : j = who
  · subst hjw
    exact hnew (hold (hget ▸ hp))
  · rcases hrest _ hp with hq | hq
    · refine List.any_eq_true.mpr ⟨l[j], ?_, hq⟩
      refine List.mem_iff_getElem.mpr ⟨j, by simpa using hj, ?_⟩
      exact List.getElem_set_ne (fun h => hjw h.symm) _
    · exact hnew hq

/-- A task moves on, without a new timer or a new call. -/
theorem Guarded.become (guarded : Guarded w) {who : Nat} {old new : Task}
    (here : w.tasks[who]? = some old) (htimer : ∀ g due, new ≠ .timer g due)
    (hcall : ∀ g duration next, new = .opening g duration next → duration ≤ maxWindow)
    (hends : ends w.generation old = true → ends w.generation new = true) :
    Guarded (w.become who new) := by
  refine ⟨?_, ?_, ?_⟩
  · intro hexempt
    exact any_set_of_ends here (guarded.covered hexempt) hends fun t ht => .inl ht
  · intro g due hmem
    rcases List.mem_or_eq_of_mem_set hmem with hold | hnew
    · exact guarded.capped g due hold
    · exact absurd hnew.symm (htimer g due)
  · intro g duration next hmem
    rcases List.mem_or_eq_of_mem_set hmem with hold | hnew
    · exact guarded.asked g duration next hold
    · exact hcall g duration next hnew.symm

/-- A keepalive thread or an answer starts. -/
theorem Guarded.spawn (guarded : Guarded w) {t : Task} (htimer : ∀ g due, t ≠ .timer g due)
    (hcall : ∀ g duration next, t ≠ .opening g duration next) : Guarded (w.spawn t) := by
  refine ⟨?_, ?_, ?_⟩
  · intro hexempt
    have := guarded.covered hexempt
    simp only [Window.spawn, List.any_append, this, Bool.true_or]
  · intro g due hmem
    rcases List.mem_append.mp hmem with hold | hnew
    · exact guarded.capped g due hold
    · exact absurd (List.mem_singleton.mp hnew).symm (htimer g due)
  · intro g duration next hmem
    rcases List.mem_append.mp hmem with hold | hnew
    · exact guarded.asked g duration next hold
    · exact absurd (List.mem_singleton.mp hnew).symm (hcall g duration next)

/-- The challenge, the strikes and the clock are not part of the invariant. -/
theorem Guarded.frame (guarded : Guarded w) (hexempt : w'.exempt = w.exempt)
    (hgen : w'.generation = w.generation) (htasks : w'.tasks = w.tasks)
    (hnow : w.now ≤ w'.now) : Guarded w' := by
  refine ⟨?_, ?_, ?_⟩
  · rw [hexempt, hgen, htasks]
    exact guarded.covered
  · intro g due hmem
    have := guarded.capped g due (htasks ▸ hmem)
    omega
  · rw [htasks]
    exact guarded.asked

/-- A call draws the next generation: the old timers no longer count, and the
call does. -/
theorem Guarded.bump (guarded : Guarded w) {t : Task}
    (hends : ends (w.generation + 1) t = true) (htimer : ∀ g due, t ≠ .timer g due)
    (hcall : ∀ g duration next, t = .opening g duration next → duration ≤ maxWindow) :
    Guarded ({ w with generation := w.generation + 1 }.spawn t) := by
  refine ⟨?_, ?_, ?_⟩
  · intro _
    simp [Window.spawn, hends]
  · intro g due hmem
    rcases List.mem_append.mp hmem with hold | hnew
    · exact guarded.capped g due hold
    · exact absurd (List.mem_singleton.mp hnew).symm (htimer g due)
  · intro g duration next hmem
    rcases List.mem_append.mp hmem with hold | hnew
    · exact guarded.asked g duration next hold
    · exact hcall g duration next (List.mem_singleton.mp hnew).symm

/-- The last operation of whoever withdraws the exemption. -/
theorem Guarded.withdraw (guarded : Guarded w) {who : Nat} {wrote : Bool}
    (safe : wrote = false → w.exempt = true →
      (w.tasks.set who .done).any (ends w.generation) = true) :
    Guarded ((w.setExempt false wrote).become who .done) := by
  have kept : ∀ t ∈ w.tasks.set who .done, t ∈ w.tasks ∨ t = .done := fun t ht =>
    List.mem_or_eq_of_mem_set ht
  cases wrote with
  | false =>
      refine ⟨safe rfl, ?_, ?_⟩
      · intro g due hmem
        exact guarded.capped g due ((kept _ hmem).resolve_right (by simp))
      · intro g duration next hmem
        exact guarded.asked g duration next ((kept _ hmem).resolve_right (by simp))
  | true =>
      refine ⟨by simp [Window.setExempt, Window.become], ?_, ?_⟩
      · intro g due hmem
        exact guarded.capped g due ((kept _ hmem).resolve_right (by simp))
      · intro g duration next hmem
        exact guarded.asked g duration next ((kept _ hmem).resolve_right (by simp))

/-- An opening call writes `1`, starts its keepalive thread and then its
timer. -/
theorem Guarded.openStep (guarded : Guarded w) {who gen duration : Nat} {wrote : Bool}
    {next : Opening} (here : w.tasks[who]? = some (.opening gen duration next))
    (safe : next = .writeExempt → wrote = true →
      w.tasks.any (ends w.generation) = true) :
    Guarded (w.openStep who gen duration wrote next) := by
  have hshort : duration ≤ maxWindow :=
    guarded.asked gen duration next (List.mem_of_getElem? here)
  cases next with
  | writeExempt =>
      have written : Guarded (w.setExempt true wrote) := by
        cases wrote with
        | false => exact guarded
        | true => exact ⟨fun _ => safe rfl rfl, guarded.capped, guarded.asked⟩
      have hsame : (w.setExempt true wrote).tasks = w.tasks ∧
          (w.setExempt true wrote).generation = w.generation := by
        cases wrote <;> exact ⟨rfl, rfl⟩
      refine written.become (by rw [hsame.1]; exact here) (by simp) ?_ (by simp [ends])
      intro g d n heq
      cases heq
      exact hshort
  | startKeepalive =>
      refine (guarded.become here (by simp) ?_ (by simp [ends])).spawn (by simp) (by simp)
      intro g d n heq
      cases heq
      exact hshort
  | startTimer =>
      refine ⟨?_, ?_, ?_⟩
      · intro hexempt
        -- the call's own place on the list goes to its timer
        have hany := guarded.covered hexempt
        by_cases hmine : gen = w.generation
        · simp [Window.openStep, Window.spawn, Window.become, ends, isTimer, hmine]
        · have hrest : (w.tasks.set who .done).any (ends w.generation) = true :=
            any_set_of_ends here hany (by simp [ends, hmine]) fun t ht => .inl ht
          simp only [Window.openStep, Window.spawn, Window.become, List.any_append, hrest,
            Bool.true_or]
      · intro g due hmem
        rcases List.mem_append.mp hmem with hold | hnew
        · rcases List.mem_or_eq_of_mem_set hold with h | h
          · exact guarded.capped g due h
          · cases h
        · cases List.mem_singleton.mp hnew
          have := secs_le hshort
          simp only [Window.openStep, Window.spawn, Window.become]
          omega
      · intro g d n hmem
        rcases List.mem_append.mp hmem with hold | hnew
        · rcases List.mem_or_eq_of_mem_set hold with h | h
          · exact guarded.asked g d n h
          · cases h
        · cases List.mem_singleton.mp hnew

/-- A task nobody relies on moves on. -/
theorem Guarded.passOn (guarded : Guarded w) {who : Nat} {old new : Task}
    (here : w.tasks[who]? = some old) (hold : ends w.generation old = false)
    (htimer : ∀ g due, new ≠ .timer g due)
    (hcall : ∀ g duration next, new ≠ .opening g duration next) :
    Guarded (w.become who new) := by
  refine guarded.become here htimer ?_ ?_
  · intro g duration next h
    exact absurd h (hcall g duration next)
  · intro h
    rw [hold] at h
    cases h

theorem ends_keepalive (g gen : Nat) (next : Beat) : ends g (.keepalive gen next) = false := rfl

theorem Guarded.addStrike (guarded : Guarded w) {who gen pause : Nat} {next : Beat}
    (here : w.tasks[who]? = some (.keepalive gen next)) :
    Guarded (w.addStrike who gen pause) := by
  have counted : Guarded { w with strikes := w.strikes + 1 } :=
    guarded.frame rfl rfl rfl (Nat.le_refl _)
  unfold Window.addStrike
  dsimp only
  split
  · exact counted.passOn here (ends_keepalive _ _ _) (by simp) (by simp)
  · exact counted.passOn here (ends_keepalive _ _ _) (by simp) (by simp)

/-- The keepalive thread cannot make the window longer. -/
theorem Guarded.beat (guarded : Guarded w) {who gen : Nat} {nonce : Int} {next : Beat}
    (here : w.tasks[who]? = some (.keepalive gen next))
    (h : w.beat who gen nonce next = some w') : Guarded w' := by
  have moves : ∀ {x : Window} {t : Task}, x.exempt = w.exempt → x.generation = w.generation →
      x.tasks = w.tasks → x.now = w.now → (∀ g due, t ≠ .timer g due) →
      (∀ g duration next, t ≠ .opening g duration next) → Guarded (x.become who t) := by
    intro x t he hg ht hn htimer hcall
    have same : Guarded x := guarded.frame he hg ht (Nat.le_of_eq hn.symm)
    exact same.passOn (by rw [ht]; exact here) (ends_keepalive _ _ _) htimer hcall
  cases next with
  | resetStrikes | clearAnswer | postChallenge | forgive =>
      cases h
      exact moves rfl rfl rfl rfl (by simp) (by simp)
  | checkCurrent | callClients | readAnswer =>
      simp only [Window.beat] at h
      split at h <;> cases h <;> exact moves rfl rfl rfl rfl (by simp) (by simp)
  | awaitAnswer due =>
      simp only [Window.beat] at h
      split at h
      · cases h
      · split at h <;> cases h <;> exact moves rfl rfl rfl rfl (by simp) (by simp)
  | strike | strikeUnheard =>
      cases h
      exact guarded.addStrike here
  | pause due =>
      simp only [Window.beat] at h
      split at h
      · cases h
      · cases h
        exact moves rfl rfl rfl rfl (by simp) (by simp)

/-- `shut` retires the timers with its compare-exchange, and has then the write
of `0` before it. -/
theorem Guarded.shut (guarded : Guarded w) {who gen : Nat} {wrote : Bool} {next : Shutting}
    (here : w.tasks[who]? = some (.shutting gen next))
    (safe : next = .withdraw → wrote = false → w.exempt = true →
      (w.tasks.set who .done).any (ends w.generation) = true) :
    Guarded (w.shut who gen wrote next) := by
  cases next with
  | retire =>
      simp only [Window.shut]
      split
      next hcurrent =>
        refine ⟨?_, ?_, ?_⟩
        · intro hexempt
          exact any_set_of_ends here (guarded.covered hexempt) (fun _ => rfl) fun _ _ => .inr rfl
        · intro g due hmem
          rcases List.mem_or_eq_of_mem_set hmem with hold | hnew
          · exact guarded.capped g due hold
          · cases hnew
        · intro g duration next hmem
          rcases List.mem_or_eq_of_mem_set hmem with hold | hnew
          · exact guarded.asked g duration next hold
          · cases hnew
      next => exact guarded.become here (by simp) (by simp) fun _ => rfl
  | dropChallenge =>
      have dropped : Guarded { w with challenge := none } :=
        guarded.frame rfl rfl rfl (Nat.le_refl _)
      exact dropped.become here (by simp) (by simp) fun _ => rfl
  | withdraw => exact guarded.withdraw (safe rfl)

/-- One operation of a task. -/
theorem Guarded.advance (guarded : Guarded w) {who : Nat} {nonce : Int} {wrote : Bool}
    {t : Task} (here : w.tasks[who]? = some t) (safe : Safe w (.run who nonce wrote))
    (h : w.advance who nonce wrote t = some w') : Guarded w' := by
  simp only [Safe, here] at safe
  cases t with
  | done => cases h
  | opening gen duration next =>
      cases h
      refine guarded.openStep here ?_
      rintro rfl
      exact safe
  | closing =>
      cases h
      exact guarded.withdraw safe
  | expiring =>
      cases h
      exact guarded.withdraw safe
  | timer gen due =>
      simp only [Window.advance] at h
      split at h
      · cases h
      · split at h
        next => exact Option.some.inj h ▸ guarded.become here (by simp) (by simp) fun _ => rfl
        next hover =>
          -- a timer of an older generation ended nothing
          cases h
          refine guarded.passOn here ?_ (by simp) (by simp)
          simp [ends, withdraws, isTimer, Ne.symm hover]
  | keepalive gen next => exact guarded.beat here h
  | shutting gen next =>
      cases h
      refine guarded.shut here ?_
      rintro rfl
      exact safe
  | answering sent =>
      cases h
      have reset : Guarded { w with strikes := 0 } := guarded.frame rfl rfl rfl (Nat.le_refl _)
      exact reset.passOn here rfl (by simp) (by simp)
  | confirming sent =>
      simp only [Window.advance] at h
      split at h
      · exact Option.some.inj h ▸ guarded.passOn here rfl (by simp) (by simp)
      · exact Option.some.inj h ▸ guarded.passOn here rfl (by simp) (by simp)
  | satisfying =>
      cases h
      have confirmed : Guarded { w with keepaliveOk := true } :=
        guarded.frame rfl rfl rfl (Nat.le_refl _)
      exact confirmed.passOn here rfl (by simp) (by simp)

/-- **One step.** -/
theorem Guarded.step (guarded : Guarded w) {m : Move} (safe : Safe w m)
    (h : w.step m = some w') : Guarded w' := by
  cases m with
  | setAuthenticated authenticated durationSeconds =>
      cases authenticated with
      | true =>
          cases h
          refine guarded.bump (by simp [ends]) (by simp) ?_
          intro g duration next heq
          cases heq
          exact windowSecs_le durationSeconds
      | false =>
          cases h
          exact guarded.bump rfl (by simp) (by simp)
  | run who nonce wrote =>
      simp only [Window.step] at h
      split at h
      next t here => exact guarded.advance here safe h
      next => cases h
  | keepUnlocked nonce =>
      have taken : Guarded { w with challenge := none } :=
        guarded.frame rfl rfl rfl (Nat.le_refl _)
      simp only [Window.step] at h
      split at h
      · split at h
        · exact Option.some.inj h ▸ taken.spawn (by simp) (by simp)
        · exact Option.some.inj h ▸ taken
      · exact Option.some.inj h ▸ taken
  | binderDied wrote =>
      cases h
      cases wrote with
      | false => exact guarded
      | true => exact ⟨by simp [Window.setExempt], guarded.capped, guarded.asked⟩
  | setCallbacks n =>
      cases h
      exact guarded.frame rfl rfl rfl (Nat.le_refl _)
  | tick ns =>
      cases h
      exact guarded.frame rfl rfl rfl (Nat.le_add_right _ _)

theorem Guarded.bounded (guarded : Guarded w) : Bounded w := by
  intro hexempt hquiet
  obtain ⟨t, ht, hends⟩ := List.any_eq_true.mp (guarded.covered hexempt)
  cases t with
  | opening gen duration next => cases hquiet _ ht
  | closing => cases hquiet _ ht
  | timer gen due =>
      have hgen : gen = w.generation := by simpa [ends, withdraws, isTimer] using hends
      exact .inl ⟨due, hgen ▸ ht, guarded.capped gen due ht⟩
  | expiring => exact .inr ⟨_, ht, rfl⟩
  | shutting gen next => exact .inr ⟨_, ht, rfl⟩
  | done | keepalive | answering | confirming | satisfying => cases hends

/-- **The window is bounded.**  In every run in which each `1` is written while
somebody is on the way who ends the window, and no failed write of `0` was the
last hope, the property reads `1` outside the calls only while the current
generation's timer is running or a write of `0` is on its way. -/
theorem window_bounded {moves : List Move}
    (run : Lts.Run (Lts.Restrict (Lts.ofPartial step) Safe) {} moves w) : Bounded w := by
  have guarded : Guarded w :=
    run.invariant Guarded guarded_init fun _ _ _ guarded h => guarded.step h.2 h.1
  exact guarded.bounded

instance (w : Window) (m : Move) : Decidable (Safe w m) := by
  unfold Safe
  split
  · split <;> infer_instance
  · infer_instance

/-- A minute is asked for and opened, and nothing else happens. -/
def openedWindow : List Move :=
  [.setAuthenticated true 60, .run 0 0 true, .run 0 0 true, .run 0 0 true]

/-- The plain window: open, and its timer running. -/
theorem openedWindow_bounded :
    ∃ w, Lts.Run (Lts.Restrict (Lts.ofPartial step) Safe) {} openedWindow w ∧
      w.exempt = true ∧ w.tasks[2]? = some (.timer 1 (secs 60)) ∧ Bounded w := by
  obtain ⟨w, run, hview⟩ := Lts.run_observe (Lts.guarded step Safe)
    (fun w => (w.exempt, w.tasks[2]?))
    (show (openedWindow.foldlM (Lts.guarded step Safe) {}).map _ =
      some (true, some (.timer 1 (secs 60))) by decide)
  have run' := run.of_guarded
  exact ⟨w, run', congrArg Prod.fst hview, congrArg Prod.snd hview, window_bounded run'⟩

/-- A closing call overtakes an opening one between its bump and its write.  The
property reads `1`, every call has returned, and the one timer belongs to the
generation before the current. -/
theorem stale_open_stays :
    ∃ moves w, Lts.Run (Lts.ofPartial step) {} moves w ∧ w.exempt = true ∧
      w.generation = 2 ∧
      w.tasks = [.done, .done, .keepalive 1 .resetStrikes, .timer 1 (secs 60)] ∧
      ¬ Bounded w := by
  obtain ⟨w, run, hview⟩ := Lts.run_observe step
    (fun w => (w.exempt, w.generation, w.tasks))
    (show ([Move.setAuthenticated true 60, .setAuthenticated false 0, .run 1 0 true,
        .run 0 0 true, .run 0 0 true, .run 0 0 true].foldlM step {}).map _ =
      some (true, 2, [.done, .done, .keepalive 1 .resetStrikes, .timer 1 (secs 60)]) by decide)
  obtain ⟨hexempt, hgen, htasks⟩ : w.exempt = true ∧ w.generation = 2 ∧
      w.tasks = [.done, .done, .keepalive 1 .resetStrikes, .timer 1 (secs 60)] := by
    simpa using hview
  refine ⟨_, w, run, hexempt, hgen, htasks, ?_⟩
  intro bounded
  rcases bounded hexempt (by simp [htasks, inCall]) with ⟨due, hmem, -⟩ | ⟨t, hmem, ht⟩
  · simp [htasks, hgen] at hmem
  · rw [htasks] at hmem
    have none_withdraws : ∀ t ∈ [Task.done, .done, .keepalive 1 .resetStrikes,
        .timer 1 (secs 60)], withdraws t = false := by decide
    rw [none_withdraws t hmem] at ht
    cases ht

end Window

end Sharingd
