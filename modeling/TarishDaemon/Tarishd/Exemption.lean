import TarishDaemon.Lib.Run
import TarishDaemon.Tarishd.Route

/-!
# The lockdown exemption and its cap

The main loop of `tarishd` wakes every half second, publishes whether a
kill-switch is in force, reads whether the radio is wanted and whether the
exemption is earned, moves the routing rule if its own decision changed, and then
takes or drops the link.  `Daemon.step` is one pass of that loop, in those four
parts; a `Tick` holds everything the pass reads from outside.

The loop caps the exemption: a property that has read "1" for longer than
`EXEMPT_MAX` counts as closed until it has read otherwise.  `Link::acquire` puts
the rule in place from its *own* reading of the property, without the cap, and
the loop only moves the rule when its decision changes, so a link that is
re-acquired after the cap fired is exempt again (`reacquire_defeats_cap`).
`exemption_capped` is the law for the runs where acquiring agrees with the loop
and demotions get through.
-/

namespace Tarishd

/-- `n` seconds in nanoseconds. -/
def secs (n : Nat) : Nat := n * 1000000000

def exemptMax : Nat := secs 660

def lockdownEvery : Nat := secs 5

def blindRestartAfterSecs : Nat := 60

def blindRestartCooldown : Nat := secs 180

/-- `exemption_earned`, given what the property read. -/
def exemptionEarned (prop : Option String) : Bool :=
  decide (prop = some "1")

/-- `last.map_or(true, |t| t.elapsed() >= every)`. -/
def dueSince (last : Option Nat) (now every : Nat) : Bool :=
  match last with
  | none => true
  | some last => decide (now - last ≥ every)

/-- What one pass of the loop reads: clock readings in the order they are made,
properties, and the outcomes of what it asks the system to do. -/
structure Tick where
  startNow : Nat
  locked : Bool
  want : Bool
  exemptProp : Option String
  exemptNow : Nat
  /-- What the loop's own `add_rule` meets. -/
  move : RuleEnv
  linkNow : Nat
  /-- Whether `Link::acquire` gets a session. -/
  session : Bool
  acquireProp : Option String
  /-- What the `add_rule` inside `Link::acquire` meets. -/
  acquire : RuleEnv
  linkDead : Bool
  blindSecs : Option Nat
  /-- What the `remove_rule` of a dropped link meets. -/
  drop : Nat → Delivery
  endNow : Nat

/-- The variables of the loop, the kernel's rules, and three things an observer
keeps: since when every reading of the property has been "1", whether the cap has
fired since the last other reading, and whether this pass's `add_rule` calls
succeeded. -/
structure Daemon where
  link : Bool := false
  lastBlindRestart : Option Nat := none
  lastWant : Option Bool := none
  retryAt : Nat
  lastExempt : Option Bool := none
  exemptSince : Option Nat := none
  exemptCapped : Bool := false
  lastLockdown : Option Bool := none
  lockdownCheckedAt : Option Nat := none
  lockdownProp : Option Bool := none
  rules : List Rule
  clock : Nat
  streak : Option Nat := none
  capFired : Bool := false
  rulesOk : Bool := true
  checked : Nat := 0

namespace Daemon

/-- The observer sees a reading of the property. -/
def observe (s : Daemon) (prop : Option String) (now : Nat) : Daemon :=
  if exemptionEarned prop then { s with streak := some (s.streak.getD now) }
  else { s with streak := none, capFired := false }

def lockdownStep (s : Daemon) (t : Tick) : Daemon :=
  if dueSince s.lockdownCheckedAt t.startNow lockdownEvery then
    let s := { s with lockdownCheckedAt := some t.startNow }
    if s.lastLockdown ≠ some t.locked then
      { s with lockdownProp := some t.locked, lastLockdown := some t.locked }
    else s
  else s

def wantStep (s : Daemon) (t : Tick) : Daemon :=
  if s.lastWant ≠ some t.want then
    { s with lastWant := some t.want, retryAt := t.startNow }
  else s

/-- The loop's decision, with its own ceiling enforced. -/
def ceiling (s : Daemon) (t : Tick) : Bool × Daemon :=
  if exemptionEarned t.exemptProp then
    match s.exemptSince with
    | none => (true, { s with exemptSince := some t.exemptNow })
    | some since =>
        if t.exemptNow - since > exemptMax then
          (false, { s with exemptCapped := true, capFired := true })
        else (true, s)
  else (false, { s with exemptSince := none, exemptCapped := false })

/-- `add_rule` on the kernel's table. -/
def placeRule (s : Daemon) (env : RuleEnv) (exempt : Bool) : Daemon :=
  { s with
    rules := (addRule env exempt s.rules).2
    rulesOk := s.rulesOk && (addRule env exempt s.rules).1 }

def exemptStep (s : Daemon) (t : Tick) : Daemon :=
  let s := { s.observe t.exemptProp t.exemptNow with checked := t.exemptNow }
  let (exempt, s) := s.ceiling t
  if s.lastExempt ≠ some exempt then
    let s := if s.link then s.placeRule t.move exempt else s
    { s with lastExempt := some exempt }
  else s

/-- `Drop for Link`. -/
def dropLink (s : Daemon) (t : Tick) : Daemon :=
  { s with link := false, rules := (removeRule t.drop s.rules).2 }

/-- `Link::acquire`, once it has a session. -/
def acquireLink (s : Daemon) (t : Tick) : Daemon :=
  let s := s.observe t.acquireProp t.endNow
  { s.placeRule t.acquire (exemptionEarned t.acquireProp) with link := true }

def linkStep (s : Daemon) (t : Tick) : Daemon :=
  match t.want, s.link with
  | true, false =>
      if t.linkNow ≥ s.retryAt then
        if t.session then s.acquireLink t
        else { s with retryAt := t.endNow + secs 5 }
      else s
  | false, true => s.dropLink t
  | true, true =>
      if t.linkDead then s.dropLink t
      else if t.blindSecs.getD 0 ≥ blindRestartAfterSecs ∧
          dueSince s.lastBlindRestart t.linkNow blindRestartCooldown = true then
        { s with lastBlindRestart := some t.endNow }.dropLink t
      else s
  | false, false => s

/-- One pass of the loop. -/
def step (s : Daemon) (t : Tick) : Daemon :=
  let s := { s with rulesOk := true }
  let s := ((s.lockdownStep t).wantStep t).exemptStep t
  { s.linkStep t with clock := t.endNow }

/-- The law: with a link and no failed `add_rule` in this pass, the rule is above
the kill-switch only if the property last read "1", has read nothing else for at
most `EXEMPT_MAX`, and the cap has not fired since it last read otherwise. -/
def Capped (s : Daemon) : Prop :=
  s.link = true → s.rulesOk = true → hasRule s.rules rulePriorityExempt = true →
    s.capFired = false ∧ ∃ first, s.streak = some first ∧ s.checked - first ≤ exemptMax

/-- The clock does not run backwards. -/
def Monotone (s : Daemon) (t : Tick) : Prop :=
  s.clock ≤ t.startNow ∧ t.startNow ≤ t.exemptNow ∧ t.exemptNow ≤ t.linkNow ∧
    t.linkNow ≤ t.endNow

/-- The loop reads "1", in a window that opened at most `EXEMPT_MAX` ago. -/
def InWindow (s : Daemon) (t : Tick) : Prop :=
  exemptionEarned t.exemptProp = true ∧ ∀ since ∈ s.exemptSince, t.exemptNow - since ≤ exemptMax

/-- Whether this pass acquires a link. -/
def Acquires (s : Daemon) (t : Tick) : Prop :=
  t.want = true ∧ s.link = false ∧ (s.wantStep t).retryAt ≤ t.linkNow ∧ t.session = true

/-- What a pass must not do for the law to survive: acquire with the property at
"1" while the loop's own window is closed, or demote in vain. -/
structure Orderly (s : Daemon) (t : Tick) : Prop where
  agrees : Acquires s t → exemptionEarned t.acquireProp = true → InWindow s t
  moves : s.link = true → ¬ InWindow s t → s.lastExempt ≠ some false → Demotes t.move s.rules
  acquires : Acquires s t → exemptionEarned t.acquireProp = false → Demotes t.acquire s.rules

/-! ## The first two parts leave the exemption alone -/

/-- Two states that agree in everything the exemption depends on. -/
structure Same (s s' : Daemon) : Prop where
  link : s'.link = s.link
  lastExempt : s'.lastExempt = s.lastExempt
  exemptSince : s'.exemptSince = s.exemptSince
  rules : s'.rules = s.rules
  streak : s'.streak = s.streak
  capFired : s'.capFired = s.capFired

variable {s s' : Daemon} {t : Tick}

theorem Same.trans {s'' : Daemon} (h : Same s s') (h' : Same s' s'') : Same s s'' :=
  ⟨h'.link.trans h.link, h'.lastExempt.trans h.lastExempt,
    h'.exemptSince.trans h.exemptSince, h'.rules.trans h.rules, h'.streak.trans h.streak,
    h'.capFired.trans h.capFired⟩

theorem lockdownStep_same (s : Daemon) (t : Tick) : Same s (s.lockdownStep t) := by
  unfold lockdownStep
  split
  · simp only
    split <;> exact ⟨rfl, rfl, rfl, rfl, rfl, rfl⟩
  · exact ⟨rfl, rfl, rfl, rfl, rfl, rfl⟩

theorem wantStep_same (s : Daemon) (t : Tick) : Same s (s.wantStep t) := by
  unfold wantStep
  split <;> exact ⟨rfl, rfl, rfl, rfl, rfl, rfl⟩

/-- The state the exemption is decided in. -/
def prepared (s : Daemon) (t : Tick) : Daemon :=
  ({ s with rulesOk := true }.lockdownStep t).wantStep t

theorem prepared_same (s : Daemon) (t : Tick) : Same s (s.prepared t) :=
  ((⟨rfl, rfl, rfl, rfl, rfl, rfl⟩ : Same s { s with rulesOk := true }).trans
    (lockdownStep_same _ t)).trans (wantStep_same _ t)

/-- Publishing the lockdown state does not touch the retry time. -/
theorem prepared_retryAt (s : Daemon) (t : Tick) :
    (s.prepared t).retryAt = (s.wantStep t).retryAt := by
  have hlock : ∀ d : Daemon, (d.lockdownStep t).retryAt = d.retryAt ∧
      (d.lockdownStep t).lastWant = d.lastWant := by
    intro d
    unfold lockdownStep
    split
    · simp only
      split <;> exact ⟨rfl, rfl⟩
    · exact ⟨rfl, rfl⟩
  obtain ⟨hretry, hwant⟩ := hlock { s with rulesOk := true }
  unfold prepared wantStep
  rw [hwant]
  split
  · rfl
  · exact hretry

/-! ## The decision -/

/-- In the window the decision is to be exempt, and the window's start is
remembered. -/
theorem ceiling_open (h : InWindow s t) :
    ∃ since, s.ceiling t = (true, { s with exemptSince := some since }) ∧
      (s.exemptSince = some since ∨ s.exemptSince = none ∧ since = t.exemptNow) := by
  obtain ⟨earned, recent⟩ := h
  unfold ceiling
  rw [if_pos earned]
  cases hsince : s.exemptSince with
  | none => exact ⟨t.exemptNow, rfl, .inr ⟨rfl, rfl⟩⟩
  | some since =>
      have hle := recent since hsince
      refine ⟨since, ?_, .inl rfl⟩
      simp only
      rw [if_neg (by omega), ← hsince]

/-- Outside it the decision is not to be: the property reads otherwise, or the
cap fires. -/
theorem ceiling_closed (h : ¬ InWindow s t) :
    (exemptionEarned t.exemptProp = false ∧
        s.ceiling t = (false, { s with exemptSince := none, exemptCapped := false })) ∨
      ∃ since, exemptionEarned t.exemptProp = true ∧ s.exemptSince = some since ∧
        exemptMax < t.exemptNow - since ∧
        s.ceiling t = (false, { s with exemptCapped := true, capFired := true }) := by
  cases earned : exemptionEarned t.exemptProp with
  | false =>
      left
      simp [ceiling, earned]
  | true =>
      right
      cases hsince : s.exemptSince with
      | none => exact absurd ⟨earned, by simp [hsince]⟩ h
      | some since =>
          have hlong : exemptMax < t.exemptNow - since := by
            by_contra hshort
            refine h ⟨earned, ?_⟩
            intro other hother
            have heq : other = since := by simpa [hsince, eq_comm] using hother
            omega
          exact ⟨since, rfl, rfl, hlong, by simp [ceiling, earned, hsince, hlong]⟩

/-! ## The invariant between passes -/

structure Inv (s : Daemon) : Prop where
  held : s.link = true → hasRule s.rules rulePriorityExempt = true → s.lastExempt = some true
  past : ∀ since ∈ s.exemptSince, since ≤ s.clock
  began : ∀ first ∈ s.streak, ∃ since, s.exemptSince = some since ∧ since ≤ first
  fired : s.capFired = true → ∃ since, s.exemptSince = some since ∧ since + exemptMax < s.clock

/-- What holds after the decision and before the link is looked at; `window` says
that the decision was to be exempt. -/
structure Mid (s : Daemon) (t : Tick) (window : Prop) : Prop where
  checked : s.checked = t.exemptNow
  held : s.link = true → hasRule s.rules rulePriorityExempt = true → window
  decided : window → s.lastExempt = some true
  opened : window → s.capFired = false ∧ ∃ first since, s.streak = some first ∧
    s.exemptSince = some since ∧ since ≤ first ∧ t.exemptNow - since ≤ exemptMax
  past : ∀ since ∈ s.exemptSince, since ≤ t.exemptNow
  began : ∀ first ∈ s.streak, ∃ since, s.exemptSince = some since ∧ since ≤ first
  fired : s.capFired = true → ∃ since, s.exemptSince = some since ∧
    since + exemptMax < t.exemptNow

/-- In a window that is not too old the cap has not fired: the window it fired on
would still be too old. -/
theorem Inv.unfired (inv : Inv s) (hclock : s.clock ≤ t.exemptNow)
    (recent : ∀ since ∈ s.exemptSince, t.exemptNow - since ≤ exemptMax) :
    s.capFired = false := by
  cases hfired : s.capFired with
  | false => rfl
  | true =>
      obtain ⟨since, hsince, hlong⟩ := inv.fired hfired
      have := recent since hsince
      omega

/-- The decision is to be exempt. -/
theorem mid_open {p : Daemon} (inv : Inv s) (same : Same s p) (mono : Monotone s t)
    (window : InWindow s t) : Mid (p.exemptStep t) t True := by
  obtain ⟨hclock, hstart, -, -⟩ := mono
  obtain ⟨earned, recent⟩ := window
  have unfired := inv.unfired (Nat.le_trans hclock hstart) recent
  have observed : p.observe t.exemptProp t.exemptNow =
      { p with streak := some (p.streak.getD t.exemptNow) } := by
    simp [observe, earned]
  have window' : InWindow
      { p.observe t.exemptProp t.exemptNow with checked := t.exemptNow } t := by
    rw [observed]
    exact ⟨earned, fun since hsince => recent since (same.exemptSince ▸ hsince)⟩
  obtain ⟨since, hceiling, hsince⟩ := ceiling_open window'
  rw [observed] at hceiling hsince
  simp only [same.exemptSince] at hsince
  have hpast : since ≤ t.exemptNow := by
    rcases hsince with h | ⟨-, h⟩
    · have := inv.past since h
      omega
    · omega
  have hrecent : t.exemptNow - since ≤ exemptMax := by
    rcases hsince with h | ⟨-, h⟩
    · exact recent since h
    · omega
  have hfirst : since ≤ p.streak.getD t.exemptNow := by
    cases hstreak : p.streak with
    | none => exact hpast
    | some first =>
        obtain ⟨began, hbegan, hle⟩ := inv.began first (same.streak ▸ hstreak)
        rcases hsince with h | ⟨h, -⟩
        · have : since = began := Option.some.inj (h.symm.trans hbegan)
          simpa [this] using hle
        · rw [h] at hbegan
          cases hbegan
  -- whatever is done about the rule, the decision is on record
  have result : ∀ q : Daemon, q.checked = t.exemptNow → q.lastExempt = some true →
      q.capFired = p.capFired → q.streak = some (p.streak.getD t.exemptNow) →
      q.exemptSince = some since → Mid q t True := by
    intro q hchecked hlast hcap hstreak hq
    have uncapped : q.capFired = false := by rw [hcap, same.capFired, unfired]
    refine ⟨hchecked, fun _ _ => trivial, fun _ => hlast,
      fun _ => ⟨uncapped, _, since, hstreak, hq, hfirst, hrecent⟩, ?_, ?_, ?_⟩
    · intro other hother
      have heq : since = other := by simpa [hq] using hother
      omega
    · intro first hmem
      have heq : p.streak.getD t.exemptNow = first := by simpa [hstreak] using hmem
      exact ⟨since, hq, heq ▸ hfirst⟩
    · intro h
      rw [uncapped] at h
      cases h
  unfold exemptStep
  simp only [observed, hceiling]
  split
  · split
    · exact result _ rfl rfl rfl rfl rfl
    · exact result _ rfl rfl rfl rfl rfl
  next hsame =>
    have hlast : p.lastExempt = some true := by simpa using hsame
    exact result _ rfl hlast rfl rfl rfl

/-- What the closed decision leaves of the observer's books, before the rule is
moved. -/
theorem closed_books {p : Daemon} (inv : Inv s) (same : Same s p) (mono : Monotone s t)
    (closed : ¬ InWindow s t) :
    ∃ q, ({ p.observe t.exemptProp t.exemptNow with checked := t.exemptNow } : Daemon).ceiling t =
        (false, q) ∧
      q.checked = t.exemptNow ∧ q.link = s.link ∧ q.rules = s.rules ∧
      q.lastExempt = s.lastExempt ∧
      (∀ since ∈ q.exemptSince, since ≤ t.exemptNow) ∧
      (∀ first ∈ q.streak, ∃ since, q.exemptSince = some since ∧ since ≤ first) ∧
      (q.capFired = true → ∃ since, q.exemptSince = some since ∧
        since + exemptMax < t.exemptNow) := by
  obtain ⟨hclock, hstart, -, -⟩ := mono
  have closed' : ¬ InWindow
      { p.observe t.exemptProp t.exemptNow with checked := t.exemptNow } t := by
    rintro ⟨earned, recent⟩
    refine closed ⟨earned, fun since hsince => recent since ?_⟩
    simp only [observe, earned, if_true]
    rw [same.exemptSince]
    exact hsince
  rcases ceiling_closed closed' with ⟨unearned, hceiling⟩ | ⟨since, earned, hsince, hlong, hceiling⟩
  · refine ⟨_, hceiling, rfl, ?_, ?_, ?_, ?_, ?_, ?_⟩
    · simp [observe, unearned, same.link]
    · simp [observe, unearned, same.rules]
    · simp [observe, unearned, same.lastExempt]
    · intro since h
      simp at h
    · intro first h
      simp [observe, unearned] at h
    · intro h
      simp [observe, unearned] at h
  · have hsince' : s.exemptSince = some since := by
      simpa [observe, earned, same.exemptSince] using hsince
    refine ⟨_, hceiling, rfl, ?_, ?_, ?_, ?_, ?_, ?_⟩
    · simp [observe, earned, same.link]
    · simp [observe, earned, same.rules]
    · simp [observe, earned, same.lastExempt]
    · intro other hother
      have heq : since = other := by simpa [observe, earned, same.exemptSince, hsince'] using hother
      have := inv.past since hsince'
      omega
    · intro first hmem
      refine ⟨since, by simp [observe, earned, same.exemptSince, hsince'], ?_⟩
      have hfirst : p.streak.getD t.exemptNow = first := by
        simpa [observe, earned] using hmem
      cases hstreak : p.streak with
      | none =>
          have := inv.past since hsince'
          rw [hstreak] at hfirst
          simp only [Option.getD_none] at hfirst
          omega
      | some began =>
          obtain ⟨since', h, hle⟩ := inv.began began (same.streak ▸ hstreak)
          have heq : since = since' := Option.some.inj (hsince'.symm.trans h)
          rw [hstreak] at hfirst
          simp only [Option.getD_some] at hfirst
          omega
    · intro _
      exact ⟨since, by simp [observe, earned, same.exemptSince, hsince'], by omega⟩

/-- The decision is not to be exempt: the rule is demoted, or was already. -/
theorem mid_closed {p : Daemon} (inv : Inv s) (same : Same s p) (mono : Monotone s t)
    (closed : ¬ InWindow s t)
    (moves : s.link = true → s.lastExempt ≠ some false → Demotes t.move s.rules) :
    Mid (p.exemptStep t) t False := by
  obtain ⟨q, hceiling, hchecked, hlink, hrules, hlast, past, began, fired⟩ :=
    closed_books inv same mono closed
  have result : ∀ r : Daemon, r.checked = q.checked → r.exemptSince = q.exemptSince →
      r.streak = q.streak → r.capFired = q.capFired →
      (r.link = true → hasRule r.rules rulePriorityExempt = false) → Mid r t False := by
    intro r hrchecked hrsince hrstreak hrcap hplain
    refine ⟨hrchecked.trans hchecked, ?_, False.elim, False.elim, ?_, ?_, ?_⟩
    · intro hl hr
      rw [hplain hl] at hr
      cases hr
    · rw [hrsince]
      exact past
    · rw [hrsince, hrstreak]
      exact began
    · rw [hrsince, hrcap]
      exact fired
  unfold exemptStep
  simp only [hceiling]
  split
  next hmove =>
    have hmove' : s.lastExempt ≠ some false := hlast ▸ hmove
    split
    next hl =>
      refine result _ rfl rfl rfl rfl fun _ => ?_
      have hdemotes := moves (hlink ▸ hl) hmove'
      exact addRule_demotes t.move q.rules (hrules ▸ hdemotes)
    next hl => exact result _ rfl rfl rfl rfl fun h => absurd h hl
  next hstay =>
    refine result q rfl rfl rfl rfl fun hl => ?_
    have hfalse : s.lastExempt = some false := by simpa [hlast] using hstay
    cases hr : hasRule q.rules rulePriorityExempt with
    | false => rfl
    | true =>
        have htrue := inv.held (hlink ▸ hl) (hrules ▸ hr)
        rw [hfalse] at htrue
        cases htrue

/-- Without a link the decision moves nothing. -/
theorem exemptStep_frame (p : Daemon) (t : Tick) :
    (p.exemptStep t).link = p.link ∧ (p.exemptStep t).retryAt = p.retryAt ∧
      (p.link = false → (p.exemptStep t).rules = p.rules) := by
  have hobserve : ∀ now, (p.observe t.exemptProp now).link = p.link ∧
      (p.observe t.exemptProp now).retryAt = p.retryAt ∧
      (p.observe t.exemptProp now).rules = p.rules := by
    intro now
    unfold observe
    split <;> exact ⟨rfl, rfl, rfl⟩
  have hceiling : ∀ d : Daemon, (d.ceiling t).2.link = d.link ∧
      (d.ceiling t).2.retryAt = d.retryAt ∧ (d.ceiling t).2.rules = d.rules := by
    intro d
    unfold ceiling
    split
    · split
      · exact ⟨rfl, rfl, rfl⟩
      · split <;> exact ⟨rfl, rfl, rfl⟩
    · exact ⟨rfl, rfl, rfl⟩
  obtain ⟨olink, oretry, orules⟩ := hobserve t.exemptNow
  obtain ⟨clink, cretry, crules⟩ :=
    hceiling { p.observe t.exemptProp t.exemptNow with checked := t.exemptNow }
  have hlink := clink.trans olink
  have hretry := cretry.trans oretry
  have hrules := crules.trans orules
  unfold exemptStep
  simp only
  split
  · split
    next hl => exact ⟨hlink, hretry, fun h => absurd (hlink ▸ hl) (by simp [h])⟩
    next => exact ⟨hlink, hretry, fun _ => hrules⟩
  · exact ⟨hlink, hretry, fun _ => hrules⟩

variable {window : Prop}

/-- A pass that ends with the link dropped, or as it was. -/
theorem Mid.settle (mid : Mid s t window) (mono : t.exemptNow ≤ t.endNow) {q : Daemon}
    (hlast : q.lastExempt = s.lastExempt) (hsince : q.exemptSince = s.exemptSince)
    (hstreak : q.streak = s.streak) (hcap : q.capFired = s.capFired)
    (hchecked : q.checked = s.checked)
    (hlink : q.link = false ∨ q.link = s.link ∧ q.rules = s.rules) :
    Inv { q with clock := t.endNow } ∧ Capped { q with clock := t.endNow } := by
  have held : q.link = true → hasRule q.rules rulePriorityExempt = true → window := by
    intro hl hr
    rcases hlink with h | ⟨h, hrules⟩
    · rw [hl] at h
      cases h
    · exact mid.held (h ▸ hl) (hrules ▸ hr)
  refine ⟨⟨?_, ?_, ?_, ?_⟩, ?_⟩
  · intro hl hr
    exact hlast.trans (mid.decided (held hl hr))
  · intro since h
    have := mid.past since (hsince ▸ h)
    simp only
    omega
  · intro first h
    obtain ⟨since, hs, hle⟩ := mid.began first (hstreak ▸ h)
    exact ⟨since, hsince.trans hs, hle⟩
  · intro h
    obtain ⟨since, hs, hlong⟩ := mid.fired (hcap ▸ h)
    refine ⟨since, hsince.trans hs, ?_⟩
    simp only
    omega
  · intro hl _ hr
    obtain ⟨uncapped, first, since, hfirst, -, hle, hrecent⟩ := mid.opened (held hl hr)
    refine ⟨hcap.trans uncapped, first, hstreak.trans hfirst, ?_⟩
    show q.checked - first ≤ exemptMax
    rw [hchecked, mid.checked]
    omega

/-- A pass that ends with a link acquired. -/
theorem Mid.acquire (mid : Mid s t window) (mono : t.exemptNow ≤ t.endNow)
    (agrees : exemptionEarned t.acquireProp = true → window)
    (demotes : exemptionEarned t.acquireProp = false → Demotes t.acquire s.rules) :
    Inv { s.acquireLink t with clock := t.endNow } ∧
      Capped { s.acquireLink t with clock := t.endNow } := by
  cases hearned : exemptionEarned t.acquireProp with
  | true =>
      have opened := agrees hearned
      obtain ⟨uncapped, first, since, hfirst, hsince, hle, hrecent⟩ := mid.opened opened
      have hstreak : (s.acquireLink t).streak = some first := by
        simp [acquireLink, observe, placeRule, hearned, hfirst]
      have hsince' : (s.acquireLink t).exemptSince = some since := by
        simp [acquireLink, observe, placeRule, hearned, hsince]
      have hcap : (s.acquireLink t).capFired = false := by
        simp [acquireLink, observe, placeRule, hearned, uncapped]
      refine ⟨⟨?_, ?_, ?_, ?_⟩, ?_⟩
      · intro _ _
        simpa [acquireLink, observe, placeRule, hearned] using mid.decided opened
      · intro other h
        have heq : since = other := by simpa [hsince'] using h
        have := mid.past since hsince
        simp only
        omega
      · intro other h
        have heq : first = other := by simpa [hstreak] using h
        exact ⟨since, hsince', heq ▸ hle⟩
      · intro h
        rw [hcap] at h
        cases h
      · intro _ _ _
        have hchecked : (s.acquireLink t).checked = t.exemptNow := by
          simpa [acquireLink, observe, placeRule, hearned] using mid.checked
        refine ⟨hcap, first, hstreak, ?_⟩
        show (s.acquireLink t).checked - first ≤ exemptMax
        omega
  | false =>
      have hplain : hasRule (s.acquireLink t).rules rulePriorityExempt = false := by
        have := addRule_demotes t.acquire s.rules (demotes hearned)
        simpa [acquireLink, observe, placeRule, hearned] using this
      refine ⟨⟨?_, ?_, ?_, ?_⟩, ?_⟩
      · intro _ hr
        rw [hplain] at hr
        cases hr
      · intro since h
        have hs : s.exemptSince = some since := by
          simpa [acquireLink, observe, placeRule, hearned] using h
        have := mid.past since hs
        simp only
        omega
      · intro first h
        simp [acquireLink, observe, placeRule, hearned] at h
      · intro h
        simp [acquireLink, observe, placeRule, hearned] at h
      · intro _ _ hr
        rw [hplain] at hr
        cases hr

theorem Mid.linkStep (mid : Mid s t window) (mono : t.exemptNow ≤ t.endNow)
    (agrees : t.want = true → s.link = false → s.retryAt ≤ t.linkNow → t.session = true →
      exemptionEarned t.acquireProp = true → window)
    (demotes : t.want = true → s.link = false → s.retryAt ≤ t.linkNow → t.session = true →
      exemptionEarned t.acquireProp = false → Demotes t.acquire s.rules) :
    Inv { s.linkStep t with clock := t.endNow } ∧
      Capped { s.linkStep t with clock := t.endNow } := by
  have dropped : ∀ q : Daemon, q.lastExempt = s.lastExempt → q.exemptSince = s.exemptSince →
      q.streak = s.streak → q.capFired = s.capFired → q.checked = s.checked →
      Inv { q.dropLink t with clock := t.endNow } ∧
        Capped { q.dropLink t with clock := t.endNow } := by
    intro q hlast hsince hstreak hcap hchecked
    exact mid.settle mono hlast hsince hstreak hcap hchecked (.inl rfl)
  have kept := mid.settle mono rfl rfl rfl rfl rfl (.inr ⟨rfl, rfl⟩)
  unfold Daemon.linkStep
  split
  next hwant hl =>
    split
    next hretry =>
      split
      next hsession =>
        exact mid.acquire mono (agrees hwant hl hretry hsession)
          (demotes hwant hl hretry hsession)
      next => exact mid.settle mono rfl rfl rfl rfl rfl (.inr ⟨rfl, rfl⟩)
    next => exact kept
  next => exact dropped s rfl rfl rfl rfl rfl
  next =>
    split
    · exact dropped s rfl rfl rfl rfl rfl
    · split
      · exact dropped _ rfl rfl rfl rfl rfl
      · exact kept
  next => exact kept

/-- **One pass.** -/
theorem Inv.step (inv : Inv s) (mono : Monotone s t) (orderly : Orderly s t) :
    Inv (s.step t) ∧ Capped (s.step t) := by
  have same := prepared_same s t
  obtain ⟨hlink, hretry, hrules⟩ := exemptStep_frame (s.prepared t) t
  have hexemptEnd : t.exemptNow ≤ t.endNow := by
    obtain ⟨-, -, h₁, h₂⟩ := mono
    omega
  -- the link and the rules this pass may acquire with are those it began with
  have acquires : t.want = true → ((s.prepared t).exemptStep t).link = false →
      ((s.prepared t).exemptStep t).retryAt ≤ t.linkNow → t.session = true →
      Acquires s t ∧ ((s.prepared t).exemptStep t).rules = s.rules := by
    intro hwant hfree hdue hsession
    have hfree' : (s.prepared t).link = false := hlink ▸ hfree
    refine ⟨⟨hwant, same.link ▸ hfree', ?_, hsession⟩, (hrules hfree').trans same.rules⟩
    rw [← prepared_retryAt, ← hretry]
    exact hdue
  have demotes : t.want = true → ((s.prepared t).exemptStep t).link = false →
      ((s.prepared t).exemptStep t).retryAt ≤ t.linkNow → t.session = true →
      exemptionEarned t.acquireProp = false →
      Demotes t.acquire ((s.prepared t).exemptStep t).rules := by
    intro hwant hfree hdue hsession hearned
    obtain ⟨hacquires, hsame⟩ := acquires hwant hfree hdue hsession
    rw [hsame]
    exact orderly.acquires hacquires hearned
  by_cases window : InWindow s t
  · have mid := mid_open inv same mono window
    exact mid.linkStep hexemptEnd (fun _ _ _ _ _ => trivial) demotes
  · have mid := mid_closed inv same mono window fun hl => orderly.moves hl window
    refine mid.linkStep hexemptEnd ?_ demotes
    intro hwant hfree hdue hsession hearned
    exact window (orderly.agrees (acquires hwant hfree hdue hsession).1 hearned)

/-- The daemon as it starts: no link, whatever rules the kernel has. -/
def start (rules : List Rule) (now : Nat) : Daemon :=
  { rules := rules, clock := now, retryAt := now }

theorem inv_start (rules : List Rule) (now : Nat) :
    Inv (start rules now) ∧ Capped (start rules now) := by
  refine ⟨⟨?_, ?_, ?_, ?_⟩, ?_⟩ <;> simp [start, Capped]

/-- **The exemption is capped.**  From any rule table, in every run under a clock
that does not run backwards in which every pass is orderly, the law holds at the
end of every pass. -/
theorem exemption_capped {rules : List Rule} {now : Nat} {ticks : List Tick} {s : Daemon}
    (run : Lts.Run (Lts.Restrict (Lts.ofFun step) fun s t => Monotone s t ∧ Orderly s t)
      (start rules now) ticks s) : Capped s := by
  have hboth := run.invariant (fun s => Inv s ∧ Capped s) (inv_start rules now) (by
    rintro s t s' ⟨inv, -⟩ ⟨rfl, mono, orderly⟩
    exact inv.step mono orderly)
  exact hboth.2

/-! ## A cap that holds and one that does not -/

/-- Everything resolves and every request is answered. -/
def fine : RuleEnv :=
  { iface := "mosey0", index := some 52, uid := some 7500, net := fun _ => .ack }

/-- A pass at time `now` with the property at "1" and nothing going wrong. -/
def calm (now : Nat) : Tick where
  startNow := now
  locked := true
  want := true
  exemptProp := some "1"
  exemptNow := now
  move := fine
  linkNow := now
  session := true
  acquireProp := some "1"
  acquire := fine
  linkDead := false
  blindSecs := none
  drop := fun _ => .ack
  endNow := now

theorem fine_demotes {rules : List Rule} (h : countAt rules rulePriorityExempt ≤ 8) :
    Demotes fine rules :=
  ⟨rfl, h, fun _ _ => by simp [fine], fun _ _ => by simp [fine]⟩

/-- The property sticks at "1": the second pass, 661 seconds on, demotes the rule
of a link that was acquired in the window. -/
theorem stuck_property_demoted :
    ∃ s, Lts.Run (Lts.Restrict (Lts.ofFun step) fun s t => Monotone s t ∧ Orderly s t)
        (start [] 0) [calm 0, calm (secs 661)] s ∧
      hasRule s.rules rulePriorityPlain = true ∧
      hasRule s.rules rulePriorityExempt = false ∧ Capped s := by
  have first : Orderly (start [] 0) (calm 0) :=
    ⟨fun _ _ => ⟨by decide, by simp [start]⟩, fun h => absurd h (by decide),
      fun _ h => absurd h (by decide)⟩
  have second : Orderly ((start [] 0).step (calm 0)) (calm (secs 661)) :=
    ⟨fun h => absurd h.2.1 (by decide), fun _ _ _ => fine_demotes (by decide),
      fun h => absurd h.2.1 (by decide)⟩
  have run : Lts.Run (Lts.Restrict (Lts.ofFun step) fun s t => Monotone s t ∧ Orderly s t)
      (start [] 0) [calm 0, calm (secs 661)]
      (((start [] 0).step (calm 0)).step (calm (secs 661))) :=
    (Lts.Run.nil.snoc ⟨rfl, ⟨by decide, by decide, by decide, by decide⟩, first⟩).snoc
      ⟨rfl, ⟨by decide, by decide, by decide, by decide⟩, second⟩
  exact ⟨_, run, by decide, by decide, exemption_capped run⟩

/-- The same property, but the link dies in the pass that fired the cap.  The
next pass acquires a new one, reads the property itself and puts the rule back
above the kill-switch. -/
theorem reacquire_defeats_cap :
    ∃ ticks s, Lts.Run (Lts.Restrict (Lts.ofFun step) Monotone) (start [] 0) ticks s ∧
      s.link = true ∧ s.rulesOk = true ∧ s.capFired = true ∧
      hasRule s.rules rulePriorityExempt = true ∧ ¬ Capped s := by
  have run : Lts.Run (Lts.Restrict (Lts.ofFun step) Monotone) (start [] 0) _ _ :=
    ((Lts.Run.nil.snoc (a := calm 0) ⟨rfl, by decide, by decide, by decide, by decide⟩).snoc
      (a := { calm (secs 661) with linkDead := true })
      ⟨rfl, by decide, by decide, by decide, by decide⟩).snoc
      (a := calm (secs 662)) ⟨rfl, by decide, by decide, by decide, by decide⟩
  refine ⟨_, _, run, by decide, by decide, by decide, by decide, ?_⟩
  intro capped
  have unfired := (capped (by decide) (by decide) (by decide)).1
  revert unfired
  decide

end Daemon

end Tarishd
