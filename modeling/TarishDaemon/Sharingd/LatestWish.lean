import TarishDaemon.Sharingd.Visibility

/-!
# The latest request to be seen

Every call of `setDiscoverable` draws a new generation, so that an older timer knows it has
been superseded.  The flag itself carries no generation: a call stores it some time after it
drew, and a timer some time after it compared.  What the latest call asked for therefore
holds as long as no store comes too late.
-/

namespace Sharingd

/-- Whether the device is to be seen at time `now`. -/
def Wish.shows (r : Wish) (now : Nat) : Bool :=
  r.on && r.due.all fun due => decide (now < due)

/-- The steps of `setPolicy`. -/
def BinderCall.setsPolicy : BinderCall → Bool
  | .readFlag _ | .hide _ | .storePolicy _ => true
  | .idle | .checkPolicy _ | .supersede _ _ | .startTimer _ _ | .storeFlag _ _ => false

namespace Visibility

/-- No call is in progress and every due timer has run. -/
def Settled (w : Visibility) : Prop :=
  w.Quiet ∧ ∀ gen, w.timer gen ≠ .expiring ∧ ∀ due, w.timer gen = .sleeping due → w.now < due

/-- A store of the flag comes in turn: it is the latest call's, and its timer has not run out;
or the latest call has yet to store; or the flag has that value already. -/
def InTurn (w : Visibility) : Move → Prop
  | .advance t =>
      match w.call t with
      | .storeFlag gen on =>
          if gen = w.generation then w.timer gen ≠ .done
          else (∃ u, (w.call u).drawn = some w.generation) ∨ w.discoverable = on
      | _ => True
  | .wake gen =>
      w.timer gen = .expiring → gen ≠ w.generation →
        (∃ u, (w.call u).drawn = some w.generation) ∨ w.discoverable = false
  | _ => True

/-- What the latest wish has to do with the timer of its generation. -/
def Timed (now : Nat) (latest : Option Wish) : AutoOff → Prop
  | .absent => ∀ r, latest = some r → r.due = none
  | .sleeping due => latest = some { on := true, due := some due }
  | .expiring | .done => ∃ due ≤ now, latest = some { on := true, due := some due }

/-- How far the latest call has come, and what the flag is once it has stored. -/
inductive Phase (w : Visibility) : Prop
  | starting (t : Nat) (duration : Int) (hcall : w.call t = .startTimer w.generation duration)
      (htimer : w.timer w.generation = .absent) (hlatest : w.latest = some { on := true })
  | storing (t : Nat) (r : Wish) (hcall : w.call t = .storeFlag w.generation r.on)
      (hlatest : w.latest = some r)
  | stored (hnone : ∀ t, (w.call t).drawn ≠ some w.generation)
      (hflag : ∀ r, w.latest = some r →
        w.discoverable = (r.on && decide (w.timer w.generation ≠ .done)))

structure Tracked (w : Visibility) : Prop where
  policyKept : ∀ t, (w.call t).setsPolicy = false
  drawn_le : ∀ t gen, (w.call t).drawn = some gen → gen ≤ w.generation
  unstarted : ∀ gen, w.generation < gen → w.timer gen = .absent
  holder : ∀ t u, (w.call t).drawn = some w.generation →
    (w.call u).drawn = some w.generation → t = u
  timed : Timed w.now w.latest (w.timer w.generation)
  phase : Phase w

variable {w w' : Visibility}

theorem tracked_init (mode : Int) (on : Bool) :
    Tracked { mode := mode, discoverable := on } where
  policyKept _ := rfl
  drawn_le _ _ h := by cases h
  unstarted _ _ := rfl
  holder _ _ h := by cases h
  timed _ h := by cases h
  phase := .stored (by simp [BinderCall.drawn]) (by simp)

/-- A call that is not the latest moves on. -/
theorem Tracked.setCall (h : Tracked w) {t : Nat} {c : BinderCall}
    (hold : (w.call t).drawn ≠ some w.generation)
    (hnew : ∀ gen, c.drawn = some gen → gen < w.generation) (hkept : c.setsPolicy = false) :
    Tracked (w.setCall t c) where
  policyKept := by grind [h.policyKept]
  drawn_le u gen := by
    have hle := h.drawn_le u gen
    grind
  unstarted := h.unstarted
  holder u v := by
    have hsame := h.holder u v
    grind
  timed := h.timed
  phase := by
    cases h.phase with
    | starting u duration hcall htimer hlatest =>
        refine .starting u duration ?_ htimer hlatest
        grind [BinderCall.drawn]
    | storing u r hcall hlatest =>
        refine .storing u r ?_ hlatest
        grind [BinderCall.drawn]
    | stored hnone hflag =>
        refine .stored ?_ hflag
        grind

/-- A call draws the next generation, for which there is no timer yet. -/
theorem Tracked.draw (h : Tracked w) {t : Nat} {on : Bool} {c : BinderCall}
    (hdrawn : c.drawn = some (w.generation + 1)) (hkept : c.setsPolicy = false)
    (hphase : Phase
      ({ w with generation := w.generation + 1, latest := some { on := on } }.setCall t c)) :
    Tracked ({ w with generation := w.generation + 1, latest := some { on := on } }.setCall t c) where
  policyKept := by grind [h.policyKept]
  drawn_le u gen := by
    have hle := h.drawn_le u gen
    grind
  unstarted gen hgen := h.unstarted gen (Nat.lt_of_succ_lt hgen)
  holder u v := by
    have hu := h.drawn_le u (w.generation + 1)
    have hv := h.drawn_le v (w.generation + 1)
    grind
  timed := by
    simp only [setCall_now, setCall_latest, setCall_timer, setCall_generation,
      h.unstarted _ (Nat.lt_succ_self _)]
    rintro r ⟨⟩
    rfl
  phase := hphase

theorem Tracked.supersede (h : Tracked w) {t : Nat} {on : Bool} {duration : Int}
    (hcall : w.call t = .supersede on duration) (hstep : w.advance t = some w') :
    Tracked w' := by
  simp only [Visibility.advance, hcall] at hstep
  split at hstep
  next hon =>
    obtain ⟨rfl, -⟩ : on = true ∧ _ := by simpa using hon
    cases hstep
    apply h.draw rfl rfl
    exact .starting t duration (by grind) (h.unstarted _ (Nat.lt_succ_self _)) rfl
  next =>
    cases hstep
    apply h.draw rfl rfl
    exact .storing t _ (by grind) rfl

/-- The phase of the latest call does not depend on the timers of older ones. -/
theorem Phase.setTimer (h : Phase w) {gen : Nat} {s : AutoOff} (hne : gen ≠ w.generation) :
    Phase (w.setTimer gen s) := by
  have htimer : (w.setTimer gen s).timer w.generation = w.timer w.generation := by grind
  cases h with
  | starting t duration hcall habsent hlatest =>
      exact .starting t duration hcall (htimer.trans habsent) hlatest
  | storing t r hcall hlatest => exact .storing t r hcall hlatest
  | stored hnone hflag =>
      refine .stored hnone fun r hr => ?_
      simp only [setTimer_generation, htimer]
      exact hflag r hr

/-- An older timer runs on. -/
theorem Tracked.setTimer (h : Tracked w) {gen : Nat} {s : AutoOff} (hlt : gen < w.generation) :
    Tracked (w.setTimer gen s) where
  policyKept := h.policyKept
  drawn_le := h.drawn_le
  unstarted g hg := by
    have habsent := h.unstarted g hg
    grind
  holder := h.holder
  timed := by
    have htimer : (w.setTimer gen s).timer w.generation = w.timer w.generation := by grind
    simpa only [setTimer_generation, setTimer_now, setTimer_latest, htimer] using h.timed
  phase := h.phase.setTimer (Nat.ne_of_lt hlt)

theorem Tracked.startTimer (h : Tracked w) {t gen : Nat} {duration : Int}
    (hcall : w.call t = .startTimer gen duration) (hstep : w.advance t = some w') :
    Tracked w' := by
  have hdrawn : (w.call t).drawn = some gen := by rw [hcall]; rfl
  simp only [Visibility.advance, hcall] at hstep
  cases hstep
  rcases Nat.lt_or_eq_of_le (h.drawn_le t gen hdrawn) with hlt | rfl
  · simp only [Nat.ne_of_lt hlt, if_false]
    apply (h.setTimer hlt).setCall
    · simpa [hdrawn] using Nat.ne_of_lt hlt
    · rintro _ ⟨⟩
      exact hlt
    · rfl
  · -- the latest call itself: its wish gets the time it is to end
    have hlatest : w.latest = some { on := true } := by
      cases h.phase with
      | starting u _ _ _ hlatest => exact hlatest
      | storing u r hu _ =>
          obtain rfl := h.holder t u hdrawn (by rw [hu]; rfl)
          rw [hcall] at hu
          cases hu
      | stored hnone _ => exact absurd hdrawn (hnone t)
    simp only [if_true, hlatest, Option.map_some]
    exact {
      policyKept := by
        intro u
        have hkept := h.policyKept u
        grind [BinderCall.setsPolicy]
      drawn_le := by
        intro u gen
        have hle := h.drawn_le u gen
        grind [BinderCall.drawn]
      unstarted := by
        intro gen hgen
        have hne : gen ≠ w.generation := Nat.ne_of_gt hgen
        simpa [setTimer_timer, hne] using h.unstarted gen hgen
      holder := by
        intro u v
        have hu := h.holder u t
        have hv := h.holder v t
        grind
      timed := by simp [setTimer_timer, Timed]
      phase := .storing t { on := true, due := some (w.now + secs duration.toNat) }
        (by grind) rfl }

/-- The flag changes while the latest call has yet to store, or gets the value it has. -/
theorem Tracked.setFlag (h : Tracked w) {on : Bool}
    (hstale : (∃ u, (w.call u).drawn = some w.generation) ∨ w.discoverable = on) :
    Tracked { w with discoverable := on } := by
  rcases hstale with ⟨u, hu⟩ | rfl
  · refine ⟨h.policyKept, h.drawn_le, h.unstarted, h.holder, h.timed, ?_⟩
    cases h.phase with
    | starting t duration hcall htimer hlatest => exact .starting t duration hcall htimer hlatest
    | storing t r hcall hlatest => exact .storing t r hcall hlatest
    | stored hnone _ => exact absurd hu (hnone u)
  · exact h

theorem Tracked.storeFlag (h : Tracked w) {t gen : Nat} {on : Bool}
    (hcall : w.call t = .storeFlag gen on) (hok : InTurn w (.advance t))
    (hstep : w.advance t = some w') : Tracked w' := by
  have hdrawn : (w.call t).drawn = some gen := by rw [hcall]; rfl
  simp only [InTurn, hcall] at hok
  simp only [Visibility.advance, hcall] at hstep
  cases hstep
  split at hok
  next hgen =>
    subst hgen
    obtain ⟨r, hlatest, rfl⟩ : ∃ r, w.latest = some r ∧ r.on = on := by
      cases h.phase with
      | starting u _ hu _ _ =>
          obtain rfl := h.holder t u hdrawn (by rw [hu]; rfl)
          rw [hcall] at hu
          cases hu
      | storing u r hu hlatest =>
          obtain rfl := h.holder t u hdrawn (by rw [hu]; rfl)
          rw [hcall] at hu
          injection hu with _ hon
          exact ⟨r, hlatest, hon.symm⟩
      | stored hnone _ => exact absurd hdrawn (hnone t)
    exact {
      policyKept := by
        intro u
        have hkept := h.policyKept u
        grind [BinderCall.setsPolicy]
      drawn_le := by
        intro u gen
        have hle := h.drawn_le u gen
        grind [BinderCall.drawn]
      unstarted := h.unstarted
      holder := by
        intro u v
        have hsame := h.holder u v
        grind [BinderCall.drawn]
      timed := h.timed
      phase := by
        refine .stored (fun u hu => ?_) (fun r' hr' => ?_)
        · have hsame := h.holder u t
          grind [BinderCall.drawn]
        · obtain rfl : r = r' := by simpa [hlatest] using hr'
          simp [hok] }
  next hgen =>
    apply (h.setFlag hok).setCall
    · simpa [hdrawn] using hgen
    · rintro _ ⟨⟩
    · rfl

theorem Tracked.wake (h : Tracked w) {gen : Nat} (hok : InTurn w (.wake gen))
    (hstep : w.wake gen = some w') : Tracked w' := by
  have hle : w.timer gen ≠ .absent → gen ≤ w.generation := by
    intro hstarted
    by_contra hlt
    exact hstarted (h.unstarted gen (by omega))
  cases htimer : w.timer gen with
  | absent => simp [Visibility.wake, htimer] at hstep
  | done => simp [Visibility.wake, htimer] at hstep
  | sleeping due =>
      simp only [Visibility.wake, htimer] at hstep
      split at hstep
      · cases hstep
      split at hstep
      next hdue hgen =>
        cases hstep
        subst hgen
        have htimed := h.timed
        rw [htimer] at htimed
        refine ⟨h.policyKept, h.drawn_le, fun g hg => ?_, h.holder, ?_, ?_⟩
        · have habsent := h.unstarted g hg
          grind
        · simpa [setTimer_timer, Timed] using ⟨due, Nat.le_of_not_lt hdue, htimed⟩
        · cases h.phase with
          | starting _ _ _ habsent _ =>
              rw [htimer] at habsent
              cases habsent
          | storing t r hcall hlatest => exact .storing t r hcall hlatest
          | stored hnone hflag =>
              refine .stored hnone fun r hr => ?_
              simpa [setTimer_timer, htimer] using hflag r hr
      next hdue hgen =>
        cases hstep
        apply h.setTimer
        exact Nat.lt_of_le_of_ne (hle (by simp [htimer])) (Ne.symm hgen)
  | expiring =>
      simp only [Visibility.wake, htimer] at hstep
      cases hstep
      by_cases hgen : gen = w.generation
      · subst hgen
        have htimed := h.timed
        rw [htimer] at htimed
        refine ⟨h.policyKept, h.drawn_le, fun g hg => ?_, h.holder, ?_, ?_⟩
        · have habsent := h.unstarted g hg
          grind
        · simpa [setTimer_timer, Timed] using htimed
        · cases h.phase with
          | starting _ _ _ habsent _ =>
              rw [htimer] at habsent
              cases habsent
          | storing t r hcall hlatest => exact .storing t r hcall hlatest
          | stored hnone hflag =>
              refine .stored hnone fun r hr => ?_
              simp [setTimer_timer]
      · apply (h.setFlag (hok htimer hgen)).setTimer
        exact Nat.lt_of_le_of_ne (hle (by simp [htimer])) hgen

theorem Tracked.tick (h : Tracked w) (ns : Nat) : Tracked { w with now := w.now + ns } where
  policyKept := h.policyKept
  drawn_le := h.drawn_le
  unstarted := h.unstarted
  holder := h.holder
  timed := by
    have htimed := h.timed
    cases htimer : w.timer w.generation with
    | absent | sleeping due =>
        rw [htimer] at htimed
        exact htimed
    | expiring | done =>
        rw [htimer] at htimed
        obtain ⟨due, hdue, hlatest⟩ := htimed
        exact ⟨due, Nat.le_add_right_of_le hdue, hlatest⟩
  phase := by
    cases h.phase with
    | starting t duration hcall htimer hlatest => exact .starting t duration hcall htimer hlatest
    | storing t r hcall hlatest => exact .storing t r hcall hlatest
    | stored hnone hflag => exact .stored hnone hflag

theorem Tracked.step (h : Tracked w) {move : Move} (hok : InTurn w move)
    (hpolicy : ∀ t mode, move ≠ .setPolicy t mode) (hstep : w.step move = some w') :
    Tracked w' := by
  cases move with
  | setPolicy t mode => exact absurd rfl (hpolicy t mode)
  | setDiscoverable t on duration =>
      simp only [Visibility.step] at hstep
      split at hstep
      next hidle =>
        cases hstep
        apply h.setCall
        · simp [hidle, BinderCall.drawn]
        · cases on <;> simp [BinderCall.drawn]
        · cases on <;> rfl
      next => cases hstep
  | wake gen => exact h.wake hok hstep
  | tick ns =>
      cases hstep
      exact h.tick ns
  | advance t =>
      simp only [Visibility.step] at hstep
      have hkept := h.policyKept t
      cases hcall : w.call t with
      | idle => simp [Visibility.advance, hcall] at hstep
      | checkPolicy duration =>
          have hold : (w.call t).drawn ≠ some w.generation := by simp [hcall, BinderCall.drawn]
          simp only [Visibility.advance, hcall] at hstep
          split at hstep <;> cases hstep
          · exact h.setCall hold (by simp [BinderCall.drawn]) rfl
          · exact h.setCall hold (by simp [BinderCall.drawn]) rfl
      | supersede on duration => exact h.supersede hcall hstep
      | startTimer gen duration => exact h.startTimer hcall hstep
      | storeFlag gen on => exact h.storeFlag hcall hok hstep
      | readFlag mode | hide mode | storePolicy mode =>
          rw [hcall] at hkept
          cases hkept

open Lts

theorem tracked_of_run {mode : Int} {on : Bool} {acts : List Move}
    (run : Run (Restrict (ofPartial Visibility.step) InTurn)
      { mode := mode, discoverable := on } acts w)
    (hpolicy : ∀ t mode, Move.setPolicy t mode ∉ acts) : Tracked w := by
  induction run with
  | nil => exact tracked_init mode on
  | @snoc acts _ _ move _ last ih =>
      have hbefore : Tracked _ := ih fun t mode hmem => hpolicy t mode (List.mem_append_left _ hmem)
      apply hbefore.step last.2 ?_ last.1
      rintro t mode rfl
      exact hpolicy t mode (by simp)

/-- In a settled state the timer of the latest wish has run out exactly if it is past due. -/
theorem Tracked.due (h : Tracked w) (hsettled : w.Settled) {r : Wish}
    (hlatest : w.latest = some r) :
    (r.due = none ∧ w.timer w.generation ≠ .done) ∨
      ∃ due, r = { on := true, due := some due } ∧
        ((w.now < due ∧ w.timer w.generation = .sleeping due) ∨
          (due ≤ w.now ∧ w.timer w.generation = .done)) := by
  obtain ⟨hnotExpiring, hdue⟩ := hsettled.2 w.generation
  have htimed := h.timed
  cases htimer : w.timer w.generation with
  | absent =>
      rw [htimer] at htimed
      exact .inl ⟨htimed r hlatest, by simp⟩
  | sleeping due =>
      rw [htimer] at htimed
      obtain rfl : r = { on := true, due := some due } :=
        Option.some.inj (hlatest.symm.trans htimed)
      exact .inr ⟨due, rfl, .inl ⟨hdue due htimer, rfl⟩⟩
  | expiring => exact absurd htimer hnotExpiring
  | done =>
      rw [htimer] at htimed
      obtain ⟨due, hle, hwish⟩ := htimed
      obtain rfl : r = { on := true, due := some due } :=
        Option.some.inj (hlatest.symm.trans hwish)
      exact .inr ⟨due, rfl, .inr ⟨hle, rfl⟩⟩

/-- **The latest request wins** as long as every store comes in turn, and it does not stay on
without its timer. -/
theorem latest_wish_shown {mode : Int} {on : Bool} {acts : List Move}
    (run : Run (Restrict (ofPartial Visibility.step) InTurn)
      { mode := mode, discoverable := on } acts w)
    (hpolicy : ∀ t mode, Move.setPolicy t mode ∉ acts) (hsettled : w.Settled) {r : Wish}
    (hlatest : w.latest = some r) :
    w.discoverable = r.shows w.now ∧
      (w.discoverable = true → ∀ due, r.due = some due → w.timer w.generation = .sleeping due) := by
  have htracked := tracked_of_run run hpolicy
  have hflag : w.discoverable = (r.on && decide (w.timer w.generation ≠ .done)) := by
    cases htracked.phase with
    | starting t _ hcall _ _ | storing t _ hcall _ =>
        rw [hsettled.1 t] at hcall
        cases hcall
    | stored _ hflag => exact hflag r hlatest
  rcases htracked.due hsettled hlatest with ⟨hdue, htimer⟩ |
    ⟨due, rfl, ⟨hlt, htimer⟩ | ⟨hle, htimer⟩⟩
  · simp [hflag, Wish.shows, hdue, htimer]
  · simp [hflag, Wish.shows, htimer, hlt]
  · simp [hflag, Wish.shows, htimer, hle]

/-- Shown for five seconds, and the five seconds pass. -/
def shownForAWhile : List Move :=
  [.setDiscoverable 0 true 5, .advance 0, .advance 0, .advance 0, .advance 0, .tick (secs 5),
    .wake 1, .wake 1]

theorem latest_wish_shown_expired :
    ∃ w : Visibility, w.latest = some { on := true, due := some (secs 5) } ∧
      w.discoverable = Wish.shows { on := true, due := some (secs 5) } w.now := by
  have hmeets : Meets Visibility.step InTurn { mode := modeReceive } shownForAWhile := by
    refine ⟨trivial, trivial, trivial, trivial, ?_, trivial, ?_, ?_, trivial⟩
    · exact fun h => by cases h
    · exact fun h => by cases h
    · exact fun _ h => absurd rfl h
  have run : Run (Restrict (ofPartial Visibility.step) InTurn) { mode := modeReceive }
    shownForAWhile _ := run_meets Visibility.step rfl hmeets
  refine ⟨_, rfl, (latest_wish_shown run (by simp [shownForAWhile]) ⟨?_, ?_⟩ rfl).1⟩
  · apply quiet_of_run run.of_restrict fun _ => rfl
    simp [shownForAWhile, Move.thread]
    rfl
  · intro gen
    by_cases hone : gen = 1
    · subst hone
      refine ⟨?_, ?_⟩
      · rintro ⟨⟩
      · rintro _ ⟨⟩
    · simp [setTimer_timer, hone]

/-- The call that drew the first generation stores its flag last. -/
def storedOutOfTurn : List Move :=
  [.setDiscoverable 0 true 0, .advance 0, .advance 0, .setDiscoverable 1 false 0, .advance 1,
    .advance 1, .advance 0]

theorem latest_wish_not_shown :
    ∃ w, Run (ofPartial Visibility.step) { mode := modeReceive } storedOutOfTurn w ∧ w.Settled ∧
      w.latest = some { on := false } ∧ w.discoverable = true := by
  have run : Run (ofPartial Visibility.step) { mode := modeReceive } storedOutOfTurn _ :=
    run_foldlM Visibility.step rfl
  refine ⟨_, run, ⟨?_, ?_⟩, rfl, rfl⟩
  · apply quiet_of_run run fun _ => rfl
    simp [storedOutOfTurn, Move.thread]
    exact ⟨rfl, rfl, rfl⟩
  · intro gen
    refine ⟨?_, ?_⟩
    · rintro ⟨⟩
    · rintro _ ⟨⟩

end Visibility

end Sharingd
