import TarishDaemon.Sharingd.SlotThreads

/-!
# A live transfer keeps its slot

`try_begin` may take the slot from a transfer that has shown no activity for
`STALE_TRANSFER`.  The promise behind it is that a transfer which keeps reporting
progress is never taken for dead.  The promise rests on a convention, that every
path's progress report touches the clock, and the AirDrop *send* path does not
follow it: `reporting_send_loses_slot` runs such a transfer into a reclaim while
it reports every hundred seconds.

`live_transfer_keeps_slot` is the promise for the runs where the convention is
kept.  The invariant is that the activity clock is never older than the owner's
last report.  Clearing the clock, which any finish does for any transfer, is
harmless here: an idle clock is not stale.
-/

namespace Sharingd

namespace World

variable {w w' : World} {id : Int}

/-- When `id` last reported progress. -/
def lastReport (w : World) (id : Int) : Option Nat :=
  (w.log.filterMap fun
    | .reported who time => if who = id then some time else none
    | _ => none).getLast?

/-- The transfer a call of `finish` is for. -/
def finishOf : Act → Option Int
  | .finish _ id => some id
  | _ => none

/-- The owner of `id` has reported less than `STALE_TRANSFER` ago, and is not
finishing now. -/
def Reporting (id : Int) (w : World) (a : Act) : Prop :=
  (∀ time ∈ w.lastReport id, w.now - time < staleTransfer) ∧ finishOf a ≠ some id

instance (id : Int) (w : World) (a : Act) : Decidable (Reporting id w a) :=
  inferInstanceAs (Decidable (_ ∧ _))

/-- A staleness check against `id` that is about to read the clock although the
stamp it holds has been replaced since, and is too old by now. -/
def outdatedCheck (id : Int) (w : World) : Pc → Bool
  | .readClock _ cur stamp =>
      decide (cur = id ∧ stampStale stamp w.now = true ∧ stamp ≠ w.shared.lastActivity)
  | _ => false

/-- What the step must not be for the slot to be safe: a report of `id` that
leaves the clock alone, or the end of an outdated check against `id`. -/
def Spared (id : Int) (w : World) : Act → Prop
  | .report _ who o => who = id → o.touches = true
  | .advance t => outdatedCheck id w (w.pc t) = false
  | _ => True

instance (id : Int) (w : World) : ∀ a, Decidable (Spared id w a)
  | .report _ who o => inferInstanceAs (Decidable (who = id → o.touches = true))
  | .advance t => inferInstanceAs (Decidable (outdatedCheck id w (w.pc t) = false))
  | .tryBegin _ _ | .finish _ _ | .handOver _ _ _ _ | .upload _ | .tick _ =>
      inferInstanceAs (Decidable True)

/-- Whether a thread's call is one that ends, or has ended, `id`'s claim: a
finish of `id` under way, or a `try_begin` that has already claimed. -/
def threatens (id : Int) : Pc → Bool
  | .finishing who _ _ => decide (who = id)
  | .storeNeeds _ _ | .storePending _ _ | .stamp _ _ => true
  | .idle | .readStamp _ _ | .readClock _ _ _ | .draw _ | .claim _ _ => false

/-- The invariant of the time between two reports. -/
structure Held (id : Int) (w : World) : Prop where
  current : w.shared.current = id
  reported : ∃ time, w.lastReport id = some time ∧ time ≤ w.now ∧
    ∀ stamp ∈ w.shared.lastActivity, time ≤ stamp
  quiet : ∀ t, threatens id (w.pc t) = false

theorem lastReport_note (e : Event) :
    (w.note e).lastReport id =
      match e with
      | .reported who time => if who = id then some time else w.lastReport id
      | _ => w.lastReport id := by
  cases e with
  | reported who time =>
      by_cases h : who = id <;> simp [lastReport, h]
  | _ => simp [lastReport]

@[simp] theorem lastReport_setPc (t : Nat) (pc : Pc) :
    (w.setPc t pc).lastReport id = w.lastReport id := rfl

@[simp] theorem lastReport_setShared (x : TransferState) :
    (w.setShared x).lastReport id = w.lastReport id := rfl

@[simp] theorem lastReport_give (t : Nat) (i : Int) (o : Owner) :
    (w.give t i o).lastReport id = w.lastReport id := rfl

/-- A thread moves to a place that does not threaten the holder. -/
theorem Held.setPc (held : Held id w) {t : Nat} {pc : Pc}
    (h : threatens id pc = false) : Held id (w.setPc t pc) := by
  refine ⟨held.current, held.reported, ?_⟩
  intro u
  by_cases hut : u = t
  · subst hut
    simpa [World.setPc] using h
  · simpa [World.setPc, Function.update, hut] using held.quiet u

/-- The shared state changes, but not the holder, and the clock is cleared or
left alone. -/
theorem Held.setShared (held : Held id w) {x : TransferState}
    (hcur : x.current = w.shared.current)
    (hclock : x.lastActivity = none ∨ x.lastActivity = w.shared.lastActivity) :
    Held id (w.setShared x) := by
  refine ⟨hcur.trans held.current, ?_, held.quiet⟩
  obtain ⟨time, hlast, hnow, hstamp⟩ := held.reported
  refine ⟨time, hlast, hnow, ?_⟩
  intro stamp hmem
  rcases hclock with h | h
  · simp [h] at hmem
  · exact hstamp stamp (h ▸ hmem)

theorem Held.note (held : Held id w) {e : Event} (h : ∀ who time, e ≠ .reported who time) :
    Held id (w.note e) := by
  have hlast : (w.note e).lastReport id = w.lastReport id := by
    rw [lastReport_note]
    cases e with
    | reported who time => exact absurd rfl (h who time)
    | _ => rfl
  refine ⟨held.current, ?_, held.quiet⟩
  rw [hlast]
  exact held.reported

theorem Held.noteStage (held : Held id w) (who : Int) (stage : FinishStage)
    (back : Option Owner) : Held id (w.noteStage who stage back) := by
  unfold World.noteStage
  split
  · exact held.note (by simp)
  · exact held.note (by simp)
  · exact held

/-- A touch of the clock, by whoever, only helps. -/
theorem Held.touch (held : Held id w) : Held id (w.setShared (w.shared.touch w.now)) := by
  refine ⟨held.current, ?_, held.quiet⟩
  obtain ⟨time, hlast, hnow, -⟩ := held.reported
  refine ⟨time, hlast, hnow, ?_⟩
  intro stamp hmem
  have hstamp : w.now = stamp := by simpa [TransferState.touch] using hmem
  omega

/-- A report of `id` that touches the clock restarts the invariant. -/
theorem held_of_report (hcur : w.shared.current = id)
    (quiet : ∀ t, threatens id (w.pc t) = false) :
    Held id ((w.setShared (w.shared.touch w.now)).note (.reported id w.now)) := by
  refine ⟨hcur, ⟨w.now, ?_, Nat.le_refl _, ?_⟩, quiet⟩
  · rw [lastReport_note]
    simp
  · intro stamp hmem
    have hstamp : w.now = stamp := by simpa [TransferState.touch] using hmem
    exact Nat.le_of_eq hstamp

/-- A check against the clock as it stands cannot find a reporting holder
stale. -/
theorem Held.not_stale (held : Held id w)
    (punctual : ∀ time ∈ w.lastReport id, w.now - time < staleTransfer) :
    stampStale w.shared.lastActivity w.now = false := by
  obtain ⟨time, hlast, -, hstamp⟩ := held.reported
  have hrecent := punctual time hlast
  cases hclock : w.shared.lastActivity with
  | none => rfl
  | some stamp =>
      have hle := hstamp stamp hclock
      simp only [stampStale, decide_eq_false_iff_not]
      omega

/-- A stage of somebody else's `finish` spares the holder. -/
theorem Held.stage (held : Held id w) {who : Int} (other : who ≠ id)
    (stage : FinishStage) : Held id (w.setShared (stage.run who w.shared)) := by
  have hcur := held.current
  cases stage with
  | releaseCurrent =>
      refine held.setShared ?_ (.inr rfl)
      exact casClear_of_ne (by rw [hcur]; exact other.symm)
  | clearActivity => exact held.setShared rfl (.inl rfl)
  | _ => exact held.setShared rfl (.inr rfl)

/-- **Inside a call.**  No operation of another thread takes the slot from a
holder that reports, and none of them claims or returns an id. -/
theorem Held.move (held : Held id w) (hid : id ≠ 0) {t : Nat}
    (punctual : ∀ time ∈ w.lastReport id, w.now - time < staleTransfer)
    (spared : Spared id w (.advance t)) (h : Move w t w') :
    Held id w' ∧ w'.issued = w.issued ∧ w'.returned = w.returned := by
  have taken : w.shared.current ≠ 0 := by rw [held.current]; exact hid
  have quiet := held.quiet t
  cases h with
  | readStamp here => exact ⟨held.setPc rfl, rfl, rfl⟩
  | @stale o cur stamp here old =>
      have other : cur ≠ id := by
        intro hcur
        have hstamp : stamp = w.shared.lastActivity := by
          simpa [Spared, outdatedCheck, here, hcur, old] using spared
        rw [hstamp, held.not_stale punctual] at old
        cases old
      exact ⟨held.setPc (by simp [threatens, other]), rfl, rfl⟩
  | busy here _ => exact ⟨held.setPc rfl, rfl, rfl⟩
  | @stage who stage rest back here =>
      have other : who ≠ id := by simpa [here, threatens] using quiet
      have staged := (held.stage other stage).noteStage who stage back
      refine ⟨staged.setPc (by simp [threatens, other]),
        noteStage_issued who stage back, ?_⟩
      show (((w.setShared _).noteStage who stage back).setPc t _).returned = w.returned
      unfold World.noteStage
      split <;> simp [returned, Event.returnedId]
  | finished here => exact ⟨held.setPc rfl, rfl, rfl⟩
  | reclaimed here => exact ⟨held.setPc rfl, rfl, rfl⟩
  | draw here =>
      have hnext := held.setShared (x := { w.shared with next := w.shared.next + 1 }) rfl
        (.inr rfl)
      refine ⟨(hnext.note (by simp)).setPc rfl, ?_, ?_⟩
      · simp [issued, Event.claimedId]
      · simp [returned, Event.returnedId]
  | claim here free => exact absurd free taken
  | lose here _ => exact ⟨held.setPc rfl, rfl, rfl⟩
  | storeNeeds here => simp [here, threatens] at quiet
  | storePending here => simp [here, threatens] at quiet
  | stamp here => simp [here, threatens] at quiet

/-- **One step.** -/
theorem Held.step (held : Held id w) (hid : id ≠ 0) {a : Act}
    (reporting : Reporting id w a) (spared : Spared id w a) (h : Steps w a w') :
    Held id w' ∧ w'.issued = w.issued ∧ w'.returned = w.returned := by
  obtain ⟨punctual, unfinished⟩ := reporting
  cases h with
  | beginFree here free => exact ⟨held.setPc rfl, rfl, rfl⟩
  | beginBusy here taken => exact ⟨held.setPc rfl, rfl, rfl⟩
  | @finish t who o here mine =>
      have other : who ≠ id := by simpa [finishOf] using unfinished
      exact ⟨held.setPc (by simp [threatens, other]), rfl, rfl⟩
  | advance move => exact held.move hid punctual spared move
  | @report t who o here mine =>
      refine ⟨?_, by simp [issued, Event.claimedId], by simp [returned, Event.returnedId]⟩
      by_cases hwho : who = id
      · subst hwho
        rw [if_pos (spared rfl)]
        exact held_of_report held.current held.quiet
      · have hshared : Held id (w.setShared
            (if o.touches then w.shared.touch w.now else w.shared)) := by
          split
          · exact held.touch
          · exact held.setShared rfl (.inr rfl)
        refine ⟨hshared.current, ?_, hshared.quiet⟩
        rw [lastReport_note]
        simpa [hwho] using hshared.reported
  | handOver here mine => exact ⟨⟨held.current, held.reported, held.quiet⟩, rfl, rfl⟩
  | upload here taken => exact ⟨⟨held.current, held.reported, held.quiet⟩, rfl, rfl⟩
  | @tick ns =>
      obtain ⟨time, hlast, hnow, hstamp⟩ := held.reported
      exact ⟨⟨held.current, ⟨time, hlast, Nat.le_add_right_of_le hnow, hstamp⟩, held.quiet⟩,
        rfl, rfl⟩

/-- Ids that threads have are real ids. -/
theorem given_ne_zero (known : Known w) (inv : TicketSlot.Inv w.slot) {t : Nat}
    {o : Owner} (mine : (id, o) ∈ w.given t) : id ≠ 0 := by
  have hdrawn := inv.issued_drawn id (known.given_issued t _ mine)
  have := (inv.drawn_range id hdrawn).1
  omega

/-- **A live transfer keeps its slot.**  Take any run up to a progress report of
the transfer that is current, made on a path whose reports touch the clock while
no other call is about to end that transfer's claim.  From there on, as long as
the owner reports at intervals shorter than `STALE_TRANSFER`, nobody finishes the
id and no step is one of the two `Spared` excludes, the slot stays with it: no
other `try_begin` claims the slot or returns an id. -/
theorem live_transfer_keeps_slot {before acts : List Act} {w₀ w₁ w₂ : World} {t : Nat}
    {o : Owner} (start : Lts.Run (Lts.ofPartial step) {} before w₀)
    (current : w₀.shared.current = id) (report : w₀.step (.report t id o) = some w₁)
    (touches : o.touches = true) (quiet : ∀ u, threatens id (w₀.pc u) = false)
    (run : Lts.Run (Lts.Restrict (Lts.ofPartial step)
      fun w a => Reporting id w a ∧ Spared id w a) w₁ acts w₂) :
    w₂.shared.current = id ∧ w₂.issued = w₁.issued ∧ w₂.returned = w₁.returned := by
  obtain ⟨⟨known, inv⟩, -⟩ := run_refines start
  have first : Held id w₁ ∧ id ≠ 0 := by
    cases steps_of_step report with
    | report here mine =>
        rw [if_pos touches]
        exact ⟨held_of_report current quiet, given_ne_zero known inv mine⟩
  obtain ⟨held₁, hid⟩ := first
  obtain ⟨held, kept⟩ := run.invariant
    (fun w => Held id w ∧ w.issued = w₁.issued ∧ w.returned = w₁.returned)
    ⟨held₁, rfl, rfl⟩
    (by
      rintro w a w' ⟨held, hissued, hreturned⟩ ⟨hstep, reporting, spared⟩
      obtain ⟨held', hissued', hreturned'⟩ :=
        held.step hid reporting spared (steps_of_step hstep)
      exact ⟨held', hissued'.trans hissued, hreturned'.trans hreturned⟩)
  exact ⟨held.current, kept⟩

/-! ## One transfer that keeps the slot and one that loses it -/

/-- Thread 0 claims the slot on path `o`. -/
def claimBy (o : Owner) : List Act :=
  .tryBegin 0 o :: List.replicate 5 (.advance 0)

/-- Thread 0 reports three times, a hundred seconds apart, and then another
thread asks for the slot. -/
def contested (o : Owner) : List Act :=
  [.tick (secs 100), .report 0 1 o, .tick (secs 100), .report 0 1 o,
    .tryBegin 1 .quickShareReceive, .advance 1, .advance 1]

/-- A Quick Share receive that reports like this still has the slot after the
other thread's check. -/
theorem reporting_receive_keeps_slot :
    ∃ w₀ w₁ w₂, Lts.Run (Lts.ofPartial step) {} (claimBy .quickShareReceive) w₀ ∧
      w₀.step (.report 0 1 .quickShareReceive) = some w₁ ∧
      Lts.Run (Lts.Restrict (Lts.ofPartial step)
        fun w a => Reporting 1 w a ∧ Spared 1 w a) w₁ (contested .quickShareReceive) w₂ ∧
      w₂.shared.current = 1 ∧ w₂.returned = w₁.returned := by
  obtain ⟨w₀, start, current, quiet, w₁, report, w₂, run⟩ :
      ∃ w₀, (claimBy .quickShareReceive).foldlM step {} = some w₀ ∧
        w₀.shared.current = 1 ∧ (∀ u, threatens 1 (w₀.pc u) = false) ∧
        ∃ w₁, w₀.step (.report 0 1 .quickShareReceive) = some w₁ ∧
        ∃ w₂, (contested .quickShareReceive).foldlM (Lts.guarded step
          fun w a => Reporting 1 w a ∧ Spared 1 w a) w₁ = some w₂ :=
    ⟨_, rfl, rfl, fun u => by cases u <;> rfl, _, rfl, _, rfl⟩
  have start' := Lts.run_foldlM step start
  have run' := (Lts.run_foldlM _ run).of_guarded
  obtain ⟨kept, -, returned⟩ :=
    live_transfer_keeps_slot start' current report rfl quiet run'
  exact ⟨w₀, w₁, w₂, start', report, run', kept, returned⟩

/-- An AirDrop send that reports just as often is presumed dead: the other
thread takes the slot from it and returns id 2. -/
theorem reporting_send_loses_slot :
    ∃ w₀ w₁ w₂, Lts.Run (Lts.ofPartial step) {} (claimBy .airdropSend) w₀ ∧
      w₀.shared.current = 1 ∧ w₀.step (.report 0 1 .airdropSend) = some w₁ ∧
      Lts.Run (Lts.Restrict (Lts.ofPartial step) (Reporting 1)) w₁
        (contested .airdropSend ++ List.replicate 13 (Act.advance 1)) w₂ ∧
      w₁.returned = [1] ∧ w₂.returned = [1, 2] := by
  obtain ⟨w₀, start, current, w₁, report, w₂, run, returned₁, returned₂⟩ :
      ∃ w₀, (claimBy .airdropSend).foldlM step {} = some w₀ ∧
        w₀.shared.current = 1 ∧
        ∃ w₁, w₀.step (.report 0 1 .airdropSend) = some w₁ ∧
        ∃ w₂, (contested .airdropSend ++ List.replicate 13 (Act.advance 1)).foldlM
          (Lts.guarded step (Reporting 1)) w₁ = some w₂ ∧
          w₁.returned = [1] ∧ w₂.returned = [1, 2] :=
    ⟨_, rfl, rfl, _, rfl, _, rfl, rfl, rfl⟩
  exact ⟨w₀, w₁, w₂, Lts.run_foldlM step start, current, report,
    (Lts.run_foldlM _ run).of_guarded, returned₁, returned₂⟩

end World

end Sharingd
