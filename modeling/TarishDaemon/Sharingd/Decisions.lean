import TarishDaemon.Sharingd.Transfers

/-!
# A person's answer, and a cancel

A thread waits in `await_answer(id)` for the answer to the offer it has put on the screen, and
asks `is_cancelled(id)` while the transfer runs.  One slot holds the last answer given, for
whichever transfer, and one number the last transfer cancelled.  `await_answer` discards a
late answer to another offer; but by then that answer may have taken the place of the one
that was awaited, and in the same way a late cancel takes the place of the one before it.

Around the waiting thread any other may make any `Call`.  `told` records the answers given to
this offer during the wait and `stopped` that this transfer has been cancelled; no branch
reads either.
-/

namespace Sharingd

inductive Wait
  | looking
  | sleeping
  | returned (answer : Option Bool)
  deriving DecidableEq, Repr

structure Awaiting where
  id : Int
  s : TransferState
  due : Nat
  now : Nat
  next : Wait := .looking
  told : List Bool := []
  stopped : Bool := false
  deriving DecidableEq, Repr

namespace Awaiting

/-- The next operation of `await_answer`: a look at the slot and then at the clock, or the end
of its sleep. -/
def await (w : Awaiting) : Option Awaiting :=
  match w.next with
  | .looking =>
      match w.s.awaitAnswer w.id with
      | (some accept, s) => some { w with s := s, next := .returned (some accept) }
      | (none, s) =>
          if w.due < w.now then some { w with s := s, next := .returned none }
          else some { w with s := s, next := .sleeping }
  | .sleeping => some { w with next := .looking }
  | .returned _ => none

def waits (w : Awaiting) : Bool :=
  match w.next with
  | .looking | .sleeping => true
  | .returned _ => false

/-- What a call is to this wait and this transfer. -/
def noteCall (w : Awaiting) : Call → Awaiting
  | .answer who accept =>
      if who = w.id ∧ w.waits = true then { w with told := w.told ++ [accept] } else w
  | .cancel who => if who = w.id then { w with stopped := true } else w
  | .finish who => if who = w.id then { w with stopped := false } else w
  | _ => w

inductive Move
  | await
  | call (c : Call)
  | tick (ns : Nat)
  deriving DecidableEq, Repr

def step (w : Awaiting) : Move → Option Awaiting
  | .await => w.await
  | .call c => some { w.noteCall c with s := w.s.call c }
  | .tick ns => some { w with now := w.now + ns }

/-- The one answer that was given during the wait is what the wait returns, as soon as the
thread gets to look. -/
def Heard (w : Awaiting) : Prop :=
  ∀ b, w.told = [b] →
    ∃ n ≤ 2, ((List.replicate n Move.await).foldlM step w).map (·.next) = some (.returned (some b))

/-- The transfer, once cancelled, is seen to be until it is finished. -/
def SeenStopped (w : Awaiting) : Prop :=
  w.stopped = true → w.s.isCancelled w.id = true

/-- While the answer lies there nobody else answers or looks, and while the transfer is
cancelled no other one is. -/
def Alone (w : Awaiting) : Move → Prop
  | .call (.answer who _) => who ≠ w.id → w.waits = true → ∀ b, w.told ≠ [b]
  | .call (.awaitAnswer _) => w.waits = true → ∀ b, w.told ≠ [b]
  | .call (.cancel who) => who ≠ w.id → w.stopped = false
  | _ => True

variable {w w' : Awaiting}

/-- What one look finds. -/
theorem await_of_looking (h : w.next = .looking) :
    ∃ v, w.await = some v ∧ v.told = w.told ∧ v.stopped = w.stopped ∧ v.id = w.id ∧
      v.s.cancelled = w.s.cancelled ∧
      (∀ b, v.next = .returned (some b) ↔ w.s.decision = some (w.id, b)) ∧ v.next ≠ .looking := by
  simp only [await, h, TransferState.awaitAnswer]
  cases hslot : w.s.decision with
  | none =>
      simp only []
      split <;> refine ⟨_, rfl, rfl, rfl, rfl, rfl, ?_, ?_⟩ <;> simp
  | some answered =>
      obtain ⟨who, accept⟩ := answered
      by_cases hwho : who = w.id
      · subst hwho
        simp
      · simp only [hwho, if_false]
        split <;> refine ⟨_, rfl, rfl, rfl, rfl, rfl, ?_, ?_⟩ <;> simp [hwho]

theorem await_of_sleeping (h : w.next = .sleeping) :
    w.await = some { w with next := .looking } := by
  simp [await, h]

theorem await_of_returned {answer : Option Bool} (h : w.next = .returned answer) :
    w.await = none := by
  simp [await, h]

/-- The wait has returned the answer, or goes on with the answer in the slot. -/
theorem hears_iff (b : Bool) :
    (∃ n ≤ 2, ((List.replicate n Move.await).foldlM step w).map (·.next) =
        some (.returned (some b))) ↔
      w.next = .returned (some b) ∨ (w.waits = true ∧ w.s.decision = some (w.id, b)) := by
  cases hnext : w.next with
  | returned answer =>
      have hstuck : w.await = none := await_of_returned hnext
      have hwaits : w.waits = false := by simp [waits, hnext]
      constructor
      · rintro ⟨_ | n, -, h⟩
        · exact .inl (by simpa [hnext] using h)
        · simp [List.replicate_succ, step, hstuck] at h
      · rintro (h | ⟨h, -⟩)
        · exact ⟨0, by omega, by simp [hnext, h]⟩
        · simp [hwaits] at h
  | looking =>
      obtain ⟨v, hv, -, -, -, -, hreturned, hmoved⟩ := await_of_looking hnext
      have hwaits : w.waits = true := by simp [waits, hnext]
      constructor
      · rintro ⟨_ | _ | _ | n, hn, h⟩
        · simp [hnext] at h
        · exact .inr ⟨hwaits, (hreturned b).mp (by simpa [step, hv] using h)⟩
        · cases hlooked : v.next with
          | looking => exact absurd hlooked hmoved
          | sleeping => simp [List.replicate_succ, step, hv, await_of_sleeping hlooked] at h
          | returned answer =>
              simp [List.replicate_succ, step, hv, await_of_returned hlooked] at h
        · omega
      · rintro (h | ⟨-, h⟩)
        · cases h
        · exact ⟨1, by omega, by simpa [step, hv] using (hreturned b).mpr h⟩
  | sleeping =>
      have hwake := await_of_sleeping hnext
      obtain ⟨v, hv, -, -, -, -, hreturned, -⟩ :=
        await_of_looking (w := { w with next := .looking }) rfl
      have hwaits : w.waits = true := by simp [waits, hnext]
      constructor
      · rintro ⟨_ | _ | _ | n, hn, h⟩
        · simp [hnext] at h
        · simp [step, hwake] at h
        · refine .inr ⟨hwaits, (hreturned b).mp ?_⟩
          simpa [List.replicate_succ, step, hwake, hv] using h
        · omega
      · rintro (h | ⟨-, h⟩)
        · cases h
        · refine ⟨2, Nat.le_refl _, ?_⟩
          simpa [List.replicate_succ, step, hwake, hv] using (hreturned b).mpr h

/-- What a call leaves of the slot for answers and of the number of the cancelled transfer. -/
theorem call_slots (s : TransferState) (c : Call) :
    (s.call c).decision =
        (match c with
        | .answer who accept => some (who, accept)
        | .awaitAnswer _ => none
        | _ => s.decision) ∧
      (s.call c).cancelled = match c with
        | .cancel who => who
        | _ => s.cancelled := by
  cases c with
  | tryBegin checked stamped needsAwdl =>
      simp only [TransferState.call, TransferState.tryBegin, TransferState.claim,
        TransferState.touch, TransferState.finish_eq]
      grind
  | finish id => exact ⟨rfl, rfl⟩
  | touch now => exact ⟨rfl, rfl⟩
  | armWifiDirect =>
      simp only [TransferState.call, TransferState.armWifiDirect]
      grind
  | armAbort id sock => cases sock <;> exact ⟨rfl, rfl⟩
  | cancel id => exact ⟨rfl, rfl⟩
  | cancelGrace id =>
      simp only [TransferState.call, TransferState.cancelGrace]
      grind
  | provideUpgrade id sock => exact ⟨rfl, rfl⟩
  | awaitUpgrade id =>
      simp only [TransferState.call, TransferState.awaitUpgrade]
      grind
  | answer id accept => exact ⟨rfl, rfl⟩
  | awaitAnswer id =>
      simp only [TransferState.call, TransferState.awaitAnswer]
      grind

theorem heard_iff :
    w.Heard ↔ ∀ b, w.told = [b] →
      w.next = .returned (some b) ∨ (w.waits = true ∧ w.s.decision = some (w.id, b)) := by
  unfold Heard
  simp only [hears_iff]

theorem seenStopped_iff (hid : w.id ≠ 0) :
    w.SeenStopped ↔ (w.stopped = true → w.s.cancelled = w.id) := by
  simp [SeenStopped, TransferState.isCancelled, hid]

@[simp] theorem noteCall_id (w : Awaiting) (c : Call) : (w.noteCall c).id = w.id := by
  cases c <;> simp only [noteCall] <;> split <;> rfl

@[simp] theorem noteCall_next (w : Awaiting) (c : Call) : (w.noteCall c).next = w.next := by
  cases c <;> simp only [noteCall] <;> split <;> rfl

@[simp] theorem noteCall_waits (w : Awaiting) (c : Call) : (w.noteCall c).waits = w.waits := by
  simp [waits]

/-- Only another answer, or another look, can take the answer away. -/
theorem heard_call_iff (hheard : w.Heard) (c : Call) :
    (∀ b, (w.noteCall c).told = [b] →
        w.next = .returned (some b) ∨
          (w.waits = true ∧ (w.s.call c).decision = some (w.id, b))) ↔
      match c with
      | .answer who _ => who ≠ w.id → w.waits = true → ∀ b, w.told ≠ [b]
      | .awaitAnswer _ => w.waits = true → ∀ b, w.told ≠ [b]
      | _ => True := by
  rw [heard_iff] at hheard
  have hreturned : ∀ b, w.next = .returned b → w.waits = false := by
    intro b hb
    simp [waits, hb]
  rw [(call_slots w.s c).1]
  cases c with
  | answer who accept =>
      simp only [noteCall]
      by_cases hmine : who = w.id ∧ w.waits = true
      · refine ⟨fun _ h => absurd hmine.1 h, fun _ b hb => .inr ⟨hmine.2, ?_⟩⟩
        rw [if_pos hmine] at hb
        obtain ⟨-, hlast⟩ := List.append_eq_singleton_iff.mp hb |>.resolve_right (by simp)
        obtain rfl : accept = b := by simpa using hlast
        rw [hmine.1]
      · simp only [hmine, if_false]
        grind
  | awaitAnswer who =>
      simp only [noteCall]
      grind
  | cancel who | finish who =>
      simp only [noteCall]
      refine ⟨fun _ => trivial, fun _ b hb => hheard b ?_⟩
      split at hb <;> exact hb
  | _ => exact ⟨fun _ => trivial, fun _ => hheard⟩

theorem stopped_call_iff (hid : w.id ≠ 0) (hseen : w.SeenStopped) (c : Call) :
    ((w.noteCall c).stopped = true → (w.s.call c).cancelled = w.id) ↔
      match c with
      | .cancel who => who ≠ w.id → w.stopped = false
      | _ => True := by
  rw [seenStopped_iff hid] at hseen
  rw [(call_slots w.s c).2]
  cases c with
  | answer who accept =>
      simp only [noteCall]
      refine ⟨fun _ => trivial, fun _ hb => hseen ?_⟩
      split at hb <;> exact hb
  | cancel who =>
      simp only [noteCall]
      grind
  | finish who =>
      simp only [noteCall]
      grind
  | _ => exact ⟨fun _ => trivial, fun _ => hseen⟩

theorem not_lost_step_iff (hid : w.id ≠ 0) (hkept : w.Heard ∧ w.SeenStopped) {move : Move}
    (hstep : w.step move = some w') : (w'.Heard ∧ w'.SeenStopped) ↔ Alone w move := by
  obtain ⟨hheard, hseen⟩ := hkept
  have hplain := heard_iff.mp hheard
  have hplainSeen := (seenStopped_iff hid).mp hseen
  cases move with
  | tick ns =>
      cases hstep
      refine ⟨fun _ => trivial, fun _ => ⟨?_, (seenStopped_iff hid).mpr hplainSeen⟩⟩
      exact heard_iff.mpr hplain
  | await =>
      refine ⟨fun _ => trivial, fun _ => ?_⟩
      simp only [step] at hstep
      cases hnext : w.next with
      | returned answer => simp [await_of_returned hnext] at hstep
      | sleeping =>
          rw [await_of_sleeping hnext] at hstep
          cases hstep
          refine ⟨heard_iff.mpr fun b hb => .inr ⟨rfl, ?_⟩, (seenStopped_iff hid).mpr hplainSeen⟩
          rcases hplain b hb with h | ⟨-, h⟩
          · rw [hnext] at h
            cases h
          · exact h
      | looking =>
          obtain ⟨v, hv, htold, hstopped, hsame, hcancelled, hreturned, -⟩ :=
            await_of_looking hnext
          obtain rfl : v = w' := Option.some.inj (hv.symm.trans hstep)
          refine ⟨heard_iff.mpr fun b hb => .inl ?_, ?_⟩
          · rcases hplain b (htold.symm.trans hb) with h | ⟨-, h⟩
            · rw [hnext] at h
              cases h
            · exact (hreturned b).mpr h
          · rw [seenStopped_iff (hsame ▸ hid), hstopped, hsame, hcancelled]
            exact hplainSeen
  | call c =>
      cases hstep
      rw [heard_iff, seenStopped_iff (by simpa using hid)]
      change ((∀ b, (w.noteCall c).told = [b] → (w.noteCall c).next = .returned (some b) ∨
          ((w.noteCall c).waits = true ∧ (w.s.call c).decision = some ((w.noteCall c).id, b))) ∧
        ((w.noteCall c).stopped = true → (w.s.call c).cancelled = (w.noteCall c).id)) ↔ _
      rw [noteCall_next, noteCall_waits, noteCall_id, heard_call_iff hheard c,
        stopped_call_iff hid hseen c]
      cases c <;> simp [Alone]

theorem id_step {move : Move} (hstep : w.step move = some w') : w'.id = w.id := by
  cases move with
  | tick ns =>
      cases hstep
      rfl
  | call c =>
      cases hstep
      exact noteCall_id w c
  | await =>
      simp only [step] at hstep
      cases hnext : w.next with
      | returned answer => simp [await_of_returned hnext] at hstep
      | sleeping =>
          rw [await_of_sleeping hnext] at hstep
          cases hstep
          rfl
      | looking =>
          obtain ⟨v, hv, -, -, hsame, -⟩ := await_of_looking hnext
          obtain rfl : v = w' := Option.some.inj (hv.symm.trans hstep)
          exact hsame

open Lts

/-- `await_answer` is called, whatever was answered and cancelled before. -/
def begun (id : Int) (s : TransferState) (due now : Nat) : Awaiting :=
  { id := id, s := s, due := due, now := now }

/-- **A decision is not lost** in any state of a run if and only if nobody else answers, looks
or is cancelled meanwhile. -/
theorem not_lost_iff {id : Int} (hid : id ≠ 0) {s : TransferState} {due now : Nat}
    {acts : List Move} (run : Run (ofPartial step) (begun id s due now) acts w) :
    (∀ pre v, pre <+: acts → Run (ofPartial step) (begun id s due now) pre v →
        v.Heard ∧ v.SeenStopped) ↔
      Run (Restrict (ofPartial step) Alone) (begun id s due now) acts w := by
  apply run.restrict_iff (fun v => v.id ≠ 0) (fun v => v.Heard ∧ v.SeenStopped) hid
  · refine ⟨fun b h => ?_, fun h => ?_⟩
    · cases h
    · cases h
  · intro v _ v' hv hstep
    rw [id_step hstep]
    exact hv
  · exact fun _ _ _ hv hkept hstep => not_lost_step_iff hv hkept hstep

/-- The person says yes, and then cancels. -/
def acceptedThenCancelled : List Move :=
  [.call (.answer 7 true), .await, .call (.cancel 7)]

theorem acceptedThenCancelled_not_lost :
    ∃ w, Run (ofPartial step) (begun 7 {} (secs 60) 0) acceptedThenCancelled w ∧
      w.next = .returned (some true) ∧ w.Heard ∧ w.SeenStopped := by
  have hmeets : Meets step Alone (begun 7 {} (secs 60) 0) acceptedThenCancelled :=
    ⟨fun h => absurd rfl h, trivial, fun h => absurd rfl h, trivial⟩
  have run : Run (Restrict (ofPartial step) Alone) (begun 7 {} (secs 60) 0)
    acceptedThenCancelled _ := run_meets step rfl hmeets
  have hkept := (not_lost_iff (by decide) run.of_restrict).mpr run
  exact ⟨_, run.of_restrict, rfl, hkept _ _ (List.prefix_refl _) run.of_restrict⟩

/-- A late tap on an older prompt comes before the waiting thread gets to look, and a late
cancel of an older transfer after this one's. -/
def lateTaps : List Move :=
  [.call (.answer 7 true), .call (.answer 3 false), .call (.cancel 7), .call (.cancel 3), .await,
    .tick (secs 61), .await, .await]

theorem lateTaps_lost :
    ∃ w, Run (ofPartial step) (begun 7 {} (secs 60) 0) lateTaps w ∧
      w.told = [true] ∧ w.next = .returned none ∧
      w.stopped = true ∧ w.s.isCancelled 7 = false := by
  obtain ⟨w, run, hview⟩ := run_observe step
    (fun w => (w.told, w.next, w.stopped, w.s.isCancelled 7)) (o := ([true], .returned none, true, false))
    (show (lateTaps.foldlM step (begun 7 {} (secs 60) 0)).map _ = _ by decide)
  simp only [Prod.mk.injEq] at hview
  obtain ⟨htold, hnext, hstopped, hcancelled⟩ := hview
  exact ⟨w, run, htold, hnext, hstopped, hcancelled⟩

end Awaiting

end Sharingd
