import TarishDaemon.Sharingd.SlotThreads

/-!
# One user of the radio

AirDrop and a Wi-Fi Direct group cannot share the chip.  A transfer that needs AWDL claims
the radio by `airdrop_pending`, a group by `wifi_direct_active`, and each is to keep out of
the other's way: `arm_wifi_direct` looks for AirDrop, sets its own flag, looks again and
takes the flag back if AirDrop came first.  `try_begin` sets its own without a look at the
other, on the grounds that the slot was free.

`Radio` is the slot under interleaving with the calls of `arm_wifi_direct` beside it, one
atomic operation at a time.  A thread that has an id may make the call at any time, also
when its slot has been reclaimed.
-/

namespace Sharingd

/-- Where a call of `arm_wifi_direct` stands: the operation named is the next one. -/
inductive Arming
  | idle
  | loadActive
  | checkBusy
  | awaitAirdrop (giveUp : Nat)
  | swap
  | recheck
  | yieldRadio
  /-- Waiting for the gate and the interface, which it does not share. -/
  | settle
  deriving DecidableEq, Repr

def armPatience : Nat := secs 15

structure Radio where
  slots : World := {}
  arming : Nat → Arming := fun _ => .idle

/-- The thread that acts. -/
def Act.thread : Act → Option Nat
  | .tryBegin t _ | .finish t _ | .advance t | .report t _ _ | .handOver t _ _ _ | .upload t =>
      some t
  | .tick _ => none

namespace Radio

def setArming (w : Radio) (t : Nat) (a : Arming) : Radio :=
  { w with arming := Function.update w.arming t a }

def setActive (w : Radio) (on : Bool) : Radio :=
  { w with slots := w.slots.setShared { w.slots.shared with wifiDirectActive := on } }

inductive Move
  | slot (act : Act)
  | armWifiDirect (t : Nat)
  /-- The next operation of the call of `arm_wifi_direct` thread `t` is in. -/
  | arm (t : Nat)
  deriving DecidableEq, Repr

def arm (w : Radio) (t : Nat) : Option Radio :=
  match w.arming t with
  | .idle => none
  | .loadActive =>
      if w.slots.shared.wifiDirectActive then some (w.setArming t .idle)
      else some (w.setArming t .checkBusy)
  | .checkBusy =>
      if w.slots.shared.airdropBusy then
        some (w.setArming t (.awaitAirdrop (w.slots.now + armPatience)))
      else some (w.setArming t .swap)
  | .awaitAirdrop giveUp =>
      if w.slots.shared.airdropBusy then
        if w.slots.now ≥ giveUp then some (w.setArming t .idle) else some w
      else some (w.setArming t .swap)
  | .swap =>
      -- someone may have armed it meanwhile
      if w.slots.shared.wifiDirectActive then some (w.setArming t .idle)
      else some ((w.setActive true).setArming t .recheck)
  | .recheck =>
      if w.slots.shared.airdropBusy then some (w.setArming t .yieldRadio)
      else some (w.setArming t .settle)
  | .yieldRadio => some ((w.setActive false).setArming t .idle)
  | .settle => some (w.setArming t .idle)

def step (w : Radio) : Move → Option Radio
  | .slot act =>
      if ∀ t ∈ act.thread, w.arming t = .idle then
        (w.slots.step act).map fun slots => { w with slots := slots }
      else none
  | .armWifiDirect t =>
      if w.slots.pc t = .idle ∧ w.arming t = .idle ∧ w.slots.given t ≠ [] then
        some (w.setArming t .loadActive)
      else none
  | .arm t => w.arm t

/-- No call is in progress. -/
def Quiet (w : Radio) : Prop :=
  ∀ t, w.slots.pc t = .idle ∧ w.arming t = .idle

/-- A finish that has yet to let go of the group's hold on the radio. -/
def Releasing (slots : World) (t : Nat) : Prop :=
  ∃ id rest back, slots.pc t = .finishing id rest back ∧ .releaseWifiDirect ∈ rest

/-- A thread that is to look at AirDrop's claim again, or to let go. -/
def Yields (w : Radio) (t : Nat) : Prop :=
  w.arming t = .recheck ∨ w.arming t = .yieldRadio ∨ Releasing w.slots t

/-- AirDrop's claim is stored while no group has the radio, or while somebody is on the way
who lets go of it. -/
def Unarmed (w : Radio) : Move → Prop
  | .slot (.advance t) =>
      match w.slots.pc t with
      | .storePending o _ =>
          o.needsAwdl = true → w.slots.shared.wifiDirectActive = true → ∃ u, w.Yields u
      | _ => True
  | _ => True

/-- While both have claimed the radio, the group is about to let go. -/
def OneYields (w : Radio) : Prop :=
  w.slots.shared.wifiDirectActive = true → w.slots.shared.airdropPending ≠ 0 → ∃ t, w.Yields t

/-! ## What the slot's own operations do to the radio -/

/-- The group's hold is gone; or nobody has stopped letting go, and AirDrop's claim is what it
was, or gone, or stored by this operation. -/
def RadioStep (v v' : World) (act : Act) : Prop :=
  v'.shared.wifiDirectActive = false ∨
    (v'.shared.wifiDirectActive = v.shared.wifiDirectActive ∧
      (∀ t, Releasing v t → Releasing v' t) ∧
      (v'.shared.airdropPending = v.shared.airdropPending ∨ v'.shared.airdropPending = 0 ∨
        ∃ t o id, act = .advance t ∧ v.pc t = .storePending o id ∧ o.needsAwdl = true))

/-- A thread moves on and goes on letting go, if that is what it was doing. -/
theorem releasing_update {v v' : World} {t : Nat} {pc : Pc}
    (hpc : v'.pc = Function.update v.pc t pc)
    (here : Releasing v t → ∃ id rest back, pc = .finishing id rest back ∧
      .releaseWifiDirect ∈ rest) (u : Nat) (h : Releasing v u) : Releasing v' u := by
  unfold Releasing
  rw [hpc]
  by_cases hut : u = t
  · subst hut
    simpa using here h
  · simpa [Releasing, Function.update_of_ne hut] using h

/-- A thread moves on that is not letting go. -/
theorem releasing_other {v v' : World} {t : Nat} {here pc : Pc} (hhere : v.pc t = here)
    (hother : ∀ id stage rest back, here ≠ .finishing id (stage :: rest) back)
    (hpc : v'.pc = Function.update v.pc t pc) : ∀ u, Releasing v u → Releasing v' u := by
  apply releasing_update hpc
  rintro ⟨id, rest, back, hfinishing, hmem⟩
  cases rest with
  | nil => cases hmem
  | cons stage rest => exact absurd (hhere.symm.trans hfinishing) (hother id stage rest back)

/-- One operation of `finish`. -/
theorem radioStep_stage {v : World} {t : Nat} {id : Int} {stage : FinishStage}
    {rest : List FinishStage} {back : Option Owner}
    (here : v.pc t = .finishing id (stage :: rest) back) :
    RadioStep v (((v.setShared (stage.run id v.shared)).noteStage id stage back).setPc t
      (.finishing id rest back)) (.advance t) := by
  have hnote : ∀ w : World, (w.noteStage id stage back).shared = w.shared ∧
      (w.noteStage id stage back).pc = w.pc := by
    intro w
    cases stage <;> cases back <;> exact ⟨rfl, rfl⟩
  by_cases hrelease : stage = .releaseWifiDirect
  · subst hrelease
    exact .inl rfl
  refine .inr ⟨?_, ?_, ?_⟩
  · rw [World.setPc_shared, (hnote _).1]
    cases stage <;> first | rfl | exact absurd rfl hrelease
  · apply releasing_update
    · simp only [World.setPc, (hnote _).2, World.setShared_pc]
      rfl
    · rintro ⟨i, r, b, hpc, hmem⟩
      rw [here] at hpc
      obtain ⟨rfl, rfl, rfl⟩ := Pc.finishing.inj hpc
      exact ⟨id, rest, back, rfl, (List.mem_cons.mp hmem).resolve_left (Ne.symm hrelease)⟩
  · rw [World.setPc_shared, (hnote _).1, World.setShared_shared]
    cases stage with
    | releaseAirdropPending =>
        simp only [FinishStage.run, casClear]
        split
        · exact .inr (.inl rfl)
        · exact .inl rfl
    | _ => exact .inl rfl

theorem radioStep_of_step {v v' : World} {act : Act} (h : v.step act = some v') :
    RadioStep v v' act := by
  cases World.steps_of_step h with
  | beginFree here free => exact .inr ⟨rfl, releasing_other here (by simp) rfl, .inl rfl⟩
  | beginBusy here taken => exact .inr ⟨rfl, releasing_other here (by simp) rfl, .inl rfl⟩
  | finish here mine => exact .inr ⟨rfl, releasing_other here (by simp) rfl, .inl rfl⟩
  | report here mine =>
      refine .inr ⟨?_, fun u hu => hu, .inl ?_⟩ <;> dsimp only [World.note_shared,
        World.setShared_shared] <;> split <;> rfl
  | handOver here mine => exact .inr ⟨rfl, fun u hu => hu, .inl rfl⟩
  | upload here taken => exact .inr ⟨rfl, fun u hu => hu, .inl rfl⟩
  | tick => exact .inr ⟨rfl, fun u hu => hu, .inl rfl⟩
  | advance move =>
      cases move with
      | stage here => exact radioStep_stage here
      | readStamp here => exact .inr ⟨rfl, releasing_other here (by simp) rfl, .inl rfl⟩
      | stale here old => exact .inr ⟨rfl, releasing_other here (by simp) rfl, .inl rfl⟩
      | busy here fresh => exact .inr ⟨rfl, releasing_other here (by simp) rfl, .inl rfl⟩
      | finished here => exact .inr ⟨rfl, releasing_other here (by simp) rfl, .inl rfl⟩
      | reclaimed here => exact .inr ⟨rfl, releasing_other here (by simp) rfl, .inl rfl⟩
      | draw here => exact .inr ⟨rfl, releasing_other here (by simp) rfl, .inl rfl⟩
      | claim here free => exact .inr ⟨rfl, releasing_other here (by simp) rfl, .inl rfl⟩
      | lose here taken => exact .inr ⟨rfl, releasing_other here (by simp) rfl, .inl rfl⟩
      | storeNeeds here => exact .inr ⟨rfl, releasing_other here (by simp) rfl, .inl rfl⟩
      | stamp here => exact .inr ⟨rfl, releasing_other here (by simp) rfl, .inl rfl⟩
      | @storePending o id here =>
          refine .inr ⟨rfl, releasing_other here (by simp) rfl, ?_⟩
          cases hneeds : o.needsAwdl with
          | true => exact .inr (.inr ⟨_, o, id, rfl, here, hneeds⟩)
          | false => exact .inl (by simp)

/-! ## The invariant -/

variable {w w' : Radio}

theorem yields_setArming {t : Nat} {a : Arming} (hrecheck : w.arming t ≠ .recheck)
    (hyield : w.arming t ≠ .yieldRadio) {u : Nat} (h : w.Yields u) :
    (w.setArming t a).Yields u := by
  by_cases hut : u = t
  · subst hut
    rcases h with h | h | h
    · exact absurd h hrecheck
    · exact absurd h hyield
    · exact .inr (.inr h)
  · simpa [Yields, setArming, Function.update_of_ne hut] using h

/-- A call of `arm_wifi_direct` moves on that has not set its flag yet, or goes on to keep
it. -/
theorem OneYields.setArming (h : OneYields w) {t : Nat} {a : Arming}
    (hrecheck : w.arming t ≠ .recheck) (hyield : w.arming t ≠ .yieldRadio) :
    OneYields (w.setArming t a) := by
  intro hactive hpending
  obtain ⟨u, hu⟩ := h hactive hpending
  exact ⟨u, yields_setArming hrecheck hyield hu⟩

theorem OneYields.arm (h : OneYields w) {t : Nat} (hstep : w.arm t = some w') : OneYields w' := by
  unfold Radio.arm at hstep
  cases hat : w.arming t with
  | idle => simp [hat] at hstep
  | loadActive | checkBusy =>
      simp only [hat] at hstep
      split at hstep <;> cases hstep
      · exact h.setArming (by simp [hat]) (by simp [hat])
      · exact h.setArming (by simp [hat]) (by simp [hat])
  | awaitAirdrop giveUp =>
      simp only [hat] at hstep
      split at hstep
      · split at hstep <;> cases hstep
        · exact h.setArming (by simp [hat]) (by simp [hat])
        · exact h
      · cases hstep
        exact h.setArming (by simp [hat]) (by simp [hat])
  | swap =>
      simp only [hat] at hstep
      split at hstep <;> cases hstep
      · exact h.setArming (by simp [hat]) (by simp [hat])
      · exact fun _ _ => ⟨t, .inl (by simp [Radio.setArming])⟩
  | recheck =>
      simp only [hat] at hstep
      split at hstep
      next =>
        cases hstep
        exact fun _ _ => ⟨t, .inr (.inl (by simp [Radio.setArming]))⟩
      next hquiet =>
        cases hstep
        intro _ hpending
        have hzero : w.slots.shared.airdropPending = 0 := by
          simpa [TransferState.airdropBusy] using hquiet
        exact absurd hzero hpending
  | yieldRadio =>
      simp only [hat] at hstep
      cases hstep
      rintro ⟨⟩
  | settle =>
      simp only [hat] at hstep
      cases hstep
      exact h.setArming (by simp [hat]) (by simp [hat])

theorem OneYields.step (h : OneYields w) {move : Move} (hok : Unarmed w move)
    (hstep : w.step move = some w') : OneYields w' := by
  cases move with
  | armWifiDirect t =>
      simp only [Radio.step] at hstep
      split at hstep
      next hidle =>
        cases hstep
        exact h.setArming (by simp [hidle.2.1]) (by simp [hidle.2.1])
      next => cases hstep
  | arm t => exact h.arm hstep
  | slot act =>
      simp only [Radio.step] at hstep
      split at hstep
      next =>
        obtain ⟨slots, hslots, rfl⟩ := Option.map_eq_some_iff.mp hstep
        rcases radioStep_of_step hslots with hdown | ⟨hactive, hreleasing, hpending⟩
        · intro hup
          simp [hdown] at hup
        · have hkeeps : (∃ t, w.Yields t) → ∃ t, ({ w with slots := slots } : Radio).Yields t := by
            rintro ⟨t, ht | ht | ht⟩
            · exact ⟨t, .inl ht⟩
            · exact ⟨t, .inr (.inl ht)⟩
            · exact ⟨t, .inr (.inr (hreleasing t ht))⟩
          intro hup hclaimed
          rcases hpending with hsame | hzero | ⟨t, o, id, rfl, hpc, hneeds⟩
          · exact hkeeps (h (hactive ▸ hup) (hsame ▸ hclaimed))
          · exact absurd hzero hclaimed
          · simp only [Unarmed, hpc] at hok
            exact hkeeps (hok hneeds (hactive ▸ hup))
      next => cases hstep

open Lts

/-- **One user of the radio** whenever all calls have returned, as long as AirDrop's claim is
never stored under a group that is there to stay. -/
theorem one_radio_user {acts : List Move} (run : Run (Restrict (ofPartial step) Unarmed) {} acts w)
    (quiet : w.Quiet) :
    ¬ (w.slots.shared.wifiDirectActive = true ∧ w.slots.shared.airdropPending ≠ 0) := by
  have hyields : OneYields w :=
    run.invariant OneYields (fun h => by cases h) fun _ _ _ h hstep => h.step hstep.2 hstep.1
  rintro ⟨hactive, hpending⟩
  obtain ⟨t, ht | ht | ⟨id, rest, back, hpc, -⟩⟩ := hyields hactive hpending
  · rw [(quiet t).2] at ht
    cases ht
  · rw [(quiet t).2] at ht
    cases ht
  · rw [(quiet t).1] at hpc
    cases hpc

/-! ## Runs on few threads -/

/-- The thread a move is made on. -/
def Move.thread : Move → Option Nat
  | .slot act => act.thread
  | .armWifiDirect t | .arm t => some t

theorem pc_of_move {v v' : World} {t u : Nat} (h : World.Move v t v') (hne : u ≠ t) :
    v'.pc u = v.pc u := by
  cases h with
  | @stage id stage rest back here =>
      cases stage <;> cases back <;>
        simp [World.noteStage, World.setPc, Function.update_of_ne hne]
  | _ => simp [World.setPc, World.give, Function.update_of_ne hne]

theorem pc_of_step {v v' : World} {act : Act} (h : v.step act = some v') {u : Nat}
    (hne : act.thread ≠ some u) : v'.pc u = v.pc u := by
  cases World.steps_of_step h with
  | advance move => exact pc_of_move move fun heq => hne (by rw [heq]; rfl)
  | @beginFree t o here free | @beginBusy t o here free | @finish t id o here mine =>
      have hut : u ≠ t := fun heq => hne (by rw [heq]; rfl)
      simp [World.setPc, Function.update_of_ne hut]
  | report here mine | handOver here mine | upload here taken | tick => rfl

/-- An operation of `arm_wifi_direct` moves its own thread on and may write the flag. -/
theorem arm_moves {t : Nat} (h : w.arm t = some w') :
    w' = w ∨ ∃ a, w' = w.setArming t a ∨ ∃ on, w' = (w.setActive on).setArming t a := by
  unfold Radio.arm at h
  split at h
  case h_1 => cases h
  case h_2 | h_3 | h_6 => split at h <;> cases h <;> exact .inr ⟨_, .inl rfl⟩
  case h_4 =>
    split at h
    · split at h <;> cases h
      · exact .inr ⟨_, .inl rfl⟩
      · exact .inl rfl
    · cases h
      exact .inr ⟨_, .inl rfl⟩
  case h_5 =>
    split at h <;> cases h
    · exact .inr ⟨_, .inl rfl⟩
    · exact .inr ⟨_, .inr ⟨_, rfl⟩⟩
  case h_7 =>
    cases h
    exact .inr ⟨_, .inr ⟨_, rfl⟩⟩
  case h_8 =>
    cases h
    exact .inr ⟨_, .inl rfl⟩

theorem thread_of_step {move : Move} (h : w.step move = some w') {u : Nat}
    (hne : move.thread ≠ some u) : w'.slots.pc u = w.slots.pc u ∧ w'.arming u = w.arming u := by
  cases move with
  | slot act =>
      simp only [step] at h
      split at h
      next =>
        obtain ⟨slots, hslots, rfl⟩ := Option.map_eq_some_iff.mp h
        exact ⟨pc_of_step hslots hne, rfl⟩
      next => cases h
  | armWifiDirect t =>
      have hut : u ≠ t := fun heq => hne (by rw [heq]; rfl)
      simp only [step] at h
      split at h <;> cases h
      simp [setArming, Function.update_of_ne hut]
  | arm t =>
      have hut : u ≠ t := fun heq => hne (by rw [heq]; rfl)
      rcases arm_moves h with rfl | ⟨a, rfl | ⟨on, rfl⟩⟩
      · exact ⟨rfl, rfl⟩
      · simp [setArming, Function.update_of_ne hut]
      · simp [setArming, setActive, Function.update_of_ne hut]

/-- Every call has returned once those have that were made. -/
theorem quiet_of_run {acts : List Move} (run : Run (ofPartial step) {} acts w)
    (h : ∀ move ∈ acts, ∀ t, move.thread = some t → w.slots.pc t = .idle ∧ w.arming t = .idle) :
    w.Quiet := by
  intro t
  by_cases hmade : ∃ move ∈ acts, move.thread = some t
  · obtain ⟨move, hmove, ht⟩ := hmade
    exact h move hmove t ht
  · have hnone : ∀ move ∈ acts, move.thread ≠ some t := fun move hmove ht =>
      hmade ⟨move, hmove, ht⟩
    clear h hmade
    induction run with
    | nil => exact ⟨rfl, rfl⟩
    | snoc _ last ih =>
        obtain ⟨hpc, harming⟩ := thread_of_step last (hnone _ (by simp))
        rw [hpc, harming]
        exact ih fun move hmove => hnone move (List.mem_append_left _ hmove)

/-- How a run on the first two threads ends. -/
def outcome (w : Radio) : (Pc × Arming) × (Pc × Arming) × Bool × Int :=
  ((w.slots.pc 0, w.arming 0), (w.slots.pc 1, w.arming 1), w.slots.shared.wifiDirectActive,
    w.slots.shared.airdropPending)

theorem quiet_of_outcome {acts : List Move} (run : Run (ofPartial step) {} acts w)
    (hthreads : ∀ move ∈ acts, move.thread ∈ [none, some 0, some 1]) {on : Bool} {pending : Int}
    (h : w.outcome = ((.idle, .idle), (.idle, .idle), on, pending)) : w.Quiet := by
  simp only [outcome, Prod.mk.injEq] at h
  obtain ⟨hzero, hone, -⟩ := h
  apply quiet_of_run run
  intro move hmove t ht
  have hmem := hthreads move hmove
  rw [ht] at hmem
  obtain rfl | rfl : t = 0 ∨ t = 1 := by simpa using hmem
  · exact hzero
  · exact hone

/-- A Quick Share transfer is begun and takes the radio. -/
def groupAlone : List Move :=
  [.slot (.tryBegin 0 .quickShareReceive), .slot (.advance 0), .slot (.advance 0),
    .slot (.advance 0), .slot (.advance 0), .slot (.advance 0), .armWifiDirect 0, .arm 0, .arm 0,
    .arm 0, .arm 0, .arm 0]

theorem groupAlone_one_user :
    ∃ w : Radio, w.slots.shared.wifiDirectActive = true ∧ w.slots.shared.airdropPending = 0 := by
  have hmeets : Meets step Unarmed {} groupAlone := by
    refine ⟨trivial, trivial, trivial, trivial, ?_, trivial, trivial, trivial, trivial, trivial,
      trivial, trivial, trivial⟩
    intro _ hup
    cases hup
  obtain ⟨w, run, hw⟩ := run_meets_observe step outcome
    (o := ((.idle, .idle), (.idle, .idle), true, 0)) (by decide) hmeets
  have hquiet := quiet_of_outcome run.of_restrict (by decide) hw
  have honly := one_radio_user run hquiet
  simp only [outcome, Prod.mk.injEq] at hw
  obtain ⟨-, -, hactive, -⟩ := hw
  exact ⟨w, hactive, by simpa [hactive] using honly⟩

/-- The transfer falls silent and is reclaimed for AirDrop, and its thread, which still runs,
takes the radio before AirDrop has stored its claim. -/
def staleTakesRadio : List Move :=
  [.slot (.tryBegin 0 .quickShareReceive), .slot (.advance 0), .slot (.advance 0),
    .slot (.advance 0), .slot (.advance 0), .slot (.advance 0), .slot (.tick (secs 181)),
    .slot (.tryBegin 1 .airdropReceive)] ++
  List.replicate 13 (.slot (.advance 1)) ++
  [.armWifiDirect 0, .arm 0, .arm 0, .arm 0, .arm 0, .arm 0, .slot (.advance 1),
    .slot (.advance 1)]

theorem two_radio_users :
    ∃ w, Run (ofPartial step) {} staleTakesRadio w ∧ w.Quiet ∧
      w.slots.shared.wifiDirectActive = true ∧ w.slots.shared.airdropPending ≠ 0 := by
  obtain ⟨w, run, hw⟩ := run_observe step outcome
    (show (staleTakesRadio.foldlM step {}).map outcome =
      some ((.idle, .idle), (.idle, .idle), true, 2) by decide)
  have hquiet := quiet_of_outcome run (by decide) hw
  simp only [outcome, Prod.mk.injEq] at hw
  obtain ⟨-, -, hactive, hpending⟩ := hw
  exact ⟨w, run, hquiet, hactive, by simp [hpending]⟩

end Radio

end Sharingd
