import TarishDaemon.Sharingd.Answers

/-!
# Asking for a group, again and again

`host_group` asks the clients to stand up a Wi-Fi Direct group every two seconds until one
answers or thirty seconds are over.  `await_group` makes one `None` of a decline, of a cancel
and of two seconds without an answer, and the loop cannot tell them apart: whoever declines is
asked again at once.

A step of `HostGroup` is one operation of the transfer's thread, of a client that answers or
of a cancel.  `rounds` counts how often the clients were asked, and `refused` records that a
decline has been accepted for the request or the transfer has been cancelled; no branch reads
either.
-/

namespace Sharingd

open AnswerSlot

variable {G : Type*}

def groupWait : Nat := secs 30

def groupAskInterval : Nat := secs 2

/-- What `host_group` does next. -/
inductive Hosting (G : Type*)
  | armWifiDirect
  /-- The loop comes round. -/
  | loop (deadline : Nat)
  | wantGroup (deadline : Nat)
  | onGroupNeeded (deadline : Nat)
  /-- `await_group` looks, and goes on until `due`. -/
  | awaitGroup (deadline due : Nat)
  | sleep (deadline due : Nat)
  | stopWantingGroup (group : Option G)
  | returned (group : Option G)

structure HostGroup (G : Type*) where
  id : Int
  desk : Desk Int (Option G) := {}
  groupWanted : Int := 0
  cancelled : Int := 0
  /-- Whether the lock of the callback list is poisoned. -/
  poisoned : Bool := false
  now : Nat := 0
  next : Hosting G := .armWifiDirect
  rounds : Nat := 0
  refused : Bool := false

namespace HostGroup

def isCancelled (w : HostGroup G) : Bool :=
  decide (w.id ≠ 0 ∧ w.cancelled = w.id)

/-- One look of `await_group`, under the lock of the slot. -/
def lookForGroup (w : HostGroup G) (deadline due : Nat) : HostGroup G :=
  match w.desk.take w.id with
  | (some (some g), desk) => { w with desk := desk, next := .stopWantingGroup (some g) }
  | (some none, desk) => { w with desk := desk, next := .loop deadline }
  | (none, _) =>
      if w.isCancelled then { w with next := .loop deadline }
      else if due < w.now then { w with next := .loop deadline }
      else { w with next := .sleep deadline due }

/-- The next operation of `host_group`, where `armed` is what `arm_wifi_direct` returns. -/
def host (w : HostGroup G) (armed : Bool) : Option (HostGroup G) :=
  match w.next with
  | .armWifiDirect =>
      if armed then some { w with next := .loop (w.now + groupWait) }
      else some { w with next := .returned none }
  | .loop deadline =>
      if w.now < deadline then some { w with next := .wantGroup deadline }
      else some { w with next := .stopWantingGroup none }
  | .wantGroup deadline =>
      some { w with groupWanted := w.id, next := .onGroupNeeded deadline }
  | .onGroupNeeded deadline =>
      if w.poisoned then some { w with next := .stopWantingGroup none }
      else
        some { w with
          rounds := w.rounds + 1, next := .awaitGroup deadline (w.now + groupAskInterval) }
  | .awaitGroup deadline due => some (w.lookForGroup deadline due)
  | .sleep deadline due => some { w with next := .awaitGroup deadline due }
  | .stopWantingGroup group => some { w with groupWanted := 0, next := .returned group }
  | .returned _ => none

inductive Move (G : Type*)
  | host (armed : Bool)
  | provideGroup (c : Nat) (id : Int) (group : Option G)
  | storeGroup (c : Nat)
  | cancel (id : Int)
  | tick (ns : Nat)

/-- Whether what a client is about to store declines the request that is outstanding. -/
def declines (w : HostGroup G) (c : Nat) : Bool :=
  match w.desk.calls c with
  | some (who, none) => decide (who = w.id ∧ w.groupWanted = w.id)
  | _ => false

def step (w : HostGroup G) : Move G → Option (HostGroup G)
  | .host armed => w.host armed
  | .provideGroup c id group =>
      if (w.desk.calls c).isSome then none
      else some { w with desk := provideGroup w.desk w.groupWanted c id group }
  | .storeGroup c =>
      (w.desk.store c).map fun desk =>
        { w with desk := desk, refused := w.refused || w.declines c }
  | .cancel id => some { w with cancelled := id, refused := w.refused || decide (id = w.id) }
  | .tick ns => some { w with now := w.now + ns }

/-- `host_group` has looked at the clock and is about to ask, or has a group and is about to
return it. -/
def Committed : Hosting G → Prop
  | .wantGroup _ | .onGroupNeeded _ | .stopWantingGroup (some _) => True
  | _ => False

/-- Nobody refuses before the time is up: not while the loop comes round with time left, not
before a group that has been provided is returned. -/
def RefusedLate (w : HostGroup G) : Move G → Prop
  | .host _ =>
      match w.next with
      | .loop deadline => w.now < deadline → w.refused = false
      | .awaitGroup _ _ => ∀ g, w.desk.slot = some (w.id, some g) → w.refused = false
      | _ => True
  | .storeGroup c => w.declines c = true → ¬ Committed w.next
  | .cancel id => id = w.id → ¬ Committed w.next
  | _ => True

def maxRounds : Nat := groupWait / groupAskInterval + 1

/-- The rounds so far took two seconds each up to `until`, but for one that a decline from
before the request may have cut short. -/
def Paced (w : HostGroup G) (deadline upTo : Nat) : Prop :=
  w.refused = false →
    ∃ spare ≤ 1, (w.desk.slot = some (w.id, none) → spare = 0) ∧
      w.rounds * groupAskInterval + deadline ≤ upTo + groupWait + spare * groupAskInterval

/-- The request is open, or nobody has been asked and the time has just begun to run. -/
def Opened (w : HostGroup G) (deadline : Nat) : Prop :=
  w.groupWanted = w.id ∨ (w.rounds = 0 ∧ deadline ≤ w.now + groupWait)

def Timely (w : HostGroup G) : Hosting G → Prop
  | .armWifiDirect => w.rounds = 0
  | .loop deadline => w.Paced deadline w.now ∧ w.Opened deadline
  | .wantGroup deadline =>
      w.Paced deadline w.now ∧ w.Opened deadline ∧ w.rounds < maxRounds
  | .onGroupNeeded deadline =>
      w.Paced deadline w.now ∧ w.groupWanted = w.id ∧ w.rounds < maxRounds
  | .awaitGroup deadline due | .sleep deadline due =>
      w.Paced deadline due ∧ w.groupWanted = w.id ∧ due ≤ w.now + groupAskInterval
  | .stopWantingGroup _ | .returned _ => True

structure Orderly (w : HostGroup G) : Prop where
  cancelled : w.isCancelled = true → w.refused = true
  uncommitted : w.refused = true → ¬ Committed w.next
  timely : w.Timely w.next
  bounded : w.rounds ≤ maxRounds

variable {w w' : HostGroup G}

theorem Paced.mono {deadline upTo upTo' : Nat} (h : Paced w deadline upTo) (hle : upTo ≤ upTo')
    (hrounds : w'.rounds = w.rounds) (hrefused : w'.refused = false → w.refused = false)
    (hslot : w'.desk.slot = some (w'.id, none) → w.desk.slot = some (w.id, none)) :
    Paced w' deadline upTo' := by
  intro hnot
  obtain ⟨spare, hone, hzero, hpace⟩ := h (hrefused hnot)
  refine ⟨spare, hone, fun hdecline => hzero (hslot hdecline), ?_⟩
  rw [hrounds]
  omega

/-- With time left there is a round left. -/
theorem Paced.rounds_lt {deadline : Nat} (h : Paced w deadline w.now) (hleft : w.now < deadline)
    (hnot : w.refused = false) : w.rounds < maxRounds := by
  obtain ⟨spare, hone, -, hpace⟩ := h hnot
  have hsixteen : maxRounds = 16 := rfl
  simp only [groupAskInterval, groupWait, secs] at hpace
  omega

theorem Orderly.lookForGroup (h : Orderly w) {deadline due : Nat}
    (hnext : w.next = .awaitGroup deadline due) (hok : RefusedLate w (.host true)) :
    Orderly (w.lookForGroup deadline due) := by
  have htimely := h.timely
  simp only [RefusedLate, hnext] at hok
  rw [hnext] at htimely
  obtain ⟨hpaced, hopen, hdue⟩ := htimely
  have hstays : w.desk.take w.id = (none, w.desk) ∨
      ∃ answer, w.desk.slot = some (w.id, answer) ∧
        w.desk.take w.id = (some answer, { w.desk with slot := none }) := by
    unfold Desk.take
    grind
  rcases hstays with htake | ⟨answer, hslot, htake⟩
  · simp only [HostGroup.lookForGroup, htake]
    split
    next hcancelled =>
      have hrefused := h.cancelled hcancelled
      refine ⟨h.cancelled, fun _ => False.elim, ⟨fun hnot => ?_, .inl hopen⟩, h.bounded⟩
      simp [hrefused] at hnot
    next =>
      split
      next hlate =>
        refine ⟨h.cancelled, fun _ => False.elim, ⟨?_, .inl hopen⟩, h.bounded⟩
        exact hpaced.mono (Nat.le_of_lt hlate) rfl (fun hnot => hnot) fun hslot => hslot
      next => exact ⟨h.cancelled, fun _ => False.elim, ⟨hpaced, hopen, hdue⟩, h.bounded⟩
  · cases answer with
    | some g =>
        simp only [HostGroup.lookForGroup, htake]
        refine ⟨h.cancelled, fun hrefused => ?_, trivial, h.bounded⟩
        simp [hok g hslot] at hrefused
    | none =>
        simp only [HostGroup.lookForGroup, htake]
        refine ⟨h.cancelled, fun _ => False.elim, ⟨fun hnot => ?_, .inl hopen⟩, h.bounded⟩
        obtain ⟨spare, -, hzero, hpace⟩ := hpaced hnot
        obtain rfl := hzero hslot
        refine ⟨1, Nat.le_refl _, by simp, ?_⟩
        dsimp only
        omega

theorem Orderly.host (h : Orderly w) {armed : Bool} (hok : RefusedLate w (.host armed))
    (hstep : w.host armed = some w') : Orderly w' := by
  have htimely := h.timely
  have huncommitted := h.uncommitted
  cases hnext : w.next with
  | armWifiDirect =>
      simp only [HostGroup.host, hnext] at hstep
      rw [hnext] at htimely
      have hzero : w.rounds = 0 := htimely
      split at hstep <;> cases hstep
      · refine ⟨h.cancelled, fun _ => False.elim, ⟨fun _ => ⟨0, Nat.zero_le _, fun _ => rfl, ?_⟩, ?_⟩,
          h.bounded⟩
        · simp [hzero]
        · exact .inr ⟨hzero, Nat.le_refl _⟩
      · exact ⟨h.cancelled, fun _ => False.elim, trivial, h.bounded⟩
  | loop deadline =>
      simp only [HostGroup.host, hnext] at hstep
      simp only [RefusedLate, hnext] at hok
      rw [hnext] at htimely
      obtain ⟨hpaced, hopen⟩ := htimely
      split at hstep <;> cases hstep
      next hleft =>
        have hnot := hok hleft
        refine ⟨h.cancelled, fun hrefused => ?_, ⟨hpaced, hopen, ?_⟩, h.bounded⟩
        · simp [hnot] at hrefused
        · exact hpaced.rounds_lt hleft hnot
      next => exact ⟨h.cancelled, fun _ => False.elim, trivial, h.bounded⟩
  | wantGroup deadline =>
      simp only [HostGroup.host, hnext] at hstep
      rw [hnext] at htimely huncommitted
      obtain ⟨hpaced, -, hlt⟩ := htimely
      cases hstep
      exact ⟨h.cancelled, fun hrefused => (huncommitted hrefused trivial).elim,
        ⟨hpaced, rfl, hlt⟩, h.bounded⟩
  | onGroupNeeded deadline =>
      simp only [HostGroup.host, hnext] at hstep
      rw [hnext] at htimely
      obtain ⟨hpaced, hopen, hlt⟩ := htimely
      split at hstep <;> cases hstep
      · exact ⟨h.cancelled, fun _ => False.elim, trivial, h.bounded⟩
      · refine ⟨h.cancelled, fun _ => False.elim, ⟨fun hnot => ?_, hopen, Nat.le_refl _⟩, hlt⟩
        obtain ⟨spare, hone, hzero, hpace⟩ := hpaced hnot
        refine ⟨spare, hone, hzero, ?_⟩
        dsimp only
        rw [Nat.add_mul]
        omega
  | awaitGroup deadline due =>
      simp only [HostGroup.host, hnext] at hstep
      cases hstep
      apply h.lookForGroup hnext
      simpa only [RefusedLate, hnext] using hok
  | sleep deadline due =>
      simp only [HostGroup.host, hnext] at hstep
      rw [hnext] at htimely
      cases hstep
      exact ⟨h.cancelled, fun _ => False.elim, htimely, h.bounded⟩
  | stopWantingGroup group =>
      simp only [HostGroup.host, hnext] at hstep
      cases hstep
      exact ⟨h.cancelled, fun _ => False.elim, trivial, h.bounded⟩
  | returned group => simp [HostGroup.host, hnext] at hstep

/-- What a client does, a cancel or the clock leaves the pace as it is. -/
theorem Timely.frame (h : w.Timely w.next) (hid : w'.id = w.id)
    (hnext : w'.next = w.next) (hwanted : w'.groupWanted = w.groupWanted)
    (hrounds : w'.rounds = w.rounds) (hnow : w.now ≤ w'.now)
    (hrefused : w'.refused = false → w.refused = false)
    (hslot : w'.refused = false → w'.desk.slot = some (w'.id, none) →
      w.desk.slot = some (w.id, none) ∨ w.groupWanted ≠ w.id) :
    w'.Timely w'.next := by
  have hpaced : ∀ {deadline upTo upTo'}, w.Paced deadline upTo → upTo ≤ upTo' →
      w.groupWanted = w.id → w'.Paced deadline upTo' := by
    intro deadline upTo upTo' hbefore hle hopen hnot
    obtain ⟨spare, hone, hzero, hpace⟩ := hbefore (hrefused hnot)
    refine ⟨spare, hone, fun hdecline => ?_, ?_⟩
    · rcases hslot hnot hdecline with hsame | hclosed
      · exact hzero hsame
      · exact absurd hopen hclosed
    · rw [hrounds]
      omega
  have hearly : ∀ {deadline}, w.Paced deadline w.now → w.Opened deadline →
      w'.Paced deadline w'.now ∧ w'.Opened deadline := by
    rintro deadline hbefore (hopen | ⟨hzero, hfirst⟩)
    · exact ⟨hpaced hbefore hnow hopen, .inl (by rw [hwanted, hid, hopen])⟩
    · refine ⟨fun _ => ⟨0, Nat.zero_le _, fun _ => rfl, ?_⟩, .inr ⟨hrounds.trans hzero, ?_⟩⟩
      · rw [hrounds, hzero]
        omega
      · omega
  rw [hnext]
  cases hphase : w.next with
  | armWifiDirect =>
      rw [hphase] at h
      exact hrounds.trans h
  | loop deadline =>
      rw [hphase] at h
      exact hearly h.1 h.2
  | wantGroup deadline =>
      rw [hphase] at h
      obtain ⟨hbefore, hopened, hlt⟩ := h
      have hboth := hearly hbefore hopened
      exact ⟨hboth.1, hboth.2, hrounds ▸ hlt⟩
  | onGroupNeeded deadline =>
      rw [hphase] at h
      obtain ⟨hbefore, hopen, hlt⟩ := h
      exact ⟨hpaced hbefore hnow hopen, by rw [hwanted, hid, hopen], hrounds ▸ hlt⟩
  | awaitGroup deadline due | sleep deadline due =>
      rw [hphase] at h
      obtain ⟨hbefore, hopen, hdue⟩ := h
      refine ⟨hpaced hbefore (Nat.le_refl _) hopen, by rw [hwanted, hid, hopen], ?_⟩
      omega
  | stopWantingGroup group | returned group => trivial

theorem Orderly.step (h : Orderly w) {move : Move G} (hok : RefusedLate w move)
    (hstep : w.step move = some w') : Orderly w' := by
  have htimely := h.timely
  cases move with
  | host armed => exact h.host hok hstep
  | provideGroup c who group =>
      simp only [HostGroup.step] at hstep
      split at hstep <;> cases hstep
      have hslot : (provideGroup w.desk w.groupWanted c who group).slot = w.desk.slot := by
        unfold provideGroup
        split <;> rfl
      refine ⟨h.cancelled, h.uncommitted, ?_, h.bounded⟩
      refine htimely.frame rfl rfl rfl rfl (Nat.le_refl _) (fun hnot => hnot) fun _ hdecline => ?_
      exact .inl (hslot.symm.trans hdecline)
  | storeGroup c =>
      obtain ⟨desk, hstore, rfl⟩ := Option.map_eq_some_iff.mp hstep
      obtain ⟨note, hnote, rfl⟩ := Option.map_eq_some_iff.mp hstore
      refine ⟨fun hcancelled => ?_, fun hrefused => ?_, ?_, h.bounded⟩
      · simp [h.cancelled hcancelled]
      · rcases Bool.or_eq_true _ _ ▸ hrefused with hbefore | hdeclines
        · exact h.uncommitted hbefore
        · exact hok hdeclines
      · refine htimely.frame rfl rfl rfl rfl (Nat.le_refl _) ?_ ?_
        · intro hnot
          exact (Bool.or_eq_false_iff.mp hnot).1
        · intro hnot hdecline
          have hdeclines := (Bool.or_eq_false_iff.mp hnot).2
          obtain rfl : note = (w.id, none) := Option.some.inj hdecline
          exact .inr (by simpa [declines, hnote] using hdeclines)
  | cancel who =>
      cases hstep
      refine ⟨fun hcancelled => ?_, fun hrefused => ?_, ?_, h.bounded⟩
      · have hwho : w.id ≠ 0 ∧ who = w.id := by simpa [isCancelled] using hcancelled
        simp [hwho.2]
      · rcases Bool.or_eq_true _ _ ▸ hrefused with hbefore | hwho
        · exact h.uncommitted hbefore
        · exact hok (of_decide_eq_true hwho)
      · refine htimely.frame rfl rfl rfl rfl (Nat.le_refl _) ?_ ?_
        · intro hnot
          exact (Bool.or_eq_false_iff.mp hnot).1
        · exact fun _ hdecline => .inl hdecline
  | tick ns =>
      cases hstep
      refine ⟨h.cancelled, h.uncommitted, ?_, h.bounded⟩
      exact htimely.frame rfl rfl rfl rfl (Nat.le_add_right _ _) (fun hnot => hnot)
        fun _ hdecline => .inl hdecline

/-! ## After a refusal -/

/-- The request has been refused after `rounds` rounds, and no group will come of it. -/
structure Ended (rounds : Nat) (w : HostGroup G) : Prop where
  orderly : Orderly w
  refused : w.refused = true
  rounds_eq : w.rounds = rounds
  no_group : ∀ g, w.next ≠ .returned (some g)

theorem Ended.host {n : Nat} (h : Ended n w) {armed : Bool} (hstep : w.host armed = some w') :
    w'.refused = true ∧ w'.rounds = n ∧ ∀ g, w'.next ≠ .returned (some g) := by
  have hfree : ¬ Committed w.next := h.orderly.uncommitted h.refused
  have hrefused := h.refused
  cases hnext : w.next with
  | armWifiDirect =>
      simp only [HostGroup.host, hnext] at hstep
      split at hstep <;> cases hstep <;> exact ⟨h.refused, h.rounds_eq, by simp⟩
  | loop deadline =>
      simp only [HostGroup.host, hnext] at hstep
      split at hstep <;> cases hstep <;> exact ⟨h.refused, h.rounds_eq, by simp⟩
  | wantGroup deadline | onGroupNeeded deadline =>
      rw [hnext] at hfree
      exact (hfree trivial).elim
  | awaitGroup deadline due =>
      simp only [HostGroup.host, hnext] at hstep
      cases hstep
      unfold HostGroup.lookForGroup
      split
      · exact ⟨h.refused, h.rounds_eq, by simp⟩
      · exact ⟨h.refused, h.rounds_eq, by simp⟩
      · split
        · exact ⟨h.refused, h.rounds_eq, by simp⟩
        · split <;> exact ⟨h.refused, h.rounds_eq, by simp⟩
  | sleep deadline due =>
      simp only [HostGroup.host, hnext] at hstep
      cases hstep
      exact ⟨h.refused, h.rounds_eq, by simp⟩
  | stopWantingGroup group =>
      simp only [HostGroup.host, hnext] at hstep
      cases hstep
      refine ⟨h.refused, h.rounds_eq, ?_⟩
      intro g hg
      obtain rfl : group = some g := by simpa using hg
      rw [hnext] at hfree
      exact hfree trivial
  | returned group => simp [HostGroup.host, hnext] at hstep

theorem Ended.step {n : Nat} (h : Ended n w) {move : Move G} (hok : RefusedLate w move)
    (hstep : w.step move = some w') : Ended n w' := by
  have horderly : Orderly w' := h.orderly.step hok hstep
  cases move with
  | host armed =>
      obtain ⟨hrefused, hrounds, hnone⟩ := h.host hstep
      exact ⟨horderly, hrefused, hrounds, hnone⟩
  | provideGroup c who group =>
      simp only [HostGroup.step] at hstep
      split at hstep <;> cases hstep
      exact ⟨horderly, h.refused, h.rounds_eq, h.no_group⟩
  | storeGroup c =>
      obtain ⟨desk, -, rfl⟩ := Option.map_eq_some_iff.mp hstep
      exact ⟨horderly, by simp [h.refused], h.rounds_eq, h.no_group⟩
  | cancel who =>
      cases hstep
      exact ⟨horderly, by simp [h.refused], h.rounds_eq, h.no_group⟩
  | tick ns =>
      cases hstep
      exact ⟨horderly, h.refused, h.rounds_eq, h.no_group⟩

/-- Its own operations and the passing of time bring `host_group` to return. -/
inductive Returns (armed : Bool) : HostGroup G → Prop
  | returned {w : HostGroup G} {group : Option G} (h : w.next = .returned group) : Returns armed w
  | host {w v : HostGroup G} (h : w.host armed = some v) (rest : Returns armed v) :
      Returns armed w
  | tick {w : HostGroup G} (ns : Nat) (rest : Returns armed { w with now := w.now + ns }) :
      Returns armed w

theorem returns_of_stop {armed : Bool} {group : Option G}
    (h : w.next = .stopWantingGroup group) : Returns armed w := by
  refine .host (v := { w with groupWanted := 0, next := .returned group }) ?_ (.returned rfl)
  simp [HostGroup.host, h]

theorem returns_of_loop {armed : Bool} {deadline : Nat} (h : w.next = .loop deadline) :
    Returns armed w := by
  apply Returns.tick deadline
  apply Returns.host (v := { w with now := w.now + deadline, next := .stopWantingGroup none })
  · simp [HostGroup.host, h]
  · exact returns_of_stop rfl

theorem returns_of_await {armed : Bool} {deadline due : Nat}
    (h : w.next = .awaitGroup deadline due) : Returns armed w := by
  apply Returns.tick (due + 1)
  apply Returns.host (v := HostGroup.lookForGroup { w with now := w.now + (due + 1) } deadline due)
  · simp [HostGroup.host, h]
  · have hlate : due < w.now + (due + 1) := by omega
    unfold HostGroup.lookForGroup
    split
    · exact returns_of_stop rfl
    · exact returns_of_loop rfl
    · split
      · exact returns_of_loop rfl
      · exact returns_of_loop rfl

theorem returns_of_ask {armed : Bool} {deadline : Nat} (h : w.next = .onGroupNeeded deadline) :
    Returns armed w := by
  cases hpoisoned : w.poisoned with
  | true =>
      apply Returns.host (v := { w with next := .stopWantingGroup none })
      · simp [HostGroup.host, h, hpoisoned]
      · exact returns_of_stop rfl
  | false =>
      refine .host (v := { w with
        rounds := w.rounds + 1, next := .awaitGroup deadline (w.now + groupAskInterval) }) ?_ ?_
      · simp [HostGroup.host, h, hpoisoned]
      · exact returns_of_await rfl

/-- From wherever it stands. -/
theorem returns (w : HostGroup G) (armed : Bool) : Returns armed w := by
  cases hnext : w.next with
  | armWifiDirect =>
      cases armed with
      | true =>
          apply Returns.host (v := { w with next := .loop (w.now + groupWait) })
          · simp [HostGroup.host, hnext]
          · exact returns_of_loop rfl
      | false =>
          apply Returns.host (v := { w with next := .returned none })
          · simp [HostGroup.host, hnext]
          · exact .returned rfl
  | loop deadline => exact returns_of_loop hnext
  | wantGroup deadline =>
      apply Returns.host (v := { w with groupWanted := w.id, next := .onGroupNeeded deadline })
      · simp [HostGroup.host, hnext]
      · exact returns_of_ask rfl
  | onGroupNeeded deadline => exact returns_of_ask hnext
  | awaitGroup deadline due => exact returns_of_await hnext
  | sleep deadline due =>
      apply Returns.host (v := { w with next := .awaitGroup deadline due })
      · simp [HostGroup.host, hnext]
      · exact returns_of_await rfl
  | stopWantingGroup group => exact returns_of_stop hnext
  | returned group => exact .returned hnext

open Lts

/-- `host_group` is called. -/
def called (id : Int) (desk : Desk Int (Option G)) (groupWanted cancelled : Int) (poisoned : Bool)
    (now : Nat) : HostGroup G :=
  { id := id, desk := desk, groupWanted := groupWanted, cancelled := cancelled
    poisoned := poisoned, now := now, refused := decide (id ≠ 0 ∧ cancelled = id) }

theorem orderly_called (id : Int) (desk : Desk Int (Option G)) (groupWanted cancelled : Int)
    (poisoned : Bool) (now : Nat) : Orderly (called id desk groupWanted cancelled poisoned now) where
  cancelled h := h
  uncommitted _ := False.elim
  timely := rfl
  bounded := Nat.zero_le _

/-- **A refusal ends the request**, and there is a bound on the rounds, as long as nobody
refuses before the time is up. -/
theorem refusal_ends_request {id : Int} {desk : Desk Int (Option G)} {groupWanted cancelled : Int}
    {poisoned : Bool} {now : Nat} {acts : List (Move G)}
    (run : Run (Restrict (ofPartial step) RefusedLate)
      (called id desk groupWanted cancelled poisoned now) acts w) :
    w.rounds ≤ groupWait / groupAskInterval + 1 ∧ (∀ armed, w.Returns armed) ∧
      (w.refused = true → (∀ group, w.next ≠ .returned group) →
        ∀ more w', Run (Restrict (ofPartial step) RefusedLate) w more w' →
          w'.rounds = w.rounds ∧ ∀ group, w'.next = .returned group → group = none) := by
  have horderly : Orderly w :=
    run.invariant Orderly (orderly_called id desk groupWanted cancelled poisoned now)
      fun _ _ _ h hstep => h.step hstep.2 hstep.1
  refine ⟨horderly.bounded, w.returns, fun hrefused hpending more w' run' => ?_⟩
  have hended : Ended w.rounds w' :=
    run'.invariant (Ended w.rounds) ⟨horderly, hrefused, rfl, fun g => hpending (some g)⟩
      fun _ _ _ h hstep => h.step hstep.2 hstep.1
  refine ⟨hended.rounds_eq, fun group hgroup => ?_⟩
  cases group with
  | none => rfl
  | some g => exact absurd hgroup (hended.no_group g)

theorem called_first : (called 7 {} 0 0 false 0 : HostGroup String) = { id := 7 } :=
  rfl

/-- The client answers the first question. -/
def answersAtOnce : List (Move String) :=
  [.host true, .host true, .host true, .host true, .provideGroup 0 7 (some "group"), .storeGroup 0,
    .host true, .host true]

theorem answersAtOnce_bounded :
    ∃ w : HostGroup String, w.next = .returned (some "group") ∧
      w.rounds ≤ groupWait / groupAskInterval + 1 := by
  have hmeets : Meets step RefusedLate ({ id := 7 } : HostGroup String) answersAtOnce := by
    refine ⟨trivial, fun _ => rfl, trivial, trivial, trivial, ?_, ?_, trivial, trivial⟩
    · rintro ⟨⟩
    · exact fun _ _ => rfl
  obtain ⟨w, run, hnext⟩ := run_meets_observe step (fun w => w.next)
    (o := .returned (some "group")) rfl hmeets
  rw [← called_first] at run
  exact ⟨w, hnext, (refusal_ends_request run).1⟩

/-- The client declines the first question. -/
def declinesAtOnce : List (Move String) :=
  [.host true, .host true, .host true, .host true, .provideGroup 0 7 none, .storeGroup 0]

/-- It is asked again. -/
theorem refusal_does_not_end_request :
    ∃ w w', Run (ofPartial step) (called 7 {} 0 0 false 0 : HostGroup String) declinesAtOnce w ∧
      w.refused = true ∧ w.next = .awaitGroup groupWait groupAskInterval ∧
      Run (ofPartial step) w [.host true, .host true, .host true, .host true] w' ∧
      w'.rounds = w.rounds + 1 := by
  rw [called_first]
  refine ⟨_, _, run_foldlM step rfl, rfl, rfl, run_foldlM step rfl, rfl⟩

/-- A cancelled transfer asks again without a pause for as long as there is time. -/
theorem cancelled_asks_again {deadline : Nat} (hcancelled : w.isCancelled = true)
    (hsound : w.poisoned = false) (hslot : w.desk.slot = none) (hnext : w.next = .loop deadline)
    (hleft : w.now < deadline) :
    [.host true, .host true, .host true, .host true].foldlM step w =
      some { w with groupWanted := w.id, rounds := w.rounds + 1 } := by
  have hid : w.id ≠ 0 ∧ w.cancelled = w.id := by simpa [isCancelled] using hcancelled
  have htake : w.desk.take w.id = (none, w.desk) := by simp [Desk.take, hslot]
  simp only [List.foldlM_cons, List.foldlM_nil, step, HostGroup.host, hnext, hleft, if_true,
    Option.bind_eq_bind, Option.bind_some, hsound, HostGroup.lookForGroup]
  simp [isCancelled, hid.1, hid.2]
  rw [htake]

/-- So there is no bound on the rounds of a cancelled request. -/
theorem rounds_unbounded {id : Int} (hid : id ≠ 0) (n : Nat) :
    ∃ acts w, Run (ofPartial step) (called id {} 0 id false 0 : HostGroup G) acts w ∧
      w.rounds = n := by
  suffices h : ∃ acts w, Run (ofPartial step) (called id {} 0 id false 0 : HostGroup G) acts w ∧
      w.rounds = n ∧ w.isCancelled = true ∧ w.poisoned = false ∧ w.desk.slot = none ∧
        w.next = .loop groupWait ∧ w.now = 0 by
    obtain ⟨acts, w, run, hrounds, -⟩ := h
    exact ⟨acts, w, run, hrounds⟩
  induction n with
  | zero =>
      refine ⟨[.host true], _, Run.nil.snoc rfl, rfl, ?_, rfl, rfl, ?_, rfl⟩
      · simp [isCancelled, called, hid]
      · simp [called]
  | succ n ih =>
      obtain ⟨acts, w, run, hrounds, hcancelled, hsound, hslot, hnext, hnow⟩ := ih
      have hleft : w.now < groupWait := by
        rw [hnow]
        decide
      have hagain := cancelled_asks_again hcancelled hsound hslot hnext hleft
      refine ⟨_, _, run.append (run_foldlM step hagain), ?_, hcancelled, hsound, hslot, hnext, hnow⟩
      exact congrArg (· + 1) hrounds

end HostGroup

end Sharingd
