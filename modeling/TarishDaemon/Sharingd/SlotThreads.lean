import TarishDaemon.Lib.TicketSlot
import TarishDaemon.Sharingd.Transfers

/-!
# The transfer slot under interleaving

`try_begin` is not one step.  It loads the current id, reads the activity stamp,
then the clock, perhaps runs all of `finish`, draws an id, tries to claim the
slot and finally stores three more fields; any thread may be stopped between any
two of these while others run.  `World.step` takes exactly one atomic operation
of one thread, so a run of it is an interleaving at that granularity.

Ids travel between threads as they do in the daemon: `try_begin` returns one to
its caller, a caller hands it to the thread it spawns, and the `/Upload` handler
takes whatever id is current.  A thread only finishes ids it has.

The ghost `log` records what happened, oldest first.  `World.slot` forgets
everything but the counter, the holder and that history, and
`World.step_refines` shows that every operation is then an operation of the
abstract ticketed slot.  Exclusivity is inherited from there.
-/

namespace Sharingd

/-- The four code paths that own a transfer. -/
inductive Owner
  | airdropSend
  | airdropReceive
  | quickShareSend
  | quickShareReceive
  deriving DecidableEq, Repr

/-- The argument each path passes to `try_begin`. -/
def Owner.needsAwdl : Owner → Bool
  | .airdropSend | .airdropReceive => true
  | .quickShareSend | .quickShareReceive => false

/-- Whether the path's progress report touches the activity clock.  Three of
them do; the closure `sendFiles` passes to the AirDrop sender only tells the
clients. -/
def Owner.touches : Owner → Bool
  | .airdropSend => false
  | .airdropReceive | .quickShareSend | .quickShareReceive => true

/-- Where a thread stands: the operation named is the next one. -/
inductive Pc
  | idle
  | readStamp (o : Owner) (cur : Int)
  | readClock (o : Owner) (cur : Int) (stamp : Option Nat)
  /-- `back` is the `try_begin` to return to, when this finish reclaims. -/
  | finishing (id : Int) (rest : List FinishStage) (back : Option Owner)
  | draw (o : Owner)
  | claim (o : Owner) (id : Int)
  | storeNeeds (o : Owner) (id : Int)
  | storePending (o : Owner) (id : Int)
  | stamp (o : Owner) (id : Int)
  deriving DecidableEq, Repr

inductive Event
  | drew (t : Nat) (id : Int)
  | claimed (t : Nat) (id : Int)
  | returned (t : Nat) (id : Int)
  | finished (id : Int)
  | reclaimed (id : Int)
  | reported (id : Int) (time : Nat)
  deriving DecidableEq, Repr

namespace Event

def drewId : Event → Option Int
  | .drew _ id => some id
  | _ => none

def claimedId : Event → Option Int
  | .claimed _ id => some id
  | _ => none

def returnedId : Event → Option Int
  | .returned _ id => some id
  | _ => none

def releasedId : Event → Option Int
  | .finished id | .reclaimed id => some id
  | _ => none

end Event

structure World where
  shared : TransferState := {}
  now : Nat := 0
  pc : Nat → Pc := fun _ => .idle
  /-- The ids a thread has, each with the code path it runs them under. -/
  given : Nat → List (Int × Owner) := fun _ => []
  log : List Event := []

inductive Act
  | tryBegin (t : Nat) (o : Owner)
  | finish (t : Nat) (id : Int)
  | advance (t : Nat)
  | report (t : Nat) (id : Int) (o : Owner)
  | handOver (t u : Nat) (id : Int) (o : Owner)
  | upload (t : Nat)
  | tick (ns : Nat)
  deriving DecidableEq, Repr

namespace World

def setPc (w : World) (t : Nat) (pc : Pc) : World :=
  { w with pc := Function.update w.pc t pc }

def setShared (w : World) (s : TransferState) : World :=
  { w with shared := s }

def note (w : World) (e : Event) : World :=
  { w with log := w.log ++ [e] }

def give (w : World) (t : Nat) (id : Int) (o : Owner) : World :=
  { w with given := Function.update w.given t ((id, o) :: w.given t) }

/-- What the log says when a stage of `finish(id)` has run: the slot is given up
at the compare-exchange on `current`. -/
def noteStage (w : World) (id : Int) (stage : FinishStage) (back : Option Owner) : World :=
  match stage, back with
  | .releaseCurrent, none => w.note (.finished id)
  | .releaseCurrent, some _ => w.note (.reclaimed id)
  | _, _ => w

/-- The next atomic operation of the call thread `t` is in. -/
def advance (w : World) (t : Nat) : Option World :=
  match w.pc t with
  | .idle => none
  | .readStamp o cur => some (w.setPc t (.readClock o cur w.shared.lastActivity))
  | .readClock o cur stamp =>
      if stampStale stamp w.now then
        some (w.setPc t (.finishing cur finishStages (some o)))
      else
        some (w.setPc t .idle)
  | .finishing id (stage :: rest) back =>
      let w := w.setShared (stage.run id w.shared)
      some ((w.noteStage id stage back).setPc t (.finishing id rest back))
  | .finishing _ [] none => some (w.setPc t .idle)
  | .finishing _ [] (some o) => some (w.setPc t (.draw o))
  | .draw o =>
      let id := w.shared.next + 1
      let w := w.setShared { w.shared with next := id }
      some ((w.note (.drew t id)).setPc t (.claim o id))
  | .claim o id =>
      if w.shared.current = 0 then
        let w := w.setShared { w.shared with current := id }
        some ((w.note (.claimed t id)).setPc t (.storeNeeds o id))
      else
        some (w.setPc t .idle)
  | .storeNeeds o id =>
      let w := w.setShared { w.shared with needsAwdl := o.needsAwdl }
      some (w.setPc t (.storePending o id))
  | .storePending o id =>
      let pending := if o.needsAwdl then id else w.shared.airdropPending
      let w := w.setShared { w.shared with airdropPending := pending }
      some (w.setPc t (.stamp o id))
  | .stamp o id =>
      let w := w.setShared (w.shared.touch w.now)
      some (((w.note (.returned t id)).give t id o).setPc t .idle)

def step (w : World) : Act → Option World
  -- the load of `current`
  | .tryBegin t o =>
      if w.pc t = .idle then
        if w.shared.current = 0 then some (w.setPc t (.draw o))
        else some (w.setPc t (.readStamp o w.shared.current))
      else none
  | .finish t id =>
      if w.pc t = .idle ∧ id ∈ (w.given t).map Prod.fst then
        some (w.setPc t (.finishing id finishStages none))
      else none
  | .advance t => w.advance t
  | .report t id o =>
      if w.pc t = .idle ∧ (id, o) ∈ w.given t then
        let shared := if o.touches then w.shared.touch w.now else w.shared
        some ((w.setShared shared).note (.reported id w.now))
      else none
  | .handOver t u id o =>
      if w.pc t = .idle ∧ (id, o) ∈ w.given t then some (w.give u id o) else none
  -- `/Upload` runs under whatever transfer is current, as an AirDrop receive
  | .upload t =>
      if w.pc t = .idle ∧ w.shared.current ≠ 0 then
        some (w.give t w.shared.current .airdropReceive)
      else none
  | .tick ns => some { w with now := w.now + ns }

/-- The ids drawn from the counter, in the order of the draws. -/
def drawn (w : World) : List Int :=
  w.log.filterMap Event.drewId

/-- The ids that claimed the slot, in the order of the claims. -/
def issued (w : World) : List Int :=
  w.log.filterMap Event.claimedId

/-- The ids some `try_begin` has returned. -/
def returned (w : World) : List Int :=
  w.log.filterMap Event.returnedId

/-- The ids given up, by a finish of a thread that had them or by a reclaim. -/
def released (w : World) : List Int :=
  w.log.filterMap Event.releasedId

/-- An issued id that was neither finished nor reclaimed. -/
def Live (w : World) (id : Int) : Prop :=
  id ∈ w.issued ∧ id ∉ w.released

/-- The id a thread has drawn and not yet tried. -/
def ticketOf : Pc → Option Int
  | .claim _ id => some id
  | _ => none

/-- Who holds the slot: `0` is nobody. -/
def holderOf (current : Int) : Option Int :=
  if current = 0 then none else some current

/-- The world seen as a ticketed slot. -/
def slot (w : World) : TicketSlot.State Nat where
  next := w.shared.next
  holder := holderOf w.shared.current
  ticket := fun t => ticketOf (w.pc t)
  drawn := w.drawn
  issued := w.issued
  released := w.released

/-! ## What one operation can do -/

/-- The atomic operations inside a call of thread `t`, each with the place it is
taken at and the world it leads to. -/
inductive Move (w : World) (t : Nat) : World → Prop
  | readStamp {o : Owner} {cur : Int} (here : w.pc t = .readStamp o cur) :
      Move w t (w.setPc t (.readClock o cur w.shared.lastActivity))
  | stale {o : Owner} {cur : Int} {stamp : Option Nat}
      (here : w.pc t = .readClock o cur stamp) (old : stampStale stamp w.now = true) :
      Move w t (w.setPc t (.finishing cur finishStages (some o)))
  | busy {o : Owner} {cur : Int} {stamp : Option Nat}
      (here : w.pc t = .readClock o cur stamp) (fresh : stampStale stamp w.now = false) :
      Move w t (w.setPc t .idle)
  | stage {id : Int} {stage : FinishStage} {rest : List FinishStage} {back : Option Owner}
      (here : w.pc t = .finishing id (stage :: rest) back) :
      Move w t (((w.setShared (stage.run id w.shared)).noteStage id stage back).setPc t
        (.finishing id rest back))
  | finished {id : Int} (here : w.pc t = .finishing id [] none) :
      Move w t (w.setPc t .idle)
  | reclaimed {id : Int} {o : Owner} (here : w.pc t = .finishing id [] (some o)) :
      Move w t (w.setPc t (.draw o))
  | draw {o : Owner} (here : w.pc t = .draw o) :
      Move w t (((w.setShared { w.shared with next := w.shared.next + 1 }).note
        (.drew t (w.shared.next + 1))).setPc t (.claim o (w.shared.next + 1)))
  | claim {o : Owner} {id : Int} (here : w.pc t = .claim o id)
      (free : w.shared.current = 0) :
      Move w t (((w.setShared { w.shared with current := id }).note
        (.claimed t id)).setPc t (.storeNeeds o id))
  | lose {o : Owner} {id : Int} (here : w.pc t = .claim o id)
      (taken : w.shared.current ≠ 0) :
      Move w t (w.setPc t .idle)
  | storeNeeds {o : Owner} {id : Int} (here : w.pc t = .storeNeeds o id) :
      Move w t ((w.setShared { w.shared with needsAwdl := o.needsAwdl }).setPc t
        (.storePending o id))
  | storePending {o : Owner} {id : Int} (here : w.pc t = .storePending o id) :
      Move w t ((w.setShared { w.shared with
        airdropPending := if o.needsAwdl then id else w.shared.airdropPending }).setPc t
        (.stamp o id))
  | stamp {o : Owner} {id : Int} (here : w.pc t = .stamp o id) :
      Move w t ((((w.setShared (w.shared.touch w.now)).note
        (.returned t id)).give t id o).setPc t .idle)

theorem move_of_advance {w w' : World} {t : Nat} (h : w.advance t = some w') :
    Move w t w' := by
  cases hpc : w.pc t with
  | idle => simp [advance, hpc] at h
  | readStamp o cur =>
      simp only [advance, hpc, Option.some.injEq] at h
      exact h ▸ .readStamp hpc
  | readClock o cur stamp =>
      simp only [advance, hpc] at h
      split at h
      next old => exact Option.some.inj h ▸ .stale hpc old
      next fresh => exact Option.some.inj h ▸ .busy hpc (by simpa using fresh)
  | finishing id rest back =>
      cases rest with
      | cons stage rest =>
          simp only [advance, hpc, Option.some.injEq] at h
          exact h ▸ .stage hpc
      | nil =>
          cases back with
          | none =>
              simp only [advance, hpc, Option.some.injEq] at h
              exact h ▸ .finished hpc
          | some o =>
              simp only [advance, hpc, Option.some.injEq] at h
              exact h ▸ .reclaimed hpc
  | draw o =>
      simp only [advance, hpc, Option.some.injEq] at h
      exact h ▸ .draw hpc
  | claim o id =>
      simp only [advance, hpc] at h
      split at h
      next free => exact Option.some.inj h ▸ .claim hpc free
      next taken => exact Option.some.inj h ▸ .lose hpc taken
  | storeNeeds o id =>
      simp only [advance, hpc, Option.some.injEq] at h
      exact h ▸ .storeNeeds hpc
  | storePending o id =>
      simp only [advance, hpc, Option.some.injEq] at h
      exact h ▸ .storePending hpc
  | stamp o id =>
      simp only [advance, hpc, Option.some.injEq] at h
      exact h ▸ .stamp hpc

/-- One action of the whole system. -/
inductive Steps (w : World) : Act → World → Prop
  | beginFree {t : Nat} {o : Owner} (here : w.pc t = .idle) (free : w.shared.current = 0) :
      Steps w (.tryBegin t o) (w.setPc t (.draw o))
  | beginBusy {t : Nat} {o : Owner} (here : w.pc t = .idle)
      (taken : w.shared.current ≠ 0) :
      Steps w (.tryBegin t o) (w.setPc t (.readStamp o w.shared.current))
  | finish {t : Nat} {id : Int} {o : Owner} (here : w.pc t = .idle)
      (mine : (id, o) ∈ w.given t) :
      Steps w (.finish t id) (w.setPc t (.finishing id finishStages none))
  | advance {t : Nat} {w' : World} (move : Move w t w') : Steps w (.advance t) w'
  | report {t : Nat} {id : Int} {o : Owner} (here : w.pc t = .idle)
      (mine : (id, o) ∈ w.given t) :
      Steps w (.report t id o)
        ((w.setShared (if o.touches then w.shared.touch w.now else w.shared)).note
          (.reported id w.now))
  | handOver {t u : Nat} {id : Int} {o : Owner} (here : w.pc t = .idle)
      (mine : (id, o) ∈ w.given t) :
      Steps w (.handOver t u id o) (w.give u id o)
  | upload {t : Nat} (here : w.pc t = .idle) (taken : w.shared.current ≠ 0) :
      Steps w (.upload t) (w.give t w.shared.current .airdropReceive)
  | tick {ns : Nat} : Steps w (.tick ns) { w with now := w.now + ns }

/-- **Inversion.**  Everything a step can do, guards included. -/
theorem steps_of_step {w w' : World} {a : Act} (h : w.step a = some w') :
    Steps w a w' := by
  cases a with
  | tryBegin t o =>
      simp only [step] at h
      split at h
      next here =>
        split at h
        next free => exact Option.some.inj h ▸ .beginFree here free
        next taken => exact Option.some.inj h ▸ .beginBusy here taken
      next => cases h
  | finish t id =>
      simp only [step] at h
      split at h
      next guard =>
        obtain ⟨⟨i, o⟩, mine, rfl⟩ := List.mem_map.mp guard.2
        exact Option.some.inj h ▸ .finish guard.1 mine
      next => cases h
  | advance t => exact .advance (move_of_advance h)
  | report t id o =>
      simp only [step] at h
      split at h
      next guard => exact Option.some.inj h ▸ .report guard.1 guard.2
      next => cases h
  | handOver t u id o =>
      simp only [step] at h
      split at h
      next guard => exact Option.some.inj h ▸ .handOver guard.1 guard.2
      next => cases h
  | upload t =>
      simp only [step] at h
      split at h
      next guard => exact Option.some.inj h ▸ .upload guard.1 guard.2
      next => cases h
  | tick ns => exact Option.some.inj h ▸ .tick

/-! ## Bookkeeping of the small updates -/

variable {w w' : World}

@[simp] theorem setPc_shared (t : Nat) (pc : Pc) : (w.setPc t pc).shared = w.shared := rfl

@[simp] theorem setPc_given (t : Nat) (pc : Pc) : (w.setPc t pc).given = w.given := rfl

@[simp] theorem setPc_log (t : Nat) (pc : Pc) : (w.setPc t pc).log = w.log := rfl

@[simp] theorem setPc_now (t : Nat) (pc : Pc) : (w.setPc t pc).now = w.now := rfl

@[simp] theorem setShared_shared (x : TransferState) : (w.setShared x).shared = x := rfl

@[simp] theorem setShared_pc (x : TransferState) : (w.setShared x).pc = w.pc := rfl

@[simp] theorem setShared_given (x : TransferState) : (w.setShared x).given = w.given := rfl

@[simp] theorem setShared_now (x : TransferState) : (w.setShared x).now = w.now := rfl

@[simp] theorem setShared_log (x : TransferState) : (w.setShared x).log = w.log := rfl

@[simp] theorem setShared_drawn (x : TransferState) : (w.setShared x).drawn = w.drawn := rfl

@[simp] theorem setShared_issued (x : TransferState) : (w.setShared x).issued = w.issued :=
  rfl

@[simp] theorem setShared_released (x : TransferState) :
    (w.setShared x).released = w.released := rfl

@[simp] theorem note_shared (e : Event) : (w.note e).shared = w.shared := rfl

@[simp] theorem note_pc (e : Event) : (w.note e).pc = w.pc := rfl

@[simp] theorem note_given (e : Event) : (w.note e).given = w.given := rfl

@[simp] theorem note_now (e : Event) : (w.note e).now = w.now := rfl

@[simp] theorem note_log (e : Event) : (w.note e).log = w.log ++ [e] := rfl

@[simp] theorem note_drawn (e : Event) :
    (w.note e).drawn = w.drawn ++ e.drewId.toList := by
  cases e <;> simp [drawn, Event.drewId]

@[simp] theorem note_issued (e : Event) :
    (w.note e).issued = w.issued ++ e.claimedId.toList := by
  cases e <;> simp [issued, Event.claimedId]

@[simp] theorem note_returned (e : Event) :
    (w.note e).returned = w.returned ++ e.returnedId.toList := by
  cases e <;> simp [returned, Event.returnedId]

@[simp] theorem note_released (e : Event) :
    (w.note e).released = w.released ++ e.releasedId.toList := by
  cases e <;> simp [released, Event.releasedId]

@[simp] theorem give_shared (t : Nat) (id : Int) (o : Owner) :
    (w.give t id o).shared = w.shared := rfl

@[simp] theorem give_pc (t : Nat) (id : Int) (o : Owner) : (w.give t id o).pc = w.pc := rfl

@[simp] theorem give_now (t : Nat) (id : Int) (o : Owner) : (w.give t id o).now = w.now := rfl

@[simp] theorem give_log (t : Nat) (id : Int) (o : Owner) : (w.give t id o).log = w.log := rfl

@[simp] theorem give_drawn (t : Nat) (id : Int) (o : Owner) :
    (w.give t id o).drawn = w.drawn := rfl

@[simp] theorem give_issued (t : Nat) (id : Int) (o : Owner) :
    (w.give t id o).issued = w.issued := rfl

@[simp] theorem give_released (t : Nat) (id : Int) (o : Owner) :
    (w.give t id o).released = w.released := rfl

theorem holderOf_eq_none {current : Int} : holderOf current = none ↔ current = 0 := by
  simp [holderOf]

theorem holderOf_eq_some {current id : Int} :
    holderOf current = some id ↔ current = id ∧ id ≠ 0 := by
  unfold holderOf
  grind

/-- Releasing the slot, seen from the holder's side. -/
theorem holderOf_casClear {current id : Int} :
    holderOf (casClear current id) =
      if holderOf current = some id then none else holderOf current := by
  unfold holderOf casClear
  grind

theorem mem_given_give {t u : Nat} {id : Int} {o : Owner} {p : Int × Owner}
    (h : p ∈ (w.give t id o).given u) : p = (id, o) ∨ p ∈ w.given u := by
  by_cases hut : u = t
  · subst hut
    simpa [give] using h
  · exact .inr (by simpa [give, Function.update, hut] using h)

/-- What one thread's move does to everybody's tickets. -/
theorem slot_setPc (t : Nat) (pc : Pc) :
    (w.setPc t pc).slot =
      { w.slot with ticket := Function.update w.slot.ticket t (ticketOf pc) } := by
  have tickets : (fun u => ticketOf (Function.update w.pc t pc u)) =
      Function.update (fun u => ticketOf (w.pc u)) t (ticketOf pc) :=
    Function.comp_update ticketOf w.pc t pc
  simp only [slot, setPc, tickets]
  rfl

/-- A move between two places that hold no ticket is invisible to the slot. -/
theorem slot_setPc_of_no_ticket {t : Nat} {pc : Pc} (before : ticketOf (w.pc t) = none)
    (after : ticketOf pc = none) : (w.setPc t pc).slot = w.slot := by
  have same : Function.update w.slot.ticket t (ticketOf pc) = w.slot.ticket := by
    rw [after, Function.update_eq_self_iff]
    exact before.symm
  rw [slot_setPc, same]

/-! ## Every id in use was issued -/

/-- The issued id a thread's call is working on. -/
def working : Pc → Option Int
  | .readStamp _ cur | .readClock _ cur _ => some cur
  | .finishing id _ _ => some id
  | .storeNeeds _ id | .storePending _ id | .stamp _ id => some id
  | .idle | .draw _ | .claim _ _ => none

structure Known (w : World) : Prop where
  working_issued : ∀ t id, working (w.pc t) = some id → id ∈ w.issued
  given_issued : ∀ t p, p ∈ w.given t → p.1 ∈ w.issued
  returned_issued : ∀ id ∈ w.returned, id ∈ w.issued

theorem known_init : Known {} := by
  constructor <;> simp [working, returned]

/-- Moving a thread to a place whose id is issued. -/
theorem Known.setPc (known : Known w) {t : Nat} {pc : Pc}
    (h : ∀ id, working pc = some id → id ∈ w.issued) : Known (w.setPc t pc) := by
  refine ⟨?_, known.given_issued, known.returned_issued⟩
  intro u id hu
  by_cases hut : u = t
  · subst hut
    exact h id (by simpa [World.setPc] using hu)
  · exact known.working_issued u id (by simpa [World.setPc, Function.update, hut] using hu)

theorem Known.give (known : Known w) {t : Nat} {id : Int} {o : Owner}
    (h : id ∈ w.issued) : Known (w.give t id o) := by
  refine ⟨known.working_issued, ?_, known.returned_issued⟩
  intro u p hp
  rcases mem_given_give hp with rfl | hp
  · exact h
  · exact known.given_issued u p hp

/-- The log only grows, so what was issued stays issued. -/
theorem Known.note (known : Known w) (e : Event)
    (h : ∀ t id, e = .returned t id → id ∈ w.issued) : Known (w.note e) := by
  have grows : ∀ id ∈ w.issued, id ∈ (w.note e).issued := by
    intro id hid
    rw [note_issued]
    exact List.mem_append.mpr (.inl hid)
  refine ⟨fun t id ht => grows id (known.working_issued t id ht),
    fun t p hp => grows _ (known.given_issued t p hp), ?_⟩
  intro id hid
  rw [note_returned] at hid
  rcases List.mem_append.mp hid with hold | hnew
  · exact grows id (known.returned_issued id hold)
  · cases e with
    | returned t j =>
        have hj : id = j := by simpa [Event.returnedId] using hnew
        exact grows id (hj ▸ h t j rfl)
    | _ => simp [Event.returnedId] at hnew

/-- The shared fields play no part. -/
theorem Known.setShared (known : Known w) (x : TransferState) : Known (w.setShared x) :=
  ⟨known.working_issued, known.given_issued, known.returned_issued⟩

theorem current_issued (inv : TicketSlot.Inv w.slot) (h : w.shared.current ≠ 0) :
    w.shared.current ∈ w.issued := by
  have held : w.slot.holder = some w.shared.current := holderOf_eq_some.mpr ⟨rfl, h⟩
  exact ((inv.live_iff _).mpr held).1

/-- A stage of `finish` logs a release or nothing, so it keeps `Known`. -/
theorem Known.noteStage (known : Known w) (id : Int) (stage : FinishStage)
    (back : Option Owner) : Known (w.noteStage id stage back) := by
  unfold World.noteStage
  split
  · exact known.note _ (by simp)
  · exact known.note _ (by simp)
  · exact known

theorem noteStage_issued (id : Int) (stage : FinishStage) (back : Option Owner) :
    (w.noteStage id stage back).issued = w.issued := by
  unfold World.noteStage
  split <;> simp [Event.claimedId]

theorem Known.move (known : Known w) {t : Nat} (h : Move w t w') : Known w' := by
  -- a thread keeps working on the id it was working on
  have same : ∀ {id : Int}, working (w.pc t) = some id → ∀ j, some id = some j →
      j ∈ w.issued := by
    intro id hid j hj
    exact known.working_issued t j (hid.trans hj)
  cases h with
  | readStamp here => exact known.setPc (same (by simp [here, working]))
  | stale here _ => exact known.setPc (same (by simp [here, working]))
  | busy here _ => exact known.setPc (by simp [working])
  | @stage id stage rest back here =>
      refine Known.setPc ((known.setShared _).noteStage id stage back) ?_
      intro j hj
      rw [noteStage_issued]
      exact same (by simp [here, working]) j hj
  | finished here => exact known.setPc (by simp [working])
  | reclaimed here => exact known.setPc (by simp [working])
  | draw here => exact Known.setPc ((known.setShared _).note _ (by simp)) (by simp [working])
  | @claim o id here free =>
      refine Known.setPc ((known.setShared _).note _ (by simp)) ?_
      intro j hj
      have hji : id = j := by simpa [working] using hj
      simp [hji, Event.claimedId]
  | lose here _ => exact known.setPc (by simp [working])
  | storeNeeds here => exact (known.setShared _).setPc (same (by simp [here, working]))
  | storePending here => exact (known.setShared _).setPc (same (by simp [here, working]))
  | @stamp o id here =>
      have hid : id ∈ w.issued := known.working_issued t id (by simp [here, working])
      refine Known.setPc (((known.setShared _).note _ ?_).give ?_) (by simp [working])
      · intro u j hj
        cases hj
        exact hid
      · rw [note_issued]
        exact List.mem_append.mpr (.inl hid)

theorem Known.step (known : Known w) (inv : TicketSlot.Inv w.slot) {a : Act}
    (h : Steps w a w') : Known w' := by
  cases h with
  | beginFree here free => exact known.setPc (by simp [working])
  | beginBusy here taken =>
      refine known.setPc fun id hid => ?_
      have hid' : w.shared.current = id := by simpa [working] using hid
      exact hid' ▸ current_issued inv taken
  | @finish t id o here mine =>
      refine known.setPc fun j hj => ?_
      have hj' : id = j := by simpa [working] using hj
      exact hj' ▸ known.given_issued t _ mine
  | advance move => exact known.move move
  | report here mine => exact Known.note (known.setShared _) _ (by simp)
  | @handOver t u id o here mine => exact known.give (known.given_issued t _ mine)
  | upload here taken => exact known.give (current_issued inv taken)
  | tick => exact ⟨known.working_issued, known.given_issued, known.returned_issued⟩

/-! ## Every operation is an operation of the ticketed slot -/

theorem slot_setShared {x : TransferState} (hnext : x.next = w.shared.next)
    (hcur : x.current = w.shared.current) : (w.setShared x).slot = w.slot := by
  simp [slot, hnext, hcur]

/-- A stage of `finish` releases the id or leaves the slot alone. -/
theorem stage_refines (known : Known w) {t : Nat} {id : Int} {stage : FinishStage}
    {rest : List FinishStage} {back : Option Owner}
    (hpc : w.pc t = .finishing id (stage :: rest) back) :
    ∃ l, TicketSlot.Step w.slot l
      (((w.setShared (stage.run id w.shared)).noteStage id stage back).setPc t
        (.finishing id rest back)).slot := by
  have hid : id ∈ w.issued := known.working_issued t id (by simp [hpc, working])
  have hticket : ticketOf (w.pc t) = none := by simp [hpc, ticketOf]
  by_cases hstage : stage = .releaseCurrent
  · subst hstage
    refine ⟨.release id, ?_⟩
    have hslot : (((w.setShared (FinishStage.releaseCurrent.run id w.shared)).noteStage id
        .releaseCurrent back).setPc t (.finishing id rest back)).slot =
        { w.slot with
          holder := if w.slot.holder = some id then none else w.slot.holder
          released := w.slot.released ++ [id] } := by
      rw [slot_setPc_of_no_ticket (by cases back <;> simpa [noteStage] using hticket) rfl]
      cases back <;>
        simp [noteStage, slot, FinishStage.run, holderOf_casClear, Event.drewId,
          Event.claimedId, Event.releasedId] <;>
        rfl
    rw [hslot]
    exact .release _ id hid
  · refine ⟨.idle, ?_⟩
    have hnote : ∀ v : World, v.noteStage id stage back = v := by
      intro v
      unfold noteStage
      split <;> simp_all
    have hids : (w.setShared (stage.run id w.shared)).slot = w.slot :=
      slot_setShared (by cases stage <;> rfl)
        (by cases stage <;> simp_all [FinishStage.run])
    rw [hnote, slot_setPc_of_no_ticket (by simpa using hticket) rfl, hids]
    exact .idle _

/-- Where the slot looks the same, the operation was idle. -/
theorem idle_of_slot_eq (h : w'.slot = w.slot) :
    ∃ l, TicketSlot.Step w.slot l w'.slot :=
  ⟨.idle, h ▸ .idle _⟩

theorem move_refines (known : Known w) (inv : TicketSlot.Inv w.slot) {t : Nat}
    (h : Move w t w') :
    ∃ l, TicketSlot.Step w.slot l w'.slot := by
  cases h with
  | readStamp here =>
      exact idle_of_slot_eq (slot_setPc_of_no_ticket (by simp [here, ticketOf]) rfl)
  | stale here _ =>
      exact idle_of_slot_eq (slot_setPc_of_no_ticket (by simp [here, ticketOf]) rfl)
  | busy here _ =>
      exact idle_of_slot_eq (slot_setPc_of_no_ticket (by simp [here, ticketOf]) rfl)
  | stage here => exact stage_refines known here
  | finished here =>
      exact idle_of_slot_eq (slot_setPc_of_no_ticket (by simp [here, ticketOf]) rfl)
  | reclaimed here =>
      exact idle_of_slot_eq (slot_setPc_of_no_ticket (by simp [here, ticketOf]) rfl)
  | @draw o here =>
      refine ⟨.draw t, ?_⟩
      have hstep := TicketSlot.Step.draw w.slot t (by simp [slot, here, ticketOf])
      rw [slot_setPc]
      simpa [slot, ticketOf, Event.drewId, Event.claimedId, Event.releasedId] using hstep
  | @claim o id here free =>
      refine ⟨.claim t, ?_⟩
      have mine : w.slot.ticket t = some id := by simp [slot, here, ticketOf]
      have hid : id ≠ 0 := by
        have := (inv.drawn_range id (inv.ticket_drawn t id mine)).1
        omega
      have hstep := TicketSlot.Step.claim w.slot t id mine (holderOf_eq_none.mpr free)
      rw [slot_setPc]
      simpa [slot, ticketOf, holderOf_eq_some.mpr ⟨rfl, hid⟩, Event.drewId, Event.claimedId,
        Event.releasedId] using hstep
  | lose here taken =>
      refine ⟨.lose t, ?_⟩
      rw [slot_setPc]
      exact .lose w.slot t (mt holderOf_eq_none.mp taken)
  | storeNeeds here =>
      refine idle_of_slot_eq ?_
      rw [slot_setPc_of_no_ticket (by simp [here, ticketOf]) rfl]
      exact slot_setShared rfl rfl
  | storePending here =>
      refine idle_of_slot_eq ?_
      rw [slot_setPc_of_no_ticket (by simp [here, ticketOf]) rfl]
      exact slot_setShared rfl rfl
  | stamp here =>
      refine idle_of_slot_eq ?_
      rw [slot_setPc_of_no_ticket (by simp [here, ticketOf]) rfl]
      simp [slot, TransferState.touch, Event.drewId, Event.claimedId, Event.releasedId]

/-- **Refinement.**  Every atomic operation of the daemon is an operation of the
ticketed slot. -/
theorem step_refines (known : Known w) (inv : TicketSlot.Inv w.slot) {a : Act}
    (h : Steps w a w') : ∃ l, TicketSlot.Step w.slot l w'.slot := by
  cases h with
  | beginFree here free =>
      exact idle_of_slot_eq (slot_setPc_of_no_ticket (by simp [here, ticketOf]) rfl)
  | beginBusy here taken =>
      exact idle_of_slot_eq (slot_setPc_of_no_ticket (by simp [here, ticketOf]) rfl)
  | finish here mine =>
      exact idle_of_slot_eq (slot_setPc_of_no_ticket (by simp [here, ticketOf]) rfl)
  | advance move => exact move_refines known inv move
  | @report t id o here mine =>
      refine idle_of_slot_eq ?_
      cases o <;>
        simp [slot, Owner.touches, TransferState.touch, Event.drewId, Event.claimedId,
          Event.releasedId]
  | handOver here mine => exact idle_of_slot_eq rfl
  | upload here taken => exact idle_of_slot_eq rfl
  | tick => exact idle_of_slot_eq rfl

/-- **Every interleaving** is a run of the ticketed slot, and keeps what the threads
know about their own calls. -/
theorem run_refines {acts : List Act} (run : Lts.Run (Lts.ofPartial step) {} acts w) :
    (Known w ∧ TicketSlot.Inv w.slot) ∧
      ∃ labels, Lts.Run TicketSlot.Step TicketSlot.empty labels w.slot := by
  apply run.refine slot (fun w => Known w ∧ TicketSlot.Inv w.slot)
  · exact ⟨known_init, TicketSlot.inv_empty⟩
  · rintro w a w' ⟨known, inv⟩ h
    have hsteps := steps_of_step h
    obtain ⟨label, abstract⟩ := step_refines known inv hsteps
    exact ⟨⟨known.step inv hsteps, inv.step abstract⟩, label, abstract⟩

/-- **Slot exclusivity.**  After every interleaving of atomic operations: ids
were drawn in strictly increasing order; the ids issued are among them, no id
was issued twice, and only issued ids were ever returned; there is at most one
issued id that was neither finished nor reclaimed, and `current` is that id. -/
theorem slot_exclusive {acts : List Act}
    (run : Lts.Run (Lts.ofPartial step) {} acts w) :
    w.drawn.Pairwise (· < ·) ∧
      (∀ id ∈ w.issued, id ∈ w.drawn) ∧
      w.issued.Nodup ∧
      (∀ id ∈ w.returned, id ∈ w.issued) ∧
      (∀ id other, Live w id → Live w other → id = other) ∧
      (∀ id, Live w id ↔ w.shared.current = id ∧ id ≠ 0) := by
  obtain ⟨⟨known, inv⟩, -⟩ := run_refines run
  refine ⟨inv.drawn_sorted, inv.issued_drawn, inv.issued_nodup, known.returned_issued,
    ?_, ?_⟩
  · intro id other hid hother
    exact inv.live_unique hid hother
  · intro id
    exact (inv.live_iff id).trans holderOf_eq_some

/-- Thread 0 draws 1 and is overtaken: thread 1 draws 2, claims the slot, gives
it back, and only then does thread 0 claim it. -/
def overtaken : List Act :=
  [Act.tryBegin 0 .quickShareReceive, .advance 0, .tryBegin 1 .airdropReceive] ++
    List.replicate 5 (Act.advance 1) ++ [Act.finish 1 2] ++
    List.replicate 8 (Act.advance 1) ++ List.replicate 4 (Act.advance 0)

/-- The run above, as an instance: 1 is live and current. -/
theorem overtaken_exclusive :
    ∃ w, Lts.Run (Lts.ofPartial step) {} overtaken w ∧ w.issued.Nodup ∧ Live w 1 := by
  obtain ⟨w, run, hcur⟩ := Lts.run_observe step (fun w => w.shared.current)
    (show (overtaken.foldlM step {}).map _ = some 1 by decide)
  obtain ⟨-, -, nodup, -, -, live⟩ := slot_exclusive run
  exact ⟨w, run, nodup, (live 1).mpr ⟨hcur, by decide⟩⟩

/-- Ids are not issued, nor returned, in increasing order: a claim can overtake
an earlier draw. -/
theorem issued_not_increasing :
    ∃ acts w, Lts.Run (Lts.ofPartial step) {} acts w ∧ w.issued = [2, 1] ∧
      w.returned = [2, 1] ∧ ¬ w.issued.Pairwise (· < ·) := by
  obtain ⟨w, run, hview⟩ := Lts.run_observe step (fun w => (w.issued, w.returned))
    (show (overtaken.foldlM step {}).map _ = some ([2, 1], [2, 1]) by decide)
  obtain ⟨hissued, hreturned⟩ := Prod.mk.inj hview
  exact ⟨overtaken, w, run, hissued, hreturned, by rw [hissued]; decide⟩

end World

end Sharingd
