import TarishDaemon.Lib.AnswerSlot
import TarishDaemon.Lib.Run
import TarishDaemon.Sharingd.Transfers

/-!
# Groups and upgrade sockets that clients provide

The daemon has no radio of its own.  It asks the clients to stand up a Wi-Fi Direct group, or
to join one and hand over a connected socket, and parks the answer in a slot keyed by the
transfer's id.  A group answer is let through only while a request for that transfer is
outstanding; the look at `group_wanted` and the store are two operations.  An upgrade answer
is always let through, and its slot is cleared when the wait is over.

A step of `Answers` is one operation of one call.  `moment` counts them, to say which of two
came first.
-/

namespace Sharingd

open AnswerSlot

variable {G : Type*}

structure Answers (G : Type*) where
  group : Exchange Int (Option G) := {}
  /-- The transfer a group request is outstanding for, or 0. -/
  groupWanted : Int := 0
  upgrade : Exchange Int (Option File) := {}
  moment : Nat := 0

/-- `provide_group` up to its store: an answer nobody asked for is not an answer. -/
def provideGroup {A : Type*} (desk : Desk Int A) (groupWanted : Int) (c : Nat) (id : Int)
    (group : A) : Desk Int A :=
  if groupWanted ≠ id then desk else desk.accept c id group

namespace Answers

inductive Move (G : Type*)
  /-- A call of `provide_group` looks whether anybody is waiting. -/
  | provideGroup (c : Nat) (id : Int) (group : Option G)
  | storeGroup (c : Nat)
  | wantGroup (t : Nat) (id : Int)
  | awaitGroup (t : Nat)
  | stopWantingGroup (t : Nat)
  | provideUpgrade (c : Nat) (id : Int) (sock : Option File)
  | storeUpgrade (c : Nat)
  | onUpgradeNeeded (t : Nat) (id : Int)
  | awaitUpgrade (t : Nat)
  | clearUpgrade (t : Nat)
  | finish (id : Int)

/-- `want_group`.  The loop of `host_group` asks again under the same id, which is still the
same request. -/
def wantGroup (w : Answers G) (t : Nat) (id : Int) : Option (Answers G) :=
  match w.group.cycle t with
  | none =>
      (w.group.ask t id w.moment).map fun group => { w with group := group, groupWanted := id }
  | some q => if q.key = id then some { w with groupWanted := id } else none

def operate (w : Answers G) : Move G → Option (Answers G)
  | .provideGroup c id group =>
      if (w.group.desk.calls c).isSome then none
      else
        let desk := Sharingd.provideGroup w.group.desk w.groupWanted c id
          { answer := group, given := w.moment }
        some { w with group := { w.group with desk := desk } }
  | .storeGroup c => (w.group.store c).map fun group => { w with group := group }
  | .wantGroup t id => w.wantGroup t id
  | .awaitGroup t => (w.group.take t).map fun group => { w with group := group }
  | .stopWantingGroup t => some { w with group := w.group.leave t, groupWanted := 0 }
  | .provideUpgrade c id sock =>
      if (w.upgrade.desk.calls c).isSome then none
      else
        let desk := w.upgrade.desk.accept c id { answer := sock, given := w.moment }
        some { w with upgrade := { w.upgrade with desk := desk } }
  | .storeUpgrade c => (w.upgrade.store c).map fun upgrade => { w with upgrade := upgrade }
  | .onUpgradeNeeded t id =>
      (w.upgrade.ask t id w.moment).map fun upgrade => { w with upgrade := upgrade }
  | .awaitUpgrade t => (w.upgrade.take t).map fun upgrade => { w with upgrade := upgrade }
  | .clearUpgrade t =>
      (w.upgrade.cycle t).map fun q =>
        { w with upgrade := { w.upgrade with desk := w.upgrade.desk.clear q.key }.leave t }
  | .finish id =>
      some { w with upgrade := { w.upgrade with desk := w.upgrade.desk.clear id } }

def step (w : Answers G) (move : Move G) : Option (Answers G) :=
  (w.operate move).map fun w' => { w' with moment := w.moment + 1 }

/-- A question is asked while no answer for its transfer is parked, and none is between its
look and its store. -/
def Unanswered (w : Answers G) : Move G → Prop
  | .wantGroup t id => w.group.cycle t = none → w.group.desk.Unanswered id
  | .onUpgradeNeeded _ id => w.upgrade.desk.Unanswered id
  | _ => True

def Fresh (w : Answers G) : Prop :=
  w.group.Fresh w.moment ∧ w.upgrade.Fresh w.moment

variable {w w' : Answers G}

theorem Fresh.step (h : Fresh w) {move : Move G} (hok : Unanswered w move)
    (hstep : w.step move = some w') : Fresh w' := by
  obtain ⟨v, hv, rfl⟩ := Option.map_eq_some_iff.mp hstep
  obtain ⟨hgroup, hupgrade⟩ := h
  have hgroupLater := hgroup.later
  have hupgradeLater := hupgrade.later
  cases move with
  | provideGroup c id group =>
      simp only [operate] at hv
      split at hv <;> cases hv
      refine ⟨?_, hupgradeLater⟩
      unfold Sharingd.provideGroup
      split
      · exact hgroupLater
      · exact hgroup.accept c id group
  | storeGroup c =>
      obtain ⟨group, hstore, rfl⟩ := Option.map_eq_some_iff.mp hv
      exact ⟨hgroup.store hstore, hupgradeLater⟩
  | wantGroup t id =>
      simp only [operate, Answers.wantGroup] at hv
      split at hv
      next hidle =>
        obtain ⟨group, hask, rfl⟩ := Option.map_eq_some_iff.mp hv
        exact ⟨hgroup.ask hask (hok hidle), hupgradeLater⟩
      next q hq =>
        split at hv <;> cases hv
        exact ⟨hgroupLater, hupgradeLater⟩
  | awaitGroup t =>
      obtain ⟨group, htake, rfl⟩ := Option.map_eq_some_iff.mp hv
      exact ⟨hgroup.take htake, hupgradeLater⟩
  | stopWantingGroup t =>
      cases hv
      exact ⟨hgroupLater.leave t, hupgradeLater⟩
  | provideUpgrade c id sock =>
      simp only [operate] at hv
      split at hv <;> cases hv
      exact ⟨hgroupLater, hupgrade.accept c id sock⟩
  | storeUpgrade c =>
      obtain ⟨upgrade, hstore, rfl⟩ := Option.map_eq_some_iff.mp hv
      exact ⟨hgroupLater, hupgrade.store hstore⟩
  | onUpgradeNeeded t id =>
      obtain ⟨upgrade, hask, rfl⟩ := Option.map_eq_some_iff.mp hv
      exact ⟨hgroupLater, hupgrade.ask hask hok⟩
  | awaitUpgrade t =>
      obtain ⟨upgrade, htake, rfl⟩ := Option.map_eq_some_iff.mp hv
      exact ⟨hgroupLater, hupgrade.take htake⟩
  | clearUpgrade t =>
      obtain ⟨q, -, rfl⟩ := Option.map_eq_some_iff.mp hv
      have hcleared : Exchange.Fresh { w.upgrade with desk := w.upgrade.desk.clear q.key }
          (w.moment + 1) := hupgrade.desk fun _ _ hheld => Desk.holds_of_clear hheld
      exact ⟨hgroupLater, hcleared.leave t⟩
  | finish id =>
      cases hv
      exact ⟨hgroupLater, hupgrade.desk fun _ _ hheld => Desk.holds_of_clear hheld⟩

open Lts

/-- **Answers are fresh**: as long as no question finds an answer waiting for it, what a
request is handed was given after it was asked. -/
theorem returned_fresh {acts : List (Move G)}
    (run : Run (Restrict (ofPartial step) Unanswered) {} acts w) :
    (∀ q a, (q, a) ∈ w.group.returned → q.asked < a.given) ∧
      ∀ q a, (q, a) ∈ w.upgrade.returned → q.asked < a.given := by
  have hfresh : Fresh w :=
    run.invariant Fresh ⟨Exchange.Fresh.init 0, Exchange.Fresh.init 0⟩
      fun _ _ _ h hstep => h.step hstep.2 hstep.1
  exact ⟨hfresh.1.returned, hfresh.2.returned⟩

/-- Two components answer one request; the second answer comes when the first one has been
taken. -/
def answeredTwice : List (Move String) :=
  [.wantGroup 0 7, .provideGroup 0 7 (some "first"), .storeGroup 0, .awaitGroup 0,
    .provideGroup 1 7 (some "second"), .storeGroup 1, .stopWantingGroup 0]

/-- One request, one answer. -/
def answeredOnce : List (Move String) :=
  [.wantGroup 0 7, .provideGroup 0 7 (some "first"), .storeGroup 0, .awaitGroup 0,
    .stopWantingGroup 0]

theorem answeredOnce_fresh :
    ∃ w, Run (ofPartial step) ({} : Answers String) answeredOnce w ∧
      ∃ q a, (q, a) ∈ w.group.returned ∧ q.asked < a.given := by
  have hmeets : Meets step Unanswered ({} : Answers String) answeredOnce := by
    refine ⟨fun _ => ⟨?_, ?_⟩, trivial, trivial, trivial, trivial, trivial⟩
    · rintro _ ⟨⟩
    · rintro _ _ ⟨⟩
  have run : Run (Restrict (ofPartial step) Unanswered) ({} : Answers String) answeredOnce _ :=
    run_meets step rfl hmeets
  refine ⟨_, run.of_restrict, ⟨7, 0⟩, ⟨some "first", 1⟩, List.mem_singleton.mpr rfl, ?_⟩
  exact (returned_fresh run).1 _ _ (List.mem_singleton.mpr rfl)

/-- The same transfer asks again, and is handed the second answer to its first question. -/
theorem returned_not_fresh :
    ∃ w, Run (ofPartial step) ({} : Answers String)
        (answeredTwice ++ [.wantGroup 0 7, .awaitGroup 0]) w ∧
      ∃ q a, (q, a) ∈ w.group.returned ∧ a.given < q.asked := by
  refine ⟨_, run_foldlM step rfl, ⟨7, 7⟩, ⟨some "second", 4⟩, ?_, by decide⟩
  exact List.mem_cons_of_mem _ (List.mem_singleton.mpr rfl)

end Answers

end Sharingd
