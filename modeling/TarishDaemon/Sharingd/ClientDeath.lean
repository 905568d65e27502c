import TarishDaemon.Sharingd.Callbacks

/-!
# Watching the client die

The process that holds the claim to the lockdown exemption may go without closing its
window, so `registerCallback` links a death recipient that withdraws the exemption.  There
is one place to keep a recipient in, and one that is dropped is unlinked: whoever registers
last is the one that is watched.

`mourning` records that a registered client has died since the window was last opened; no
branch reads it.
-/

namespace Sharingd

variable {B : Type*} [DecidableEq B]

structure Watch (B : Type*) where
  cbs : List B := []
  /-- Whose death the recipient that is kept is linked to. -/
  death : Option B := none
  died : List B := []
  /-- Whether the property reads `1`. -/
  exempt : Bool := false
  mourning : Bool := false

namespace Watch

inductive Event (B : Type*)
  | registerCallback (cb : B) (linked : Bool)
  | unregisterCallback (cb : B)
  | setAuthenticated (authenticated wrote : Bool)
  /-- The window's timer or its keepalive thread closes it. -/
  | expired (wrote : Bool)
  | binderDied (cb : B) (wrote : Bool)

omit [DecidableEq B] in
/-- `set_exempt(on)`, with whether the property could be written. -/
def setExempt (w : Watch B) (on wrote : Bool) : Watch B :=
  if wrote then { w with exempt := on } else w

def step (w : Watch B) : Event B → Option (Watch B)
  | .registerCallback cb linked =>
      -- the dead cannot be linked to
      if linked = true ∧ cb ∈ w.died then none
      else
        some { w with
          death := if linked then some cb else w.death, cbs := Callbacks.register w.cbs cb }
  | .unregisterCallback cb => some { w with cbs := Callbacks.unregister w.cbs cb }
  | .setAuthenticated authenticated wrote =>
      some { w.setExempt authenticated wrote with mourning := w.mourning && !authenticated }
  | .expired wrote => some (w.setExempt false wrote)
  | .binderDied cb wrote =>
      if cb ∈ w.died then none
      else
        let w := { w with died := cb :: w.died, mourning := w.mourning || decide (cb ∈ w.cbs) }
        some (if w.death = some cb then w.setExempt false wrote else w)

/-- Once a registered client has died, the exemption is withdrawn until the window is opened
anew. -/
def Closed (w : Watch B) : Prop :=
  w.mourning = true → w.exempt = false

/-- The registered client that dies is the one that is watched and the property can be
written, or the window is closed as it is. -/
def Watched (w : Watch B) : Event B → Prop
  | .binderDied cb wrote =>
      cb ∈ w.cbs → w.exempt = false ∨ (w.death = some cb ∧ wrote = true)
  | _ => True

variable {w w' : Watch B}

omit [DecidableEq B] in
theorem setExempt_false_exempt (w : Watch B) (wrote : Bool) :
    (w.setExempt false wrote).exempt = (w.exempt && !wrote) := by
  cases wrote <;> simp [setExempt]

omit [DecidableEq B] in
@[simp] theorem setExempt_mourning (w : Watch B) (on wrote : Bool) :
    (w.setExempt on wrote).mourning = w.mourning := by
  cases wrote <;> rfl

/-- What a death leaves of the exemption. -/
theorem binderDied_exempt {cb : B} {wrote : Bool}
    (hstep : w.step (.binderDied cb wrote) = some w') :
    w'.mourning = (w.mourning || decide (cb ∈ w.cbs)) ∧
      w'.exempt = (w.exempt && !(decide (w.death = some cb) && wrote)) := by
  simp only [step] at hstep
  split at hstep <;> cases hstep
  split
  next hdeath => simp [setExempt_false_exempt, hdeath]
  next hdeath => simp [hdeath]

theorem closed_step_iff (hclosed : Closed w) {event : Event B} (hstep : w.step event = some w') :
    Closed w' ↔ Watched w event := by
  cases event with
  | registerCallback cb linked =>
      simp only [step] at hstep
      split at hstep <;> cases hstep
      exact ⟨fun _ => trivial, fun _ => hclosed⟩
  | unregisterCallback cb =>
      cases hstep
      exact ⟨fun _ => trivial, fun _ => hclosed⟩
  | setAuthenticated authenticated wrote =>
      cases hstep
      refine ⟨fun _ => trivial, fun _ hmourning => ?_⟩
      obtain ⟨hbefore, rfl⟩ : w.mourning = true ∧ authenticated = false := by
        simpa using hmourning
      simp [setExempt_false_exempt, hclosed hbefore]
  | expired wrote =>
      cases hstep
      refine ⟨fun _ => trivial, fun _ hmourning => ?_⟩
      have hbefore : w.mourning = true := by simpa using hmourning
      simp [setExempt_false_exempt, hclosed hbefore]
  | binderDied cb wrote =>
      obtain ⟨hmourning, hexempt⟩ := binderDied_exempt hstep
      unfold Closed at hclosed ⊢
      rw [hmourning, hexempt]
      unfold Watched
      grind

open Lts

/-- **A registered client's death closes the window** throughout a run if and only if every
registered client that dies while the window is open is the watched one. -/
theorem closed_after_death_iff {acts : List (Event B)}
    (run : Run (ofPartial step) ({} : Watch B) acts w) :
    (∀ pre v, pre <+: acts → Run (ofPartial step) {} pre v → Closed v) ↔
      Run (Restrict (ofPartial step) Watched) {} acts w := by
  apply run.restrict_iff (fun _ => True) Closed trivial
  · exact fun h => by cases h
  · exact fun _ _ _ _ _ => trivial
  · exact fun _ _ _ _ hclosed hstep => closed_step_iff hclosed hstep

/-- The client of the last registration that could be linked. -/
def lastLinked : List (Event B) → Option B :=
  List.foldl (fun last event =>
    match event with
    | .registerCallback cb true => some cb
    | _ => last) none

/-- Whoever registers last is the one that is watched. -/
theorem death_eq_lastLinked {acts : List (Event B)}
    (run : Run (ofPartial step) ({} : Watch B) acts w) : w.death = lastLinked acts := by
  induction run with
  | nil => rfl
  | @snoc acts v w event _ last ih =>
      simp only [lastLinked, List.foldl_append, List.foldl_cons, List.foldl_nil]
      rw [← lastLinked, ← ih]
      simp only [ofPartial] at last
      cases event with
      | registerCallback cb linked =>
          simp only [step] at last
          split at last <;> cases last
          cases linked <;> rfl
      | unregisterCallback cb =>
          cases last
          rfl
      | setAuthenticated authenticated wrote =>
          cases last
          cases wrote <;> rfl
      | expired wrote =>
          cases last
          cases wrote <;> rfl
      | binderDied cb wrote =>
          simp only [step] at last
          split at last <;> cases last
          dsimp only
          split
          · cases wrote <;> rfl
          · rfl

/-- One client opens the window and dies. -/
def diesAlone : List (Event Nat) :=
  [.registerCallback 0 true, .setAuthenticated true true, .binderDied 0 true]

theorem diesAlone_closed :
    ∃ w, Run (ofPartial step) ({} : Watch Nat) diesAlone w ∧ w.mourning = true ∧
      ∀ pre v, pre <+: diesAlone → Run (ofPartial step) {} pre v → Closed v := by
  have hmeets : Meets step Watched ({} : Watch Nat) diesAlone :=
    ⟨trivial, trivial, fun _ => .inr ⟨rfl, rfl⟩, trivial⟩
  have run : Run (Restrict (ofPartial step) Watched) {} diesAlone _ := run_meets step rfl hmeets
  exact ⟨_, run.of_restrict, rfl, (closed_after_death_iff run.of_restrict).mpr run⟩

/-- A second client registers, and the first one opens the window and dies. -/
def diesUnwatched : List (Event Nat) :=
  [.registerCallback 0 true, .registerCallback 1 true, .setAuthenticated true true,
    .binderDied 0 true]

theorem not_closed_after_death :
    ∃ w, Run (ofPartial step) ({} : Watch Nat) diesUnwatched w ∧ w.mourning = true ∧
      w.exempt = true := by
  exact ⟨_, run_foldlM step rfl, rfl, rfl⟩

end Watch

end Sharingd
