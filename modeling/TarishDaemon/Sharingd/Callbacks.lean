import Mathlib.Logic.Function.Basic
import Mathlib.Data.List.Basic
import TarishDaemon.Lib.Run

/-!
# The list of registered callbacks

Clients register a callback, and every event is told to all of them.  A callback to which a
call returns `DEAD_OBJECT` is dropped from the list.  `notify` does that in one go under the
lock.  `each_callback` remembers the indices of the dead, lets go of the lock, takes it again
and removes at those indices.

A step of `Callbacks` is one section under the lock, so a run is an interleaving of the
sections of any number of threads.  `registered` and `gone` record who is registered, and
for whom a call has returned `DEAD_OBJECT`; no branch reads them.
-/

namespace Sharingd

/-- What a call to a client comes to. -/
inductive CallResult
  | ok
  | deadObject
  | failed
  deriving DecidableEq, Repr

variable {B : Type*} [DecidableEq B]

structure Callbacks (B : Type*) where
  cbs : List B := []
  /-- The indices a thread in `each_callback` remembers while it does not hold the lock. -/
  dead : Nat → List Nat := fun _ => []
  registered : B → Prop := fun _ => False
  gone : B → Prop := fun _ => False

namespace Callbacks

/-- Registering is idempotent: the same client counts once. -/
def register (cbs : List B) (cb : B) : List B :=
  if cb ∈ cbs then cbs else cbs ++ [cb]

def unregister (cbs : List B) (cb : B) : List B :=
  cbs.filter (· ≠ cb)

@[simp] theorem mem_register {cbs : List B} {cb b : B} :
    b ∈ register cbs cb ↔ b ∈ cbs ∨ b = cb := by
  grind [register]

theorem nodup_register {cbs : List B} (h : cbs.Nodup) (cb : B) : (register cbs cb).Nodup := by
  grind [register]

@[simp] theorem mem_unregister {cbs : List B} {cb b : B} :
    b ∈ unregister cbs cb ↔ b ∈ cbs ∧ b ≠ cb := by
  simp [unregister]

/-- Back to front, each index only if it is still one of the list's. -/
def removeBack (dead : List Nat) (cbs : List B) : List B :=
  dead.reverse.foldl (fun cbs i => if i < cbs.length then cbs.eraseIdx i else cbs) cbs

inductive Move (B : Type*)
  | registerCallback (cb : B)
  | unregisterCallback (cb : B)
  | notify (f : B → CallResult)
  /-- The calls of `each_callback`. -/
  | callEach (t : Nat) (f : B → CallResult)
  /-- The removal at the end of `each_callback`. -/
  | dropDead (t : Nat)

/-- A call to each callback of the list. -/
def called (w : Callbacks B) (f : B → CallResult) : Callbacks B :=
  { w with gone := fun cb => w.gone cb ∨ (cb ∈ w.cbs ∧ f cb = .deadObject) }

def step (w : Callbacks B) : Move B → Option (Callbacks B)
  | .registerCallback cb =>
      some { w with
        cbs := register w.cbs cb, registered := fun b => b = cb ∨ w.registered b }
  | .unregisterCallback cb =>
      some { w with
        cbs := unregister w.cbs cb, registered := fun b => b ≠ cb ∧ w.registered b }
  | .notify f =>
      some { w.called f with cbs := w.cbs.filter (f · ≠ .deadObject) }
  | .callEach t f =>
      if w.dead t = [] then
        let dead := w.cbs.findIdxs (f · = .deadObject)
        some { w.called f with dead := Function.update w.dead t dead }
      else none
  | .dropDead t =>
      if w.dead t = [] then none
      else
        some { w with cbs := removeBack (w.dead t) w.cbs, dead := Function.update w.dead t [] }

/-! ## Removing at remembered indices -/

omit [DecidableEq B] in
theorem removeBack_cons (i : Nat) (dead : List Nat) (cbs : List B) :
    removeBack (i :: dead) cbs = (removeBack dead cbs).eraseIdx i := by
  simp only [removeBack, List.reverse_cons, List.foldl_append, List.foldl_cons, List.foldl_nil]
  split
  next => rfl
  next h => rw [List.eraseIdx_of_length_le (Nat.le_of_not_lt h)]

omit [DecidableEq B] in
theorem removeBack_sublist (dead : List Nat) (cbs : List B) :
    (removeBack dead cbs).Sublist cbs := by
  induction dead with
  | nil => exact List.Sublist.refl _
  | cons i dead ih =>
      rw [removeBack_cons]
      exact (List.eraseIdx_sublist _ _).trans ih

omit [DecidableEq B] in
/-- What stands before every index removed stays where it is. -/
theorem getElem?_removeBack {dead : List Nat} {cbs : List B} {i : Nat}
    (h : ∀ j ∈ dead, i < j) : (removeBack dead cbs)[i]? = cbs[i]? := by
  induction dead with
  | nil => rfl
  | cons j dead ih =>
      rw [removeBack_cons, List.getElem?_eraseIdx_of_lt (h j (by simp))]
      exact ih fun k hk => h k (List.mem_cons_of_mem _ hk)

omit [DecidableEq B] in
/-- With the indices in ascending order, what is removed is what stood at them. -/
theorem mem_removeBack {dead : List Nat} {cbs : List B} (hdead : dead.Pairwise (· < ·))
    (hcbs : cbs.Nodup) {cb : B} :
    cb ∈ removeBack dead cbs ↔ cb ∈ cbs ∧ ∀ i ∈ dead, cbs[i]? ≠ some cb := by
  induction dead with
  | nil => simp [removeBack]
  | cons i dead ih =>
      obtain ⟨hi, hdead⟩ := List.pairwise_cons.mp hdead
      have hnodup : (removeBack dead cbs).Nodup := (removeBack_sublist dead cbs).nodup hcbs
      have hat : (removeBack dead cbs)[i]? = cbs[i]? := getElem?_removeBack hi
      have herase : cb ∈ (removeBack dead cbs).eraseIdx i ↔
          cb ∈ removeBack dead cbs ∧ cbs[i]? ≠ some cb := by
        rw [List.mem_eraseIdx_iff_getElem?, ← hat]
        constructor
        · rintro ⟨j, hne, hj⟩
          refine ⟨List.mem_of_getElem? hj, fun hcb => hne ?_⟩
          have hlt := (List.getElem?_eq_some_iff.mp hj).1
          exact (List.getElem?_inj hlt hnodup).mp (hj.trans hcb.symm)
        · rintro ⟨hmem, hne⟩
          obtain ⟨j, hj⟩ := List.getElem?_of_mem hmem
          exact ⟨j, fun h => hne (h ▸ hj), hj⟩
      rw [removeBack_cons, herase, ih hdead]
      grind

/-! ## Who stays in the list -/

/-- Whoever is registered is in the list, unless a call to it has returned `DEAD_OBJECT`. -/
def Kept (w : Callbacks B) : Prop :=
  ∀ cb, w.registered cb → ¬ w.gone cb → cb ∈ w.cbs

/-- When `each_callback` takes the lock again, the indices it remembers are past the end or
are those of callbacks found dead. -/
def InPlace (w : Callbacks B) : Move B → Prop
  | .dropDead t => ∀ i ∈ w.dead t, ∀ cb, w.cbs[i]? = some cb → w.gone cb
  | _ => True

structure Sound (w : Callbacks B) : Prop where
  nodup : w.cbs.Nodup
  known : ∀ cb ∈ w.cbs, w.registered cb
  ascending : ∀ t, (w.dead t).Pairwise (· < ·)

variable {w w' : Callbacks B}

theorem Sound.step (h : Sound w) {move : Move B} (hstep : w.step move = some w') : Sound w' := by
  cases move with
  | registerCallback cb =>
      cases hstep
      refine ⟨nodup_register h.nodup cb, fun b hb => ?_, h.ascending⟩
      rcases mem_register.mp hb with hb | hb
      · exact .inr (h.known b hb)
      · exact .inl hb
  | unregisterCallback cb =>
      cases hstep
      refine ⟨h.nodup.filter _, fun b hb => ?_, h.ascending⟩
      obtain ⟨hmem, hne⟩ := mem_unregister.mp hb
      exact ⟨hne, h.known b hmem⟩
  | notify f =>
      cases hstep
      exact ⟨h.nodup.filter _, fun b hb => h.known b (List.mem_filter.mp hb).1, h.ascending⟩
  | callEach t f =>
      simp only [Callbacks.step] at hstep
      split at hstep <;> cases hstep
      refine ⟨h.nodup, h.known, fun u => ?_⟩
      by_cases hut : u = t
      · subst hut
        simp [List.pairwise_findIdxs]
      · simpa [Function.update_of_ne hut] using h.ascending u
  | dropDead t =>
      simp only [Callbacks.step] at hstep
      split at hstep <;> cases hstep
      have hsub := removeBack_sublist (w.dead t) w.cbs
      refine ⟨hsub.nodup h.nodup, fun b hb => h.known b (hsub.mem hb), fun u => ?_⟩
      by_cases hut : u = t
      · subst hut
        simp
      · simpa [Function.update_of_ne hut] using h.ascending u

/-- Only the removal at remembered indices can lose a callback. -/
theorem kept_step_iff (hsound : Sound w) (hkept : Kept w) {move : Move B}
    (hstep : w.step move = some w') : Kept w' ↔ InPlace w move := by
  cases move with
  | registerCallback cb =>
      cases hstep
      refine ⟨fun _ => trivial, fun _ b hb hgone => ?_⟩
      rcases hb with hb | hb
      · exact mem_register.mpr (.inr hb)
      · exact mem_register.mpr (.inl (hkept b hb hgone))
  | unregisterCallback cb =>
      cases hstep
      refine ⟨fun _ => trivial, fun _ b hb hgone => ?_⟩
      exact mem_unregister.mpr ⟨hkept b hb.2 hgone, hb.1⟩
  | notify f =>
      cases hstep
      refine ⟨fun _ => trivial, fun _ b hb hgone => ?_⟩
      obtain ⟨hbefore, hanswer⟩ := not_or.mp hgone
      have hmem : b ∈ w.cbs := hkept b hb hbefore
      exact List.mem_filter.mpr ⟨hmem, by simpa using fun hdead => hanswer ⟨hmem, hdead⟩⟩
  | callEach t f =>
      simp only [Callbacks.step] at hstep
      split at hstep <;> cases hstep
      refine ⟨fun _ => trivial, fun _ b hb hgone => ?_⟩
      exact hkept b hb fun hbefore => hgone (.inl hbefore)
  | dropDead t =>
      simp only [Callbacks.step] at hstep
      split at hstep <;> cases hstep
      have hmem : ∀ b, b ∈ removeBack (w.dead t) w.cbs ↔
          b ∈ w.cbs ∧ ∀ i ∈ w.dead t, w.cbs[i]? ≠ some b :=
        fun b => mem_removeBack (hsound.ascending t) hsound.nodup
      constructor
      · intro hafter i hi cb hcb
        by_contra halive
        have hin : cb ∈ w.cbs := List.mem_of_getElem? hcb
        have hstays := hafter cb (hsound.known cb hin) halive
        exact ((hmem cb).mp hstays).2 i hi hcb
      · intro hplace b hb hgone
        refine (hmem b).mpr ⟨hkept b hb hgone, fun i hi hcb => ?_⟩
        exact hgone (hplace i hi b hcb)

open Lts

/-- Of two clients the first has gone. -/
def firstGone (cb : Nat) : CallResult :=
  if cb = 0 then .deadObject else .ok

/-- One transfer's event finds the first client gone. -/
def oneDropped : List (Move Nat) :=
  [.registerCallback 0, .registerCallback 1, .callEach 0 firstGone, .dropDead 0]

/-- Two threads each tell an event, and each finds the first client gone. -/
def droppedTwice : List (Move Nat) :=
  [.registerCallback 0, .registerCallback 1, .callEach 0 firstGone, .callEach 1 firstGone,
    .dropDead 0, .dropDead 1]

end Callbacks

end Sharingd
