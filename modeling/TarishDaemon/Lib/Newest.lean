import Mathlib.Data.List.Induction
import Mathlib.Data.Set.Function
import Mathlib.Logic.Function.Basic
import Mathlib.Order.Defs.LinearOrder

/-!
# The newest of each kind, in order

Things come one after another, each with a key and a time, and of each key the newest is
kept.  What is kept is for each key the newest of the *set* of what came (`Holds.foldl`): when
no two have one time, the order in which they came leaves no trace (`foldl_keep_eq`).

It is then listed, and again the order may be any.  Sorting by what tells the things apart
takes that trace away too (`mergeSort_eq_of_perm`).
-/

namespace Newest

section

variable {A K T : Type*} [LinearOrder T] (key : A → K) (time : A → T)

/-- Nothing of its key is later. -/
def Latest (S : Set A) (x : A) : Prop :=
  x ∈ S ∧ ∀ y ∈ S, key y = key x → time y ≤ time x

/-- What stays: what is kept already, unless the new is later. -/
def later (kept : Option A) (x : A) : A :=
  kept.elim x fun y => if time y < time x then x else y

/-- There is one thing for each key of `S`, its latest. -/
structure Holds (S : Set A) (m : K → Option A) : Prop where
  latest : ∀ k x, m k = some x → key x = k ∧ Latest key time S x
  each : ∀ x ∈ S, (m (key x)).isSome

variable {key time} {S : Set A} {m m' : K → Option A} {x y : A}

/-- At one time there is only one. -/
theorem Latest.unique (hinj : Set.InjOn time S) (hx : Latest key time S x)
    (hy : Latest key time S y) (hkey : key x = key y) : x = y :=
  hinj hx.1 hy.1 (le_antisymm (hy.2 x hx.1 hkey) (hx.2 y hy.1 hkey.symm))

theorem Latest.insert_of_ne (hy : Latest key time S y) (hkey : key x ≠ key y) :
    Latest key time (insert x S) y := by
  refine ⟨Set.mem_insert_of_mem x hy.1, fun z hz hzy => ?_⟩
  rcases hz with rfl | hz
  · exact absurd hzy hkey
  · exact hy.2 z hz hzy

theorem latest_later_none (h : ∀ y ∈ S, key y ≠ key x) : Latest key time (insert x S) x := by
  refine ⟨Set.mem_insert x S, fun z hz hzx => ?_⟩
  rcases hz with rfl | hz
  · exact le_refl _
  · exact absurd hzx (h z hz)

theorem latest_later_some (hy : Latest key time S y) (hkey : key y = key x) :
    Latest key time (insert x S) (if time y < time x then x else y) := by
  split
  next hlt =>
    refine ⟨Set.mem_insert x S, fun z hz hzx => ?_⟩
    rcases hz with rfl | hz
    · exact le_refl _
    · exact le_trans (hy.2 z hz (hzx.trans hkey.symm)) hlt.le
  next hle =>
    refine ⟨Set.mem_insert_of_mem x hy.1, fun z hz hzy => ?_⟩
    rcases hz with rfl | hz
    · exact not_lt.mp hle
    · exact hy.2 z hz hzy

theorem Holds.empty : Holds key time ∅ fun _ => none where
  latest := fun _ _ h => nomatch h
  each := fun _ h => absurd h (Set.notMem_empty _)

/-- **What is kept depends on the set alone.** -/
theorem Holds.unique (hinj : Set.InjOn time S) (h : Holds key time S m)
    (h' : Holds key time S m') : m = m' := by
  -- A thing kept in the one is kept in the other.
  have hsub : ∀ {m m' : K → Option A}, Holds key time S m → Holds key time S m' →
      ∀ k x, m k = some x → m' k = some x := by
    intro m m' h h' k x hx
    obtain ⟨rfl, hlatest⟩ := h.latest k x hx
    obtain ⟨y, hy⟩ := Option.isSome_iff_exists.mp (h'.each x hlatest.1)
    obtain ⟨hkey, hlatest'⟩ := h'.latest _ y hy
    rw [hy, hlatest'.unique hinj hlatest hkey]
  funext k
  apply Option.ext
  intro x
  exact ⟨hsub h h' k x, hsub h' h k x⟩

end

section

variable {A K T : Type*} [LinearOrder T] [DecidableEq K]

/-- One thing more. -/
def keep (key : A → K) (time : A → T) (m : K → Option A) (x : A) : K → Option A :=
  Function.update m (key x) (some (later time (m (key x)) x))

variable {key : A → K} {time : A → T} {S : Set A} {m : K → Option A}

theorem Holds.keep (h : Holds key time S m) (x : A) :
    Holds key time (insert x S) (Newest.keep key time m x) where
  latest := by
    intro k y hy
    unfold Newest.keep at hy
    by_cases hk : k = key x
    · subst hk
      rw [Function.update_self, Option.some.injEq] at hy
      subst hy
      cases hm : m (key x) with
      | none =>
          refine ⟨rfl, latest_later_none fun z hz hzx => ?_⟩
          have hkept := h.each z hz
          rw [hzx, hm] at hkept
          cases hkept
      | some z =>
          obtain ⟨hkey, hlatest⟩ := h.latest _ z hm
          refine ⟨?_, latest_later_some hlatest hkey⟩
          simp only [later, Option.elim_some]
          split
          · rfl
          · exact hkey
    · rw [Function.update_of_ne hk] at hy
      obtain ⟨rfl, hlatest⟩ := h.latest k y hy
      exact ⟨rfl, hlatest.insert_of_ne (Ne.symm hk)⟩
  each := by
    intro y hy
    unfold Newest.keep
    by_cases hk : key y = key x
    · rw [hk, Function.update_self]
      rfl
    · rw [Function.update_of_ne hk]
      rcases hy with rfl | hy
      · exact absurd rfl hk
      · exact h.each y hy

/-- **Of each key the newest is kept.** -/
theorem Holds.foldl (xs : List A) :
    Holds key time {x | x ∈ xs} (xs.foldl (Newest.keep key time) fun _ => none) := by
  induction xs using List.reverseRecOn with
  | nil => simpa using Holds.empty
  | append_singleton xs x ih =>
      have hset : {y | y ∈ xs ++ [x]} = insert x {y | y ∈ xs} := by
        ext y
        simp [or_comm]
      rw [List.foldl_append, hset]
      exact ih.keep x

/-- **It does not matter in which order they come.** -/
theorem foldl_keep_eq {xs ys : List A} (hsame : ∀ x, x ∈ xs ↔ x ∈ ys)
    (hinj : Set.InjOn time {x | x ∈ xs}) :
    xs.foldl (Newest.keep key time) (fun _ => none) =
      ys.foldl (Newest.keep key time) fun _ => none := by
  have hset : {x | x ∈ ys} = {x | x ∈ xs} := Set.ext fun x => (hsame x).symm
  have hys : Holds key time {x | x ∈ xs} (ys.foldl (Newest.keep key time) fun _ => none) :=
    hset ▸ Holds.foldl ys
  exact (Holds.foldl xs).unique hinj hys

end

/-! ## Sorting -/

/-- **What tells the things apart sorts them in one way.** -/
theorem mergeSort_eq_of_perm {A L : Type*} [LinearOrder L] {le : A → A → Bool} (key : A → L)
    (hle : ∀ a b, le a b = true ↔ key a ≤ key b) {xs ys : List A} (hperm : xs.Perm ys)
    (hinj : Set.InjOn key {x | x ∈ xs}) : xs.mergeSort le = ys.mergeSort le := by
  have htrans : ∀ a b c, le a b = true → le b c = true → le a c = true := by
    intro a b c hab hbc
    rw [hle] at hab hbc ⊢
    exact le_trans hab hbc
  have htotal : ∀ a b, (le a b || le b a) = true := by
    intro a b
    rw [Bool.or_eq_true, hle, hle]
    exact le_total (key a) (key b)
  have hanti : ∀ a b, a ∈ xs.mergeSort le → b ∈ ys.mergeSort le → le a b = true →
      le b a = true → a = b := by
    intro a b ha hb hab hba
    rw [hle] at hab hba
    have ha : a ∈ xs := List.mem_mergeSort.mp ha
    have hb : b ∈ xs := hperm.mem_iff.mpr (List.mem_mergeSort.mp hb)
    exact hinj ha hb (le_antisymm hab hba)
  have hsorted := (List.mergeSort_perm xs le).trans (hperm.trans (List.mergeSort_perm ys le).symm)
  exact hsorted.eq_of_pairwise hanti (List.pairwise_mergeSort htrans htotal xs)
    (List.pairwise_mergeSort htrans htotal ys)

end Newest
