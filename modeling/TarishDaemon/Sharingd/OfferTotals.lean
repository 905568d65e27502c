import Mathlib.Algebra.Order.Group.Int
import TarishDaemon.Lib.Clamped
import TarishDaemon.Protocol.SharingWire
import TarishDaemon.Quickshare.Serve

/-!
# The two totals of an offer

An introduction is shown twice under one id, and each time with a total.  `serve` has it
from `total_size`, which adds up the files and the texts and stays at the end of the range
where it would leave it.  `QsHost::ask` is given the files alone, takes a negative size for
nothing, and adds up with a plain `sum`.

So the second one overflows where the first does not, and where it does not overflow the
two differ by what `total_size` counts besides: `offerTotals_iff`.  In an offer without a
negative size it is the texts that make the difference (`meet_iff_of_plain`).
-/

namespace Sharingd

open Rust Quickshare
open Protocol.Sharing

/-- The total of `QsHost::ask`; `none` where the sum overflows. -/
def askTotal (files : List FileMetadata) : Option Int :=
  (files.map fun f => max f.size 0).foldlM (Clamped.tryAdd i64Min i64Max) 0

/-- The total that `serve` shows: a `u64` for its own count, and an `i64` for the clients. -/
def serveTotal (i : Introduction) : Int :=
  toI64 (max i.totalSize 0).toNat

/-- It is the one that `serve` goes on to count against. -/
theorem perform_askUser_total (w : Serve) (e : Env) (i : Introduction) :
    toI64 (w.perform e (.askUser i)).totalBytes = serveTotal i := rfl

/-! ## What each of them comes to -/

/-- The sizes of the files that are not negative. -/
def counted (files : List FileMetadata) : Int :=
  (files.map fun f => max f.size 0).sum

/-- What is counted by `total_size` besides: the sizes of files that are negative and those
of the texts, less what is lost at the ends of the range. -/
def besides (i : Introduction) : Int :=
  (i.files.map fun f => min f.size 0).sum + (i.texts.map (·.size)).sum -
    Clamped.cut i64Min i64Max 0 (i.files.map (·.size) ++ i.texts.map (·.size))

theorem counted_nonneg (files : List FileMetadata) : 0 ≤ counted files := by
  apply List.sum_nonneg
  intro x hx
  obtain ⟨f, -, rfl⟩ := List.mem_map.mp hx
  exact le_max_right _ _

theorem sum_sizes (files : List FileMetadata) :
    (files.map (·.size)).sum = counted files + (files.map fun f => min f.size 0).sum := by
  induction files with
  | nil => rfl
  | cons f files ih =>
      have hsize : f.size = max f.size 0 + min f.size 0 := by omega
      simp only [counted, List.map_cons, List.sum_cons] at ih ⊢
      omega

theorem askTotal_eq (files : List FileMetadata) :
    askTotal files = if counted files ≤ i64Max then some (counted files) else none := by
  have hsum : askTotal files = if 0 + counted files ≤ i64Max then some (0 + counted files)
      else none :=
    Clamped.foldlM_tryAdd (by decide) (by decide) (by simp)
  rwa [zero_add] at hsum

theorem totalSize_eq (i : Introduction) : i.totalSize = counted i.files + besides i := by
  have hsum := Clamped.foldl_add i64Min i64Max 0 (i.files.map (·.size) ++ i.texts.map (·.size))
  rw [List.sum_append, sum_sizes] at hsum
  refine Eq.trans hsum ?_
  rw [besides]
  omega

theorem totalSize_mem (i : Introduction) : i64Min ≤ i.totalSize ∧ i.totalSize ≤ i64Max :=
  Clamped.foldl_add_mem (by decide) (by decide) (by decide)

/-- The casts lose nothing. -/
theorem toI64_toNat {x : Int} (lo : 0 ≤ x) (hi : x ≤ i64Max) : toI64 x.toNat = x := by
  have hless : x < 2 ^ 63 := by
    unfold i64Max at hi
    omega
  have hcast : x.toNat = toU64 x := by
    rw [toU64, Int.emod_eq_of_lt lo (by omega)]
  rw [hcast, toI64_toU64 (by omega) hless]

theorem serveTotal_eq (i : Introduction) : serveTotal i = max (counted i.files + besides i) 0 := by
  have hmem := (totalSize_mem i).2
  rw [serveTotal, toI64_toNat (le_max_right _ _) (max_le hmem (by decide)), totalSize_eq]

/-! ## Where they are the same -/

/-- The sum fits, and there is nothing to count besides; or nothing counts in favour. -/
structure Meet (i : Introduction) : Prop where
  fits : counted i.files ≤ i64Max
  besides : besides i = 0 ∨ counted i.files = 0 ∧ besides i ≤ 0

/-- **Where the two totals are the same number**, neither of them lost to an overflow. -/
theorem offerTotals_iff (i : Introduction) : askTotal i.files = some (serveTotal i) ↔ Meet i := by
  have hnonneg := counted_nonneg i.files
  rw [askTotal_eq, serveTotal_eq]
  constructor
  · intro h
    split at h
    next hfits =>
      have heq := Option.some.inj h
      exact ⟨hfits, by omega⟩
    next => cases h
  · intro meet
    have hbesides := meet.besides
    rw [if_pos meet.fits]
    congr 1
    omega

/-- In an offer that has no negative size and fits as a whole, it is the texts that make the
difference. -/
theorem meet_iff_of_plain {i : Introduction} (hfiles : ∀ f ∈ i.files, 0 ≤ f.size)
    (htexts : ∀ t ∈ i.texts, 0 ≤ t.size)
    (hfits : (i.files.map (·.size)).sum + (i.texts.map (·.size)).sum ≤ i64Max) :
    Meet i ↔ ∀ t ∈ i.texts, t.size = 0 := by
  have hsizes : ∀ x ∈ i.files.map (·.size) ++ i.texts.map (·.size), 0 ≤ x := by
    intro x hx
    rcases List.mem_append.mp hx with hx | hx
    · obtain ⟨f, hf, rfl⟩ := List.mem_map.mp hx
      exact hfiles f hf
    · obtain ⟨t, ht, rfl⟩ := List.mem_map.mp hx
      exact htexts t ht
  have hcut : Clamped.cut i64Min i64Max 0 (i.files.map (·.size) ++ i.texts.map (·.size)) = 0 := by
    apply Clamped.cut_eq_zero
    intro pre hpre
    have hpre := Clamped.prefix_sum_le hsizes hpre
    rw [List.sum_append] at hpre
    unfold i64Min i64Max at *
    omega
  have hnegative : (i.files.map fun f => min f.size 0).sum = 0 := by
    apply List.sum_eq_zero
    intro x hx
    obtain ⟨f, hf, rfl⟩ := List.mem_map.mp hx
    exact min_eq_right (hfiles f hf)
  have htotal : 0 ≤ (i.texts.map (·.size)).sum :=
    List.sum_nonneg fun x hx => hsizes x (List.mem_append_right _ hx)
  have hcounted := sum_sizes i.files
  have hbesides : besides i = (i.texts.map (·.size)).sum := by
    rw [besides, hcut, hnegative]
    omega
  have hzero : (i.texts.map (·.size)).sum = 0 ↔ ∀ t ∈ i.texts, t.size = 0 := by
    constructor
    · intro hsum t ht
      exact List.all_zero_of_le_zero_le_of_sum_eq_zero
        (fun x hx => hsizes x (List.mem_append_right _ hx)) hsum (List.mem_map_of_mem ht)
    · intro hnone
      apply List.sum_eq_zero
      intro x hx
      obtain ⟨t, ht, rfl⟩ := List.mem_map.mp hx
      exact hnone t ht
  rw [← hzero]
  constructor
  · intro meet
    have := meet.besides
    omega
  · intro hnone
    exact ⟨by omega, .inl (by omega)⟩

/-- A photo with a note. -/
def photoAndNote : Introduction :=
  { files := [{ size := 5, payloadId := 1 }], texts := [{ size := 3, payloadId := 2 }] }

/-- Two files of the largest size there is. -/
def twoLargest : Introduction :=
  { files := [{ size := i64Max, payloadId := 1 }, { size := i64Max, payloadId := 2 }] }

theorem fits_photoAndNote : photoAndNote.Fits where
  files := by
    intro f hf
    obtain rfl := List.mem_singleton.mp hf
    exact ⟨by decide, by decide, by decide, by decide⟩
  texts := by
    intro t ht
    obtain rfl := List.mem_singleton.mp ht
    exact ⟨by decide, by decide, by decide, by decide⟩
  length := by decide

theorem fits_twoLargest : twoLargest.Fits where
  files := by
    intro f hf
    rcases List.mem_pair.mp hf with rfl | rfl
    · exact ⟨by decide, by decide, by decide, by decide⟩
    · exact ⟨by decide, by decide, by decide, by decide⟩
  texts := fun _ ht => absurd ht List.not_mem_nil
  length := by decide

/-- One offer is shown with a total of eight and with one of five.  For another, the second
total overflows. -/
theorem offerTotals_differ :
    parse (introduction photoAndNote) = .ok (.introduction photoAndNote) ∧
      askTotal photoAndNote.files = some 5 ∧ serveTotal photoAndNote = 8 ∧
    parse (introduction twoLargest) = .ok (.introduction twoLargest) ∧
      askTotal twoLargest.files = none ∧ serveTotal twoLargest = i64Max :=
  ⟨parse_introduction fits_photoAndNote, by decide, by decide,
    parse_introduction fits_twoLargest, by decide, by decide⟩

end Sharingd
