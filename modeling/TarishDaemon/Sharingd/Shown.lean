import TarishDaemon.Sharingd.Ask
import TarishDaemon.Sharingd.Names

/-!
# The name that is shown and the name that is stored

The prompt shows what stands behind the last slash of an offered name.  `safe_leaf`, which
names the file, also takes a backslash for a separator, leaves out the whitespace at both
ends, and refuses a name of dots.

**What is shown is what is stored exactly where none of that has anything to do**
(`shown_stored_iff`).
-/

namespace Sharingd

open Rust Plist

/-- The name that an entry of an offer brings. -/
def entryName (it : Val) : Text :=
  (((it.get "FileName".toList).bind Val.asStr).or
    ((it.get "FileBomPath".toList).bind Val.asStr)).getD []

/-- The entries of an offer. -/
def entries (body : Bytes) : List Val :=
  match (parse body).bind fun v => v.get "Files".toList with
  | some (.array items) => items
  | _ => []

/-- The prompt for the offer shows `d` for the entry. -/
def Shows (body : Bytes) (it : Val) (d : Text) : Prop :=
  ∃ sender names, describeOffer body = some (sender, names) ∧ d ∈ names ∧
    lastComponent (entryName it) = d

/-- A component that `safe_leaf` leaves as it is, if it is safe to show. -/
structure Plain (c : Text) : Prop where
  backslash : '\\' ∉ c
  trimmed : trim c = c
  ne_dot : c ≠ ['.']
  ne_dots : c ≠ ['.', '.']

/-- Without a backslash both reductions stop at the same slash. -/
theorem takeWhile_separators {n : Text} (h : '\\' ∉ lastComponent n) :
    (n.reverse.takeWhile fun c => c ≠ '/' ∧ c ≠ '\\').reverse = lastComponent n := by
  have hmem : ∀ c ∈ n.reverse.takeWhile (· ≠ '/'), c ≠ '\\' := by
    intro c hc heq
    exact h (List.mem_reverse.mpr (heq ▸ hc))
  have hsame : ∀ t : Text, (∀ c ∈ t.takeWhile (· ≠ '/'), c ≠ '\\') →
      t.takeWhile (fun c => c ≠ '/' ∧ c ≠ '\\') = t.takeWhile (· ≠ '/') := by
    intro t ht
    induction t with
    | nil => rfl
    | cons c t ih =>
        by_cases hslash : c = '/'
        · rw [List.takeWhile_cons, List.takeWhile_cons, if_neg (by simp [hslash]),
            if_neg (by simp [hslash])]
        · rw [List.takeWhile_cons, if_pos (by simpa using hslash)] at ht
          have hne := ht c List.mem_cons_self
          rw [List.takeWhile_cons, List.takeWhile_cons, if_pos (by simp [hslash, hne]),
            if_pos (by simpa using hslash), ih fun c hc => ht c (List.mem_cons_of_mem _ hc)]
  rw [hsame n.reverse hmem, lastComponent]

/-- **The file gets the component that is shown** exactly where it is a plain one. -/
theorem safeLeaf_lastComponent_iff {n : Text} (hne : lastComponent n ≠ [])
    (shown : displaySafe (lastComponent n) = true) :
    safeLeaf n = some (lastComponent n) ↔ Plain (lastComponent n) := by
  constructor
  · intro h
    have hsafe := safeLeaf_safe h
    exact ⟨hsafe.backslash, hsafe.trimmed, hsafe.ne_dot, hsafe.ne_dots⟩
  · intro h
    unfold safeLeaf
    rw [takeWhile_separators h.backslash, h.trimmed]
    dsimp only
    rw [if_neg (by simp [hne, h.ne_dot, h.ne_dots]), if_neg (by simp [shown])]

/-! ## The whole offer -/

/-- The names of a prompt are the components of its entries that are not empty. -/
theorem describeOffer_names {body : Bytes} {sender : Text} {names : List Text}
    (h : describeOffer body = some (sender, names)) :
    offeredNames (entries body) = some names := by
  unfold describeOffer at h
  unfold entries
  cases hparse : parse body with
  | none =>
      rw [hparse] at h
      cases h
      rfl
  | some v =>
      rw [hparse] at h
      rw [Option.bind_some]
      dsimp only at h
      split at h
      · cases h
      next shown hshown =>
        split at h
        · cases h
        obtain ⟨-, rfl⟩ := Prod.mk.inj (Option.some.inj h)
        rw [← hshown]
        cases v.get "Files".toList with
        | none => rfl
        | some files => cases files <;> rfl

/-- A prompt shows every entry whose component is not empty. -/
theorem shows_iff {body : Bytes} {it : Val} (hit : it ∈ entries body) (d : Text) :
    Shows body it d ↔
      (describeOffer body).isSome ∧ d ≠ [] ∧ lastComponent (entryName it) = d := by
  constructor
  · rintro ⟨sender, names, hoffer, hmem, hd⟩
    have hnames := offeredNames_some (describeOffer_names hoffer)
    rw [hnames] at hmem
    exact ⟨by rw [hoffer]; rfl, of_decide_eq_true (List.mem_filter.mp hmem).2, hd⟩
  · rintro ⟨hsome, hne, hd⟩
    obtain ⟨⟨sender, names⟩, hoffer⟩ := Option.isSome_iff_exists.mp hsome
    refine ⟨sender, names, hoffer, ?_, hd⟩
    rw [offeredNames_some (describeOffer_names hoffer)]
    exact List.mem_filter.mpr ⟨List.mem_map.mpr ⟨it, hit, hd⟩, by simpa using hne⟩

theorem shows_safe {body : Bytes} {it : Val} {d : Text} (h : Shows body it d) :
    displaySafe d = true := by
  obtain ⟨sender, names, hoffer, hmem, -⟩ := h
  exact offeredNames_shown (describeOffer_names hoffer) d hmem

/-- **What the prompt shows is what will be stored**, for every entry of an offer, exactly
where the offer is refused or every component that is not empty is a plain one. -/
theorem shown_stored_iff (body : Bytes) :
    (∀ it ∈ entries body, ∀ d, Shows body it d → safeLeaf (entryName it) = some d) ↔
      describeOffer body = none ∨
        ∀ it ∈ entries body, lastComponent (entryName it) ≠ [] →
          Plain (lastComponent (entryName it)) := by
  constructor
  · intro h
    cases hoffer : describeOffer body with
    | none => exact .inl rfl
    | some o =>
        refine .inr fun it hit hne => ?_
        have hshows : Shows body it (lastComponent (entryName it)) :=
          (shows_iff hit _).mpr ⟨by rw [hoffer]; rfl, hne, rfl⟩
        exact (safeLeaf_lastComponent_iff hne (shows_safe hshows)).mp (h it hit _ hshows)
  · rintro (hnone | hplain) it hit d hshows
    · obtain ⟨sender, names, hoffer, -⟩ := hshows
      rw [hnone] at hoffer
      cases hoffer
    · obtain ⟨-, hne, rfl⟩ := (shows_iff hit d).mp hshows
      exact (safeLeaf_lastComponent_iff hne (shows_safe hshows)).mpr (hplain it hit hne)

/-- An offer of one file whose name begins with a space. -/
def spacedOffer : Value :=
  .dict [("Files".toList, .array [.dict [("FileName".toList, .str " a.txt".toList)]])]

/-- The prompt shows the space, and the file is stored without it. -/
theorem spacedOffer_stored_otherwise :
    ¬ ∀ (body : Bytes), ∀ it ∈ entries body, ∀ d, Shows body it d →
      safeLeaf (entryName it) = some d := by
  intro claim
  have hparse : parse (encode spacedOffer) = some (readBack spacedOffer) :=
    parse_encode (by decide) (by decide) (by decide +kernel)
  have hback : readBack spacedOffer =
      .dict [("Files".toList, .array [.dict [("FileName".toList, .str " a.txt".toList)]])] := by
    have hfiles := readText_of_fits (t := "Files".toList) (by decide)
    have hname := readText_of_fits (t := "FileName".toList) (by decide)
    have htext := readText_of_fits (t := " a.txt".toList) (by decide)
    simp only [spacedOffer, readBack, readEntries, readAll, hfiles, hname, htext]
  have hentries : entries (encode spacedOffer) =
      [.dict [("FileName".toList, .str " a.txt".toList)]] := by
    rw [entries, hparse, hback]
    rfl
  have hoffer : describeOffer (encode spacedOffer) = some ([], [" a.txt".toList]) := by
    rw [describeOffer, hparse, hback]
    rfl
  have hshows : Shows (encode spacedOffer)
      (.dict [("FileName".toList, .str " a.txt".toList)]) " a.txt".toList :=
    ⟨[], [" a.txt".toList], hoffer, List.mem_singleton.mpr rfl, rfl⟩
  have hstored := claim _ _ (by rw [hentries]; exact List.mem_singleton.mpr rfl) _ hshows
  exact absurd hstored (by decide)

end Sharingd
