import Mathlib.Data.List.DropRight
import Mathlib.Data.List.TakeWhile
import TarishDaemon.Rust.Radix
import TarishDaemon.Sharingd.Inbox

/-!
# The names of received files

A name that `safe_leaf` made is one that it leaves alone, also when a directory stands
before it; and `non_clobbering` makes the path of a name that is such a name again
(`safeLeaf_variant`), with the extension that the name had (`suffix_variant_iff`).
-/

namespace Sharingd

open Rust

/-- `Path::file_name`. -/
def fileName (path : Text) : Option Text :=
  match ((path.splitOn '/').filter fun c => c ≠ [] ∧ c ≠ ['.']).getLast? with
  | none => none
  | some c => if c = ['.', '.'] then none else some c

/-- The name with a number in it, as `non_clobbering` writes it. -/
def variant (leaf : Text) (n : Nat) : Text :=
  (splitExtension leaf).1 ++ (" (".toList ++ (Nat.toDigits 10 n ++ (")".toList ++
    (splitExtension leaf).2)))

/-! ### Trimmed twice -/

theorem dropWhile_of_prefix {p : Char → Bool} {t b : Text} (h : b <+: t.dropWhile p) :
    b.dropWhile p = b := by
  cases b with
  | nil => rfl
  | cons c b =>
      obtain ⟨tail, htail⟩ := h
      have hne : t.dropWhile p ≠ [] := by
        rw [← htail]
        exact List.cons_ne_nil _ _
      have hhead := List.head_dropWhile_not p hne
      simp only [← htail, List.cons_append, List.head_cons] at hhead
      rw [List.dropWhile_cons, if_neg (by simp [hhead])]

theorem trim_trim (t : Text) : trim (trim t) = trim t := by
  have hprefix : trim t <+: t.dropWhile isWhitespace := by
    have hsuffix := List.dropWhile_suffix isWhitespace (l := (t.dropWhile isWhitespace).reverse)
    exact List.reverse_suffix.mp (by rw [trim, List.reverse_reverse]; exact hsuffix)
  have hback : (trim t).reverse.dropWhile isWhitespace = (trim t).reverse := by
    rw [trim, List.reverse_reverse]
    exact dropWhile_of_prefix List.prefix_rfl
  rw [trim.eq_1 (trim t), dropWhile_of_prefix hprefix, hback, List.reverse_reverse]

theorem trim_eq_self_iff {t : Text} :
    trim t = t ↔ t.dropWhile isWhitespace = t ∧ t.rdropWhile isWhitespace = t := by
  constructor
  · intro h
    have hsuffix := List.dropWhile_suffix isWhitespace (l := t)
    have hprefix := List.rdropWhile_prefix isWhitespace (t.dropWhile isWhitespace)
    have hlen : t.length ≤ (t.dropWhile isWhitespace).length := by
      calc
        t.length = (trim t).length := by rw [h]
        _ ≤ (t.dropWhile isWhitespace).length := hprefix.length_le
    have hfront := hsuffix.eq_of_length_le hlen
    refine ⟨hfront, ?_⟩
    calc
      t.rdropWhile isWhitespace = (t.dropWhile isWhitespace).rdropWhile isWhitespace := by
        rw [hfront]
      _ = t := h
  · rintro ⟨hfront, hback⟩
    calc
      trim t = (t.dropWhile isWhitespace).rdropWhile isWhitespace := rfl
      _ = t := by rw [hfront, hback]

theorem mem_of_mem_trim {t : Text} {c : Char} (h : c ∈ trim t) : c ∈ t := by
  have hdrop := (List.dropWhile_suffix _).subset (List.mem_reverse.mp h)
  exact (List.dropWhile_suffix _).subset (List.mem_reverse.mp hdrop)

/-! ### Text that is safe to show -/

/-- What `display_safe` lets pass. -/
def isShowable (c : Char) : Bool :=
  !(decide (c.toNat = 0) || isControl c || isOverride c)

theorem displaySafe_iff {t : Text} : displaySafe t = true ↔ ∀ c ∈ t, isShowable c = true := by
  simp only [displaySafe, isShowable, Bool.not_eq_true', List.any_eq_false, Bool.not_eq_true]

theorem displaySafe_append {s t : Text} :
    displaySafe (s ++ t) = true ↔ displaySafe s = true ∧ displaySafe t = true := by
  simp only [displaySafe_iff, List.mem_append]
  grind

theorem isShowable_digitChar {d : Nat} (hd : d < 10) : isShowable (Nat.digitChar d) = true := by
  have hall : ∀ d < 10, isShowable (Nat.digitChar d) = true := by decide
  exact hall d hd

/-! ### A safe leaf -/

/-- What `safe_leaf` promises of a name. -/
structure SafeLeaf (leaf : Text) : Prop where
  ne_nil : leaf ≠ []
  ne_dot : leaf ≠ ['.']
  ne_dots : leaf ≠ ['.', '.']
  shown : displaySafe leaf = true
  slash : '/' ∉ leaf
  backslash : '\\' ∉ leaf
  trimmed : trim leaf = leaf

theorem safeLeaf_safe {entry leaf : Text} (h : safeLeaf entry = some leaf) : SafeLeaf leaf := by
  unfold safeLeaf at h
  dsimp only at h
  split at h
  · cases h
  next hdots =>
    split at h
    · cases h
    next hshown =>
      cases h
      have hsep : ∀ c ∈ trim (entry.reverse.takeWhile fun c => c ≠ '/' ∧ c ≠ '\\').reverse,
          c ≠ '/' ∧ c ≠ '\\' := by
        intro c hc
        have hmem := List.mem_reverse.mp (mem_of_mem_trim hc)
        have hkept := List.mem_takeWhile_imp hmem
        simpa using hkept
      simp only [not_or] at hdots
      exact ⟨hdots.1, hdots.2.1, hdots.2.2, by simpa using hshown,
        fun hc => (hsep _ hc).1 rfl, fun hc => (hsep _ hc).2 rfl, trim_trim _⟩

namespace SafeLeaf

variable {leaf : Text}

theorem takeWhile_reverse (h : SafeLeaf leaf) :
    leaf.reverse.takeWhile (fun c => decide (c ≠ '/' ∧ c ≠ '\\')) = leaf.reverse := by
  rw [List.takeWhile_eq_self_iff]
  intro c hc
  have hc := List.mem_reverse.mp hc
  exact decide_eq_true ⟨fun he => h.slash (he ▸ hc), fun he => h.backslash (he ▸ hc)⟩

theorem safeLeaf_of_last (h : SafeLeaf leaf) {entry : Text}
    (hlast : (entry.reverse.takeWhile fun c => c ≠ '/' ∧ c ≠ '\\').reverse = leaf) :
    safeLeaf entry = some leaf := by
  unfold safeLeaf
  rw [hlast, h.trimmed]
  dsimp only
  rw [if_neg (by simp [h.ne_nil, h.ne_dot, h.ne_dots]), if_neg (by simp [h.shown])]

/-- A safe name is left as it is. -/
theorem safeLeaf_self (h : SafeLeaf leaf) : safeLeaf leaf = some leaf :=
  h.safeLeaf_of_last (by rw [h.takeWhile_reverse, List.reverse_reverse])

/-- A directory before a safe name changes nothing. -/
theorem safeLeaf_append (h : SafeLeaf leaf) (dir : Text) :
    safeLeaf (dir ++ '/' :: leaf) = some leaf := by
  refine h.safeLeaf_of_last ?_
  rw [List.reverse_append, List.reverse_cons, List.append_assoc, List.takeWhile_append,
    h.takeWhile_reverse, if_pos rfl]
  simp

/-- No zero can stand in a name that is shown. -/
theorem ne_zero (h : SafeLeaf leaf) : ∀ c ∈ leaf, c.toNat ≠ 0 := by
  intro c hc hzero
  have hshown := h.shown
  simp only [displaySafe, Bool.not_eq_true', List.any_eq_false] at hshown
  exact hshown c hc (by simp [hzero])

end SafeLeaf

/-! ### An extension -/

theorem rsplitDot_last {stem ext : Text} (plain : '.' ∉ ext) :
    rsplitDot (stem ++ '.' :: ext) = some (stem, ext) := by
  have hplain : ∀ c ∈ ext.reverse, decide (c ≠ '.') = true := by
    intro c hc
    exact decide_eq_true fun he => plain (he ▸ List.mem_reverse.mp hc)
  have hreverse : (stem ++ '.' :: ext).reverse = ext.reverse ++ '.' :: stem.reverse := by simp
  unfold rsplitDot
  rw [hreverse, List.dropWhile_append_of_pos hplain, List.takeWhile_append_of_pos hplain]
  simp

theorem rsplitDot_plain {t stem ext : Text} (h : rsplitDot t = some (stem, ext)) : '.' ∉ ext := by
  unfold rsplitDot at h
  split at h
  · cases h
  · cases h
    intro hc
    have hkept := List.mem_takeWhile_imp (List.mem_reverse.mp hc)
    simp at hkept

/-- A name has an extension, or it gets its number at the end. -/
theorem splitExtension_cases (leaf : Text) :
    splitExtension leaf = (leaf, []) ∨
      ∃ stem ext, stem ≠ [] ∧ '.' ∉ ext ∧ splitExtension leaf = (stem, '.' :: ext) := by
  unfold splitExtension
  split
  next stem ext hsplit =>
    by_cases hstem : stem ≠ []
    · rw [if_pos hstem]
      exact .inr ⟨stem, ext, hstem, rsplitDot_plain hsplit, rfl⟩
    · rw [if_neg hstem]
      exact .inl rfl
  next => exact .inl rfl

theorem splitExtension_last {stem ext : Text} (hstem : stem ≠ []) (plain : '.' ∉ ext) :
    splitExtension (stem ++ '.' :: ext) = (stem, '.' :: ext) := by
  unfold splitExtension
  rw [rsplitDot_last plain]
  exact if_pos hstem

theorem splitExtension_stem {leaf : Text} (h : leaf ≠ []) : (splitExtension leaf).1 ≠ [] := by
  rcases splitExtension_cases leaf with hsplit | ⟨stem, ext, hstem, -, hsplit⟩
  · rw [hsplit]
    exact h
  · rw [hsplit]
    exact hstem

/-- A variant ends in its number, or in the extension of the name. -/
theorem variant_ends (leaf : Text) (n : Nat) :
    [')'] <:+ variant leaf n ∨ ∃ stem ext, stem ≠ [] ∧ '.' ∉ ext ∧ leaf = stem ++ '.' :: ext ∧
      '.' :: ext <:+ variant leaf n := by
  have hleaf := splitExtension_append leaf
  have hend : ')' :: (splitExtension leaf).2 <:+ variant leaf n := by
    rw [variant, ← List.append_assoc, ← List.append_assoc]
    exact List.suffix_append _ _
  rcases splitExtension_cases leaf with hsplit | ⟨stem, ext, hstem, plain, hsplit⟩
  · rw [hsplit] at hend
    exact .inl hend
  · rw [hsplit] at hend hleaf
    exact .inr ⟨stem, ext, hstem, plain, hleaf.symm, (List.suffix_cons _ _).trans hend⟩

/-- **The number goes before the extension**: a variant ends in one where the name does. -/
theorem suffix_variant_iff {leaf ext : Text} {n : Nat} (plain : '.' ∉ ext) (hparen : ')' ∉ ext) :
    '.' :: ext <:+ variant leaf n ↔ ∃ stem, stem ≠ [] ∧ leaf = stem ++ '.' :: ext := by
  constructor
  · intro hsuffix
    rcases variant_ends leaf n with hclosed | ⟨stem, other, hstem, hother, hleaf, hend⟩
    · have hmem : ')' ∈ '.' :: ext := by
        rcases List.suffix_or_suffix_of_suffix hsuffix hclosed with h | h
        · exact absurd (h.subset List.mem_cons_self) (by decide)
        · exact h.subset List.mem_cons_self
      rcases List.mem_cons.mp hmem with he | hmem
      · exact absurd he (by decide)
      · exact absurd hmem hparen
    · -- each of the two begins with its only dot, so that neither is the longer one
      have heq : '.' :: ext = '.' :: other := by
        rcases List.suffix_or_suffix_of_suffix hsuffix hend with h | h
        · rcases List.suffix_cons_iff.mp h with h | h
          · exact h
          · exact absurd (h.subset List.mem_cons_self) hother
        · rcases List.suffix_cons_iff.mp h with h | h
          · exact h.symm
          · exact absurd (h.subset List.mem_cons_self) plain
      exact ⟨stem, hstem, heq ▸ hleaf⟩
  · rintro ⟨stem, hstem, rfl⟩
    rw [variant, splitExtension_last hstem plain, ← List.append_assoc, ← List.append_assoc,
      ← List.append_assoc]
    exact List.suffix_append _ _

/-! ### The file of a path -/

theorem fileName_inboxPath {name : Text} (h : SafeLeaf name) :
    fileName (inboxPath name) = some name := by
  have hkeep : [name].filter (fun c => c ≠ [] ∧ c ≠ ['.']) = [name] :=
    List.filter_eq_self.mpr (by simp [h.ne_nil, h.ne_dot])
  unfold fileName inboxPath
  rw [List.splitOn_append_cons_self, List.splitOn_eq_singleton h.slash, List.filter_append, hkeep,
    List.getLast?_concat]
  dsimp only
  rw [if_neg h.ne_dots]

theorem numbered_eq (leaf : Text) (n : Nat) :
    numbered inboxDir (splitExtension leaf).1 (splitExtension leaf).2 n =
      inboxPath (variant leaf n) := by
  simp [numbered, inboxPath, variant]

theorem nonClobberingLoop_cases (taken : Text → Bool) (leaf : Text) (rounds n : Nat)
    (candidate : Text) (h : candidate = inboxPath leaf ∨
      ∃ k, 1 ≤ k ∧ k < n ∧ candidate = inboxPath (variant leaf k)) (hn : 1 ≤ n) :
    ∃ name, nonClobberingLoop taken inboxDir (splitExtension leaf).1 (splitExtension leaf).2 rounds
        n candidate = inboxPath name ∧
      (name = leaf ∨ ∃ k, 1 ≤ k ∧ k < n + rounds ∧ name = variant leaf k) := by
  induction rounds generalizing n candidate with
  | zero =>
      rcases h with rfl | ⟨k, hone, hk, rfl⟩
      · exact ⟨leaf, rfl, .inl rfl⟩
      · exact ⟨_, rfl, .inr ⟨k, hone, hk, rfl⟩⟩
  | succ rounds ih =>
      unfold nonClobberingLoop
      split
      · obtain ⟨name, hname, hcase⟩ := ih (n + 1) _
          (.inr ⟨n, hn, Nat.lt_succ_self n, numbered_eq leaf n⟩) (by omega)
        refine ⟨name, hname, hcase.imp_right ?_⟩
        rintro ⟨k, hone, hk, hvar⟩
        exact ⟨k, hone, by omega, hvar⟩
      · rcases h with rfl | ⟨k, hone, hk, rfl⟩
        · exact ⟨leaf, rfl, .inl rfl⟩
        · exact ⟨_, rfl, .inr ⟨k, hone, by omega, rfl⟩⟩

/-- **The path is that of the name, or of one of its variants.** -/
theorem nonClobbering_cases (taken : Text → Bool) (leaf : Text) :
    ∃ name, nonClobbering taken inboxDir leaf = inboxPath name ∧
      (name = leaf ∨ ∃ n, 1 ≤ n ∧ n ≤ 9999 ∧ name = variant leaf n) := by
  obtain ⟨name, hname, hcase⟩ := nonClobberingLoop_cases taken leaf 9999 1 _ (.inl rfl)
    (Nat.le_refl 1)
  refine ⟨name, hname, hcase.imp_right ?_⟩
  rintro ⟨n, hone, hn, hvar⟩
  exact ⟨n, hone, by omega, hvar⟩

/-- What a variant has that the name has not is its number, in parentheses. -/
theorem of_mem_variant {leaf : Text} {n : Nat} {c : Char} (h : c ∈ variant leaf n) :
    c ∈ leaf ∨ c = ' ' ∨ c = '(' ∨ c = ')' ∨ ∃ d < 10, c = Nat.digitChar d := by
  have hparts := splitExtension_append leaf
  have hopen : " (".toList = [' ', '('] := rfl
  have hclose : ")".toList = [')'] := rfl
  simp only [variant, hopen, hclose, List.mem_append, List.mem_cons, List.not_mem_nil,
    or_false] at h
  rcases h with h | (h | h) | h | h | h
  · exact .inl (hparts ▸ List.mem_append_left _ h)
  · exact .inr (.inl h)
  · exact .inr (.inr (.inl h))
  · exact .inr (.inr (.inr (.inr (mem_toDigits (show 1 < 10 by omega) h))))
  · exact .inr (.inr (.inr (.inl h)))
  · exact .inl (hparts ▸ List.mem_append_right _ h)

theorem length_variant (leaf : Text) (n : Nat) : 2 < (variant leaf n).length := by
  have hpos := List.length_pos_iff.mpr (Nat.toDigits_ne_nil (n := n) (b := 10))
  simp only [variant, List.length_append]
  have hopen : " (".toList.length = 2 := rfl
  omega

/-- A variant begins as the name, and it ends as the name or in a parenthesis. -/
theorem trim_variant {leaf : Text} (hne : leaf ≠ []) (h : trim leaf = leaf) (n : Nat) :
    trim (variant leaf n) = variant leaf n := by
  obtain ⟨hfront, hback⟩ := trim_eq_self_iff.mp h
  refine trim_eq_self_iff.mpr ⟨?_, ?_⟩
  · obtain ⟨c, stem, hstem⟩ := List.exists_cons_of_ne_nil (splitExtension_stem hne)
    have hleaf := splitExtension_append leaf
    rw [hstem, List.cons_append] at hleaf
    rw [← hleaf, List.dropWhile_eq_self_iff] at hfront
    rw [variant, hstem, List.cons_append, List.dropWhile_eq_self_iff]
    exact fun _ => hfront (Nat.succ_pos _)
  · rw [List.rdropWhile_eq_self_iff] at hback ⊢
    intro hne'
    rcases variant_ends leaf n with hend | ⟨stem, ext, -, -, hleaf, hend⟩
    · rw [← hend.getLast (List.cons_ne_nil _ _)]
      decide
    · have hlast : '.' :: ext <:+ leaf := ⟨stem, hleaf.symm⟩
      rw [← hend.getLast (List.cons_ne_nil _ _), hlast.getLast (List.cons_ne_nil _ _)]
      exact hback hne

/-- A variant of a safe name is a safe name. -/
theorem safeLeaf_variant {leaf : Text} (h : SafeLeaf leaf) (n : Nat) :
    SafeLeaf (variant leaf n) := by
  have hlen := length_variant leaf n
  -- no digit, no space and no parenthesis is among what is looked for
  have hchar : ∀ c ∈ variant leaf n, c ∈ leaf ∨
      (isShowable c = true ∧ c ≠ '/' ∧ c ≠ '\\') := by
    intro c hc
    rcases of_mem_variant hc with hc | rfl | rfl | rfl | ⟨d, hd, rfl⟩
    · exact .inl hc
    · exact .inr (by decide)
    · exact .inr (by decide)
    · exact .inr (by decide)
    · have hall : ∀ d < 10, Nat.digitChar d ≠ '/' ∧ Nat.digitChar d ≠ '\\' := by decide
      exact .inr ⟨isShowable_digitChar hd, hall d hd⟩
  refine ⟨?_, ?_, ?_, ?_, ?_, ?_, trim_variant h.ne_nil h.trimmed n⟩
  · intro he
    simp [he] at hlen
  · intro he
    simp [he] at hlen
  · intro he
    simp [he] at hlen
  · rw [displaySafe_iff]
    intro c hc
    rcases hchar c hc with hc | hc
    · exact displaySafe_iff.mp h.shown c hc
    · exact hc.1
  · intro hc
    rcases hchar _ hc with hc | hc
    · exact h.slash hc
    · exact hc.2.1 rfl
  · intro hc
    rcases hchar _ hc with hc | hc
    · exact h.backslash hc
    · exact hc.2.2 rfl

/-- The name that is found for a safe leaf is safe. -/
theorem nonClobbering_safe (taken : Text → Bool) {leaf : Text} (safe : SafeLeaf leaf) :
    ∃ name, nonClobbering taken inboxDir leaf = inboxPath name ∧ SafeLeaf name := by
  obtain ⟨name, hname, rfl | ⟨n, -, -, rfl⟩⟩ := nonClobbering_cases taken leaf
  · exact ⟨name, hname, safe⟩
  · exact ⟨_, hname, safeLeaf_variant safe n⟩

theorem inboxPath_injective : Function.Injective inboxPath := by
  intro a b h
  simpa [inboxPath] using h

end Sharingd
