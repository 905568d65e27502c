import TarishDaemon.Lib.Spaced
import TarishDaemon.Rust.Boundaries
import TarishDaemon.Sharingd.Names

/-!
# The name of the device

Whatever a person or an administrator types in is made into a name for a room of strangers:
nothing invisible in it, one space between words, 90 bytes at most, and empty where there is
nothing to read in it.

Whether there is, is asked before the cut.  And of the characters that turn a text around one is
not among the invisible ones.  So a name comes out as it should exactly where the front that fits
has something to read and not that character (`cleaned_iff`).
-/

namespace Sharingd

open Rust Spaced

/-- The zero-width and bidirectional formatting block. -/
def isFormatting (c : Char) : Bool :=
  decide (0x200B ≤ c.toNat ∧ c.toNat ≤ 0x200F ∨ 0x202A ≤ c.toNat ∧ c.toNat ≤ 0x202E ∨
    0x2060 ≤ c.toNat ∧ c.toNat ≤ 0x206F ∨ c.toNat = 0xFEFF)

/-- Printable text. -/
def isPrintable (c : Char) : Bool :=
  !isControl c && !isFormatting c

/-- Cut character by character, until it fits. -/
def cutTo (budget : Nat) (t : Text) : Text :=
  if (asBytes t).length > budget then cutTo budget t.dropLast else t
termination_by t.length
decreasing_by
  have hne : t ≠ [] := by
    rintro rfl
    simp [asBytes] at *
  rw [List.length_dropLast]
  have hpos := List.length_pos_of_ne_nil hne
  omega

section

variable (isAlphanumeric : Char → Bool)

/-- Reduce a name to something safe to advertise, or to empty if nothing is left. -/
def cleanName (name : Text) : Text :=
  let stripped := name.filter isPrintable
  let out := trim (collapse isWhitespace ' ' stripped)
  if !out.any isAlphanumeric then []
  else trim (cutTo 90 out)

/-- What is advertised is empty, or can be. -/
def Advertisable (t : Text) : Prop :=
  t = [] ∨ (asBytes t).length ≤ 90 ∧ (∃ c ∈ t, isAlphanumeric c) ∧ displaySafe t ∧
    (∀ c ∈ t.head?, isWhitespace c = false) ∧ (∀ c ∈ t.getLast?, isWhitespace c = false) ∧
    t.IsChain fun a b => isWhitespace a = false ∨ isWhitespace b = false

/-- It is made into such a name, and then left alone. -/
def Cleaned (name : Text) : Prop :=
  Advertisable isAlphanumeric (cleanName isAlphanumeric name) ∧
    cleanName isAlphanumeric (cleanName isAlphanumeric name) = cleanName isAlphanumeric name

end

/-- The words of a name, without what is invisible and one space apart. -/
def spacedOut (name : Text) : Text :=
  [' '].intercalate (words isWhitespace (name.filter isPrintable))

/-! ## The passes -/

theorem isWhitespace_space : isWhitespace ' ' = true := by decide

theorem longestWithin_cutTo (budget : Nat) (t : Text) : LongestWithin budget t (cutTo budget t) := by
  fun_induction cutTo budget t with
  | case1 t hlong ih =>
      refine ⟨ih.isPrefix.trans (List.dropLast_prefix t), ih.fits, ?_⟩
      intro q hq hfits
      apply ih.longest q _ hfits
      have hne : t ≠ [] := by
        rintro rfl
        simp [asBytes] at hlong
      rw [← List.dropLast_append_getLast hne, List.prefix_concat_iff] at hq
      rcases hq with rfl | hq
      · rw [List.dropLast_append_getLast hne] at hfits
        omega
      · exact hq
  | case2 t hshort => exact .whole (Nat.not_lt.mp hshort)

theorem mem_trim {t : Text} {c : Char} (hc : isWhitespace c = false) : c ∈ trim t ↔ c ∈ t := by
  have hdrop : ∀ l : Text, c ∈ l → c ∈ l.dropWhile isWhitespace := by
    intro l hl
    rw [← List.takeWhile_append_dropWhile (p := isWhitespace) (l := l), List.mem_append] at hl
    refine hl.resolve_left fun hfront => ?_
    have hgap := List.mem_takeWhile_imp hfront
    rw [hc] at hgap
    cases hgap
  refine ⟨mem_of_mem_trim, fun h => ?_⟩
  rw [trim, List.mem_reverse]
  exact hdrop _ (List.mem_reverse.mpr (hdrop _ h))

theorem dropWhile_of_opens {t : Text} (h : Opens isWhitespace ' ' t) :
    t.dropWhile isWhitespace = t := by
  cases t with
  | nil => rfl
  | cons c t =>
      have hc := h.head c (by simp)
      rw [List.dropWhile_cons, if_neg (by simp [hc])]

theorem trim_of_neat {t : Text} (h : Neat isWhitespace ' ' t) : trim t = t := by
  refine trim_eq_self_iff.mpr ⟨dropWhile_of_opens h.toOpens, List.rdropWhile_eq_self_iff.mpr ?_⟩
  intro hne
  have hlast := h.last (t.getLast hne) (by simp [List.getLast?_eq_getLast_of_ne_nil hne])
  simpa using hlast

/-- What opens well is neat once it is trimmed. -/
theorem neat_trim {t : Text} (h : Opens isWhitespace ' ' t) :
    trim t <+: t ∧ Neat isWhitespace ' ' (trim t) := by
  have hpre : trim t <+: t := by
    have htrim : trim t = t.rdropWhile isWhitespace := by
      rw [trim, dropWhile_of_opens h]
      rfl
    rw [htrim]
    exact List.rdropWhile_prefix isWhitespace t
  refine ⟨hpre, h.of_prefix hpre, ?_⟩
  intro c hc
  have hlast := List.rdropWhile_eq_self_iff.mp (trim_eq_self_iff.mp (trim_trim t)).2
  have hne : trim t ≠ [] := by
    intro hnil
    rw [hnil] at hc
    cases hc
  rw [List.getLast?_eq_getLast_of_ne_nil hne] at hc
  obtain rfl := Option.some.inj hc
  simpa using hlast hne

/-! ## What comes out -/

/-- It turns the text around, and it is not among the invisible characters. -/
def letterMark : Char := Char.ofNat 0x061C

theorem isShowable_iff {c : Char} (hc : isPrintable c) : isShowable c ↔ c ≠ letterMark := by
  have hmark : c = letterMark ↔ c.toNat = 0x061C := by
    constructor
    · rintro rfl
      decide
    · intro h
      exact Char.toNat_inj.mp h
  rw [Ne, hmark]
  simp only [isPrintable, isControl, isFormatting, Bool.and_eq_true, Bool.not_eq_true',
    decide_eq_false_iff_not] at hc
  simp only [isShowable, isControl, isOverride, Bool.not_eq_true', Bool.or_eq_false_iff,
    decide_eq_false_iff_not, List.mem_cons, List.not_mem_nil, or_false]
  omega

theorem spacedOut_eq (name : Text) :
    spacedOut name = collapse isWhitespace ' ' (name.filter isPrintable) :=
  (collapse_eq_intercalate _).symm

theorem neat_spacedOut (name : Text) : Neat isWhitespace ' ' (spacedOut name) := by
  rw [spacedOut_eq]
  exact neat_collapse isWhitespace_space _

theorem isPrintable_spacedOut {name : Text} {c : Char} (hc : c ∈ spacedOut name) :
    isPrintable c := by
  cases hgap : isWhitespace c with
  | true =>
      obtain rfl := (neat_spacedOut name).only c hc hgap
      decide
  | false =>
      rw [spacedOut_eq, mem_collapse isWhitespace_space hgap] at hc
      exact (List.mem_filter.mp hc).2

section

variable {isAlphanumeric : Char → Bool}
  (hspace : ∀ c, isWhitespace c → isAlphanumeric c = false)

variable (isAlphanumeric) in
theorem cleanName_eq (name : Text) :
    cleanName isAlphanumeric name =
      if (spacedOut name).any isAlphanumeric then trim (cutTo 90 (spacedOut name)) else [] := by
  rw [cleanName, ← spacedOut_eq, trim_of_neat (neat_spacedOut name)]
  cases (spacedOut name).any isAlphanumeric with
  | true => rfl
  | false => rfl

variable (isAlphanumeric) in
/-- A name that could come out is left alone if there is something to read in it. -/
theorem cleanName_of_neat {t : Text} (h : Neat isWhitespace ' ' t) (hprint : ∀ c ∈ t, isPrintable c)
    (hfits : (asBytes t).length ≤ 90) :
    cleanName isAlphanumeric t = if t.any isAlphanumeric then t else [] := by
  have hsame : spacedOut t = t := by
    rw [spacedOut_eq, List.filter_eq_self.mpr hprint, collapse_of_neat isWhitespace_space h]
  rw [cleanName_eq, hsame]
  have hcut := (longestWithin_cutTo 90 t).eq (.whole hfits)
  rw [hcut, trim_of_neat h]

/-- The front that fits, trimmed. -/
structure Front (name p : Text) : Prop where
  neat : Neat isWhitespace ' ' (trim p)
  printable : ∀ c ∈ trim p, isPrintable c
  fits : (asBytes (trim p)).length ≤ 90

theorem front_of_longestWithin {name p : Text} (h : LongestWithin 90 (spacedOut name) p) :
    Front name p := by
  obtain ⟨hpre, hneat⟩ := neat_trim ((neat_spacedOut name).toOpens.of_prefix h.isPrefix)
  refine ⟨hneat, ?_, ?_⟩
  · intro c hc
    exact isPrintable_spacedOut (h.isPrefix.subset (hpre.subset hc))
  · obtain ⟨rest, hrest⟩ := hpre
    have hbytes := congrArg (fun t => (asBytes t).length) hrest
    simp only [asBytes_append, List.length_append] at hbytes
    have hfits := h.fits
    omega

theorem advertisable_front {name p : Text} (front : Front name p)
    (hread : ∃ c ∈ trim p, isAlphanumeric c) (hmark : letterMark ∉ trim p) :
    Advertisable isAlphanumeric (trim p) := by
  refine .inr ⟨front.fits, hread, ?_, front.neat.head, front.neat.last, front.neat.apart⟩
  rw [displaySafe_iff]
  intro c hc
  refine (isShowable_iff (front.printable c hc)).mpr ?_
  rintro rfl
  exact hmark hc

/-- A word begins in front, and its first character fits. -/
theorem trim_front_ne_nil {name p : Text} (hp : LongestWithin 90 (spacedOut name) p)
    (hany : (spacedOut name).any isAlphanumeric = true) : trim p ≠ [] := by
  intro hnil
  have neat := neat_spacedOut name
  cases hout : spacedOut name with
  | nil =>
      rw [hout] at hany
      cases hany
  | cons c t =>
      rw [hout] at hp neat
      have hsize : (asBytes [c]).length ≤ 90 := by
        have hc : (asBytes [c]).length = c.utf8Size := by
          simp [asBytes]
        have hfour := c.utf8Size_le_four
        omega
      have hfirst : [c] <+: p := hp.longest [c] (List.prefix_append [c] t) hsize
      have hmem := (mem_trim (neat.head c rfl)).mpr (hfirst.subset (List.mem_singleton_self c))
      rw [hnil] at hmem
      cases hmem

include hspace

theorem not_whitespace {c : Char} (hc : isAlphanumeric c = true) : isWhitespace c = false := by
  by_contra hgap
  have hnot := hspace c (eq_true_of_ne_false hgap)
  rw [hc] at hnot
  cases hnot

theorem any_trim_iff (p : Text) : (∃ c ∈ trim p, isAlphanumeric c) ↔ ∃ c ∈ p, isAlphanumeric c := by
  constructor
  · rintro ⟨c, hmem, hc⟩
    exact ⟨c, (mem_trim (not_whitespace hspace hc)).mp hmem, hc⟩
  · rintro ⟨c, hmem, hc⟩
    exact ⟨c, (mem_trim (not_whitespace hspace hc)).mpr hmem, hc⟩

/-- There is something to read in the name. -/
theorem any_spacedOut_iff (name : Text) :
    (spacedOut name).any isAlphanumeric ↔ ∃ c ∈ name, isPrintable c ∧ isAlphanumeric c := by
  rw [List.any_eq_true]
  constructor
  · rintro ⟨c, hmem, hc⟩
    rw [spacedOut_eq, mem_collapse isWhitespace_space (not_whitespace hspace hc)] at hmem
    obtain ⟨hname, hprint⟩ := List.mem_filter.mp hmem
    exact ⟨c, hname, hprint, hc⟩
  · rintro ⟨c, hname, hprint, hc⟩
    refine ⟨c, ?_, hc⟩
    rw [spacedOut_eq, mem_collapse isWhitespace_space (not_whitespace hspace hc)]
    exact List.mem_filter.mpr ⟨hname, hprint⟩

/-- **A name comes out as it should exactly where there is nothing to read in it, or there is in
the front of 90 bytes and the letter mark is not in that front.** -/
theorem cleaned_iff (name : Text) :
    Cleaned isAlphanumeric name ↔
      (∀ c ∈ name, isPrintable c → isAlphanumeric c = false) ∨
        ∃ p, LongestWithin 90 (spacedOut name) p ∧ (∃ c ∈ p, isAlphanumeric c) ∧
          letterMark ∉ p := by
  have hcut := longestWithin_cutTo 90 (spacedOut name)
  have front := front_of_longestWithin hcut
  have hagain := cleanName_of_neat isAlphanumeric front.neat front.printable front.fits
  have hmarkGap : isWhitespace letterMark = false := by decide
  cases hany : (spacedOut name).any isAlphanumeric with
  | false =>
      have hnone : ¬ ∃ c ∈ name, isPrintable c ∧ isAlphanumeric c := by
        rw [← any_spacedOut_iff hspace, hany]
        exact Bool.false_ne_true
      have hempty : cleanName isAlphanumeric name = [] := by
        rw [cleanName_eq, hany]
        rfl
      have hsame : cleanName isAlphanumeric [] = [] := by
        simp [cleanName_of_neat isAlphanumeric neat_nil, asBytes]
      refine iff_of_true ⟨.inl hempty, by rw [hempty, hsame]⟩ (.inl ?_)
      intro c hc hprint
      by_contra hread
      exact hnone ⟨c, hc, hprint, eq_true_of_ne_false hread⟩
  | true =>
      have hread : ∃ c ∈ name, isPrintable c ∧ isAlphanumeric c :=
        (any_spacedOut_iff hspace name).mp hany
      have hclean : cleanName isAlphanumeric name = trim (cutTo 90 (spacedOut name)) := by
        rw [cleanName_eq, hany]
        rfl
      rw [Cleaned, hclean]
      constructor
      · rintro ⟨hadv, -⟩
        right
        refine ⟨_, hcut, ?_⟩
        rcases hadv with hempty | ⟨-, hfront, hsafe, -⟩
        · exact absurd hempty (trim_front_ne_nil hcut hany)
        · refine ⟨(any_trim_iff hspace _).mp hfront, ?_⟩
          intro hmark
          have hmem := (mem_trim hmarkGap).mpr hmark
          have hshow := displaySafe_iff.mp hsafe letterMark hmem
          exact (isShowable_iff (front.printable _ hmem)).mp hshow rfl
      · rintro (hnone | ⟨p, hp, hfront, hmark⟩)
        · obtain ⟨c, hc, hprint, halnum⟩ := hread
          rw [hnone c hc hprint] at halnum
          cases halnum
        · obtain rfl := hp.eq hcut
          have hfront := (any_trim_iff hspace _).mpr hfront
          refine ⟨advertisable_front front hfront fun h => hmark (mem_of_mem_trim h), ?_⟩
          rw [hagain, if_pos (List.any_eq_true.mpr hfront)]

end

/-! ## Names -/

theorem whitespace_ascii (c : Char) (hc : isWhitespace c) : c.isAlphanum = false := by
  have htoNat : c.val.toNat = c.toNat := rfl
  simp only [isWhitespace, decide_eq_true_eq, List.mem_cons, List.not_mem_nil, or_false] at hc
  change ((decide (65 ≤ c.val ∧ c.val ≤ 90) || (decide (97 ≤ c.val) && decide (c.val ≤ 122))) ||
    (decide (48 ≤ c.val) && decide (c.val ≤ 57))) = false
  simp only [UInt32.le_iff_toNat_le, UInt32.reduceToNat, htoNat, Bool.or_eq_false_iff,
    Bool.and_eq_false_iff, decide_eq_false_iff_not]
  omega

theorem cleaned_iff_phone :
    Cleaned Char.isAlphanum "  My \t phone ".toList ↔
      (∀ c ∈ "  My \t phone ".toList, isPrintable c → c.isAlphanum = false) ∨
        ∃ p, LongestWithin 90 (spacedOut "  My \t phone ".toList) p ∧ (∃ c ∈ p, c.isAlphanum) ∧
          letterMark ∉ p :=
  cleaned_iff whitespace_ascii _

/-- The letter mark is advertised; and of ninety dots and a letter the dots are, and by the second
time not even these. -/
theorem not_cleaned :
    ¬ Cleaned Char.isAlphanum ['a', letterMark, 'b'] ∧
      ¬ Cleaned Char.isAlphanum (List.replicate 90 '.' ++ ['A']) := by
  have hmarked : cleanName Char.isAlphanum ['a', letterMark, 'b'] = ['a', letterMark, 'b'] := by
    have hout : spacedOut ['a', letterMark, 'b'] = ['a', letterMark, 'b'] := by
      rw [spacedOut_eq]
      decide +kernel
    have hcut : cutTo 90 ['a', letterMark, 'b'] = ['a', letterMark, 'b'] := by
      rw [cutTo, if_neg (by decide +kernel)]
    rw [cleanName_eq, hout, hcut]
    decide +kernel
  have hdotted : cleanName Char.isAlphanum (List.replicate 90 '.' ++ ['A']) =
      List.replicate 90 '.' := by
    have hout : spacedOut (List.replicate 90 '.' ++ ['A']) = List.replicate 90 '.' ++ ['A'] := by
      rw [spacedOut_eq]
      decide +kernel
    have hcut : cutTo 90 (List.replicate 90 '.' ++ ['A']) = List.replicate 90 '.' := by
      rw [cutTo, if_pos (by decide +kernel), List.dropLast_concat, cutTo,
        if_neg (by decide +kernel)]
    rw [cleanName_eq, hout, hcut]
    decide +kernel
  constructor
  · rintro ⟨hadv, -⟩
    rw [hmarked] at hadv
    rcases hadv with hempty | ⟨-, -, hsafe, -⟩
    · cases hempty
    · revert hsafe
      decide +kernel
  · rintro ⟨hadv, -⟩
    rw [hdotted] at hadv
    rcases hadv with hempty | ⟨-, ⟨c, hc, hread⟩, -⟩
    · cases hempty
    · obtain rfl := List.eq_of_mem_replicate hc
      cases hread

end Sharingd
