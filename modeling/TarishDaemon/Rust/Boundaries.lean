import Mathlib.Data.List.GetD
import Mathlib.Data.List.Infix
import TarishDaemon.Rust.Text

/-!
# The boundaries of characters

A character is one byte that continues nothing, and behind it bytes that do.  A place in the
bytes of a text is between two characters exactly where the byte that stands there continues
nothing (`isCont_eq_false_iff`).

`LongestWithin` is what is left of a text that has to fit: the longest of its prefixes.
-/

namespace Rust

/-- A byte that opens a character, and the bytes that continue it. -/
theorem utf8EncodeChar_eq (c : Char) : ∃ lead conts,
    String.utf8EncodeChar c = lead :: conts ∧ isCont lead = false ∧
      ∀ b ∈ conts, isCont b = true := by
  have hlead : ∀ n, n < 256 → (n < 0x80 ∨ 0xC0 ≤ n) → isCont (UInt8.ofNat n) = false := by
    intro n hn hout
    rw [← Bool.not_eq_true, isCont_iff, toNat_ofNat_byte hn]
    omega
  unfold String.utf8EncodeChar
  simp only
  split
  · exact ⟨_, [], rfl, hlead _ (by omega) (by omega), nofun⟩
  · split
    · refine ⟨_, _, rfl, hlead _ (by omega) (by omega), ?_⟩
      intro b hb
      obtain rfl := List.mem_singleton.mp hb
      exact isCont_ofNat _
    · split
      · refine ⟨_, _, rfl, hlead _ (by omega) (by omega), ?_⟩
        simp only [List.mem_cons, List.not_mem_nil, or_false, forall_eq_or_imp, forall_eq,
          isCont_ofNat, and_self]
      · refine ⟨_, _, rfl, hlead _ (by omega) (by omega), ?_⟩
        simp only [List.mem_cons, List.not_mem_nil, or_false, forall_eq_or_imp, forall_eq,
          isCont_ofNat, and_self]

theorem asBytes_cons (c : Char) (t : Text) :
    asBytes (c :: t) = String.utf8EncodeChar c ++ asBytes t :=
  rfl

/-- **A byte of a text continues nothing exactly where a character ends before it.** -/
theorem isCont_eq_false_iff {t : Text} {k : Nat} (hk : k < (asBytes t).length) :
    isCont ((asBytes t).getD k 0) = false ↔ ∃ p, p <+: t ∧ (asBytes p).length = k := by
  induction t generalizing k with
  | nil => cases hk
  | cons c t ih =>
      obtain ⟨lead, conts, henc, hlead, hconts⟩ := utf8EncodeChar_eq c
      rw [asBytes_cons, henc, List.length_append, List.length_cons] at hk
      rw [asBytes_cons, henc]
      have hlonger : ∀ p, (asBytes (c :: p)).length = conts.length + 1 + (asBytes p).length := by
        intro p
        rw [asBytes_cons, henc, List.length_append, List.length_cons]
      cases k with
      | zero => simpa [hlead] using ⟨[], List.nil_prefix, rfl⟩
      | succ j =>
          by_cases hin : j < conts.length
          · -- within the first character
            have hbyte : isCont ((lead :: conts ++ asBytes t).getD (j + 1) 0) = true := by
              rw [List.cons_append, List.getD_cons_succ, List.getD_append _ _ _ _ hin,
                List.getD_eq_getElem _ _ hin]
              exact hconts _ (List.getElem_mem hin)
            rw [hbyte]
            refine ⟨nofun, ?_⟩
            rintro ⟨p, hp, hlen⟩
            cases p with
            | nil => cases hlen
            | cons d p =>
                obtain rfl := (List.cons_prefix_cons.mp hp).1
                have hcount := hlonger p
                omega
          · have hrest : (lead :: conts ++ asBytes t).getD (j + 1) 0 =
                (asBytes t).getD (j - conts.length) 0 := by
              rw [List.cons_append, List.getD_cons_succ,
                List.getD_append_right _ _ _ _ (Nat.not_lt.mp hin)]
            rw [hrest, ih (by omega)]
            constructor
            · rintro ⟨p, hp, hlen⟩
              refine ⟨c :: p, List.cons_prefix_cons.mpr ⟨rfl, hp⟩, ?_⟩
              rw [hlonger]
              omega
            · rintro ⟨p, hp, hlen⟩
              cases p with
              | nil => cases hlen
              | cons d p =>
                  obtain ⟨rfl, htail⟩ := List.cons_prefix_cons.mp hp
                  refine ⟨p, htail, ?_⟩
                  have hcount := hlonger p
                  omega

/-- Of two prefixes of a text the one with fewer bytes is a prefix of the other. -/
theorem prefix_of_length_le {p q t : Text} (hp : p <+: t) (hq : q <+: t)
    (h : (asBytes q).length ≤ (asBytes p).length) : q <+: p := by
  rcases List.prefix_or_prefix_of_prefix hq hp with hqp | ⟨rest, rfl⟩
  · exact hqp
  · rw [asBytes_append, List.length_append] at h
    have hnone : (asBytes rest).length = 0 := by omega
    cases rest with
    | nil => rw [List.append_nil]
    | cons c rest =>
        obtain ⟨lead, conts, henc, -⟩ := utf8EncodeChar_eq c
        rw [asBytes_cons, henc] at hnone
        cases hnone

/-! ## The longest prefix that fits -/

/-- The longest prefix of a text that is no more than so many bytes. -/
structure LongestWithin (budget : Nat) (t p : Text) : Prop where
  isPrefix : p <+: t
  fits : (asBytes p).length ≤ budget
  longest : ∀ q, q <+: t → (asBytes q).length ≤ budget → q <+: p

/-- There is one. -/
theorem LongestWithin.eq {budget : Nat} {t p q : Text} (hp : LongestWithin budget t p)
    (hq : LongestWithin budget t q) : p = q :=
  (hq.longest p hp.isPrefix hp.fits).eq_of_length_le
    (hp.longest q hq.isPrefix hq.fits).length_le

/-- A text that fits is its own longest prefix. -/
theorem LongestWithin.whole {budget : Nat} {t : Text} (h : (asBytes t).length ≤ budget) :
    LongestWithin budget t t where
  isPrefix := List.prefix_rfl
  fits := h
  longest := fun _ hq _ => hq

end Rust
