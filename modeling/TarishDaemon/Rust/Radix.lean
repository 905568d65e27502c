import TarishDaemon.Rust.Utf16

/-!
# Numbers in text

`from_str_radix` takes digits of a base, with a plus sign before them at most, and
refuses what does not fit the type.  The digits that the formatter writes are read
back, zeroes in front of them included.
-/

namespace Rust

/-- `char::to_digit`, for a base up to sixteen. -/
def toDigit (radix : Nat) (c : Char) : Option Nat :=
  let v :=
    if '0' ≤ c ∧ c ≤ '9' then some (c.toNat - 48)
    else if 'a' ≤ c ∧ c ≤ 'z' then some (c.toNat - 87)
    else if 'A' ≤ c ∧ c ≤ 'Z' then some (c.toNat - 55)
    else none
  v.filter (· < radix)

/-- One more digit; `bound` is the first number that does not fit. -/
def pushDigit (radix bound acc : Nat) (c : Char) : Option Nat := do
  let d ← toDigit radix c
  if acc * radix + d < bound then some (acc * radix + d) else none

/-- `from_str_radix` for an unsigned type. -/
def fromStrRadix (radix bound : Nat) (t : Text) : Option Nat :=
  let digits := if t.head? = some '+' then t.tail else t
  if digits = [] then none else digits.foldlM (pushDigit radix bound) 0

theorem toDigit_digitChar {radix d : Nat} (hradix : radix ≤ 16) (hd : d < radix) :
    toDigit radix (Nat.digitChar d) = some d := by
  have hall : ∀ d < 16, toDigit 16 (Nat.digitChar d) = some d := by decide
  have hsixteen := hall d (by omega)
  unfold toDigit at hsixteen ⊢
  rw [Option.filter_eq_some_iff] at hsixteen ⊢
  exact ⟨hsixteen.1, by simpa using hd⟩

theorem pushDigit_digitChar {radix bound acc d : Nat} (hradix : radix ≤ 16) (hd : d < radix)
    (hfits : acc * radix + d < bound) :
    pushDigit radix bound acc (Nat.digitChar d) = some (acc * radix + d) := by
  simp [pushDigit, toDigit_digitChar hradix hd, hfits]

/-- **The digits of a number are read back.** -/
theorem foldlM_toDigits {radix bound : Nat} (hone : 1 < radix) (hradix : radix ≤ 16) {n : Nat}
    (hn : n < bound) : (Nat.toDigits radix n).foldlM (pushDigit radix bound) 0 = some n := by
  induction n using Nat.strongRecOn with
  | ind n ih =>
      rw [Nat.toDigits_eq_if hone]
      split
      next hsmall =>
        have hpush : pushDigit radix bound 0 (Nat.digitChar n) = some (0 * radix + n) :=
          pushDigit_digitChar hradix hsmall (by simpa using hn)
        simpa using hpush
      next hlarge =>
        have hsplit : n / radix * radix + n % radix = n := Nat.div_add_mod' n radix
        have hless : n / radix < n := Nat.div_lt_self (by omega) hone
        have hlast : n % radix < radix := Nat.mod_lt _ (by omega)
        rw [List.foldlM_append, ih _ hless (by omega)]
        have hpush : pushDigit radix bound (n / radix) (Nat.digitChar (n % radix)) =
            some (n / radix * radix + n % radix) :=
          pushDigit_digitChar hradix hlast (by omega)
        simpa [hsplit] using hpush

theorem foldlM_zeros (radix : Nat) {bound : Nat} (hone : 1 < radix) (hradix : radix ≤ 16)
    (hbound : 0 < bound) (k : Nat) :
    (List.replicate k '0').foldlM (pushDigit radix bound) 0 = some 0 := by
  have hzero : pushDigit radix bound 0 '0' = some 0 := by
    have hpush : pushDigit radix bound 0 (Nat.digitChar 0) = some (0 * radix + 0) :=
      pushDigit_digitChar hradix (by omega) (by omega)
    rw [Nat.zero_mul, Nat.zero_add] at hpush
    exact hpush
  induction k with
  | zero => rfl
  | succ k ih => simpa [List.replicate_succ, hzero] using ih

theorem digitChar_ne_plus {d : Nat} (hd : d < 16) : Nat.digitChar d ≠ '+' := by
  have hall : ∀ d < 16, Nat.digitChar d ≠ '+' := by decide
  exact hall d hd

/-- Every digit is one of the base. -/
theorem mem_toDigits {radix : Nat} (hone : 1 < radix) {n : Nat} {c : Char}
    (h : c ∈ Nat.toDigits radix n) : ∃ d, d < radix ∧ c = Nat.digitChar d := by
  induction n using Nat.strongRecOn with
  | ind n ih =>
      rw [Nat.toDigits_eq_if hone] at h
      split at h
      next hsmall => exact ⟨n, hsmall, List.mem_singleton.mp h⟩
      next hlarge =>
        rcases List.mem_append.mp h with h | h
        · exact ih _ (Nat.div_lt_self (by omega) hone) h
        · exact ⟨n % radix, Nat.mod_lt _ (by omega), List.mem_singleton.mp h⟩

/-- Digits are ASCII. -/
theorem isAscii_toDigits {radix : Nat} (hone : 1 < radix) (hradix : radix ≤ 16) (k n : Nat) :
    isAscii (List.replicate k '0' ++ Nat.toDigits radix n) = true := by
  have hall : ∀ d < 16, (Nat.digitChar d).toNat < 0x80 := by decide
  unfold isAscii
  rw [List.all_eq_true]
  intro c hc
  rcases List.mem_append.mp hc with hc | hc
  · rw [List.eq_of_mem_replicate hc]
    rfl
  · obtain ⟨d, hd, rfl⟩ := mem_toDigits hone hc
    exact decide_eq_true (hall d (by omega))

/-- **What the formatter wrote is read back**, with zeroes in front as well. -/
theorem fromStrRadix_toDigits {radix bound : Nat} (hone : 1 < radix) (hradix : radix ≤ 16) {n : Nat}
    (hn : n < bound) (k : Nat) :
    fromStrRadix radix bound (List.replicate k '0' ++ Nat.toDigits radix n) = some n := by
  have hnil : List.replicate k '0' ++ Nat.toDigits radix n ≠ [] := by
    simp [Nat.toDigits_ne_nil]
  have hplus : (List.replicate k '0' ++ Nat.toDigits radix n).head? ≠ some '+' := by
    intro hhead
    have hmem := List.mem_of_mem_head? hhead
    rcases List.mem_append.mp hmem with hmem | hmem
    · exact absurd (List.eq_of_mem_replicate hmem) (by decide)
    · obtain ⟨d, hd, hplus⟩ := mem_toDigits hone hmem
      exact digitChar_ne_plus (by omega) hplus.symm
  unfold fromStrRadix
  dsimp only
  rw [if_neg hplus, if_neg hnil, List.foldlM_append,
    foldlM_zeros radix hone hradix (by omega) k]
  exact foldlM_toDigits hone hradix hn

example : fromStrRadix 16 (2 ^ 64) "1fA0".toList = some 0x1FA0 := by decide

end Rust
