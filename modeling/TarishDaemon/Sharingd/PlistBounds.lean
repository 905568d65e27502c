import TarishDaemon.Sharingd.Plist

/-!
# How much a property list makes

A reference may point anywhere, also back, and the same object may be taken many times.  So
the size of what is read is no matter of how many bytes there are.  It is bounded by what
`object` spends: one of the objects for every value that it makes, keys included, and of the
bytes what a leaf has (`object_covers`).
-/

namespace Sharingd

open Rust

namespace Plist

/-- How many values there are, how many bytes in the leaves, and how many levels. -/
structure Extent where
  nodes : Nat
  bytes : Nat
  depth : Nat
  deriving DecidableEq, Repr

namespace Extent

def none : Extent := ⟨0, 0, 0⟩

def leaf (bytes : Nat) : Extent := ⟨1, bytes, 1⟩

def beside (e e' : Extent) : Extent :=
  ⟨e.nodes + e'.nodes, e.bytes + e'.bytes, max e.depth e'.depth⟩

/-- In a container. -/
def inside (e : Extent) : Extent :=
  ⟨e.nodes + 1, e.bytes, e.depth + 1⟩

end Extent

mutual

def Val.extent : Val → Extent
  | .str s => .leaf (asBytes s).length
  | .data d => .leaf d.length
  | .int _ => .leaf 0
  | .bool _ => .leaf 0
  | .array items => (Val.extentAll items).inside
  | .dict entries => (Val.extentEntries entries).inside
  | .other => .leaf 0

def Val.extentAll : List Val → Extent
  | [] => .none
  | v :: items => v.extent.beside (Val.extentAll items)

/-- A key is a leaf, too. -/
def Val.extentEntries : List (Text × Val) → Extent
  | [] => .none
  | (k, v) :: entries =>
      ((Extent.leaf (asBytes k).length).beside v.extent).beside (Val.extentEntries entries)

end

/-- What was spent covers it, and it is no deeper than allowed. -/
structure Covers (left : Nat) (before after : Budget) (e : Extent) : Prop where
  nodes : e.nodes + after.objects ≤ before.objects
  bytes : e.bytes + after.bytes ≤ before.bytes
  depth : e.depth ≤ left

namespace Covers

variable {left : Nat} {a b c : Budget} {e e' : Extent}

theorem none (left : Nat) (a : Budget) : Covers left a a .none where
  nodes := by simp [Extent.none]
  bytes := by simp [Extent.none]
  depth := Nat.zero_le _

theorem beside (h : Covers left a b e) (h' : Covers left b c e') :
    Covers left a c (e.beside e') where
  nodes := by
    have hn := h.nodes
    have hn' := h'.nodes
    simp only [Extent.beside]
    omega
  bytes := by
    have hb := h.bytes
    have hb' := h'.bytes
    simp only [Extent.beside]
    omega
  depth := max_le h.depth h'.depth

/-- What is spent on something that is then passed over is spent, too. -/
theorem after (h : Covers left a b e) (h' : Covers left b c e') : Covers left a c e' where
  nodes := by
    have hn := h.nodes
    have hn' := h'.nodes
    omega
  bytes := by
    have hb := h.bytes
    have hb' := h'.bytes
    omega
  depth := h'.depth

/-- A leaf with bytes pays for these when it is made. -/
theorem leaf {n : Nat} (hpos : a.objects ≠ 0)
    (h : Parser.spendBytes n { a with objects := a.objects - 1 } = some b) :
    Covers (left + 1) a b (.leaf n) := by
  unfold Parser.spendBytes at h
  split at h
  · cases h
  · next hfits =>
      cases h
      refine ⟨?_, ?_, ?_⟩
      · simp only [Extent.leaf]
        omega
      · simp only [Extent.leaf] at hfits ⊢
        omega
      · simp only [Extent.leaf]
        omega

theorem empty (hpos : a.objects ≠ 0) :
    Covers (left + 1) a { a with objects := a.objects - 1 } (.leaf 0) :=
  leaf hpos (by simp [Parser.spendBytes])

theorem inside (hpos : a.objects ≠ 0)
    (h : Covers left { a with objects := a.objects - 1 } b e) :
    Covers (left + 1) a b e.inside where
  nodes := by
    have hn := h.nodes
    simp only [Extent.inside] at hn ⊢
    omega
  bytes := h.bytes
  depth := Nat.succ_le_succ h.depth

end Covers

namespace Parser

variable {p : Parser} {object : Nat → Budget → Option (Val × Budget)} {left : Nat}

section Loops

variable (hobject : ∀ r b v b', object r b = some (v, b') → Covers left b b' v.extent)

include hobject

theorem arrayLoop_covers {body n i : Nat} {b b' : Budget} {vs : List Val}
    (h : p.arrayLoop object body n i b = some (vs, b')) :
    Covers left b b' (Val.extentAll vs) := by
  induction n generalizing i b vs with
  | zero =>
      cases h
      exact Covers.none left b'
  | succ n ih =>
      rw [arrayLoop] at h
      split at h
      · cases h
      · split at h
        · cases h
        · next r _ v b₁ hv =>
            split at h
            · cases h
            · next vs b₂ hvs =>
                cases h
                exact (hobject _ _ _ _ hv).beside (ih hvs)

theorem dictLoop_covers {body count n i : Nat} {b b' : Budget} {es : List (Text × Val)}
    (h : p.dictLoop object body count n i b = some (es, b')) :
    Covers left b b' (Val.extentEntries es) := by
  induction n generalizing i b es with
  | zero =>
      cases h
      exact Covers.none left b'
  | succ n ih =>
      rw [dictLoop] at h
      split at h
      · split at h
        · cases h
        · next k b₁ hk =>
            split at h
            · cases h
            · next v b₂ hv =>
                split at h
                · cases h
                · next es b₃ hes =>
                    cases h
                    exact ((hobject _ _ _ _ hk).beside (hobject _ _ _ _ hv)).beside (ih hes)
        · next k b₁ _ hk => exact (hobject _ _ _ _ hk).after (ih h)
      · cases h

end Loops

/-- **What is made is paid for**, whatever refers to what. -/
theorem object_covers {left index : Nat} {b b' : Budget} {v : Val}
    (h : p.object left index b = some (v, b')) : Covers left b b' v.extent := by
  induction left generalizing index b b' v with
  | zero => cases h
  | succ left ih =>
      rw [Parser.object] at h
      split at h
      · cases h
      next hpos =>
      split at h
      · cases h
      split at h
      · cases h
      next marker _ =>
      simp only at h
      split at h
      · -- singletons
        split at h
        · cases h
          exact Covers.empty hpos
        · split at h
          · cases h
            exact Covers.empty hpos
          · cases h
            exact Covers.empty hpos
      · split at h
        · cases h
        · cases h
          exact Covers.empty hpos
      · split at h
        · cases h
        · split at h
          · cases h
          · obtain ⟨b₁, hspend, heq⟩ := Option.map_eq_some_iff.mp h
            cases heq
            exact Covers.leaf hpos hspend
      · split at h
        · cases h
        · split at h
          · cases h
          · obtain ⟨b₁, hspend, heq⟩ := Option.map_eq_some_iff.mp h
            cases heq
            exact Covers.leaf hpos hspend
      · split at h
        · cases h
        · split at h
          · cases h
          · obtain ⟨b₁, hspend, heq⟩ := Option.map_eq_some_iff.mp h
            cases heq
            exact Covers.leaf hpos hspend
      · split at h
        · cases h
        · split at h
          · cases h
          · obtain ⟨⟨vs, b₁⟩, hloop, heq⟩ := Option.map_eq_some_iff.mp h
            cases heq
            exact (arrayLoop_covers (fun _ _ _ _ => ih) hloop).inside hpos
      · split at h
        · cases h
        · split at h
          · cases h
          · obtain ⟨⟨es, b₁⟩, hloop, heq⟩ := Option.map_eq_some_iff.mp h
            cases heq
            exact (dictLoop_covers (fun _ _ _ _ => ih) hloop).inside hpos
      · cases h
        exact Covers.empty hpos

end Parser

/-- **A property list makes no more than its length allows**, in values, in levels and in bytes.
That there is an answer at all, whatever refers to itself, is the depth's doing, by which `object`
recurses. -/
theorem parse_bounded {buf : Bytes} {v : Val} (h : parse buf = some v) :
    v.extent.nodes ≤ 100000 ∧ v.extent.depth ≤ 17 ∧
      v.extent.bytes ≤ max (8 * buf.length) (256 * 1024) := by
  unfold parse at h
  split at h
  · cases h
  · simp only at h
    split at h
    · cases h
    · split at h
      · cases h
      · split at h
        · cases h
        · obtain ⟨⟨w, b⟩, hobject, heq⟩ := Option.map_eq_some_iff.mp h
          obtain rfl : v = w := heq.symm
          obtain ⟨hnodes, hbytes, hdepth⟩ := Parser.object_covers hobject
          have hsat : saturatingMul buf.length byteAmplification ≤ 8 * buf.length := by
            unfold saturatingMul byteAmplification
            omega
          simp only [maxTotalObjects, minByteBudget, maxDepth] at hnodes hbytes hdepth
          exact ⟨by omega, hdepth, by omega⟩

/-- A dictionary that has one text as its key and, twice over, as its value. -/
def shared : Bytes :=
  magic ++ [0xD1, 1, 2, 0x51, 0x6B, 0xA2, 1, 1] ++ [8, 11, 13] ++
    [0, 0, 0, 0, 0, 0, 1, 1] ++ beBytes 8 3 ++ beBytes 8 0 ++ beBytes 8 16

theorem parse_bounded_shared : ∃ v, parse shared = some v ∧
    v.extent.nodes ≤ 100000 ∧ v.extent.depth ≤ 17 ∧
      v.extent.bytes ≤ max (8 * shared.length) (256 * 1024) := by
  have hread : (parse shared).isSome = true := by decide +kernel
  obtain ⟨v, h⟩ := Option.isSome_iff_exists.mp hread
  exact ⟨v, h, parse_bounded h⟩

/-- An array that is its own only item is refused. -/
example : (parse (magic ++ [0xA1, 0] ++ [8] ++ [0, 0, 0, 0, 0, 0, 1, 1] ++ beBytes 8 1 ++
    beBytes 8 0 ++ beBytes 8 10)).isSome = false := by
  decide +kernel

end Plist

end Sharingd
