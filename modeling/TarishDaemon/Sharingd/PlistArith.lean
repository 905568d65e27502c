import TarishDaemon.Lib.Traps
import TarishDaemon.Sharingd.PlistBounds

/-!
# The arithmetic of the reader

The reader once more, in a build in which every sum, product, difference and shift of a `usize`
is looked at, and every index.  Offsets and lengths are whatever the document says, up to
`2 ^ 64 - 1`.

Most of what is computed from them has been bounded before.  A length is not: where the body of
a text or a blob ends is an unchecked sum.  So the reader stays in range exactly where no text
and no blob that it comes to says that it ends past `2 ^ 64` (`inRange_iff`).
-/

namespace Sharingd

open Rust

namespace Plist

open Traps (Settles)

inductive Panic
  | overflow
  | outOfRange
  deriving DecidableEq, Repr

namespace Checked

def usize (n : Nat) : Traps Panic Nat :=
  .within .overflow (2 ^ 64) n

def add (a b : Nat) : Traps Panic Nat :=
  usize (a + b)

def mul (a b : Nat) : Traps Panic Nat :=
  usize (a * b)

def sub (a b : Nat) : Traps Panic Nat :=
  if b ≤ a then .value (a - b) else .panic .overflow

/-- `1 << k`: what is looked at is the amount. -/
def shl (k : Nat) : Traps Panic Nat :=
  if k < 64 then .value (2 ^ k) else .panic .overflow

def checkedAdd (a b : Nat) : Traps Panic Nat :=
  .given (if a + b < 2 ^ 64 then some (a + b) else none)

def checkedMul (a b : Nat) : Traps Panic Nat :=
  .given (if a * b < 2 ^ 64 then some (a * b) else none)

/-- `xs[i]`. -/
def index (xs : Bytes) (i : Nat) : Traps Panic UInt8 :=
  match xs[i]? with
  | some b => .value b
  | none => .panic .outOfRange

/-- `&xs[a..b]`. -/
def range (xs : Bytes) (a b : Nat) : Traps Panic Bytes :=
  match slice xs a b with
  | some part => .value part
  | none => .panic .outOfRange

/-- `xs.get(a..b)?`. -/
def get (xs : Bytes) (a b : Nat) : Traps Panic Bytes :=
  .given (slice xs a b)

section

variable (p : Parser)

def spendBytes (n : Nat) (left : Budget) : Traps Panic Budget :=
  if n > left.bytes then .nothing
  else do
    let bytes ← sub left.bytes n
    return { left with bytes }

def offsetOf (i : Nat) : Traps Panic Nat :=
  if i ≥ p.numObjects then .nothing
  else do
    let row ← mul i p.offsetSize
    let at' ← add p.tableStart row
    let behind ← add at' p.offsetSize
    let raw ← get p.buf at' behind
    if be raw < p.buf.length then return be raw else .nothing

def sized (at' low : Nat) : Traps Panic (Nat × Nat) :=
  if low ≠ 0x0F then do
    let body ← add at' 1
    return (low, body)
  else do
    let next ← add at' 1
    let m ← .given p.buf[next]?
    if m.toNat / 16 ≠ 0x1 then .nothing
    else do
      let width ← shl (m.toNat % 16)
      let start ← add at' 2
      let behind ← add start width
      let bytes ← get p.buf start behind
      return (be bytes, behind)

def reference (body i : Nat) : Traps Panic Nat := do
  let row ← checkedMul i p.refSize
  let at' ← checkedAdd body row
  let behind ← add at' p.refSize
  let raw ← get p.buf at' behind
  return be raw

/-- `chunks_exact(2)`. -/
def pairs : Bytes → List Bytes
  | b0 :: b1 :: rest => [b0, b1] :: pairs rest
  | _ => []

def unit (c : Bytes) : Traps Panic Nat := do
  let b0 ← index c 0
  let b1 ← index c 1
  return b0.toNat * 256 + b1.toNat

def unitsOf : List Bytes → Traps Panic (List Nat)
  | [] => return []
  | c :: rest => do
      let u ← unit c
      let us ← unitsOf rest
      return u :: us

def arrayLoop (object : Nat → Budget → Traps Panic (Val × Budget)) (body : Nat) :
    Nat → Nat → Budget → Traps Panic (List Val × Budget)
  | 0, _, budget => return ([], budget)
  | left + 1, i, budget => do
      let r ← reference p body i
      let (v, budget) ← object r budget
      let (vs, budget) ← arrayLoop object body left (i + 1) budget
      return (v :: vs, budget)

def dictLoop (object : Nat → Budget → Traps Panic (Val × Budget)) (body count : Nat) :
    Nat → Nat → Budget → Traps Panic (List (Text × Val) × Budget)
  | 0, _, budget => return ([], budget)
  | left + 1, i, budget => do
      let kr ← reference p body i
      let second ← add count i
      let vr ← reference p body second
      let (k, budget) ← object kr budget
      match k with
      | .str key => do
          let (v, budget) ← object vr budget
          let (es, budget) ← dictLoop object body count left (i + 1) budget
          return ((key, v) :: es, budget)
      | _ => dictLoop object body count left (i + 1) budget

/-- `depth` counts up, as in the source. -/
def object (depth i : Nat) (budget : Budget) : Traps Panic (Val × Budget) :=
  if _hdeep : depth > maxDepth then .nothing
  else if budget.objects = 0 then .nothing
  else do
    let objects ← sub budget.objects 1
    let budget := { budget with objects }
    let at' ← offsetOf p i
    let marker ← .given p.buf[at']?
    let low := marker.toNat % 16
    match marker.toNat / 16 with
    | 0x0 =>
        if marker = 0x08 then return (.bool false, budget)
        else if marker = 0x09 then return (.bool true, budget)
        else return (.other, budget)
    | 0x1 => do
        let width ← shl low
        let start ← add at' 1
        let behind ← add start width
        let bytes ← get p.buf start behind
        return (.int (toI64 (be bytes)), budget)
    | 0x4 => do
        let (len, body) ← sized p at' low
        let behind ← add body len
        let v ← get p.buf body behind
        let budget ← spendBytes v.length budget
        return (.data v, budget)
    | 0x5 => do
        let (len, body) ← sized p at' low
        let behind ← add body len
        let raw ← get p.buf body behind
        let budget ← spendBytes (asBytes (fromUtf8Lossy raw)).length budget
        return (.str (fromUtf8Lossy raw), budget)
    | 0x6 => do
        let (units, body) ← sized p at' low
        let bytes ← checkedMul units 2
        let behind ← add body bytes
        let raw ← get p.buf body behind
        let us ← unitsOf (pairs raw)
        let budget ← spendBytes (asBytes (fromUtf16Lossy us)).length budget
        return (.str (fromUtf16Lossy us), budget)
    | 0xA => do
        let (count, body) ← sized p at' low
        if count > maxElements then .nothing
        else do
          let _ ← add depth 1
          let (out, budget) ← arrayLoop p (fun r b => object (depth + 1) r b) body count 0 budget
          return (.array out, budget)
    | 0xD => do
        let (count, body) ← sized p at' low
        if count > maxElements then .nothing
        else do
          let _ ← add depth 1
          let (out, budget) ←
            dictLoop p (fun r b => object (depth + 1) r b) body count count 0 budget
          return (.dict out, budget)
    | _ => return (.other, budget)
termination_by maxDepth + 1 - depth
decreasing_by
  · omega
  · omega

end

def parse (buf : Bytes) : Traps Panic Val :=
  if buf.length < 40 then .nothing
  else do
    let head ← range buf 0 8
    if head ≠ magic then .nothing
    else do
      let start ← sub buf.length 32
      let trailer ← range buf start buf.length
      let offsetSize ← index trailer 6
      let refSize ← index trailer 7
      let numObjects ← range trailer 8 16
      let root ← range trailer 16 24
      let tableStart ← range trailer 24 32
      if offsetSize.toNat = 0 ∨ offsetSize.toNat > 8 ∨ refSize.toNat = 0 ∨ refSize.toNat > 8 then
        .nothing
      else if be numObjects = 0 ∨ be numObjects > maxElements ∨ be root ≥ be numObjects then
        .nothing
      else do
        let tableLen ← checkedMul (be numObjects) offsetSize.toNat
        let tableEnd ← checkedAdd (be tableStart) tableLen
        if tableEnd > buf.length then .nothing
        else do
          let p : Parser := {
            buf
            tableStart := be tableStart
            offsetSize := offsetSize.toNat
            refSize := refSize.toNat
            numObjects := be numObjects }
          let bytes := max (saturatingMul buf.length byteAmplification) minByteBudget
          let (v, _) ← object p 0 (be root) ⟨maxTotalObjects, bytes⟩
          return v

end Checked

/-! ## What the reader comes to -/

namespace Parser

variable (p : Parser)

/-- The kind of an object with a length, its length, and where its body starts. -/
def counted (i : Nat) : Option (Nat × Nat × Nat) :=
  match p.offsetOf i with
  | none => none
  | some at' =>
      match p.buf[at']? with
      | none => none
      | some marker => (p.sized at' (marker.toNat % 16)).map fun r => (marker.toNat / 16, r.1, r.2)

/-- A blob or a text ends past `2 ^ 64`, by its own length. -/
def Oversized (i : Nat) : Prop :=
  ∃ kind len body, p.counted i = some (kind, len, body) ∧
    ((kind = 0x4 ∨ kind = 0x5) ∧ 2 ^ 64 ≤ body + len ∨
      kind = 0x6 ∧ len * 2 < 2 ^ 64 ∧ 2 ^ 64 ≤ body + len * 2)

/-- Reading an array, `object` is called for `r`: all items before it could be read. -/
inductive ItemCall (object : Nat → Budget → Option (Val × Budget)) (body : Nat) :
    Nat → Nat → Budget → Nat → Budget → Prop
  | first {n i r : Nat} {b : Budget} (hr : p.reference body i = some r) :
      ItemCall object body (n + 1) i b r b
  | later {n i r r' : Nat} {b b₁ b' : Budget} {v : Val} (hr : p.reference body i = some r)
      (hv : object r b = some (v, b₁)) (rest : ItemCall object body n (i + 1) b₁ r' b') :
      ItemCall object body (n + 1) i b r' b'

/-- The same, reading a dictionary. -/
inductive EntryCall (object : Nat → Budget → Option (Val × Budget)) (body count : Nat) :
    Nat → Nat → Budget → Nat → Budget → Prop
  | key {n i kr vr : Nat} {b : Budget} (hk : p.reference body i = some kr)
      (hv : p.reference body (count + i) = some vr) :
      EntryCall object body count (n + 1) i b kr b
  | value {n i kr vr : Nat} {b b₁ : Budget} {key : Text} (hk : p.reference body i = some kr)
      (hv : p.reference body (count + i) = some vr)
      (hkey : object kr b = some (.str key, b₁)) :
      EntryCall object body count (n + 1) i b vr b₁
  | later {n i kr vr r : Nat} {b b₁ b₂ b' : Budget} {key : Text} {v : Val}
      (hk : p.reference body i = some kr) (hv : p.reference body (count + i) = some vr)
      (hkey : object kr b = some (.str key, b₁)) (hvalue : object vr b₁ = some (v, b₂))
      (rest : EntryCall object body count n (i + 1) b₂ r b') :
      EntryCall object body count (n + 1) i b r b'
  | passed {n i kr vr r : Nat} {b b₁ b' : Budget} {k : Val}
      (hk : p.reference body i = some kr) (hv : p.reference body (count + i) = some vr)
      (hkey : object kr b = some (k, b₁)) (hother : ∀ key, k ≠ .str key)
      (rest : EntryCall object body count n (i + 1) b₁ r b') :
      EntryCall object body count (n + 1) i b r b'

/-- With `left` levels and a budget, reading the object `i`, the reader comes to the object
`j`. -/
inductive Comes : Nat → Nat → Budget → Nat → Prop
  | here {left i : Nat} {b : Budget} (hpos : b.objects ≠ 0) : Comes (left + 1) i b i
  | item {left i r j count body : Nat} {b b' : Budget} (hpos : b.objects ≠ 0)
      (hat : p.counted i = some (0xA, count, body)) (hfew : count ≤ maxElements)
      (hcall : p.ItemCall (p.object left) body count 0 { b with objects := b.objects - 1 } r b')
      (rest : Comes left r b' j) : Comes (left + 1) i b j
  | entry {left i r j count body : Nat} {b b' : Budget} (hpos : b.objects ≠ 0)
      (hat : p.counted i = some (0xD, count, body)) (hfew : count ≤ maxElements)
      (hcall : p.EntryCall (p.object left) body count count 0
        { b with objects := b.objects - 1 } r b')
      (rest : Comes left r b' j) : Comes (left + 1) i b j

/-- It comes to one that is oversized. -/
def Trips (left i : Nat) (b : Budget) : Prop :=
  ∃ j, p.Comes left i b j ∧ p.Oversized j

/-- What has been checked before `object` is called: the table is in the document, and the
document in memory. -/
structure InMemory : Prop where
  buf : p.buf.length < 2 ^ 63
  table : p.tableStart + p.numObjects * p.offsetSize ≤ p.buf.length
  refSize : p.refSize ≤ 8

end Parser

/-! ## What is in range anyway -/

namespace Checked

theorem add_eq {a b : Nat} (h : a + b < 2 ^ 64) : add a b = .value (a + b) :=
  Traps.within_of_lt h

theorem mul_eq {a b : Nat} (h : a * b < 2 ^ 64) : mul a b = .value (a * b) :=
  Traps.within_of_lt h

theorem sub_eq {a b : Nat} (h : b ≤ a) : sub a b = .value (a - b) :=
  if_pos h

theorem shl_eq {k : Nat} (h : k < 64) : shl k = .value (2 ^ k) :=
  if_pos h

theorem slice_le {buf part : Bytes} {a b : Nat} (h : slice buf a b = some part) :
    a ≤ b ∧ b ≤ buf.length := by
  unfold slice at h
  split at h
  · assumption
  · cases h

theorem two_pow_low (m : UInt8) : 2 ^ (m.toNat % 16) ≤ 2 ^ 15 :=
  Nat.pow_le_pow_right (by decide) (by omega)

section

variable {p : Parser} (hmem : p.InMemory)

theorem spendBytes_eq (n : Nat) (left : Budget) :
    spendBytes n left = .given (Parser.spendBytes n left) := by
  unfold spendBytes Parser.spendBytes
  split
  · rfl
  · next hfits =>
      rw [sub_eq (Nat.not_lt.mp hfits)]
      rfl

include hmem

theorem offsetOf_eq (i : Nat) : offsetOf p i = .given (p.offsetOf i) := by
  unfold offsetOf Parser.offsetOf
  split
  · rfl
  · next hi =>
      have htable := hmem.table
      have hbuf := hmem.buf
      have hrow : i * p.offsetSize + p.offsetSize ≤ p.numObjects * p.offsetSize := by
        rw [← Nat.succ_mul]
        exact Nat.mul_le_mul_right _ (Nat.not_le.mp hi)
      rw [mul_eq (by omega), Traps.value_bind, add_eq (by omega), Traps.value_bind,
        add_eq (by omega), Traps.value_bind, get]
      dsimp only
      cases slice p.buf (p.tableStart + i * p.offsetSize)
          (p.tableStart + i * p.offsetSize + p.offsetSize) with
      | none => rfl
      | some raw =>
          simp only [Traps.given_some, Traps.value_bind]
          split
          · rfl
          · rfl

theorem sized_eq {at' : Nat} (hat : at' < p.buf.length) (low : Nat) :
    sized p at' low = .given (p.sized at' low) := by
  have hbuf := hmem.buf
  unfold sized Parser.sized
  split
  · rw [add_eq (by omega)]
    rfl
  · rw [add_eq (by omega), Traps.value_bind]
    cases p.buf[at' + 1]? with
    | none => rfl
    | some m =>
        simp only [Traps.given_some, Traps.value_bind]
        split
        · rfl
        · have hwidth := two_pow_low m
          rw [shl_eq (by omega), Traps.value_bind, add_eq (by omega), Traps.value_bind,
            add_eq (by omega), Traps.value_bind, get]
          cases slice p.buf (at' + 2) (at' + 2 + 2 ^ (m.toNat % 16)) with
          | none => rfl
          | some bytes => rfl

theorem reference_eq {body i : Nat} (hbody : body ≤ p.buf.length) (hi : i ≤ 2 * maxElements) :
    reference p body i = .given (p.reference body i) := by
  have hbuf := hmem.buf
  have hrow : i * p.refSize ≤ 2 * maxElements * 8 := Nat.mul_le_mul hi hmem.refSize
  have hrow' : i * p.refSize ≤ 65536 := hrow
  have href := hmem.refSize
  unfold reference Parser.reference checkedMul checkedAdd
  rw [if_pos (by omega), Traps.given_some, Traps.value_bind, if_pos (by omega), Traps.given_some,
    Traps.value_bind, add_eq (by omega), Traps.value_bind, get]
  cases slice p.buf (body + i * p.refSize) (body + i * p.refSize + p.refSize) with
  | none => rfl
  | some raw => rfl

end

theorem unitsOf_eq (raw : Bytes) : unitsOf (pairs raw) = .value (Parser.units raw) := by
  fun_induction pairs raw with
  | case1 b0 b1 rest ih =>
      rw [unitsOf, ih]
      rfl
  | case2 raw hfew =>
      rw [Parser.units]
      · rfl
      · exact hfew

/-- A body starts in the document, or right behind it. -/
theorem body_le {p : Parser} {at' low len body : Nat} (hat : at' < p.buf.length)
    (h : p.sized at' low = some (len, body)) : body ≤ p.buf.length := by
  unfold Parser.sized at h
  split at h
  · cases h
    exact hat
  · split at h
    · cases h
    · split at h
      · cases h
      · simp only at h
        split at h
        · cases h
        · next hslice =>
            cases h
            exact (slice_le hslice).2

/-! ## Where the reader runs over -/

/-- Of an entry, all that is read after its key has been. -/
def EntryRest (p : Parser) (read : Nat → Budget → Option (Val × Budget))
    (bad : Nat → Budget → Prop) (body count n i vr : Nat) : Val × Budget → Prop
  | (.str _, b₁) =>
      bad vr b₁ ∨ ∃ vb, read vr b₁ = some vb ∧
        ∃ r b', p.EntryCall read body count n (i + 1) vb.2 r b' ∧ bad r b'
  | (_, b₁) => ∃ r b', p.EntryCall read body count n (i + 1) b₁ r b' ∧ bad r b'

section Loops

variable {p : Parser} {read : Nat → Budget → Option (Val × Budget)} {bad : Nat → Budget → Prop}

theorem entryRest_other {k : Val} (hother : ∀ key, k ≠ .str key) {body count n i vr : Nat}
    {b : Budget} :
    EntryRest p read bad body count n i vr (k, b) ↔
      ∃ r b', p.EntryCall read body count n (i + 1) b r b' ∧ bad r b' := by
  cases k with
  | str key => exact absurd rfl (hother key)
  | data d => exact Iff.rfl
  | int j => exact Iff.rfl
  | bool t => exact Iff.rfl
  | array items => exact Iff.rfl
  | dict entries => exact Iff.rfl
  | other => exact Iff.rfl

/-- The call for the key, or a later one. -/
theorem entryCall_iff {body count n i kr vr : Nat} {b : Budget}
    (hk : p.reference body i = some kr) (hv : p.reference body (count + i) = some vr) :
    (∃ r b', p.EntryCall read body count (n + 1) i b r b' ∧ bad r b') ↔
      bad kr b ∨ ∃ kb, read kr b = some kb ∧ EntryRest p read bad body count n i vr kb := by
  constructor
  · rintro ⟨r, b', hcall, hbad⟩
    cases hcall with
    | key hk' _ =>
        rw [hk] at hk'
        cases hk'
        exact .inl hbad
    | value hk' hv' hkey =>
        rw [hk] at hk'
        rw [hv] at hv'
        cases hk'
        cases hv'
        exact .inr ⟨_, hkey, .inl hbad⟩
    | later hk' hv' hkey hvalue rest =>
        rw [hk] at hk'
        rw [hv] at hv'
        cases hk'
        cases hv'
        exact .inr ⟨_, hkey, .inr ⟨_, hvalue, r, b', rest, hbad⟩⟩
    | passed hk' hv' hkey hother rest =>
        rw [hk] at hk'
        cases hk'
        exact .inr ⟨_, hkey, (entryRest_other hother).mpr ⟨r, b', rest, hbad⟩⟩
  · rintro (hbad | ⟨⟨k, b₁⟩, hkey, hrest⟩)
    · exact ⟨kr, b, .key hk hv, hbad⟩
    · by_cases hother : ∀ key, k ≠ .str key
      · obtain ⟨r, b', rest, hbad⟩ := (entryRest_other hother).mp hrest
        exact ⟨r, b', .passed hk hv hkey hother rest, hbad⟩
      · obtain ⟨key, hstr⟩ := not_forall.mp hother
        obtain rfl := not_not.mp hstr
        rcases hrest with hbad | ⟨⟨v, b₂⟩, hvalue, r, b', rest, hbad⟩
        · exact ⟨vr, b₁, .value hk hv hkey, hbad⟩
        · exact ⟨r, b', .later hk hv hkey hvalue rest, hbad⟩

variable (hmem : p.InMemory) {readChecked : Nat → Budget → Traps Panic (Val × Budget)}
  (hread : ∀ r b, Settles .overflow (bad r b) (readChecked r b) (read r b))

include hmem hread

/-- An array runs over in the first of its items that does. -/
theorem arrayLoop_settles {body : Nat} (hbody : body ≤ p.buf.length) (n i : Nat) (b : Budget)
    (hfew : i + n ≤ maxElements) :
    Settles .overflow (∃ r b', p.ItemCall read body n i b r b' ∧ bad r b')
      (arrayLoop p readChecked body n i b) (p.arrayLoop read body n i b) := by
  induction n generalizing i b with
  | zero =>
      refine .inr ⟨?_, rfl⟩
      rintro ⟨r, b', hcall, -⟩
      cases hcall
  | succ n ih =>
      rw [arrayLoop, Parser.arrayLoop, reference_eq hmem hbody (by omega)]
      cases hr : p.reference body i with
      | none =>
          refine .inr ⟨?_, rfl⟩
          rintro ⟨r, b', hcall, -⟩
          cases hcall with
          | first hr' => rw [hr] at hr'; cases hr'
          | later hr' => rw [hr] at hr'; cases hr'
      | some r =>
          refine ((hread r b).bind (fun vb =>
            ∃ r' b', p.ItemCall read body n (i + 1) vb.2 r' b' ∧ bad r' b') ?_ ?_).congr ?_
          · intro hnone
            simp only [hnone]
          · rintro ⟨v, b₁⟩ hsome
            simp only [hsome]
            refine (ih (i + 1) b₁ (by omega)).finish ?_ ?_
            · intro hnone
              rw [hnone]
            · rintro ⟨vs, b₂⟩ hsome
              rw [hsome]
              rfl
          · constructor
            · rintro ⟨r', b', hcall, hbad⟩
              cases hcall with
              | first hr' =>
                  rw [hr] at hr'
                  cases hr'
                  exact .inl hbad
              | later hr' hv rest =>
                  rw [hr] at hr'
                  cases hr'
                  exact .inr ⟨_, hv, _, _, rest, hbad⟩
            · rintro (hbad | ⟨⟨v, b₁⟩, hv, r', b', rest, hbad⟩)
              · exact ⟨r, b, .first hr, hbad⟩
              · exact ⟨r', b', .later hr hv rest, hbad⟩

theorem dictLoop_settles {body count : Nat} (hbody : body ≤ p.buf.length) (n i : Nat) (b : Budget)
    (hcount : count ≤ maxElements) (hfew : i + n ≤ maxElements) :
    Settles .overflow (∃ r b', p.EntryCall read body count n i b r b' ∧ bad r b')
      (dictLoop p readChecked body count n i b) (p.dictLoop read body count n i b) := by
  induction n generalizing i b with
  | zero =>
      refine .inr ⟨?_, rfl⟩
      rintro ⟨r, b', hcall, -⟩
      cases hcall
  | succ n ih =>
      have hsmall : maxElements = 4096 := rfl
      rw [dictLoop, Parser.dictLoop, reference_eq hmem hbody (by omega)]
      cases hk : p.reference body i with
      | none =>
          refine .inr ⟨?_, rfl⟩
          rintro ⟨r, b', hcall, -⟩
          cases hcall with
          | key hk' => rw [hk] at hk'; cases hk'
          | value hk' => rw [hk] at hk'; cases hk'
          | later hk' => rw [hk] at hk'; cases hk'
          | passed hk' => rw [hk] at hk'; cases hk'
      | some kr =>
      rw [Traps.given_some, Traps.value_bind, add_eq (by omega), Traps.value_bind,
        reference_eq hmem hbody (by omega)]
      cases hv : p.reference body (count + i) with
      | none =>
          refine .inr ⟨?_, rfl⟩
          rintro ⟨r, b', hcall, -⟩
          cases hcall with
          | key _ hv' => rw [hv] at hv'; cases hv'
          | value _ hv' => rw [hv] at hv'; cases hv'
          | later _ hv' => rw [hv] at hv'; cases hv'
          | passed _ hv' => rw [hv] at hv'; cases hv'
      | some vr =>
      refine ((hread kr b).bind (EntryRest p read bad body count n i vr) ?_ ?_).congr ?_
      · intro hnone
        simp only [hnone]
      · rintro ⟨k, b₁⟩ hkey
        simp only [hkey]
        cases k with
        | str key =>
            refine (hread vr b₁).bind _ ?_ ?_
            · intro hnone
              simp only [hnone]
            · rintro ⟨v, b₂⟩ hvalue
              simp only [hvalue]
              refine (ih (i + 1) b₂ (by omega)).finish ?_ ?_
              · intro hnone
                rw [hnone]
              · rintro ⟨es, b₃⟩ hsome
                rw [hsome]
                rfl
        | data d => exact ih (i + 1) b₁ (by omega)
        | int n => exact ih (i + 1) b₁ (by omega)
        | bool t => exact ih (i + 1) b₁ (by omega)
        | array items => exact ih (i + 1) b₁ (by omega)
        | dict entries => exact ih (i + 1) b₁ (by omega)
        | other => exact ih (i + 1) b₁ (by omega)
      · exact entryCall_iff hk hv

end Loops

section Objects

variable {p : Parser}

/-- What goes wrong reading an object with a length. -/
def TripsIn (p : Parser) (left : Nat) (b : Budget) : Option (Nat × Nat × Nat) → Prop
  | none => False
  | some (kind, len, body) =>
      ((kind = 0x4 ∨ kind = 0x5) ∧ 2 ^ 64 ≤ body + len ∨
        kind = 0x6 ∧ len * 2 < 2 ^ 64 ∧ 2 ^ 64 ≤ body + len * 2) ∨
      (kind = 0xA ∧ len ≤ maxElements ∧
        ∃ r b', p.ItemCall (p.object left) body len 0 b r b' ∧ p.Trips left r b') ∨
      kind = 0xD ∧ len ≤ maxElements ∧
        ∃ r b', p.EntryCall (p.object left) body len len 0 b r b' ∧ p.Trips left r b'

theorem trips_succ_iff {left i : Nat} {b : Budget} (hpos : b.objects ≠ 0) :
    p.Trips (left + 1) i b ↔
      TripsIn p left { b with objects := b.objects - 1 } (p.counted i) := by
  constructor
  · rintro ⟨j, hcomes, hover⟩
    cases hcomes with
    | here _ =>
        obtain ⟨kind, len, body, hat, hends⟩ := hover
        rw [hat]
        exact .inl hends
    | item _ hat hfew hcall rest =>
        rw [hat]
        exact .inr (.inl ⟨rfl, hfew, _, _, hcall, j, rest, hover⟩)
    | entry _ hat hfew hcall rest =>
        rw [hat]
        exact .inr (.inr ⟨rfl, hfew, _, _, hcall, j, rest, hover⟩)
  · intro htrips
    cases hat : p.counted i with
    | none =>
        rw [hat] at htrips
        exact htrips.elim
    | some c =>
        obtain ⟨kind, len, body⟩ := c
        rw [hat] at htrips
        rcases htrips with hends | ⟨rfl, hfew, r, b', hcall, j, rest, hover⟩ |
          ⟨rfl, hfew, r, b', hcall, j, rest, hover⟩
        · exact ⟨i, .here hpos, kind, len, body, hat, hends⟩
        · exact ⟨j, .item hpos hat hfew hcall rest, hover⟩
        · exact ⟨j, .entry hpos hat hfew hcall rest, hover⟩

theorem spend_eq (n : Nat) (b : Budget) (v : Val) :
    (do let b' ← spendBytes n b; return (v, b')) =
      Traps.given ((Parser.spendBytes n b).map fun b' => (v, b')) := by
  rw [spendBytes_eq]
  cases Parser.spendBytes n b with
  | none => rfl
  | some b' => rfl

/-- The body of a text or a blob is where the sum is unchecked. -/
theorem cut_settles {α : Type} {buf : Bytes} {body len : Nat} {rest : Bytes → Traps Panic α}
    {o : Bytes → Option α} (hrest : ∀ v, rest v = .given (o v)) :
    Settles .overflow (2 ^ 64 ≤ body + len)
      (do
        let behind ← add body len
        let v ← get buf body behind
        rest v)
      (match slice buf body (body + len) with
        | none => none
        | some v => o v) := by
  by_cases hover : 2 ^ 64 ≤ body + len
  · exact .inl ⟨hover, by rw [add, usize, Traps.within_of_le hover]; rfl⟩
  · refine .inr ⟨hover, ?_⟩
    rw [add_eq (by omega), Traps.value_bind, get]
    cases slice buf body (body + len) with
    | none => rfl
    | some v => exact hrest v

/-- The same for a text in code units, of which there are checked to be half as many. -/
theorem wide_settles (hbuf : p.buf.length < 2 ^ 63) {left body len : Nat} {b : Budget} :
    Settles .overflow (TripsIn p left b (some (0x6, len, body)))
      (do
        let bytes ← checkedMul len 2
        let behind ← add body bytes
        let raw ← get p.buf body behind
        let us ← unitsOf (pairs raw)
        let b' ← spendBytes (asBytes (fromUtf16Lossy us)).length b
        return (Val.str (fromUtf16Lossy us), b'))
      (match slice p.buf body (body + len * 2) with
        | none => none
        | some raw =>
            (Parser.spendBytes (asBytes (fromUtf16Lossy (Parser.units raw))).length b).map
              fun b' => (Val.str (fromUtf16Lossy (Parser.units raw)), b')) := by
  unfold checkedMul
  by_cases hfits : len * 2 < 2 ^ 64
  · rw [if_pos hfits, Traps.given_some, Traps.value_bind]
    refine (cut_settles fun raw => ?_).congr ?_
    · rw [unitsOf_eq, Traps.value_bind]
      exact spend_eq _ _ _
    · have hfits : len * 2 < 18446744073709551616 := hfits
      simp [TripsIn, hfits]
  · have hnone : slice p.buf body (body + len * 2) = none := by
      rw [slice, if_neg (by omega)]
    rw [if_neg hfits, hnone]
    have hmany : ¬ len * 2 < 18446744073709551616 := hfits
    refine .inr ⟨?_, rfl⟩
    simp [TripsIn, hmany]

/-- A blob or a text: of a length, and spent on by what it costs. -/
theorem text_settles {kind left : Nat} {b : Budget} (hkind : kind = 0x4 ∨ kind = 0x5)
    (cost : Bytes → Nat) (val : Bytes → Val) (r : Option (Nat × Nat)) :
    Settles .overflow (TripsIn p left b (r.map fun r => (kind, r.1, r.2)))
      (do
        let (len, body) ← .given r
        let behind ← add body len
        let v ← get p.buf body behind
        let b' ← spendBytes (cost v) b
        return (val v, b'))
      (match r with
        | none => none
        | some (len, body) =>
            match slice p.buf body (body + len) with
            | none => none
            | some v => (Parser.spendBytes (cost v) b).map fun b' => (val v, b')) := by
  cases r with
  | none => exact Settles.of_given none
  | some r =>
      obtain ⟨len, body⟩ := r
      refine (cut_settles fun v => spend_eq _ _ _).congr ?_
      rcases hkind with rfl | rfl
      · simp [TripsIn]
      · simp [TripsIn]

/-- An array or a dictionary: of as many elements as are allowed, one level down. -/
theorem gathered_settles {α : Type} {bad : Prop} {depth count : Nat}
    {loop : Traps Panic (α × Budget)} {o : Option (α × Budget)} (hdepth : depth + 1 < 2 ^ 64)
    (val : α → Val) (hloop : count ≤ maxElements → Settles .overflow bad loop o) :
    Settles .overflow (count ≤ maxElements ∧ bad)
      (if count > maxElements then .nothing
        else do
          let _ ← add depth 1
          let (out, b) ← loop
          return (val out, b))
      (if count > maxElements then none else o.map fun r => (val r.1, r.2)) := by
  by_cases hmany : count > maxElements
  · rw [if_pos hmany, if_pos hmany]
    exact .inr ⟨fun hbad => Nat.not_lt.mpr hbad.1 hmany, rfl⟩
  · have hfew : count ≤ maxElements := Nat.not_lt.mp hmany
    rw [if_neg hmany, if_neg hmany, add_eq hdepth, Traps.value_bind]
    refine ((hloop hfew).finish ?_ ?_).congr ?_
    · intro hnone
      rw [hnone]
      rfl
    · rintro ⟨out, b⟩ hsome
      rw [hsome]
      rfl
    · exact and_iff_right hfew

/-- Kinds that have no length. -/
theorem not_tripsIn {kind left : Nat} {b : Budget}
    (hkind : kind ≠ 0x4 ∧ kind ≠ 0x5 ∧ kind ≠ 0x6 ∧ kind ≠ 0xA ∧ kind ≠ 0xD)
    (r : Option (Nat × Nat)) : ¬ TripsIn p left b (r.map fun r => (kind, r.1, r.2)) := by
  obtain ⟨h4, h5, h6, hA, hD⟩ := hkind
  cases r with
  | none => exact id
  | some r => simp [TripsIn, h4, h5, h6, hA, hD]

theorem object_settles (hmem : p.InMemory) (left i : Nat) (b : Budget)
    (hleft : left ≤ maxDepth + 1) :
    Settles .overflow (p.Trips left i b) (object p (maxDepth + 1 - left) i b)
      (p.object left i b) := by
  have hmax : maxDepth = 16 := rfl
  induction left generalizing i b with
  | zero =>
      rw [object, dif_pos (by omega)]
      refine .inr ⟨?_, rfl⟩
      rintro ⟨j, hcomes, -⟩
      cases hcomes
  | succ left ih =>
      have hdepth : maxDepth + 1 - (left + 1) + 1 = maxDepth + 1 - left := by omega
      rw [object, dif_neg (by omega), Parser.object]
      by_cases hpos : b.objects = 0
      · rw [if_pos hpos, if_pos hpos]
        refine .inr ⟨?_, rfl⟩
        rintro ⟨j, hcomes, -⟩
        cases hcomes with
        | here h => exact h hpos
        | item h => exact h hpos
        | entry h => exact h hpos
      rw [if_neg hpos, if_neg hpos, sub_eq (by omega), Traps.value_bind, offsetOf_eq hmem]
      refine Settles.congr ?_ (trips_succ_iff hpos)
      unfold Parser.counted
      cases hoffset : p.offsetOf i with
      | none => exact Settles.of_given none
      | some at' =>
      rw [Traps.given_some, Traps.value_bind]
      dsimp only
      cases hmarker : p.buf[at']? with
      | none => exact Settles.of_given none
      | some marker =>
      rw [Traps.given_some, Traps.value_bind]
      dsimp only
      have hat : at' < p.buf.length := by
        by_contra hnot
        rw [List.getElem?_eq_none (Nat.not_lt.mp hnot)] at hmarker
        cases hmarker
      rw [sized_eq hmem hat]
      refine Settles.of_eq fun o ho => ?_
      split
      · next hkind =>
          simp only [hkind] at ho ⊢
          subst ho
          refine .inr ⟨not_tripsIn (by decide) _, ?_⟩
          split
          · rfl
          · split
            · rfl
            · rfl
      · next hkind =>
          simp only [hkind] at ho ⊢
          subst ho
          have hbuf := hmem.buf
          have hwidth := two_pow_low marker
          refine .inr ⟨not_tripsIn (by decide) _, ?_⟩
          rw [shl_eq (by omega), Traps.value_bind, add_eq (by omega), Traps.value_bind,
            add_eq (by omega), Traps.value_bind, get]
          cases slice p.buf (at' + 1) (at' + 1 + 2 ^ (marker.toNat % 16)) with
          | none => rfl
          | some bytes => rfl
      · next hkind =>
          simp only [hkind] at ho ⊢
          subst ho
          exact text_settles (.inl rfl) List.length .data _
      · next hkind =>
          simp only [hkind] at ho ⊢
          subst ho
          exact text_settles (.inr rfl) (fun raw => (asBytes (fromUtf8Lossy raw)).length)
            (fun raw => .str (fromUtf8Lossy raw)) _
      · next hkind =>
          simp only [hkind] at ho ⊢
          subst ho
          cases p.sized at' (marker.toNat % 16) with
          | none => exact Settles.of_given none
          | some r =>
              obtain ⟨len, body⟩ := r
              exact wide_settles hmem.buf
      · next hkind =>
          simp only [hkind] at ho ⊢
          subst ho
          cases hsized : p.sized at' (marker.toNat % 16) with
          | none => exact Settles.of_given none
          | some r =>
              obtain ⟨count, body⟩ := r
              have hloop := fun hfew : count ≤ maxElements =>
                arrayLoop_settles hmem (fun r b => ih r b (by omega)) (body_le hat hsized) count 0
                  { b with objects := b.objects - 1 } (by omega)
              rw [hdepth]
              refine (gathered_settles (by omega) .array hloop).congr ?_
              simp [TripsIn]
      · next hkind =>
          simp only [hkind] at ho ⊢
          subst ho
          cases hsized : p.sized at' (marker.toNat % 16) with
          | none => exact Settles.of_given none
          | some r =>
              obtain ⟨count, body⟩ := r
              have hloop := fun hfew : count ≤ maxElements =>
                dictLoop_settles hmem (fun r b => ih r b (by omega)) (body_le hat hsized) count 0
                  { b with objects := b.objects - 1 } hfew (by omega)
              rw [hdepth]
              refine (gathered_settles (by omega) .dict hloop).congr ?_
              simp [TripsIn]
      · next h0 h1 h4 h5 h6 hA hD =>
          refine .inr ⟨not_tripsIn ⟨h4, h5, h6, hA, hD⟩ _, ?_⟩
          rw [ho]
          split
          · exact absurd ‹_› h0
          · exact absurd ‹_› h1
          · exact absurd ‹_› h4
          · exact absurd ‹_› h5
          · exact absurd ‹_› h6
          · exact absurd ‹_› hA
          · exact absurd ‹_› hD
          · rfl

end Objects

end Checked

/-! ## The document -/

deriving instance DecidableEq for Parser

/-- What `parse` finds in the trailer, once it has been checked: the reader and the index of the
root. -/
def opens (buf : Bytes) : Option (Parser × Nat) :=
  if buf.length < 40 ∨ buf.take 8 ≠ magic then none
  else
    let trailer := buf.drop (buf.length - 32)
    let p : Parser := {
      buf
      tableStart := be ((trailer.drop 24).take 8)
      offsetSize := (trailer.getD 6 0).toNat
      refSize := (trailer.getD 7 0).toNat
      numObjects := be ((trailer.drop 8).take 8) }
    let root := be ((trailer.drop 16).take 8)
    if p.offsetSize = 0 ∨ p.offsetSize > 8 ∨ p.refSize = 0 ∨ p.refSize > 8 then none
    else if p.numObjects = 0 ∨ p.numObjects > maxElements ∨ root ≥ p.numObjects then none
    else if p.tableStart + p.numObjects * p.offsetSize > buf.length then none
    else some (p, root)

def allowance (buf : Bytes) : Budget :=
  ⟨maxTotalObjects, max (saturatingMul buf.length byteAmplification) minByteBudget⟩

/-- Reading the document, the reader comes to the object `j`. -/
def ComesTo (buf : Bytes) (p : Parser) (j : Nat) : Prop :=
  ∃ root, opens buf = some (p, root) ∧ p.Comes (maxDepth + 1) root (allowance buf) j

/-- No sum, product, difference or shift runs over, and no index is out of range. -/
def InRange (buf : Bytes) : Prop :=
  ∀ e, Checked.parse buf ≠ .panic e

theorem parse_opens (buf : Bytes) :
    parse buf = match opens buf with
      | none => none
      | some (p, root) => (p.object (maxDepth + 1) root (allowance buf)).map Prod.fst := by
  unfold parse opens
  split
  · rfl
  · dsimp only
    split
    · rfl
    · split
      · rfl
      · split
        · rfl
        · rfl

theorem inMemory_opens {buf : Bytes} (hbuf : buf.length < 2 ^ 63) {p : Parser} {root : Nat}
    (h : opens buf = some (p, root)) : p.InMemory := by
  unfold opens at h
  split at h
  · cases h
  · dsimp only at h
    split at h
    · cases h
    · next hsizes =>
        split at h
        · cases h
        · split at h
          · cases h
          · next htable =>
              cases h
              exact ⟨hbuf, Nat.not_lt.mp htable,
                Nat.not_lt.mp fun hwide => hsizes (.inr (.inr (.inr hwide)))⟩

namespace Checked

theorem range_eq {xs : Bytes} {a b : Nat} (hab : a ≤ b) (hb : b ≤ xs.length) :
    range xs a b = .value ((xs.drop a).take (b - a)) := by
  rw [range, slice, if_pos ⟨hab, hb⟩]

theorem index_eq {xs : Bytes} {i : Nat} (hi : i < xs.length) :
    index xs i = .value (xs.getD i 0) := by
  rw [index, List.getD, List.getElem?_eq_getElem hi]
  rfl

/-- The trailer is checked first, and within range. -/
theorem parse_eq {buf : Bytes} (hbuf : buf.length < 2 ^ 63) :
    parse buf = match opens buf with
      | none => .nothing
      | some (p, root) => do
          let (v, _) ← object p 0 root (allowance buf)
          return v := by
  unfold parse opens
  by_cases hshort : buf.length < 40
  · rw [if_pos hshort, if_pos (.inl hshort)]
  · have hhead : range buf 0 8 = .value (buf.take 8) := range_eq (by decide) (by omega)
    rw [if_neg hshort, hhead, Traps.value_bind]
    by_cases hmagic : buf.take 8 ≠ magic
    · rw [if_pos hmagic, if_pos (.inr hmagic)]
    · have hlen : (buf.drop (buf.length - 32)).length = 32 := by
        rw [List.length_drop]
        omega
      have htrailer : range buf (buf.length - 32) buf.length =
          .value (buf.drop (buf.length - 32)) := by
        rw [range_eq (by omega) (le_refl _), List.take_of_length_le]
        rw [hlen]
        omega
      rw [if_neg hmagic, if_neg (by rintro (h | h); exacts [hshort h, hmagic h]),
        sub_eq (by omega), Traps.value_bind, htrailer, Traps.value_bind]
      generalize buf.drop (buf.length - 32) = trailer at hlen
      rw [index_eq (by omega), Traps.value_bind, index_eq (by omega), Traps.value_bind,
        range_eq (by decide) (by omega), Traps.value_bind, range_eq (by decide) (by omega),
        Traps.value_bind, range_eq (by decide) (by omega), Traps.value_bind]
      simp only [Nat.reduceSub]
      split
      · rfl
      · next hsizes =>
          split
          · rfl
          · next hcount =>
              have hlimit : maxElements = 4096 := rfl
              have htable : be ((trailer.drop 8).take 8) * (trailer.getD 6 0).toNat ≤ 4096 * 8 :=
                Nat.mul_le_mul (by omega) (by omega)
              rw [checkedMul, if_pos (by omega), Traps.given_some, Traps.value_bind, checkedAdd]
              by_cases hfits : be ((trailer.drop 24).take 8) +
                  be ((trailer.drop 8).take 8) * (trailer.getD 6 0).toNat < 2 ^ 64
              · rw [if_pos hfits, Traps.given_some, Traps.value_bind]
                split
                · rfl
                · rfl
              · rw [if_neg hfits, if_pos (by omega)]
                rfl

theorem parse_settles {buf : Bytes} (hbuf : buf.length < 2 ^ 63) :
    Settles .overflow (∃ p j, ComesTo buf p j ∧ p.Oversized j) (parse buf) (Plist.parse buf) := by
  rw [parse_eq hbuf, parse_opens]
  cases hopens : opens buf with
  | none =>
      refine .inr ⟨?_, rfl⟩
      rintro ⟨p, j, ⟨root, hroot, -⟩, -⟩
      rw [hopens] at hroot
      cases hroot
  | some r =>
      obtain ⟨p, root⟩ := r
      have hobject := object_settles (inMemory_opens hbuf hopens) (maxDepth + 1) root
        (allowance buf) (le_refl _)
      rw [Nat.sub_self] at hobject
      refine (hobject.finish ?_ ?_).congr ?_
      · intro hnone
        simp only [hnone, Option.map_none]
      · rintro ⟨v, b⟩ hsome
        simp only [hsome, Option.map_some]
        rfl
      · constructor
        · rintro ⟨p', j, ⟨root', hroot, hcomes⟩, hover⟩
          rw [hopens] at hroot
          cases hroot
          exact ⟨j, hcomes, hover⟩
        · rintro ⟨j, hcomes, hover⟩
          exact ⟨p, j, ⟨root, hopens, hcomes⟩, hover⟩

end Checked

/-- **The reader stays in range exactly where no text and no blob that it comes to ends past
`2 ^ 64`.**  A slice has less than `2 ^ 63` bytes. -/
theorem inRange_iff (buf : Bytes) (memory : buf.length < 2 ^ 63) :
    InRange buf ↔ ∀ p j, ComesTo buf p j → ¬ p.Oversized j := by
  have hsettles := Checked.parse_settles memory
  constructor
  · intro hrange p j hcomes hover
    rcases hsettles with ⟨-, hpanic⟩ | ⟨hgood, -⟩
    · exact hrange _ hpanic
    · exact hgood ⟨p, j, hcomes, hover⟩
  · intro hall
    exact (hsettles.good_iff.mpr fun ⟨p, j, hcomes, hover⟩ => hall p j hcomes hover).1

/-- In range, it is read as in numbers that do not run over. -/
theorem parse_of_inRange {buf : Bytes} (memory : buf.length < 2 ^ 63) (h : InRange buf) :
    Checked.parse buf = .given (parse buf) := by
  rcases Checked.parse_settles memory with ⟨-, hpanic⟩ | ⟨-, hgiven⟩
  · exact absurd hpanic (h _)
  · exact hgiven

theorem inRange_iff_shared :
    InRange shared ↔ ∀ p j, ComesTo shared p j → ¬ p.Oversized j :=
  inRange_iff shared (by decide)

/-- A blob of `2 ^ 64 - 1` bytes, it says. -/
def endless : Bytes :=
  magic ++ [0x4F, 0x13] ++ List.replicate 8 0xFF ++ [8] ++
    [0, 0, 0, 0, 0, 0, 1, 1] ++ beBytes 8 1 ++ beBytes 8 0 ++ beBytes 8 18

theorem not_inRange_endless : ¬ InRange endless := by
  intro hrange
  let p : Parser := {
    buf := endless
    tableStart := 18
    offsetSize := 1
    refSize := 1
    numObjects := 1 }
  have hopens : opens endless = some (p, 0) := by decide +kernel
  have hcounted : p.counted 0 = some (0x4, 2 ^ 64 - 1, 18) := by
    decide +kernel
  have hcomes : ComesTo endless p 0 := ⟨0, hopens, .here (by decide)⟩
  have hover : p.Oversized 0 :=
    ⟨0x4, 2 ^ 64 - 1, 18, hcounted, .inl ⟨.inl rfl, by decide⟩⟩
  have hlen : endless.length < 2 ^ 63 := by decide
  rcases Checked.parse_settles hlen with ⟨-, hpanic⟩ | ⟨hgood, -⟩
  · exact hrange _ hpanic
  · exact hgood ⟨p, 0, hcomes, hover⟩

end Plist

end Sharingd
