import Mathlib.Algebra.Group.Nat.Defs
import TarishDaemon.Sharingd.Plist

/-!
# What the writer wrote, read back

The writer's walk puts the objects of a value one after the other, the children of a
container right behind it (`flatten_eq`).  The reader finds each at its place
(`Lays`), so it rebuilds the value, part by part; a text is read to its length
modulo `2 ^ 32`, the most a marker can say.

**A document is read back whole unless it has more objects than the reader takes**
(`parse_encode`, `parse_crowded`).
-/

namespace Sharingd

open Rust Layout

namespace Plist

/-! ## The objects of a value -/

mutual

/-- How many objects a value is written as. -/
def count : Value → Nat
  | .bool _ | .str _ | .data _ => 1
  | .array items => 1 + countAll items
  | .dict entries => 1 + countValues entries

def countAll : List Value → Nat
  | [] => 0
  | v :: items => count v + countAll items

/-- The entries of a dictionary, each with its key. -/
def countValues : List (Text × Value) → Nat
  | [] => 0
  | (_, v) :: entries => 1 + count v + countValues entries

end

/-- The objects of the values alone. -/
def countBehind : List (Text × Value) → Nat
  | [] => 0
  | (_, v) :: entries => count v + countBehind entries

/-- Where each of the values begins. -/
def indices : List Value → Nat → List Nat
  | [], _ => []
  | v :: items, base => base :: indices items (base + count v)

mutual

/-- The objects of a value whose own index is `base`. -/
def nodes : Value → Nat → List Node
  | .bool b, _ => [Node.bool b]
  | .str s, _ => [Node.str s]
  | .data d, _ => [Node.data d]
  | .array items, base => Node.array (indices items (base + 1)) :: nodesAll items (base + 1)
  | .dict entries, base =>
      let behind := base + 1 + entries.length
      Node.dict (List.range' (base + 1) entries.length) (indices (entries.map Prod.snd) behind) ::
        (entries.map (fun e => Node.str e.1) ++ nodesValues entries behind)

def nodesAll : List Value → Nat → List Node
  | [], _ => []
  | v :: items, base => nodes v base ++ nodesAll items (base + count v)

def nodesValues : List (Text × Value) → Nat → List Node
  | [], _ => []
  | (_, v) :: entries, base => nodes v base ++ nodesValues entries (base + count v)

end

theorem countValues_eq (entries : List (Text × Value)) :
    countValues entries = entries.length + countBehind entries := by
  induction entries with
  | nil => rfl
  | cons e entries ih =>
      obtain ⟨k, v⟩ := e
      simp only [countValues, countBehind, List.length_cons, ih]
      omega

mutual

theorem nodes_length (v : Value) (base : Nat) : (nodes v base).length = count v := by
  cases v with
  | bool b => rfl
  | str s => rfl
  | data d => rfl
  | array items =>
      simp only [nodes, count, List.length_cons, nodesAll_length items (base + 1)]
      omega
  | dict entries =>
      simp only [nodes, count, List.length_cons, List.length_append, List.length_map,
        nodesValues_length entries, countValues_eq]
      omega

theorem nodesAll_length (items : List Value) (base : Nat) :
    (nodesAll items base).length = countAll items := by
  cases items with
  | nil => rfl
  | cons v items =>
      rw [nodesAll, List.length_append, nodes_length v, nodesAll_length items, countAll]

theorem nodesValues_length (entries : List (Text × Value)) (base : Nat) :
    (nodesValues entries base).length = countBehind entries := by
  cases entries with
  | nil => rfl
  | cons e entries =>
      obtain ⟨k, v⟩ := e
      rw [nodesValues, List.length_append, nodes_length v, nodesValues_length entries, countBehind]

end

theorem count_pos (v : Value) : 0 < count v := by
  cases v <;> simp only [count] <;> omega

theorem length_le_countAll (items : List Value) : items.length ≤ countAll items := by
  induction items with
  | nil => exact Nat.le_refl _
  | cons v items ih =>
      have hpos := count_pos v
      rw [countAll, List.length_cons]
      omega

theorem indices_length (items : List Value) (base : Nat) :
    (indices items base).length = items.length := by
  induction items generalizing base with
  | nil => rfl
  | cons v items ih => simp [indices, ih]

theorem flattenKeys_eq (entries : List (Text × Value)) (out : List Node) :
    flattenKeys entries out = (List.range' out.length entries.length,
      out ++ entries.map fun e => Node.str e.1) := by
  induction entries generalizing out with
  | nil => simp [flattenKeys]
  | cons e entries ih =>
      obtain ⟨k, v⟩ := e
      simp [flattenKeys, ih, List.range'_succ]

mutual

/-- **The walk.**  The objects of a value are put behind those that are there, and
the slot that was reserved for a container is filled in. -/
theorem flatten_eq (v : Value) (out : List Node) :
    flatten v out = (out.length, out ++ nodes v out.length) := by
  cases v with
  | bool b => rfl
  | str s => rfl
  | data d => rfl
  | array items =>
      simp only [flatten, flattenAll_eq items, List.length_append, List.length_singleton, nodes]
      simp
  | dict entries =>
      simp only [flatten, flattenKeys_eq, flattenValues_eq entries, List.length_append,
        List.length_singleton, List.length_map, nodes]
      simp

theorem flattenAll_eq (items : List Value) (out : List Node) :
    flattenAll items out = (indices items out.length, out ++ nodesAll items out.length) := by
  cases items with
  | nil => simp [flattenAll, indices, nodesAll]
  | cons v items =>
      simp only [flattenAll, flatten_eq v, flattenAll_eq items, List.length_append,
        nodes_length, indices, nodesAll, List.append_assoc]

theorem flattenValues_eq (entries : List (Text × Value)) (out : List Node) :
    flattenValues entries out =
      (indices (entries.map Prod.snd) out.length, out ++ nodesValues entries out.length) := by
  cases entries with
  | nil => simp [flattenValues, indices, nodesValues]
  | cons e entries =>
      obtain ⟨k, v⟩ := e
      simp only [flattenValues, flatten_eq v, flattenValues_eq entries, List.length_append,
        nodes_length, List.map_cons, indices, nodesValues, List.append_assoc]

end

/-! ## What is read back -/

/-- What a marker says of a length. -/
def marked (len : Nat) : Nat :=
  len % 2 ^ 32

/-- A text as it is read back: up to the length its marker says. -/
def readText (s : Text) : Text :=
  if isAscii s then s.take (marked (asBytes s).length)
  else fromUtf16Lossy ((encodeUtf16 s).take (marked (encodeUtf16 s).length))

mutual

def readBack : Value → Val
  | .bool b => .bool b
  | .str s => .str (readText s)
  | .data d => .data (d.take (marked d.length))
  | .array items => .array (readAll items)
  | .dict entries => .dict (readEntries entries)

def readAll : List Value → List Val
  | [] => []
  | v :: items => readBack v :: readAll items

def readEntries : List (Text × Value) → List (Text × Val)
  | [] => []
  | (k, v) :: entries => (readText k, readBack v) :: readEntries entries

end

mutual

/-- How many levels the reader enters for a value. -/
def levels : Value → Nat
  | .bool _ | .str _ | .data _ => 1
  | .array items => 1 + levelsAll items
  | .dict entries => 1 + levelsValues entries

def levelsAll : List Value → Nat
  | [] => 0
  | v :: items => max (levels v) (levelsAll items)

def levelsValues : List (Text × Value) → Nat
  | [] => 0
  | (_, v) :: entries => max (levels v) (levelsValues entries)

end

theorem levels_pos (v : Value) : 0 < levels v := by
  cases v <;> simp only [levels] <;> omega

def textCost (s : Text) : Nat := (asBytes (readText s)).length

mutual

/-- The bytes of leaves that reading a value takes. -/
def cost : Value → Nat
  | .bool _ => 0
  | .str s => textCost s
  | .data d => (d.take (marked d.length)).length
  | .array items => costAll items
  | .dict entries => costValues entries

def costAll : List Value → Nat
  | [] => 0
  | v :: items => cost v + costAll items

def costValues : List (Text × Value) → Nat
  | [] => 0
  | (k, v) :: entries => textCost k + cost v + costValues entries

end

/-! ## Reading at a place -/

theorem slice_stands {buf part : Bytes} {a : Nat} (h : Stands buf a part) :
    slice buf a (a + part.length) = some part := by
  unfold slice
  rw [if_pos ⟨Nat.le_add_right _ _, h.length_le⟩, Nat.add_sub_cancel_left, h.take_drop]

theorem stands_of_slice {buf part : Bytes} {a b : Nat} (h : slice buf a b = some part) :
    Stands buf a part ∧ part.length = b - a := by
  unfold slice at h
  split at h
  · next hin =>
      cases h
      refine ⟨stands_take_drop (by omega), List.length_take_of_le ?_⟩
      rw [List.length_drop]
      omega
  · cases h

variable {p : Parser}

/-- **A length is read back modulo what a marker can say.** -/
theorem sized_writeMarker {kind len a : Nat} (hkind : kind % 16 = 0) (hsmall : kind + 15 < 256)
    (h : Stands p.buf a (writeMarker kind len)) :
    ∃ marker : UInt8, p.buf[a]? = some marker ∧ marker.toNat / 16 = kind / 16 ∧
      p.sized a (marker.toNat % 16) =
        some (marked len, a + (writeMarker kind len).length) := by
  unfold writeMarker at h ⊢
  by_cases hshort : len < 0x0F
  · rw [if_pos hshort] at h ⊢
    have hm := toNat_ofNat_byte (n := kind + len) (by omega)
    refine ⟨_, h.getElem?, by omega, ?_⟩
    unfold Parser.sized marked
    rw [if_pos (by omega), hm]
    simp only [List.length_singleton]
    congr 2
    omega
  rw [if_neg hshort] at h ⊢
  have hm := toNat_ofNat_byte (n := kind + 0x0F) (by omega)
  refine ⟨_, h.getElem?, by omega, ?_⟩
  -- the integer behind the marker: its own marker, and then its bytes
  have hint : Stands p.buf (a + 1) (writeIntObject len) :=
    h.tail
  have hread : ∀ (m : UInt8) (width : Nat), writeIntObject len = m :: beBytes width len →
      m.toNat / 16 = 1 → 2 ^ (m.toNat % 16) = width → be (beBytes width len) = marked len →
      p.sized a 0x0F = some (marked len, a + 1 + (writeIntObject len).length) := by
    intro m width hwrite hkind' hwidth hbe
    rw [hwrite] at hint ⊢
    have hbody := hint.tail
    have hslice := slice_stands hbody
    rw [beBytes_length, Nat.add_assoc a 1 1] at hslice
    unfold Parser.sized
    rw [if_neg (by simp), hint.getElem?]
    dsimp only
    rw [if_neg (by simp [hkind']), hwidth, hslice]
    simp only [hbe, List.length_cons, beBytes_length]
    congr 2
    omega
  rw [hm, show (kind + 0x0F) % 16 = 0x0F by omega, List.length_cons,
    show a + ((writeIntObject len).length + 1) = a + 1 + (writeIntObject len).length by omega]
  have hshort8 := be_beBytes (show 1 ≤ 8 by decide) len
  have hshort16 := be_beBytes (show 2 ≤ 8 by decide) len
  have hlong := be_beBytes (show 4 ≤ 8 by decide) len
  have height : (256 : Nat) ^ 4 = 2 ^ 32 := by decide
  unfold marked at hread ⊢
  by_cases h8 : len ≤ 0xFF
  · apply hread 0x10 1 (by rw [writeIntObject, if_pos h8]) (by decide) (by decide)
    omega
  by_cases h16 : len ≤ 0xFFFF
  · apply hread 0x11 2 (by rw [writeIntObject, if_neg h8, if_pos h16]) (by decide) (by decide)
    omega
  · apply hread 0x12 4 (by rw [writeIntObject, if_neg h8, if_neg h16]) (by decide) (by decide)
    omega

/-- The reader finds every object where the writer put it. -/
structure Lays (p : Parser) (objs : List Node) : Prop where
  refSize_le : p.refSize ≤ 8
  refs : objs.length ≤ 256 ^ p.refSize
  small : objs.length ≤ maxElements
  found : ∀ i node, objs[i]? = some node →
    ∃ a, p.offsetOf i = some a ∧ Stands p.buf a (writeNode p.refSize node)

theorem reference_stands {body i r : Nat} (hsize : p.refSize ≤ 8) (hr : r < 256 ^ p.refSize)
    (h : Stands p.buf (body + i * p.refSize) (beBytes p.refSize r)) :
    p.reference body i = some r := by
  have hslice := slice_stands h
  rw [beBytes_length] at hslice
  rw [Parser.reference, hslice, Option.map_some, be_beBytes_of_lt hsize hr]

theorem flatMap_beBytes_length (width : Nat) (ns : List Nat) :
    (ns.flatMap (beBytes width)).length = ns.length * width := by
  induction ns with
  | nil => simp
  | cons n ns ih =>
      rw [List.flatMap_cons, List.length_append, beBytes_length, ih, List.length_cons,
        Nat.succ_mul, Nat.add_comm]

theorem units_flatMap (us : List Nat) (hus : ∀ u ∈ us, u < 0x10000) :
    Parser.units (us.flatMap (beBytes 2)) = us := by
  induction us with
  | nil => rfl
  | cons u us ih =>
      have hu := hus u (by simp)
      have hhigh := toNat_ofNat_byte (n := u / 256 % 256) (by omega)
      have hlow := toNat_ofNat_byte (n := u % 256) (by omega)
      have hpair : beBytes 2 u = [UInt8.ofNat (u / 256 % 256), UInt8.ofNat (u % 256)] := rfl
      rw [List.flatMap_cons, hpair, List.cons_append, List.cons_append, List.nil_append,
        Parser.units, hhigh, hlow, ih fun v hv => hus v (by simp [hv])]
      congr 1
      omega

theorem take_flatMap_beBytes (width n : Nat) (ns : List Nat) :
    (ns.flatMap (beBytes width)).take (n * width) = (ns.take n).flatMap (beBytes width) := by
  induction n generalizing ns with
  | zero => simp
  | succ n ih =>
      cases ns with
      | nil => simp
      | cons m ns =>
          rw [List.flatMap_cons, List.take_succ_cons, List.flatMap_cons, List.take_append,
            beBytes_length, List.take_of_length_le (by rw [beBytes_length, Nat.succ_mul]; omega),
            show (n + 1) * width - width = n * width by rw [Nat.succ_mul]; omega, ih]

/-- A body read to a length that is at most the one it was written with. -/
theorem slice_body {body n : Nat} {part : Bytes} (hn : n ≤ part.length)
    (h : Stands p.buf body part) : slice p.buf body (body + n) = some (part.take n) := by
  have hfront : Stands p.buf body (part.take n) := by
    rw [← List.take_append_drop n part] at h
    exact h.left
  have hslice := slice_stands hfront
  rwa [List.length_take, Nat.min_eq_left hn] at hslice

theorem marked_le (len : Nat) : marked len ≤ len := Nat.mod_le _ _

section Objects

variable {objs : List Node} {i left : Nat} {budget : Budget}

theorem spendBytes_of_le {n : Nat} {b : Budget} (h : n ≤ b.bytes) :
    Parser.spendBytes n b = some { b with bytes := b.bytes - n } := by
  rw [Parser.spendBytes, if_neg (by omega)]

theorem object_bool (lays : Lays p objs) {b : Bool} (h : objs[i]? = some (Node.bool b))
    (room : 0 < budget.objects) :
    p.object (left + 1) i budget =
      some (.bool b, { budget with objects := budget.objects - 1 }) := by
  obtain ⟨a, hoffset, hstands⟩ := lays.found i _ h
  have hmarker : p.buf[a]? = some (if b then 0x09 else 0x08) := hstands.getElem?
  cases b <;> simp [Parser.object, hoffset, hmarker, Nat.ne_of_gt room]

theorem object_str (lays : Lays p objs) {s : Text} (h : objs[i]? = some (Node.str s))
    (room : 0 < budget.objects) (bytes : textCost s ≤ budget.bytes) :
    p.object (left + 1) i budget =
      some (.str (readText s), ⟨budget.objects - 1, budget.bytes - textCost s⟩) := by
  obtain ⟨a, hoffset, hstands⟩ := lays.found i _ h
  rw [writeNode, writeString] at hstands
  have hspend := spendBytes_of_le (b := { budget with objects := budget.objects - 1 }) bytes
  rw [textCost] at hspend ⊢
  rw [Parser.object, if_neg (Nat.ne_of_gt room), hoffset]
  by_cases hascii : isAscii s = true
  · rw [if_pos hascii] at hstands
    obtain ⟨marker, hmarker, hkind, hsized⟩ :=
      sized_writeMarker (by decide) (by decide) hstands.left
    have hslice := slice_body (marked_le _) hstands.right
    have hread : fromUtf8Lossy ((asBytes s).take (marked (asBytes s).length)) = readText s := by
      rw [readText, if_pos hascii, fromUtf8Lossy_take_ascii hascii]
    simp only [hmarker, hkind, hsized, hslice, hread, hspend, Option.map_some]
  · rw [if_neg hascii] at hstands
    obtain ⟨marker, hmarker, hkind, hsized⟩ :=
      sized_writeMarker (by decide) (by decide) hstands.left
    have hle : marked (encodeUtf16 s).length * 2 ≤
        ((encodeUtf16 s).flatMap (beBytes 2)).length := by
      rw [flatMap_beBytes_length]
      exact Nat.mul_le_mul_right 2 (marked_le _)
    have hslice := slice_body hle hstands.right
    have hunits := units_flatMap ((encodeUtf16 s).take (marked (encodeUtf16 s).length))
      fun u hu => encodeUtf16_lt s u (List.mem_of_mem_take hu)
    have hread : fromUtf16Lossy (Parser.units
        (((encodeUtf16 s).flatMap (beBytes 2)).take (marked (encodeUtf16 s).length * 2))) =
        readText s := by
      rw [take_flatMap_beBytes, hunits, readText, if_neg hascii]
    simp only [hmarker, hkind, hsized, hslice, hread, hspend, Option.map_some]

theorem object_data (lays : Lays p objs) {d : Bytes} (h : objs[i]? = some (Node.data d))
    (room : 0 < budget.objects) (bytes : cost (.data d) ≤ budget.bytes) :
    p.object (left + 1) i budget =
      some (readBack (.data d), ⟨budget.objects - 1, budget.bytes - cost (.data d)⟩) := by
  obtain ⟨a, hoffset, hstands⟩ := lays.found i _ h
  rw [writeNode] at hstands
  have hspend := spendBytes_of_le (b := { budget with objects := budget.objects - 1 }) bytes
  obtain ⟨marker, hmarker, hkind, hsized⟩ :=
    sized_writeMarker (by decide) (by decide) hstands.left
  have hslice := slice_body (marked_le _) hstands.right
  rw [cost] at hspend ⊢
  rw [Parser.object, if_neg (Nat.ne_of_gt room), hoffset]
  simp only [hmarker, hkind, hsized, hslice, hspend, Option.map_some, readBack]

theorem marked_of_le {n : Nat} (h : n ≤ maxElements) : marked n = n := by
  unfold marked maxElements at *
  omega

variable (left) in
/-- The reader goes through the references of an array. -/
theorem object_array (lays : Lays p objs) {children : List Nat}
    (h : objs[i]? = some (Node.array children)) (few : children.length ≤ maxElements)
    (room : 0 < budget.objects) :
    ∃ body, Stands p.buf body (children.flatMap (beBytes p.refSize)) ∧
      p.object (left + 1) i budget =
        (p.arrayLoop (p.object left) body children.length 0
          { budget with objects := budget.objects - 1 }).map fun r => (.array r.1, r.2) := by
  obtain ⟨a, hoffset, hstands⟩ := lays.found i _ h
  rw [writeNode] at hstands
  obtain ⟨marker, hmarker, hkind, hsized⟩ :=
    sized_writeMarker (by decide) (by decide) hstands.left
  rw [marked_of_le few] at hsized
  refine ⟨_, hstands.right, ?_⟩
  rw [Parser.object, if_neg (Nat.ne_of_gt room), hoffset]
  simp only [hmarker, hkind, hsized, if_neg (Nat.not_lt.mpr few)]

variable (left) in
/-- The reader goes through the references of a dictionary, keys and values. -/
theorem object_dict (lays : Lays p objs) {keys values : List Nat}
    (h : objs[i]? = some (Node.dict keys values)) (few : keys.length ≤ maxElements)
    (room : 0 < budget.objects) :
    ∃ body, Stands p.buf body
        (keys.flatMap (beBytes p.refSize) ++ values.flatMap (beBytes p.refSize)) ∧
      p.object (left + 1) i budget =
        (p.dictLoop (p.object left) body keys.length keys.length 0
          { budget with objects := budget.objects - 1 }).map fun r => (.dict r.1, r.2) := by
  obtain ⟨a, hoffset, hstands⟩ := lays.found i _ h
  rw [writeNode, List.append_assoc] at hstands
  obtain ⟨marker, hmarker, hkind, hsized⟩ :=
    sized_writeMarker (by decide) (by decide) hstands.left
  rw [marked_of_le few] at hsized
  refine ⟨_, hstands.right, ?_⟩
  rw [Parser.object, if_neg (Nat.ne_of_gt room), hoffset]
  simp only [hmarker, hkind, hsized, if_neg (Nat.not_lt.mpr few)]

/-- An index at which something stands can be written as a reference. -/
theorem Lays.index_lt (lays : Lays p objs) {node : Node} {rest : List Node}
    (h : Stands objs i (node :: rest)) : i < 256 ^ p.refSize := by
  have hlen := h.length_le
  have hrefs := lays.refs
  rw [List.length_cons] at hlen
  omega

theorem nodes_ne_nil (v : Value) (base : Nat) : ∃ node rest, nodes v base = node :: rest := by
  cases v <;> exact ⟨_, _, rfl⟩

end Objects

section Tree

variable {objs : List Node}

mutual

/-- **A value is read back from its index**: one case for each kind, the children of
a container by the two loops. -/
theorem object_reads (lays : Lays p objs) (v : Value) (left : Nat) (budget : Budget) {base : Nat}
    (h : Stands objs base (nodes v base)) (hlevels : levels v ≤ left)
    (hobjects : count v ≤ budget.objects) (hbytes : cost v ≤ budget.bytes) :
    p.object left base budget =
      some (readBack v, ⟨budget.objects - count v, budget.bytes - cost v⟩) := by
  have hroom : 0 < budget.objects := by
    obtain ⟨node, rest, hnodes⟩ := nodes_ne_nil v base
    have hlen := nodes_length v base
    rw [hnodes, List.length_cons] at hlen
    omega
  obtain ⟨left, rfl⟩ : ∃ l, left = l + 1 := by
    cases left with
    | zero => cases v <;> simp [levels] at hlevels
    | succ l => exact ⟨l, rfl⟩
  cases v with
  | bool b => exact object_bool lays h.getElem? hroom
  | str s => exact object_str lays h.getElem? hroom hbytes
  | data d => exact object_data lays h.getElem? hroom hbytes
  | array items =>
      rw [levels] at hlevels
      rw [count] at hobjects ⊢
      rw [cost] at hbytes ⊢
      rw [nodes] at h
      have hinner : Stands objs (base + 1) (nodesAll items (base + 1)) :=
        h.tail
      have hfew : (indices items (base + 1)).length ≤ maxElements := by
        have hlen := hinner.length_le
        have hsmall := lays.small
        have hcount := length_le_countAll items
        rw [nodesAll_length] at hlen
        rw [indices_length]
        omega
      obtain ⟨body, hbody, hloop⟩ := object_array left lays h.getElem? hfew hroom
      have hreads := array_reads lays items left 0 { budget with objects := budget.objects - 1 }
        hinner (by simpa using hbody)
        (by omega) (by simpa using Nat.le_sub_of_add_le' hobjects) hbytes
      rw [hloop, indices_length, hreads, Option.map_some, readBack, Nat.sub_sub]
  | dict entries =>
      rw [levels] at hlevels
      rw [count] at hobjects ⊢
      rw [cost] at hbytes ⊢
      rw [nodes] at h
      have hbehind := h.tail
      have hkeys : Stands objs (base + 1) (entries.map fun e => Node.str e.1) := hbehind.left
      have hvalues : Stands objs (base + 1 + entries.length)
          (nodesValues entries (base + 1 + entries.length)) := by
        simpa using hbehind.right
      have hfew : (List.range' (base + 1) entries.length).length ≤ maxElements := by
        have hlen := hkeys.length_le
        have hsmall := lays.small
        rw [List.length_map] at hlen
        rw [List.length_range']
        omega
      obtain ⟨body, hbody, hloop⟩ := object_dict left lays h.getElem? hfew hroom
      have hvalueRefs := hbody.right
      rw [flatMap_beBytes_length, List.length_range'] at hvalueRefs
      have hreads := dict_reads lays entries left entries.length 0
        { budget with objects := budget.objects - 1 } hkeys hvalues
        (by simpa using hbody.left) (by simpa using hvalueRefs)
        (by omega) (by simpa using Nat.le_sub_of_add_le' hobjects) hbytes
      rw [hloop, List.length_range', hreads, Option.map_some, readBack, Nat.sub_sub]

theorem array_reads (lays : Lays p objs) (items : List Value) (left n : Nat)
    (budget : Budget) {base body : Nat} (h : Stands objs base (nodesAll items base))
    (hrefs : Stands p.buf (body + n * p.refSize)
      ((indices items base).flatMap (beBytes p.refSize)))
    (hlevels : levelsAll items ≤ left) (hobjects : countAll items ≤ budget.objects)
    (hbytes : costAll items ≤ budget.bytes) :
    p.arrayLoop (p.object left) body items.length n budget =
      some (readAll items, ⟨budget.objects - countAll items, budget.bytes - costAll items⟩) := by
  cases items with
  | nil => rfl
  | cons v items =>
      rw [levelsAll] at hlevels
      rw [countAll] at hobjects ⊢
      rw [costAll] at hbytes ⊢
      rw [nodesAll] at h
      rw [indices, List.flatMap_cons] at hrefs
      have hindex : base < 256 ^ p.refSize := by
        obtain ⟨node, rest, hnodes⟩ := nodes_ne_nil v base
        exact lays.index_lt (hnodes ▸ h.left)
      have href := reference_stands lays.refSize_le hindex hrefs.left
      have hfirst := object_reads lays v left budget h.left (by omega)
        (by omega) (by omega)
      have hlater := h.right
      have hlaterRefs := hrefs.right
      rw [nodes_length] at hlater
      rw [beBytes_length, Nat.add_assoc, ← Nat.succ_mul] at hlaterRefs
      have hrest := array_reads lays items left (n + 1)
        ⟨budget.objects - count v, budget.bytes - cost v⟩ hlater hlaterRefs
        (by omega) (Nat.le_sub_of_add_le' hobjects) (Nat.le_sub_of_add_le' hbytes)
      rw [List.length_cons, Parser.arrayLoop, href]
      simp only [hfirst, hrest, readAll, Nat.sub_sub]

/-- The keys stand in front of the values, so the two are followed side by side. -/
theorem dict_reads (lays : Lays p objs) (entries : List (Text × Value))
    (left all n : Nat) (budget : Budget) {keyBase base body : Nat}
    (hkeys : Stands objs keyBase (entries.map fun e => Node.str e.1))
    (h : Stands objs base (nodesValues entries base))
    (hkeyRefs : Stands p.buf (body + n * p.refSize)
      ((List.range' keyBase entries.length).flatMap (beBytes p.refSize)))
    (hrefs : Stands p.buf (body + (all + n) * p.refSize)
      ((indices (entries.map Prod.snd) base).flatMap (beBytes p.refSize)))
    (hlevels : levelsValues entries ≤ left) (hobjects : countValues entries ≤ budget.objects)
    (hbytes : costValues entries ≤ budget.bytes) :
    p.dictLoop (p.object left) body all entries.length n budget =
      some (readEntries entries,
        ⟨budget.objects - countValues entries, budget.bytes - costValues entries⟩) := by
  cases entries with
  | nil => rfl
  | cons e entries =>
      obtain ⟨k, v⟩ := e
      rw [levelsValues] at hlevels
      rw [countValues] at hobjects ⊢
      rw [costValues] at hbytes ⊢
      rw [nodesValues] at h
      rw [List.map_cons] at hkeys
      rw [List.length_cons, List.range'_succ, List.flatMap_cons] at hkeyRefs
      rw [List.map_cons, indices, List.flatMap_cons] at hrefs
      have hindex : base < 256 ^ p.refSize := by
        obtain ⟨node, rest, hnodes⟩ := nodes_ne_nil v base
        exact lays.index_lt (hnodes ▸ h.left)
      have hkeyRef := reference_stands lays.refSize_le (lays.index_lt hkeys) hkeyRefs.left
      have href := reference_stands lays.refSize_le hindex hrefs.left
      have hpos : 0 < left := by
        have := levels_pos v
        omega
      have hkey : p.object left keyBase budget =
          some (.str (readText k), ⟨budget.objects - 1, budget.bytes - textCost k⟩) := by
        obtain ⟨l, rfl⟩ := Nat.exists_eq_succ_of_ne_zero (Nat.ne_of_gt hpos)
        exact object_str lays hkeys.getElem? (by omega) (by omega)
      have hfirst := object_reads lays v left
        ⟨budget.objects - 1, budget.bytes - textCost k⟩ h.left (by omega)
        (Nat.le_sub_of_add_le' (by omega)) (Nat.le_sub_of_add_le' (by omega))
      have hlater := h.right
      have hlaterKeyRefs := hkeyRefs.right
      have hlaterRefs := hrefs.right
      rw [nodes_length] at hlater
      rw [beBytes_length, Nat.add_assoc, ← Nat.succ_mul] at hlaterKeyRefs hlaterRefs
      have hrest := dict_reads lays entries left all (n + 1)
        ⟨budget.objects - 1 - count v, budget.bytes - textCost k - cost v⟩
        (hkeys.tail) hlater hlaterKeyRefs hlaterRefs (by omega)
        (by dsimp only; omega) (by dsimp only; omega)
      rw [List.length_cons, Parser.dictLoop, hkeyRef, href]
      simp only [hkey, hfirst, hrest, readEntries]
      simp only [Nat.sub_sub]

end

end Tree

/-! ## The whole document -/

theorem byteWidth_bounds (n : Nat) : 0 < byteWidth n ∧ byteWidth n ≤ 8 := by
  unfold byteWidth
  grind

theorem lt_pow_byteWidth {n : Nat} (h : n < 2 ^ 64) : n < 256 ^ byteWidth n := by
  unfold byteWidth
  split
  · simp; omega
  split
  · simp; omega
  split
  · simp; omega
  · simp; omega

/-- Where the objects begin, in a document that has `base` bytes in front of them. -/
def places (base : Nat) (pieces : List Bytes) : List Nat :=
  (List.range pieces.length).map fun i => base + start pieces i

theorem places_cons (base : Nat) (piece : Bytes) (pieces : List Bytes) :
    places base (piece :: pieces) = base :: places (base + piece.length) pieces := by
  unfold places
  rw [List.length_cons, List.range_succ_eq_map, List.map_cons, List.map_map]
  congr 1
  apply List.map_congr_left
  intro i _
  simp [start, Nat.add_assoc]

theorem writeNodes_eq (refSize : Nat) (ns : List Node) (out : Bytes) (offsets : List Nat) :
    writeNodes refSize ns out offsets =
      (out ++ (ns.map (writeNode refSize)).flatten,
        offsets ++ places out.length (ns.map (writeNode refSize))) := by
  induction ns generalizing out offsets with
  | nil => simp [writeNodes, places]
  | cons node ns ih =>
      rw [writeNodes, ih, List.map_cons, places_cons, List.length_append, List.flatten_cons]
      simp

/-- The objects of a document, written. -/
def pieces (v : Value) : List Bytes :=
  (nodes v 0).map (writeNode (byteWidth (count v)))

def tableStart (v : Value) : Nat :=
  8 + (pieces v).flatten.length

def offsetSize (v : Value) : Nat :=
  byteWidth (tableStart v)

theorem offsetSize_bounds (v : Value) : 0 < offsetSize v ∧ offsetSize v ≤ 8 :=
  byteWidth_bounds _

def table (v : Value) : List Bytes :=
  (places 8 (pieces v)).map (beBytes (offsetSize v))

def trailer (v : Value) : Bytes :=
  [0, 0, 0, 0, 0, 0, UInt8.ofNat (offsetSize v), UInt8.ofNat (byteWidth (count v))] ++
    (beBytes 8 (count v) ++ (beBytes 8 0 ++ beBytes 8 (tableStart v)))

theorem encode_eq (v : Value) :
    encode v = magic ++ ((pieces v).flatten ++ ((table v).flatten ++ trailer v)) := by
  unfold encode
  rw [flatten_eq, List.nil_append]
  simp only [writeNodes_eq, nodes_length, List.length_append, List.length_nil]
  simp [table, trailer, pieces, offsetSize, tableStart, magic, List.flatMap]

theorem pieces_length (v : Value) : (pieces v).length = count v := by
  rw [pieces, List.length_map, nodes_length]

theorem table_length (v : Value) : (table v).length = count v := by
  rw [table, List.length_map, places, List.length_map, List.length_range, pieces_length]

theorem tableFlatten_length (v : Value) : (table v).flatten.length = count v * offsetSize v := by
  have hflat : (table v).flatten = (places 8 (pieces v)).flatMap (beBytes (offsetSize v)) := rfl
  rw [hflat, flatMap_beBytes_length, places, List.length_map, List.length_range, pieces_length]

theorem trailer_length (v : Value) : (trailer v).length = 32 := by
  simp [trailer]

theorem encode_length (v : Value) :
    (encode v).length = tableStart v + count v * offsetSize v + 32 := by
  rw [encode_eq, List.length_append, List.length_append, List.length_append, trailer_length,
    tableFlatten_length, tableStart]
  simp only [magic, List.length_cons, List.length_nil]
  omega

/-- The reader of a document. -/
def reader (v : Value) : Parser :=
  { buf := encode v, tableStart := tableStart v, offsetSize := offsetSize v,
    refSize := byteWidth (count v), numObjects := count v }

theorem stands_table (v : Value) :
    Stands (encode v) (tableStart v) (table v).flatten :=
  ⟨magic ++ (pieces v).flatten, trailer v, by rw [encode_eq]; simp, by
    rw [List.length_append, tableStart]
    rfl⟩

theorem stands_pieces (v : Value) : Stands (encode v) 8 (pieces v).flatten :=
  ⟨magic, (table v).flatten ++ trailer v, encode_eq v, rfl⟩

/-- **The reader finds every object of a document.** -/
theorem lays_reader {v : Value} (hcount : count v ≤ maxElements)
    (hlen : (encode v).length < 2 ^ 63) : Lays (reader v) (nodes v 0) where
  refSize_le := (byteWidth_bounds _).2
  refs := by
    rw [nodes_length]
    refine Nat.le_of_lt (lt_pow_byteWidth ?_)
    unfold maxElements at hcount
    omega
  small := by rwa [nodes_length]
  found i node h := by
    have hi : i < count v := by
      have := (List.getElem?_eq_some_iff.mp h).1
      rwa [nodes_length] at this
    have hpiece : (pieces v)[i]? = some (writeNode (byteWidth (count v)) node) := by
      rw [pieces, List.getElem?_map, h, Option.map_some]
    have hstands := (stands_pieces v).trans (stands_start hpiece)
    refine ⟨8 + start (pieces v) i, ?_, hstands⟩
    -- the entry of the table, and what is read there
    have hentry : (table v)[i]? = some (beBytes (offsetSize v) (8 + start (pieces v) i)) := by
      rw [table, List.getElem?_map, places, List.getElem?_map,
        List.getElem?_range (by rwa [pieces_length]), Option.map_some, Option.map_some]
    have hstart : start (table v) i = i * offsetSize v := by
      apply start_uniform
      · intro piece hmem
        obtain ⟨n, -, rfl⟩ := List.mem_map.mp hmem
        exact beBytes_length _ _
      · rw [table_length]
        omega
    have hread := slice_stands ((stands_table v).trans (stands_start hentry))
    rw [hstart, beBytes_length] at hread
    have hplace : start (pieces v) i ≤ (pieces v).flatten.length := start_le _ _
    have htotal := encode_length v
    have hsize : 8 + start (pieces v) i < 256 ^ offsetSize v := by
      have hfits := lt_pow_byteWidth (n := tableStart v) (by omega)
      unfold offsetSize
      unfold tableStart at hfits ⊢
      omega
    have hbe := be_beBytes_of_lt (offsetSize_bounds v).2 hsize
    have hinside : 8 + start (pieces v) i < (encode v).length := by
      unfold tableStart at htotal
      omega
    unfold Parser.offsetOf reader
    rw [if_neg (Nat.not_le.mpr hi)]
    simp only [hread, hbe, if_pos hinside]

/-! ### The budgets suffice -/

theorem textCost_le (s : Text) : textCost s ≤ 2 * (writeString s).length := by
  unfold textCost readText writeString
  by_cases hascii : isAscii s = true
  · rw [if_pos hascii, if_pos hascii, asBytes_ascii (isAscii_take hascii _), asBytes_ascii hascii]
    simp only [List.length_map, List.length_append, List.length_take]
    omega
  · rw [if_neg hascii, if_neg hascii]
    have hunits := (fromUtf16Lossy_lengths
      ((encodeUtf16 s).take (marked (encodeUtf16 s).length))
      fun u hu => encodeUtf16_lt s u (List.mem_of_mem_take hu)).2
    rw [List.length_take] at hunits
    rw [List.length_append, flatMap_beBytes_length]
    omega

theorem keysCost_le (refSize : Nat) (entries : List (Text × Value)) :
    (entries.map fun e => textCost e.1).sum ≤
      2 * ((entries.map fun e => Node.str e.1).map (writeNode refSize)).flatten.length := by
  induction entries with
  | nil => simp
  | cons e entries ih =>
      have hkey := textCost_le e.1
      simp only [List.map_cons, List.sum_cons, List.flatten_cons, List.length_append, writeNode]
      omega

mutual

/-- The leaves of a value take at most twice the bytes it is written in: a code unit
is two bytes and at most three when it is read back. -/
theorem cost_le (refSize : Nat) (v : Value) (base : Nat) :
    cost v ≤ 2 * ((nodes v base).map (writeNode refSize)).flatten.length := by
  cases v with
  | bool b => simp [cost]
  | str s => simpa [cost, nodes, writeNode] using textCost_le s
  | data d =>
      simp only [cost, nodes, writeNode, List.map_cons, List.map_nil, List.flatten_cons,
        List.flatten_nil, List.length_append, List.length_take, List.length_nil]
      omega
  | array items =>
      have hall := costAll_le refSize items (base + 1)
      simp only [cost, nodes, List.map_cons, List.flatten_cons, List.length_append]
      omega
  | dict entries =>
      have hkeys := keysCost_le refSize entries
      have hvalues := costValues_le refSize entries (base + 1 + entries.length)
      simp only [cost, nodes, List.map_cons, List.flatten_cons, List.map_append,
        List.flatten_append, List.length_append]
      omega

theorem costAll_le (refSize : Nat) (items : List Value) (base : Nat) :
    costAll items ≤ 2 * ((nodesAll items base).map (writeNode refSize)).flatten.length := by
  cases items with
  | nil => simp [costAll]
  | cons v items =>
      have hfirst := cost_le refSize v base
      have hrest := costAll_le refSize items (base + count v)
      simp only [costAll, nodesAll, List.map_append, List.flatten_append, List.length_append]
      omega

theorem costValues_le (refSize : Nat) (entries : List (Text × Value)) (base : Nat) :
    costValues entries ≤ (entries.map fun e => textCost e.1).sum +
      2 * ((nodesValues entries base).map (writeNode refSize)).flatten.length := by
  cases entries with
  | nil => simp [costValues]
  | cons e entries =>
      obtain ⟨k, v⟩ := e
      have hfirst := cost_le refSize v base
      have hrest := costValues_le refSize entries (base + count v)
      simp only [costValues, nodesValues, List.map_cons, List.sum_cons, List.map_append,
        List.flatten_append, List.length_append]
      omega

end

/-! ### There and back -/

/-- What the reader takes from the trailer. -/
theorem trailer_read {v : Value} (hcount : count v < 2 ^ 64) :
    (encode v).drop ((encode v).length - 32) = trailer v ∧
      ((trailer v).getD 6 0).toNat = offsetSize v ∧
      ((trailer v).getD 7 0).toNat = byteWidth (count v) ∧
      be (((trailer v).drop 8).take 8) = count v ∧
      be (((trailer v).drop 16).take 8) = 0 ∧
      (tableStart v < 2 ^ 64 → be (((trailer v).drop 24).take 8) = tableStart v) := by
  have hoffset := offsetSize_bounds v
  have href := byteWidth_bounds (count v)
  have height : (256 : Nat) ^ 8 = 2 ^ 64 := by decide
  have hb0 := toNat_ofNat_byte (n := offsetSize v) (by omega)
  have hb1 := toNat_ofNat_byte (n := byteWidth (count v)) (by omega)
  have h8 := be_beBytes_of_lt (n := count v) (show 8 ≤ 8 by decide) (by omega)
  have h16 := be_beBytes_of_lt (n := 0) (show 8 ≤ 8 by decide) (by decide)
  have h24 : tableStart v < 2 ^ 64 → be (beBytes 8 (tableStart v)) = tableStart v :=
    fun hstart => be_beBytes_of_lt (by decide) (by omega)
  have hnums : Stands (trailer v) 8 (beBytes 8 (count v) ++ (beBytes 8 0 ++
      beBytes 8 (tableStart v))) :=
    ⟨[0, 0, 0, 0, 0, 0, UInt8.ofNat (offsetSize v), UInt8.ofNat (byteWidth (count v))], [],
      by simp [trailer], rfl⟩
  have hcountAt := hnums.left.take_drop
  have hrootAt := hnums.right.left.take_drop
  have hstartAt := hnums.right.right.take_drop
  simp only [beBytes_length] at hcountAt hrootAt hstartAt
  refine ⟨?_, hb0, hb1, by rw [hcountAt, h8], by rw [hrootAt, h16], by rwa [hstartAt]⟩
  have hfront : encode v = (magic ++ ((pieces v).flatten ++ (table v).flatten)) ++ trailer v := by
    rw [encode_eq]
    simp
  have hcut : (encode v).length - 32 =
      (magic ++ ((pieces v).flatten ++ (table v).flatten)).length := by
    rw [hfront, List.length_append, trailer_length, Nat.add_sub_cancel]
  rw [hcut]
  conv_lhs => rw [hfront]
  exact List.drop_left

theorem encode_head (v : Value) : ¬ ((encode v).length < 40 ∨ (encode v).take 8 ≠ magic) := by
  have hlen := encode_length v
  have hmagic : (encode v).take 8 = magic := by
    rw [encode_eq]
    rfl
  rintro (hshort | hother)
  · unfold tableStart at hlen
    omega
  · exact hother hmagic

/-- **A document is read back**, each text to the length its marker says. -/
theorem parse_encode {v : Value} (hcount : count v ≤ maxElements)
    (hlevels : levels v ≤ maxDepth + 1) (hlen : (encode v).length < 2 ^ 63) :
    parse (encode v) = some (readBack v) := by
  have htotal := encode_length v
  have hmax : maxElements = 4096 := rfl
  obtain ⟨htrailer, hoffset, href, hnum, hroot, hstart⟩ :=
    trailer_read (v := v) (by omega)
  have hstart := hstart (by omega)
  have hbounds := offsetSize_bounds v
  have hwidth := byteWidth_bounds (count v)
  have hpos := count_pos v
  have hcost : cost v ≤ 2 * (encode v).length := by
    have hpieces := cost_le (byteWidth (count v)) v 0
    have hstarts : tableStart v = 8 + (pieces v).flatten.length := rfl
    have hsame : (pieces v).flatten.length =
        ((nodes v 0).map (writeNode (byteWidth (count v)))).flatten.length := rfl
    omega
  have hwhole : Stands (nodes v 0) 0 (nodes v 0) := ⟨[], [], by simp, rfl⟩
  have hreads := object_reads (lays_reader hcount hlen) v (maxDepth + 1)
    ⟨maxTotalObjects, max (saturatingMul (encode v).length byteAmplification) minByteBudget⟩
    hwhole hlevels
    (by
      unfold maxTotalObjects
      dsimp only
      omega)
    (by
      unfold saturatingMul byteAmplification
      dsimp only
      omega)
  unfold parse
  rw [if_neg (encode_head v)]
  simp only [htrailer, hoffset, href, hnum, hroot, hstart]
  rw [if_neg (by omega), if_neg (by omega), if_neg (by omega)]
  unfold reader at hreads
  rw [hreads, Option.map_some]

/-- A document with more objects than the reader takes is not read at all. -/
theorem parse_crowded {v : Value} (hcrowded : maxElements < count v)
    (hcount : count v < 2 ^ 64) : parse (encode v) = none := by
  obtain ⟨htrailer, -, -, hnum, -, -⟩ := trailer_read hcount
  unfold parse
  rw [if_neg (encode_head v)]
  simp only [htrailer, hnum]
  split
  · rfl
  · rw [if_pos (by omega)]

theorem count_le_length (v : Value) : count v ≤ (encode v).length := by
  have htotal := encode_length v
  have hmany : count v ≤ count v * offsetSize v :=
    Nat.le_mul_of_pos_right _ (offsetSize_bounds v).1
  omega

end Plist

end Sharingd
