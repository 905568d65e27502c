import TarishDaemon.Sharingd.Ask

/-!
# Property lists that are read back whole

A marker says of a length what fits in four bytes.  Where every length in a value fits,
nothing of the value is cut: it is read back as it is (`parse_encode_whole`), provided the
reader takes as many objects and enters as many levels.

Such a document is never too long for the reader: a text or a blob is written in at most
`maxNode` bytes, and so is a container of at most as many objects as the reader takes.
-/

namespace Sharingd

open Rust

namespace Plist

mutual

/-- The value that is read back where nothing is cut. -/
def toVal : Value → Val
  | .bool b => .bool b
  | .str s => .str s
  | .data d => .data d
  | .array items => .array (toVals items)
  | .dict entries => .dict (toEntries entries)

def toVals : List Value → List Val
  | [] => []
  | v :: items => toVal v :: toVals items

def toEntries : List (Text × Value) → List (Text × Val)
  | [] => []
  | (k, v) :: entries => (k, toVal v) :: toEntries entries

end

mutual

/-- Every text and every blob in the value is shorter than a marker can say. -/
def Short : Value → Prop
  | .bool _ => True
  | .str s => Fits s
  | .data d => d.length < 2 ^ 32
  | .array items => ShortAll items
  | .dict entries => ShortEntries entries

def ShortAll : List Value → Prop
  | [] => True
  | v :: items => Short v ∧ ShortAll items

def ShortEntries : List (Text × Value) → Prop
  | [] => True
  | (k, v) :: entries => Fits k ∧ Short v ∧ ShortEntries entries

end

mutual

/-- **Nothing is cut.** -/
theorem readBack_of_short (v : Value) (h : Short v) : readBack v = toVal v := by
  cases v with
  | bool b => rfl
  | str s =>
      have hread := readText_of_fits h
      simp only [readBack, toVal, hread]
  | data d =>
      have hmarked : marked d.length = d.length := Nat.mod_eq_of_lt h
      simp only [readBack, toVal, hmarked, List.take_length]
  | array items =>
      have hitems := readAll_of_short items h
      simp only [readBack, toVal, hitems]
  | dict entries =>
      have hentries := readEntries_of_short entries h
      simp only [readBack, toVal, hentries]

theorem readAll_of_short (items : List Value) (h : ShortAll items) :
    readAll items = toVals items := by
  cases items with
  | nil => rfl
  | cons v items =>
      obtain ⟨hv, hitems⟩ := h
      rw [readAll, toVals, readBack_of_short v hv, readAll_of_short items hitems]

theorem readEntries_of_short (entries : List (Text × Value)) (h : ShortEntries entries) :
    readEntries entries = toEntries entries := by
  cases entries with
  | nil => rfl
  | cons e entries =>
      obtain ⟨k, v⟩ := e
      obtain ⟨hk, hv, hentries⟩ := h
      rw [readEntries, toEntries, readText_of_fits hk, readBack_of_short v hv,
        readEntries_of_short entries hentries]

end

theorem fits_of_shortEntries {entries : List (Text × Value)} (h : ShortEntries entries)
    {e : Text × Value} (he : e ∈ entries) : Fits e.1 := by
  induction entries with
  | nil => cases he
  | cons first entries ih =>
      obtain ⟨k, v⟩ := first
      obtain ⟨hk, -, hentries⟩ := h
      rcases List.mem_cons.mp he with rfl | he
      · exact hk
      · exact ih hentries he

/-! ## How long a document is -/

/-- An object takes no more bytes than this. -/
def maxNode : Nat := 2 ^ 34

theorem writeMarker_length_le (kind len : Nat) : (writeMarker kind len).length ≤ 6 := by
  unfold writeMarker writeIntObject
  split
  · simp
  · split
    · simp [beBytes_length]
    · split <;> simp [beBytes_length]

theorem writeString_length_le {s : Text} (h : Fits s) : (writeString s).length ≤ maxNode := by
  unfold Fits written at h
  unfold writeString maxNode
  by_cases hascii : isAscii s = true
  · rw [if_pos hascii] at h ⊢
    have hmarker := writeMarker_length_le 0x50 (asBytes s).length
    rw [List.length_append]
    omega
  · rw [if_neg hascii] at h ⊢
    have hmarker := writeMarker_length_le 0x60 (encodeUtf16 s).length
    rw [List.length_append, flatMap_beBytes_length]
    omega

/-- A container of no more objects than the reader takes. -/
theorem references_length_le {refSize n : Nat} (hsize : refSize ≤ 8) (hn : n ≤ maxElements) :
    n * refSize ≤ 8 * maxElements := by
  calc n * refSize ≤ maxElements * 8 := Nat.mul_le_mul hn hsize
    _ = 8 * maxElements := Nat.mul_comm _ _

section Nodes

variable {refSize : Nat}

theorem writeNode_array_le (hsize : refSize ≤ 8) {children : List Nat}
    (h : children.length ≤ maxElements) :
    (writeNode refSize (.array children)).length ≤ maxNode := by
  have hmarker := writeMarker_length_le 0xA0 children.length
  have hrefs := references_length_le hsize h
  simp only [writeNode, List.length_append, flatMap_beBytes_length, maxNode, maxElements] at *
  omega

theorem writeNode_dict_le (hsize : refSize ≤ 8) {keys values : List Nat}
    (hk : keys.length ≤ maxElements) (hv : values.length ≤ maxElements) :
    (writeNode refSize (.dict keys values)).length ≤ maxNode := by
  have hmarker := writeMarker_length_le 0xD0 keys.length
  have hkeys := references_length_le hsize hk
  have hvalues := references_length_le hsize hv
  simp only [writeNode, List.length_append, flatMap_beBytes_length, maxNode, maxElements] at *
  omega

mutual

/-- **Every object of a short value is written in few bytes.** -/
theorem writeNode_le (hsize : refSize ≤ 8) (v : Value) (h : Short v)
    (hcount : count v ≤ maxElements) (base : Nat) :
    ∀ node ∈ nodes v base, (writeNode refSize node).length ≤ maxNode := by
  cases v with
  | bool b =>
      intro node hnode
      rw [List.mem_singleton.mp hnode]
      simp [writeNode, maxNode]
  | str s =>
      intro node hnode
      rw [List.mem_singleton.mp hnode]
      exact writeString_length_le h
  | data d =>
      intro node hnode
      rw [List.mem_singleton.mp hnode]
      have hmarker := writeMarker_length_le 0x40 d.length
      have hlen : d.length < 2 ^ 32 := h
      simp only [writeNode, List.length_append, maxNode]
      omega
  | array items =>
      have hlen := length_le_countAll items
      rw [count] at hcount
      intro node hnode
      rcases List.mem_cons.mp hnode with rfl | hnode
      · apply writeNode_array_le hsize
        rw [indices_length]
        omega
      · exact writeNodeAll_le hsize items h (by omega) _ node hnode
  | dict entries =>
      have hlen := countValues_eq entries
      rw [count] at hcount
      intro node hnode
      rcases List.mem_cons.mp hnode with rfl | hnode
      · apply writeNode_dict_le hsize
        · rw [List.length_range']
          omega
        · rw [indices_length, List.length_map]
          omega
      · rcases List.mem_append.mp hnode with hkey | hvalue
        · obtain ⟨e, he, rfl⟩ := List.mem_map.mp hkey
          exact writeString_length_le (fits_of_shortEntries h he)
        · exact writeNodeValues_le hsize entries h (by omega) _ node hvalue

theorem writeNodeAll_le (hsize : refSize ≤ 8) (items : List Value) (h : ShortAll items)
    (hcount : countAll items ≤ maxElements) (base : Nat) :
    ∀ node ∈ nodesAll items base, (writeNode refSize node).length ≤ maxNode := by
  cases items with
  | nil =>
      intro node hnode
      cases hnode
  | cons v items =>
      obtain ⟨hv, hitems⟩ := h
      rw [countAll] at hcount
      intro node hnode
      rcases List.mem_append.mp hnode with hfirst | hrest
      · exact writeNode_le hsize v hv (by omega) _ node hfirst
      · exact writeNodeAll_le hsize items hitems (by omega) _ node hrest

theorem writeNodeValues_le (hsize : refSize ≤ 8) (entries : List (Text × Value))
    (h : ShortEntries entries) (hcount : countValues entries ≤ maxElements) (base : Nat) :
    ∀ node ∈ nodesValues entries base, (writeNode refSize node).length ≤ maxNode := by
  cases entries with
  | nil =>
      intro node hnode
      cases hnode
  | cons e entries =>
      obtain ⟨k, v⟩ := e
      obtain ⟨-, hv, hentries⟩ := h
      rw [countValues] at hcount
      intro node hnode
      rcases List.mem_append.mp hnode with hfirst | hrest
      · exact writeNode_le hsize v hv (by omega) _ node hfirst
      · exact writeNodeValues_le hsize entries hentries (by omega) _ node hrest

end

end Nodes

theorem flatten_length_le {parts : List Bytes} {most : Nat}
    (h : ∀ part ∈ parts, part.length ≤ most) : parts.flatten.length ≤ parts.length * most := by
  induction parts with
  | nil => simp
  | cons part parts ih =>
      have hfirst := h part List.mem_cons_self
      have hrest := ih fun q hq => h q (List.mem_cons_of_mem _ hq)
      rw [List.flatten_cons, List.length_append, List.length_cons, Nat.succ_mul]
      omega

theorem encode_length_lt {v : Value} (h : Short v) (hcount : count v ≤ maxElements) :
    (encode v).length < 2 ^ 63 := by
  have hpieces : (pieces v).flatten.length ≤ count v * maxNode := by
    rw [← pieces_length v]
    apply flatten_length_le
    intro part hpart
    obtain ⟨node, hnode, rfl⟩ := List.mem_map.mp hpart
    exact writeNode_le (byteWidth_bounds _).2 v h hcount 0 node hnode
  have hmany : count v * maxNode ≤ maxElements * maxNode := Nat.mul_le_mul_right _ hcount
  have htable := references_length_le (offsetSize_bounds v).2 hcount
  have htotal := encode_length v
  unfold tableStart at htotal
  simp only [maxElements, maxNode] at *
  omega

/-- **There and back.**  A value of no more objects than the reader takes and no deeper than
it goes (the root is at depth 0), with nothing in it too long for its marker, is read back as
it is. -/
theorem parse_encode_whole (v : Value) (hcount : (flatten v []).2.length ≤ maxElements)
    (hlevels : levels v ≤ maxDepth + 1) (hshort : Short v) :
    parse (encode v) = some (toVal v) := by
  rw [flatten_eq, List.nil_append, nodes_length] at hcount
  rw [parse_encode hcount hlevels (encode_length_lt hshort hcount), readBack_of_short v hshort]

/-- A dictionary with a text that is not ASCII, a blob of sixteen bytes, and an array. -/
def sampleValue : Value :=
  .dict [("Größe".toList, .data (List.replicate 16 7)), ("b".toList, .array [.bool true, .str []])]

theorem parse_encode_sampleValue : parse (encode sampleValue) = some (toVal sampleValue) := by
  apply parse_encode_whole
  · decide +kernel
  · decide
  · have hkeys : Fits "Größe".toList ∧ Fits "b".toList ∧ Fits [] := by decide
    have hblob : (List.replicate 16 (7 : UInt8)).length < 2 ^ 32 := by decide
    exact ⟨hkeys.1, hblob, hkeys.2.1, ⟨trivial, hkeys.2.2, trivial⟩, trivial⟩

end Plist

end Sharingd
