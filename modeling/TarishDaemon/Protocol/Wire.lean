import TarishDaemon.Protocol.Varint

/-!
# What was written is what is read

A message is a list of fields.  Its encoding is the fields' encodings one after
the other, and a loop over `next_field` on that encoding is a fold over the list
(`readFields_encode`).  Everything the parsers do with an encoded message is
thereby a question about a list of fields, and no longer one about bytes.
-/

namespace Protocol

open Rust

namespace Protobuf

/-- A field as the writer puts it. -/
def Field.encode : Field → Bytes
  | .varint field v => Protobuf.varint field v
  | .bytes field v => Protobuf.bytes field v

/-- A message: its fields in order. -/
def encode (fs : List Field) : Bytes :=
  fs.flatMap Field.encode

/-- What the source's types promise of a field: the number is a `u32`, the value a
`u64`, and no slice is longer than a `u64` can say. -/
def Field.Fits : Field → Prop
  | .varint field v => field < 2 ^ 32 ∧ v < 2 ^ 64
  | .bytes field v => field < 2 ^ 32 ∧ v.length < 2 ^ 64

@[simp] theorem encode_nil : encode [] = [] := rfl

@[simp] theorem encode_cons (f : Field) (fs : List Field) :
    encode (f :: fs) = f.encode ++ encode fs := rfl

@[simp] theorem encode_append (fs gs : List Field) :
    encode (fs ++ gs) = encode fs ++ encode gs :=
  List.flatMap_append

/-- A field of the source's types, apart from the length of what it carries. -/
def Field.Typed : Field → Prop
  | .varint field v => field < 2 ^ 32 ∧ v < 2 ^ 64
  | .bytes field _ => field < 2 ^ 32

theorem length_le_encode {n : Nat} {v : Bytes} {fs : List Field}
    (h : .bytes n v ∈ fs) : v.length ≤ (encode fs).length := by
  induction fs with
  | nil => cases h
  | cons f fs ih =>
      rw [encode_cons, List.length_append]
      rcases List.mem_cons.mp h with rfl | h
      · simp only [Field.encode, Protobuf.bytes, List.length_append]
        omega
      · have hle := ih h
        omega

/-- In a message that fits in memory every field does. -/
theorem fits_of_length {fs : List Field} (typed : ∀ f ∈ fs, f.Typed)
    (hlen : (encode fs).length < 2 ^ 64) : ∀ f ∈ fs, f.Fits := by
  intro f hf
  have htyped := typed f hf
  cases f with
  | varint field v => exact htyped
  | bytes field v => exact ⟨htyped, lt_of_le_of_lt (length_le_encode hf) hlen⟩

/-! ## Lengths -/

theorem varint_length_le (field v : Nat) : (Protobuf.varint field v).length ≤ 20 := by
  have htag := putVarint_length_le (field * 8 + wireVarint)
  have hvalue := putVarint_length_le v
  simp only [Protobuf.varint, putTag, List.length_append]
  omega

theorem bytes_length_le (field : Nat) (v : Bytes) :
    (Protobuf.bytes field v).length ≤ v.length + 20 := by
  have htag := putVarint_length_le (field * 8 + wireBytes)
  have hlen := putVarint_length_le v.length
  simp only [Protobuf.bytes, putTag, List.length_append]
  omega

/-- The bytes a field takes at most. -/
def Field.size : Field → Nat
  | .varint _ _ => 20
  | .bytes _ v => v.length + 20

theorem encode_length_le (fs : List Field) :
    (encode fs).length ≤ fs.foldr (fun f n => f.size + n) 0 := by
  induction fs with
  | nil => exact Nat.le_refl _
  | cons f fs ih =>
      have hfirst : f.encode.length ≤ f.size := by
        cases f with
        | varint n v => exact varint_length_le n v
        | bytes n v => exact bytes_length_le n v
      rw [encode_cons, List.length_append, List.foldr_cons]
      omega

/-! ## Fields -/

theorem take_append (v rest : Bytes) : take v.length (v ++ rest) = .ok (v, rest) := by
  simp [take]

theorem readVarint_putTag {field wire : Nat} (rest : Bytes) (hfield : field < 2 ^ 32)
    (hwire : wire < 8) :
    readVarint (putTag field wire ++ rest) 0 0 = .ok (field * 8 + wire, rest) :=
  readVarint_putVarint rest (by omega)

theorem Field.encode_ne_nil (f : Field) : f.encode ≠ [] := by
  cases f with
  | varint field v => simp [Field.encode, Protobuf.varint, putTag, putVarint_ne_nil]
  | bytes field v => simp [Field.encode, Protobuf.bytes, putTag, putVarint_ne_nil]

/-- The reader takes off the field that the writer put in front. -/
theorem nextField_encode (f : Field) (rest : Bytes) (hf : f.Fits) :
    nextField (f.encode ++ rest) = some (.ok (f, rest)) := by
  have hne : f.encode ++ rest ≠ [] := by
    intro h
    exact f.encode_ne_nil (List.append_eq_nil_iff.mp h).1
  obtain ⟨b, tail, hcons⟩ := List.exists_cons_of_ne_nil hne
  have hlen : (f.encode ++ rest).length = tail.length + 1 := by rw [hcons]; rfl
  rw [nextField, hlen, hcons, nextFieldLoop, ← hcons]
  cases f with
  | varint field v =>
      have htag : field < 2 ^ 32 := hf.1
      have hdiv : (field * 8 + wireVarint) / 8 % 2 ^ 32 = field := by
        simp only [wireVarint]
        omega
      have hmod : (field * 8 + wireVarint) % 8 = wireVarint := by
        simp only [wireVarint]
        omega
      rw [Field.encode, Protobuf.varint, List.append_assoc, readVarint_putTag _ htag (by decide)]
      simp only [hdiv, hmod, if_true, readVarint_putVarint rest hf.2]
  | bytes field v =>
      have htag : field < 2 ^ 32 := hf.1
      have hdiv : (field * 8 + wireBytes) / 8 % 2 ^ 32 = field := by
        simp only [wireBytes]
        omega
      have hmod : (field * 8 + wireBytes) % 8 = wireBytes := by
        simp only [wireBytes]
        omega
      have hkind : wireBytes ≠ wireVarint := by decide
      rw [Field.encode, Protobuf.bytes, List.append_assoc, List.append_assoc,
        readVarint_putTag _ htag (by decide)]
      simp only [hdiv, hmod, hkind, if_false, if_true, readVarint_putVarint _ hf.2, take_append]

variable {σ ε : Type}

/-- **A loop over the fields of an encoded message is a fold over its fields.** -/
theorem readFields_encode (lift : Error → ε) (step : σ → Field → Except ε σ)
    (fs : List Field) (hfs : ∀ f ∈ fs, f.Fits) (s : σ) :
    readFields lift step (encode fs) s = fs.foldlM step s := by
  have hloop : ∀ (fuel : Nat), (encode fs).length < fuel →
      readFieldsLoop lift step fuel (encode fs) s = fs.foldlM step s := by
    induction fs generalizing s with
    | nil =>
        intro fuel hfuel
        cases fuel with
        | zero => omega
        | succ fuel => rfl
    | cons f fs ih =>
        intro fuel hfuel
        have hpos : 0 < f.encode.length := List.length_pos_of_ne_nil f.encode_ne_nil
        rw [encode_cons, List.length_append] at hfuel
        cases fuel with
        | zero => omega
        | succ fuel =>
            rw [encode_cons, readFieldsLoop, nextField_encode f _ (hfs f (by simp)),
              List.foldlM_cons]
            simp only
            cases step s f with
            | error e => rfl
            | ok s' =>
                exact ih (fun g hg => hfs g (by simp [hg])) s' fuel (by omega)
  exact hloop _ (Nat.lt_succ_self _)

/-- The value of a varint field under a number. -/
def Field.varint? (n : Nat) : Field → Option Nat
  | .varint m v => if m = n then some v else none
  | .bytes _ _ => none

/-- The value of a bytes field under a number. -/
def Field.bytes? (n : Nat) : Field → Option Bytes
  | .bytes m v => if m = n then some v else none
  | .varint _ _ => none

@[simp] theorem Field.varint?_varint (n m v : Nat) :
    (Field.varint m v).varint? n = if m = n then some v else none := rfl

@[simp] theorem Field.varint?_bytes (n m : Nat) (v : Bytes) :
    (Field.bytes m v).varint? n = none := rfl

@[simp] theorem Field.bytes?_bytes (n m : Nat) (v : Bytes) :
    (Field.bytes m v).bytes? n = if m = n then some v else none := rfl

@[simp] theorem Field.bytes?_varint (n m v : Nat) :
    (Field.varint m v).bytes? n = none := rfl

def lastVarint (n : Nat) (fs : List Field) : Option Nat :=
  (fs.filterMap (Field.varint? n)).getLast?

def lastBytes (n : Nat) (fs : List Field) : Option Bytes :=
  (fs.filterMap (Field.bytes? n)).getLast?

@[simp] theorem lastVarint_nil (n : Nat) : lastVarint n [] = none := rfl

@[simp] theorem lastBytes_nil (n : Nat) : lastBytes n [] = none := rfl

@[simp] theorem lastVarint_append (n : Nat) (fs gs : List Field) :
    lastVarint n (fs ++ gs) = (lastVarint n gs).or (lastVarint n fs) := by
  rw [lastVarint, List.filterMap_append, List.getLast?_append, lastVarint, lastVarint]

@[simp] theorem lastBytes_append (n : Nat) (fs gs : List Field) :
    lastBytes n (fs ++ gs) = (lastBytes n gs).or (lastBytes n fs) := by
  rw [lastBytes, List.filterMap_append, List.getLast?_append, lastBytes, lastBytes]

@[simp] theorem lastVarint_cons (n : Nat) (f : Field) (fs : List Field) :
    lastVarint n (f :: fs) = (lastVarint n fs).or (f.varint? n) := by
  rw [← List.singleton_append, lastVarint_append]
  congr 1
  cases h : f.varint? n <;> simp [lastVarint, h]

@[simp] theorem lastBytes_cons (n : Nat) (f : Field) (fs : List Field) :
    lastBytes n (f :: fs) = (lastBytes n fs).or (f.bytes? n) := by
  rw [← List.singleton_append, lastBytes_append]
  congr 1
  cases h : f.bytes? n <;> simp [lastBytes, h]

/-- A fold that keeps the last value it finds. -/
theorem foldlM_last {β : Type} (value : Field → Option β) (fs : List Field) :
    fs.foldlM (fun found f => (.ok ((value f).or found) : Except Error (Option β))) none =
      .ok (fs.filterMap value).getLast? := by
  induction fs using List.reverseRecOn with
  | nil => rfl
  | append_singleton fs f ih =>
      rw [List.foldlM_append, ih, List.filterMap_append, List.getLast?_append]
      cases hf : value f with
      | none => simp [bind, Except.bind, pure, Except.pure, hf]
      | some v => simp [bind, Except.bind, pure, Except.pure, hf]

theorem foldlM_varint (n : Nat) (fs : List Field) :
    fs.foldlM (fun found f =>
      match f with
      | .varint m v => (.ok (if m = n then some v else found) : Except Error (Option Nat))
      | .bytes _ _ => .ok found) none = .ok (lastVarint n fs) := by
  rw [lastVarint, ← foldlM_last (Field.varint? n)]
  congr 1
  funext found f
  cases f with
  | bytes m v => rfl
  | varint m v =>
      by_cases hm : m = n
      · simp [Field.varint?, hm]
      · simp [Field.varint?, hm]

theorem foldlM_bytes (n : Nat) (fs : List Field) :
    fs.foldlM (fun found f =>
      match f with
      | .bytes m v => (.ok (if m = n then some v else found) : Except Error (Option Bytes))
      | .varint _ _ => .ok found) none = .ok (lastBytes n fs) := by
  rw [lastBytes, ← foldlM_last (Field.bytes? n)]
  congr 1
  funext found f
  cases f with
  | varint m v => rfl
  | bytes m v =>
      by_cases hm : m = n
      · simp [Field.bytes?, hm]
      · simp [Field.bytes?, hm]

theorem firstVarint_encode (fs : List Field) (hfs : ∀ f ∈ fs, f.Fits) (n : Nat) :
    firstVarint (encode fs) n = .ok (lastVarint n fs) := by
  rw [firstVarint, readFields_encode id _ fs hfs]
  exact foldlM_varint n fs

theorem firstBytes_encode (fs : List Field) (hfs : ∀ f ∈ fs, f.Fits) (n : Nat) :
    firstBytes (encode fs) n = .ok (lastBytes n fs) := by
  rw [firstBytes, readFields_encode id _ fs hfs]
  exact foldlM_bytes n fs

end Protobuf

end Protocol
