import TarishDaemon.Protocol.Wire

/-!
# A message field by field

What `next_field` gives on a message that the writer wrote: its fields, one after the other,
and then the end.  `first_bytes` and `first_varint` go through all of them, so that the last
field of a number is the one that counts (`yields_encode`).
-/

namespace Protocol

open Rust

namespace Protobuf

/-- `next_field`, called until the end, gives these fields. -/
inductive Yields : Bytes → List Field → Prop
  | finish {buf : Bytes} (done : nextField buf = none) : Yields buf []
  | field {buf rest : Bytes} {f : Field} {fs : List Field}
      (next : nextField buf = some (.ok (f, rest))) (more : Yields rest fs) : Yields buf (f :: fs)

/-- There is one such list. -/
theorem Yields.unique {buf : Bytes} {fs fs' : List Field} (h : Yields buf fs)
    (h' : Yields buf fs') : fs = fs' := by
  induction h generalizing fs' with
  | finish done =>
      cases h' with
      | finish _ => rfl
      | field next _ =>
          rw [done] at next
          cases next
  | field next _ ih =>
      cases h' with
      | finish done =>
          rw [next] at done
          cases done
      | field next' more' =>
          rw [next] at next'
          cases next'
          rw [ih more']

theorem yields_encode_of_fits {fs : List Field} (fits : ∀ f ∈ fs, f.Fits) :
    Yields (encode fs) fs := by
  induction fs with
  | nil => exact .finish rfl
  | cons f fs ih =>
      have hnext := nextField_encode f (encode fs) (fits f List.mem_cons_self)
      rw [encode_cons]
      exact .field hnext (ih fun g hg => fits g (List.mem_cons_of_mem f hg))

/-- **What was written is read, field by field and then no more**, and of each number the last
value of its kind is found.  `memory` is what a `Vec` of the source can hold. -/
theorem yields_encode (fs : List Field) (typed : ∀ f ∈ fs, f.Typed)
    (memory : (encode fs).length < 2 ^ 64) :
    Yields (encode fs) fs ∧ ∀ n, firstBytes (encode fs) n = .ok (lastBytes n fs) ∧
      firstVarint (encode fs) n = .ok (lastVarint n fs) := by
  have fits := fits_of_length typed memory
  exact ⟨yields_encode_of_fits fits, fun n =>
    ⟨firstBytes_encode fs fits n, firstVarint_encode fs fits n⟩⟩

/-- The largest number and value, and one number twice. -/
def sampleFields : List Field :=
  [.varint 536870911 (2 ^ 64 - 1), .bytes 2 [1, 2], .varint 0 0, .bytes 2 []]

theorem yields_encode_sampleFields :
    Yields (encode sampleFields) sampleFields ∧
      ∀ n, firstBytes (encode sampleFields) n = .ok (lastBytes n sampleFields) ∧
        firstVarint (encode sampleFields) n = .ok (lastVarint n sampleFields) := by
  refine yields_encode sampleFields ?_ (by decide +kernel)
  simp [sampleFields, Field.Typed]

end Protobuf

end Protocol
