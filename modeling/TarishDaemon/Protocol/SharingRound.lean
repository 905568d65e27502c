import TarishDaemon.Protocol.SharingWire

/-!
# Every sharing frame there and back

The builders of the sharing layer, each as one case of `Built` with what it is given, and
the frame that the parser is to make of it.

**The parser gives every built frame back** (`parse_of_build`): of an introduction every
file and every text, in the order in which they were listed.
-/

namespace Protocol

open Rust

namespace Sharing

/-- A frame to build, with what its builder is given.  For `paired_key_encryption` that is
what the random source returned. -/
inductive Built
  | introduction (i : Introduction)
  | response (status : Status)
  | pairedKeyEncryption (fill : RandomFill)
  | pairedKeyResult (result : PairedKeyResult)
  | cancel

namespace Built

def build : Built → Except Error Bytes
  | introduction i => .ok (Sharing.introduction i)
  | response status => .ok (Sharing.response status)
  | pairedKeyEncryption fill => Sharing.pairedKeyEncryption (some fill)
  | pairedKeyResult result => .ok (Sharing.pairedKeyResult result)
  | cancel => .ok Sharing.cancel

/-- The frame that arrives. -/
def frame : Built → Frame
  | introduction i => .introduction i
  | response status => .response status
  | pairedKeyEncryption fill => .pairedKeyEncryption fill.signed fill.hash
  | pairedKeyResult result => .pairedKeyResult result
  | cancel => .cancel

/-- What the source's types promise of the values: ids, sizes and hashes are `i64`s, the
kind of a text a `u64`. -/
def Typed : Built → Prop
  | introduction i => (∀ f ∈ i.files, f.Fits) ∧ ∀ t ∈ i.texts, t.Fits
  | response _ | pairedKeyEncryption _ | pairedKeyResult _ | cancel => True

end Built

theorem parse_cancel : parse cancel = .ok .cancel := by
  decide +kernel

theorem Introduction.Fits.of_typed {i : Introduction} (typed : (Built.introduction i).Typed)
    (memory : (introduction i).length < 2 ^ 64) : i.Fits where
  files := typed.1
  texts := typed.2
  length := memory

/-- **Every sharing frame that is built is read back.**  The length is what a `Vec` of the
source can hold. -/
theorem parse_of_build (m : Built) (typed : m.Typed) :
    ∃ b, m.build = .ok b ∧ (b.length < 2 ^ 64 → parse b = .ok m.frame) := by
  cases m with
  | introduction i =>
      exact ⟨_, rfl, fun memory => parse_introduction (.of_typed typed memory)⟩
  | response status => exact ⟨_, rfl, fun _ => parse_response status⟩
  | pairedKeyEncryption fill => exact ⟨_, rfl, fun _ => parse_pairedKeyEncryption rfl⟩
  | pairedKeyResult result => exact ⟨_, rfl, fun _ => parse_pairedKeyResult result⟩
  | cancel => exact ⟨_, rfl, fun _ => parse_cancel⟩

/-- Two files and a text, some ids of them negative, one file in a folder and one
sensitive. -/
def sampleIntroduction : Introduction where
  files :=
    [{ name := "Grüße.txt".toList, payloadId := -1, size := 3, id := 7 },
      { name := "b".toList
        payloadId := 2
        parentFolder := "docs".toList
        attachmentHash := -9
        isSensitive := true }]
  texts := [{ title := "t".toList, textType := 1, payloadId := -3, size := 4, id := 5 }]
  startTransfer := true

theorem sampleIntroduction_typed : (Built.introduction sampleIntroduction).Typed := by
  constructor
  · intro f hf
    simp only [sampleIntroduction, List.mem_cons, List.not_mem_nil, or_false] at hf
    rcases hf with rfl | rfl
    · exact ⟨by decide, by decide, by decide, by decide⟩
    · exact ⟨by decide, by decide, by decide, by decide⟩
  · intro t ht
    rw [List.mem_singleton.mp ht]
    exact ⟨by decide, by decide, by decide, by decide⟩

theorem parse_of_build_sampleIntroduction :
    ∃ b, (Built.introduction sampleIntroduction).build = .ok b ∧
      (b.length < 2 ^ 64 → parse b = .ok (.introduction sampleIntroduction)) :=
  parse_of_build (.introduction sampleIntroduction) sampleIntroduction_typed

end Sharing

end Protocol
