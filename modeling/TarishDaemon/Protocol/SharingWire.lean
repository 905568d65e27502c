import TarishDaemon.Protocol.Sharing
import TarishDaemon.Protocol.Wire

/-!
# Sharing frames there and back

Every frame that the sharing machines send is read back by the peer's parser as
what it was built from.  For an introduction that is every name, size and id of
every attachment, in order, given only that they are values of the source's types
and that the frame fits in memory.
-/

namespace Protocol

open Rust Protobuf

namespace Sharing

/-- A value of the source's `i64`. -/
def IsI64 (x : Int) : Prop :=
  -2 ^ 63 ≤ x ∧ x < 2 ^ 63

instance (x : Int) : Decidable (IsI64 x) :=
  inferInstanceAs (Decidable (_ ∧ _))

theorem IsI64.toI64_toU64 {x : Int} (h : IsI64 x) : toI64 (toU64 x) = x :=
  Rust.toI64_toU64 h.1 h.2

structure FileMetadata.Fits (f : FileMetadata) : Prop where
  payloadId : IsI64 f.payloadId
  size : IsI64 f.size
  id : IsI64 f.id
  attachmentHash : IsI64 f.attachmentHash

structure TextMetadata.Fits (t : TextMetadata) : Prop where
  textType : t.textType < 2 ^ 64
  payloadId : IsI64 t.payloadId
  size : IsI64 t.size
  id : IsI64 t.id

/-- What the source's types promise of an introduction. -/
structure Introduction.Fits (i : Introduction) : Prop where
  files : ∀ f ∈ i.files, f.Fits
  texts : ∀ t ∈ i.texts, t.Fits
  length : (introduction i).length < 2 ^ 64

theorem FileType.ofU64_toU64 (t : FileType) : FileType.ofU64 t.toU64 = t := by
  cases t <;> rfl

theorem FileType.toU64_lt (t : FileType) : t.toU64 < 2 ^ 64 := by
  cases t <;> decide

theorem bytesField_encode (fs : List Field) (hfs : ∀ f ∈ fs, f.Fits) (n : Nat) :
    bytesField (encode fs) n = .ok (lastBytes n fs) := by
  rw [bytesField, firstBytes_encode fs hfs]

theorem varintOr0_encode (fs : List Field) (hfs : ∀ f ∈ fs, f.Fits) (n : Nat) :
    varintOr0 (encode fs) n = .ok ((lastVarint n fs).getD 0) := by
  rw [varintOr0, firstVarint_encode fs hfs]

/-! ## Attachments -/

def fileFields (f : FileMetadata) : List Field :=
  [Field.bytes fmName (asBytes f.name), .varint fmType f.fileType.toU64,
    .varint fmPayloadId (toU64 f.payloadId), .varint fmSize (toU64 f.size),
    .bytes fmMimeType (asBytes f.mimeType), .varint fmId (toU64 f.id)] ++
  (if f.parentFolder ≠ [] then [Field.bytes fmParentFolder (asBytes f.parentFolder)] else []) ++
  (if f.attachmentHash ≠ 0 then [Field.varint fmAttachmentHash (toU64 f.attachmentHash)] else []) ++
  (if f.isSensitive then [Field.varint fmIsSensitive 1] else [])

theorem encodeFile_eq_encode (f : FileMetadata) : encodeFile f = encode (fileFields f) := by
  unfold encodeFile fileFields
  simp only [encode_append, apply_ite encode, encode_nil, encode_cons, List.append_nil,
    Field.encode, List.append_assoc]

theorem fileFields_typed (f : FileMetadata) : ∀ g ∈ fileFields f, g.Typed := by
  have htype := f.fileType.toU64_lt
  have hpayload := toU64_lt f.payloadId
  have hsize := toU64_lt f.size
  have hid := toU64_lt f.id
  have hhash := toU64_lt f.attachmentHash
  intro g hg
  unfold fileFields at hg
  simp only [List.mem_append, List.mem_cons, List.not_mem_nil, or_false] at hg
  rcases hg with ((hg | hg) | hg) | hg
  · rcases hg with rfl | rfl | rfl | rfl | rfl | rfl
    · exact (by decide : fmName < 2 ^ 32)
    · exact ⟨by decide, htype⟩
    · exact ⟨by decide, hpayload⟩
    · exact ⟨by decide, hsize⟩
    · exact (by decide : fmMimeType < 2 ^ 32)
    · exact ⟨by decide, hid⟩
  · split at hg
    · rw [List.mem_singleton.mp hg]
      exact (by decide : fmParentFolder < 2 ^ 32)
    · cases hg
  · split at hg
    · rw [List.mem_singleton.mp hg]
      exact ⟨by decide, hhash⟩
    · cases hg
  · split at hg
    · rw [List.mem_singleton.mp hg]
      exact ⟨by decide, by decide⟩
    · cases hg

/-- What stands under each number in the encoding of a file. -/
theorem fileFields_lookup (f : FileMetadata) :
    lastBytes fmName (fileFields f) = some (asBytes f.name) ∧
    lastVarint fmType (fileFields f) = some f.fileType.toU64 ∧
    lastVarint fmPayloadId (fileFields f) = some (toU64 f.payloadId) ∧
    lastVarint fmSize (fileFields f) = some (toU64 f.size) ∧
    lastBytes fmMimeType (fileFields f) = some (asBytes f.mimeType) ∧
    lastVarint fmId (fileFields f) = some (toU64 f.id) := by
  simp only [fileFields, lastBytes_append, lastVarint_append]
  refine ⟨?_, ?_, ?_, ?_, ?_, ?_⟩ <;> split <;> split <;> split <;>
    simp [fmName, fmType, fmPayloadId, fmSize, fmMimeType, fmId, fmParentFolder,
      fmAttachmentHash, fmIsSensitive]

/-- The fields that are left out at their default. -/
theorem fileFields_optional (f : FileMetadata) :
    lastBytes fmParentFolder (fileFields f) =
        (if f.parentFolder ≠ [] then some (asBytes f.parentFolder) else none) ∧
    lastVarint fmAttachmentHash (fileFields f) =
        (if f.attachmentHash ≠ 0 then some (toU64 f.attachmentHash) else none) ∧
    lastVarint fmIsSensitive (fileFields f) = (if f.isSensitive then some 1 else none) := by
  simp only [fileFields, lastBytes_append, lastVarint_append]
  refine ⟨?_, ?_, ?_⟩ <;> split <;> split <;> split <;>
    simp [fmName, fmType, fmPayloadId, fmSize, fmMimeType, fmId, fmParentFolder,
      fmAttachmentHash, fmIsSensitive]

theorem parseFile_encodeFile (f : FileMetadata) (hf : f.Fits)
    (hlen : (encodeFile f).length < 2 ^ 64) : parseFile (encodeFile f) = .ok f := by
  rw [encodeFile_eq_encode] at hlen ⊢
  have hfs := fits_of_length (fileFields_typed f) hlen
  obtain ⟨hname, htype, hpayload, hsize, hmime, hid⟩ := fileFields_lookup f
  obtain ⟨hfolder, hhash, hsensitive⟩ := fileFields_optional f
  have hfolder' : ((if f.parentFolder ≠ [] then some (asBytes f.parentFolder) else none).map
      fromUtf8Lossy).getD [] = f.parentFolder := by
    split
    · simp [fromUtf8Lossy_asBytes]
    · next h => exact (not_not.mp h).symm
  have hhash' : toI64 ((if f.attachmentHash ≠ 0 then some (toU64 f.attachmentHash)
      else none).getD 0) = f.attachmentHash := by
    split
    · exact hf.attachmentHash.toI64_toU64
    · next h => exact (not_not.mp h).symm
  have hsensitive' : decide ((if f.isSensitive then some 1 else none).getD 0 ≠ 0) =
      f.isSensitive := by
    cases f.isSensitive <;> rfl
  unfold parseFile
  rw [bytesField_encode _ hfs, varintOr0_encode _ hfs, varintOr0_encode _ hfs,
    varintOr0_encode _ hfs, bytesField_encode _ hfs, varintOr0_encode _ hfs,
    bytesField_encode _ hfs, varintOr0_encode _ hfs, varintOr0_encode _ hfs]
  simp only [bind, Except.bind, pure, Except.pure, hname, htype, hpayload, hsize, hmime, hid,
    hfolder, hhash, hsensitive, hfolder', hhash', hsensitive', Option.map_some, Option.getD_some,
    fromUtf8Lossy_asBytes, FileType.ofU64_toU64, hf.payloadId.toI64_toU64, hf.size.toI64_toU64,
    hf.id.toI64_toU64]

theorem encodeText_eq_encode (t : TextMetadata) :
    encodeText t = encode [.bytes tmTitle (asBytes t.title), .varint tmType t.textType,
      .varint tmPayloadId (toU64 t.payloadId), .varint tmSize (toU64 t.size),
      .varint tmId (toU64 t.id)] := by
  simp [encodeText, Field.encode]

theorem parseText_encodeText (t : TextMetadata) (ht : t.Fits)
    (hlen : (encodeText t).length < 2 ^ 64) : parseText (encodeText t) = .ok t := by
  rw [encodeText_eq_encode] at hlen ⊢
  have hpayload := toU64_lt t.payloadId
  have hsize := toU64_lt t.size
  have hid := toU64_lt t.id
  have hfs := fits_of_length (by simpa [Field.Typed, tmTitle, tmType, tmPayloadId, tmSize, tmId]
    using ⟨ht.textType, hpayload, hsize, hid⟩) hlen
  unfold parseText
  rw [bytesField_encode _ hfs, varintOr0_encode _ hfs, varintOr0_encode _ hfs,
    varintOr0_encode _ hfs, varintOr0_encode _ hfs]
  simp [bind, Except.bind, pure, Except.pure, tmTitle, tmType, tmPayloadId, tmSize, tmId,
    fromUtf8Lossy_asBytes, ht.payloadId.toI64_toU64, ht.size.toI64_toU64, ht.id.toI64_toU64]

/-! ## Introductions -/

def introductionFields (i : Introduction) : List Field :=
  i.files.map (fun f => Field.bytes inFileMetadata (encodeFile f)) ++
    i.texts.map (fun t => Field.bytes inTextMetadata (encodeText t)) ++
    (if i.startTransfer then [Field.varint inStartTransfer 1] else []) ++
    [Field.varint inUseCase useCaseNearbyShare]

theorem encode_map {α : Type} (xs : List α) (g : α → Field) :
    encode (xs.map g) = xs.flatMap fun x => (g x).encode := by
  rw [encode, List.flatMap_map]

theorem introductionFields_typed (i : Introduction) : ∀ g ∈ introductionFields i, g.Typed := by
  intro g hg
  unfold introductionFields at hg
  rcases List.mem_append.mp hg with hg | hg
  · rcases List.mem_append.mp hg with hg | hg
    · rcases List.mem_append.mp hg with hg | hg
      · obtain ⟨f, -, rfl⟩ := List.mem_map.mp hg
        exact (by decide : inFileMetadata < 2 ^ 32)
      · obtain ⟨t, -, rfl⟩ := List.mem_map.mp hg
        exact (by decide : inTextMetadata < 2 ^ 32)
    · split at hg
      · rw [List.mem_singleton.mp hg]
        exact ⟨by decide, by decide⟩
      · cases hg
  · rw [List.mem_singleton.mp hg]
    exact ⟨by decide, by decide⟩

/-- Reading the files of an introduction one after the other. -/
theorem foldlM_files (files : List FileMetadata) (hfiles : ∀ f ∈ files, f.Fits)
    (hlen : ∀ f ∈ files, (encodeFile f).length < 2 ^ 64) (out : Introduction) :
    (files.map fun f => Field.bytes inFileMetadata (encodeFile f)).foldlM introductionField out =
      .ok { out with files := out.files ++ files } := by
  induction files generalizing out with
  | nil => simp [pure, Except.pure]
  | cons f files ih =>
      have hfile := parseFile_encodeFile f (hfiles f (by simp)) (hlen f (by simp))
      rw [List.map_cons, List.foldlM_cons]
      simp only [introductionField, if_true, hfile, bind, Except.bind, pure, Except.pure]
      have hrest := ih (fun g hg => hfiles g (by simp [hg])) (fun g hg => hlen g (by simp [hg]))
        { out with files := out.files ++ [f] }
      rw [hrest]
      simp

theorem foldlM_texts (texts : List TextMetadata) (htexts : ∀ t ∈ texts, t.Fits)
    (hlen : ∀ t ∈ texts, (encodeText t).length < 2 ^ 64) (out : Introduction) :
    (texts.map fun t => Field.bytes inTextMetadata (encodeText t)).foldlM introductionField out =
      .ok { out with texts := out.texts ++ texts } := by
  induction texts generalizing out with
  | nil => simp [pure, Except.pure]
  | cons t texts ih =>
      have htext := parseText_encodeText t (htexts t (by simp)) (hlen t (by simp))
      have hne : inTextMetadata ≠ inFileMetadata := by decide
      rw [List.map_cons, List.foldlM_cons]
      simp only [introductionField, hne, if_false, if_true, htext, bind, Except.bind, pure,
        Except.pure]
      have hrest := ih (fun g hg => htexts g (by simp [hg])) (fun g hg => hlen g (by simp [hg]))
        { out with texts := out.texts ++ [t] }
      rw [hrest]
      simp

theorem parseIntroduction_encode (i : Introduction) (hfiles : ∀ f ∈ i.files, f.Fits)
    (htexts : ∀ t ∈ i.texts, t.Fits) (hlen : (encode (introductionFields i)).length < 2 ^ 64) :
    parseIntroduction (encode (introductionFields i)) = .ok i := by
  have hfs := fits_of_length (introductionFields_typed i) hlen
  have hfileLen : ∀ f ∈ i.files, (encodeFile f).length < 2 ^ 64 := by
    intro f hf
    refine lt_of_le_of_lt (length_le_encode (n := inFileMetadata) ?_) hlen
    exact List.mem_append_left _ (List.mem_append_left _ (List.mem_append_left _
      (List.mem_map_of_mem hf)))
  have htextLen : ∀ t ∈ i.texts, (encodeText t).length < 2 ^ 64 := by
    intro t ht
    refine lt_of_le_of_lt (length_le_encode (n := inTextMetadata) ?_) hlen
    exact List.mem_append_left _ (List.mem_append_left _ (List.mem_append_right _
      (List.mem_map_of_mem ht)))
  rw [parseIntroduction, readFields_encode _ _ _ hfs, introductionFields, List.foldlM_append,
    List.foldlM_append, List.foldlM_append, foldlM_files i.files hfiles hfileLen]
  simp only [bind, Except.bind]
  rw [foldlM_texts i.texts htexts htextLen]
  cases hstart : i.startTransfer with
  | false =>
      have hi : i = { files := i.files, texts := i.texts, startTransfer := false } := by
        rw [← hstart]
      rw [hi]
      rfl
  | true =>
      have hi : i = { files := i.files, texts := i.texts, startTransfer := true } := by
        rw [← hstart]
      rw [hi]
      rfl

/-! ## Frames -/

/-- The fields of the V1 frame. -/
def v1Fields (frameType field : Nat) (body : Bytes) : List Field :=
  [.varint v1Type frameType, .bytes field body]

theorem wrap_eq_encode {frameType field : Nat} (body : Bytes) (hfield : field ≠ 0) :
    wrap frameType field body =
      encode [.varint fVersion versionV1, .bytes fV1 (encode (v1Fields frameType field body))] := by
  simp [wrap, v1Fields, Field.encode, hfield]

/-- What the parser finds in a wrapped frame: the type and the body. -/
theorem v1_of_wrap {frameType field : Nat} {body : Bytes} (ht : frameType < 2 ^ 64)
    (hfield : field < 2 ^ 32) (hzero : field ≠ 0)
    (hlen : (wrap frameType field body).length < 2 ^ 64) :
    bytesField (wrap frameType field body) fV1 =
        .ok (some (encode (v1Fields frameType field body))) ∧
      readFields .protobuf v1Field (encode (v1Fields frameType field body)) (none, none) =
        .ok (some frameType, some body) ∧
      body.length < 2 ^ 64 := by
  rw [wrap_eq_encode body hzero] at hlen ⊢
  have houter := fits_of_length (by simp [Field.Typed, fVersion, versionV1, fV1]) hlen
  have hmem : Field.bytes fV1 (encode (v1Fields frameType field body)) ∈
      [.varint fVersion versionV1, .bytes fV1 (encode (v1Fields frameType field body))] := by
    simp
  have hinnerLen : (encode (v1Fields frameType field body)).length < 2 ^ 64 :=
    lt_of_le_of_lt (length_le_encode hmem) hlen
  have hinner := fits_of_length
    (by simpa [v1Fields, Field.Typed, v1Type] using ⟨ht, hfield⟩) hinnerLen
  refine ⟨?_, ?_, ?_⟩
  · rw [bytesField_encode _ houter]
    rfl
  · rw [readFields_encode _ _ _ hinner]
    rfl
  · exact lt_of_le_of_lt (length_le_encode (n := field) (by simp [v1Fields])) hinnerLen

/-- **An introduction survives the wire.** -/
theorem parse_introduction {i : Introduction} (h : i.Fits) :
    parse (introduction i) = .ok (.introduction i) := by
  have hbody : introduction i =
      wrap tIntroduction v1Introduction (encode (introductionFields i)) := by
    unfold introduction introductionFields
    simp only [encode_append, apply_ite encode, encode_map, encode_cons, encode_nil,
      List.append_nil, Field.encode]
  have hlen := h.length
  rw [hbody] at hlen ⊢
  obtain ⟨hbytes, hv1, hbodyLen⟩ := v1_of_wrap (by decide) (by decide) (by decide) hlen
  have hi := parseIntroduction_encode i h.files h.texts hbodyLen
  unfold parse
  rw [hbytes]
  simp only [bind, Except.bind]
  rw [hv1]
  simp only [Option.getD_some, if_true, hi, pure, Except.pure]

theorem parse_pairedKeyEncryption {fill : RandomFill} {b : Bytes}
    (h : pairedKeyEncryption (some fill) = .ok b) :
    parse b = .ok (.pairedKeyEncryption fill.signed fill.hash) := by
  have hfs : Protobuf.bytes pkeSignedData fill.signed ++ Protobuf.bytes pkeSecretIdHash fill.hash =
      encode [.bytes pkeSignedData fill.signed, .bytes pkeSecretIdHash fill.hash] := by
    simp [Field.encode]
  have hb : b = wrap tPairedKeyEncryption v1PairedKeyEncryption
      (encode [.bytes pkeSignedData fill.signed, .bytes pkeSecretIdHash fill.hash]) := by
    rw [← hfs]
    exact (Except.ok.inj h).symm
  have hlen : b.length < 2 ^ 64 := by
    have hsigned := bytes_length_le pkeSignedData fill.signed
    have hhash := bytes_length_le pkeSecretIdHash fill.hash
    have htype := varint_length_le v1Type tPairedKeyEncryption
    have hversion := varint_length_le fVersion versionV1
    rw [fill.signed_length] at hsigned
    rw [fill.hash_length] at hhash
    simp only [signedDataLen, secretIdHashLen] at hsigned hhash
    rw [hb, ← hfs, wrap, if_pos (Or.inr (by decide))]
    have hinner := bytes_length_le v1PairedKeyEncryption
      (Protobuf.bytes pkeSignedData fill.signed ++ Protobuf.bytes pkeSecretIdHash fill.hash)
    have houter := bytes_length_le fV1 (Protobuf.varint v1Type tPairedKeyEncryption ++
      Protobuf.bytes v1PairedKeyEncryption
        (Protobuf.bytes pkeSignedData fill.signed ++ Protobuf.bytes pkeSecretIdHash fill.hash))
    simp only [List.length_append] at hinner houter ⊢
    omega
  rw [hb] at hlen ⊢
  obtain ⟨hbytes, hv1, hbodyLen⟩ := v1_of_wrap (by decide) (by decide) (by decide) hlen
  have hfields := fits_of_length
    (by simp [Field.Typed, pkeSignedData, pkeSecretIdHash]) hbodyLen
  have hsigned := (bytesField_encode _ hfields pkeSignedData).trans
    (show _ = .ok (some fill.signed) from rfl)
  have hhash := (bytesField_encode _ hfields pkeSecretIdHash).trans
    (show _ = .ok (some fill.hash) from rfl)
  generalize encode [.bytes pkeSignedData fill.signed, .bytes pkeSecretIdHash fill.hash] = body
    at hbytes hv1 hsigned hhash
  unfold parse
  rw [hbytes]
  simp only [bind, Except.bind]
  rw [hv1]
  simp [tIntroduction, tResponse, tPairedKeyEncryption, hsigned, hhash, pure, Except.pure]

theorem parse_pairedKeyResult (r : PairedKeyResult) :
    parse (pairedKeyResult r) = .ok (.pairedKeyResult r) := by
  cases r <;> decide +kernel

theorem parse_response (status : Status) : parse (response status) = .ok (.response status) := by
  cases status <;> decide +kernel

end Sharing

end Protocol
