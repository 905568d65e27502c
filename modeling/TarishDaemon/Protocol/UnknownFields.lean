import TarishDaemon.Protocol.Frames
import TarishDaemon.Protocol.Sharing
import TarishDaemon.Protocol.Tokens

/-!
# A field the schema does not have

A newer peer may put a field into the V1 frame that this build knows nothing of.
Both parsers take the type from under its number, and the body from the last field
that carries bytes, under whatever number that is.  A field without bytes is
therefore never noticed, and neither is one in front of the body; one behind it
takes its place.

`Inserted` says what it is to put a field into a message: the frame gets one field
more between two of its fields, and a head that says its new length.
-/

namespace Protocol

open Rust Protobuf

/-- What a field carries, if it carries bytes. -/
def Protobuf.Field.anyBytes? : Field → Option Bytes
  | .bytes _ v => some v
  | .varint _ _ => none

/-- The last field with bytes, under whatever number. -/
def Protobuf.lastBody (fs : List Field) : Option Bytes :=
  (fs.filterMap Field.anyBytes?).getLast?

@[simp] theorem Protobuf.lastBody_nil : lastBody [] = none := rfl

theorem Protobuf.lastBody_append (fs gs : List Field) :
    lastBody (fs ++ gs) = (lastBody gs).or (lastBody fs) := by
  rw [lastBody, List.filterMap_append, List.getLast?_append, lastBody, lastBody]

/-- A message, and the same with the field `t` put into its frame: between the
fields `left` and the fields `right`. -/
inductive Inserted (field : Nat) (modelled : List Nat) :
    Bytes → List Token → Token → List Token → Bytes → Prop
  | mk {front head head' a new b behind : Bytes} {before left right later : List Token} {t : Token}
      (hfront : Reads front before)
      (whole : Reads (head ++ (a ++ b)) [.field (.bytes field (a ++ b))])
      (whole' : Reads (head' ++ (a ++ (new ++ b))) [.field (.bytes field (a ++ (new ++ b)))])
      (hbehind : Reads behind later) (last : lastBytes field (fields later) = none)
      (ha : Reads a left) (one : Reads new [t]) (hb : Reads b right)
      (unmodelled : t.number ∉ modelled) :
      Inserted field modelled (front ++ ((head ++ (a ++ b)) ++ behind)) left t right
        (front ++ ((head' ++ (a ++ (new ++ b))) ++ behind))

/-- The last field under a number is found wherever it stands. -/
theorem firstBytes_last {front frame behind v : Bytes} {before later : List Token} {field : Nat}
    (hfront : Reads front before) (h : Reads frame [.field (.bytes field v)])
    (hbehind : Reads behind later) (last : lastBytes field (fields later) = none) :
    firstBytes (front ++ (frame ++ behind)) field = .ok (some v) := by
  rw [firstBytes_of_reads (hfront.append (h.append hbehind))]
  simp [last]

/-- The frames of the two messages. -/
theorem Inserted.frames {field : Nat} {modelled : List Nat} {m m' : Bytes}
    {left right : List Token} {t : Token} (h : Inserted field modelled m left t right m') :
    t.number ∉ modelled ∧ ∃ v1 v1', firstBytes m field = .ok (some v1) ∧
      firstBytes m' field = .ok (some v1') ∧ Reads v1 (left ++ right) ∧
      Reads v1' (left ++ ([t] ++ right)) := by
  obtain ⟨hfront, whole, whole', hbehind, last, ha, one, hb, unmodelled⟩ := h
  exact ⟨unmodelled, _, _, firstBytes_last hfront whole hbehind last,
    firstBytes_last hfront whole' hbehind last, ha.append hb, ha.append (one.append hb)⟩

/-- **A field can be put into every message that has a frame**, at every boundary of
its fields. -/
theorem exists_inserted {field : Nat} {modelled : List Nat} {m a new b : Bytes}
    {left right : List Token} {t : Token} (hfield : field < 2 ^ 32)
    (hframe : firstBytes m field = .ok (some (a ++ b))) (ha : Reads a left) (hb : Reads b right)
    (one : Reads new [t]) (unmodelled : t.number ∉ modelled)
    (hlen : (a ++ (new ++ b)).length < 2 ^ 64) :
    ∃ m', Inserted field modelled m left t right m' := by
  obtain ⟨ts, hts⟩ := reads_of_readFields id _ hframe
  rw [firstBytes_of_reads hts] at hframe
  obtain ⟨front, head, behind, before, later, rfl, hfront, whole, hbehind, last⟩ :=
    hts.split_last (Except.ok.inj hframe)
  have hnew : Field.Fits (.bytes field (a ++ (new ++ b))) := ⟨hfield, hlen⟩
  have hfits : ∀ f ∈ [Field.bytes field (a ++ (new ++ b))], f.Fits := by simpa using hnew
  have whole' := reads_encode hfits
  rw [encode_cons, encode_nil, List.append_nil, Field.encode, Protobuf.bytes] at whole'
  exact ⟨_, .mk hfront whole whole' hbehind last ha one hb unmodelled⟩

/-! ## The type and the body -/

section Dispatch

variable {ε F : Type} (kind : Nat) (read : Nat → Bytes → Except ε F)

/-- A loop that keeps the number under `kind` and the last bytes. -/
theorem foldlM_kind_body
    {step : Option Nat × Option Bytes → Field → Except ε (Option Nat × Option Bytes)}
    (hvarint : ∀ seen n v, step seen (.varint n v) =
      .ok (if n = kind then (some v, seen.2) else seen))
    (hbytes : ∀ seen n v, step seen (.bytes n v) = .ok (seen.1, some v)) (fs : List Field) :
    fs.foldlM step (none, none) = .ok (lastVarint kind fs, lastBody fs) := by
  induction fs using List.reverseRecOn with
  | nil => rfl
  | append_singleton fs f ih =>
      rw [List.foldlM_append, ih, lastVarint_append, lastBody_append]
      cases f with
      | varint n v =>
          by_cases hn : n = kind
          · simp [bind, Except.bind, pure, Except.pure, hvarint, hn, lastBody, Field.anyBytes?]
          · simp [bind, Except.bind, pure, Except.pure, hvarint, hn, lastBody, Field.anyBytes?]
      | bytes n v =>
          simp [bind, Except.bind, pure, Except.pure, hbytes, lastBody, Field.anyBytes?]

/-- What a parser makes of the fields of the frame. -/
def dispatch (missing : ε) (ts : List Token) : Except ε F :=
  match lastVarint kind (fields ts) with
  | none => .error missing
  | some ty => read ty ((lastBody (fields ts)).getD [])

/-- The field takes no body's place, or the type reads it as it reads that body. -/
def KeepsBody (left : List Token) (t : Token) (right : List Token) : Prop :=
  ∀ n v, t = .field (.bytes n v) → lastBody (fields right) = none →
    ∀ ty, lastVarint kind (fields (left ++ right)) = some ty →
      read ty v = read ty ((lastBody (fields left)).getD [])

/-- What a field of another number changes: nothing under these numbers, and the
last field with bytes only if it has some and stands behind the others. -/
theorem fields_inserted {left right : List Token} {t : Token} {n : Nat} (hn : t.number ≠ n) :
    lastVarint n (fields (left ++ ([t] ++ right))) = lastVarint n (fields (left ++ right)) ∧
      lastBytes n (fields (left ++ ([t] ++ right))) = lastBytes n (fields (left ++ right)) := by
  have hvarint : lastVarint n (fields [t]) = none := by
    cases t with
    | fixed m => rfl
    | field f =>
        cases f with
        | varint m v => simp [show m ≠ n from hn]
        | bytes m v => simp
  have hbytes : lastBytes n (fields [t]) = none := by
    cases t with
    | fixed m => rfl
    | field f =>
        cases f with
        | varint m v => simp
        | bytes m v => simp [show m ≠ n from hn]
  simp only [fields_append, lastVarint_append, lastBytes_append, hvarint, hbytes, Option.or_none,
    and_self]

/-- The last field with bytes, after the insertion. -/
theorem lastBody_inserted (left right : List Token) (t : Token) :
    (∃ n v, t = .field (.bytes n v) ∧ lastBody (fields right) = none ∧
        lastBody (fields (left ++ ([t] ++ right))) = some v ∧
        lastBody (fields (left ++ right)) = lastBody (fields left)) ∨
      ((∀ n v, t = .field (.bytes n v) → lastBody (fields right) ≠ none) ∧
        lastBody (fields (left ++ ([t] ++ right))) = lastBody (fields (left ++ right))) := by
  simp only [fields_append, lastBody_append]
  cases hright : lastBody (fields right) with
  | some later => exact .inr ⟨fun _ _ _ => Option.some_ne_none later, by simp⟩
  | none =>
      cases t with
      | fixed m =>
          refine .inr ⟨?_, by simp⟩
          intro n v h
          cases h
      | field f =>
          cases f with
          | varint m x =>
              refine .inr ⟨?_, by simp [lastBody, Field.anyBytes?]⟩
              intro n v h
              cases h
          | bytes m x =>
              exact .inl ⟨m, x, rfl, rfl,
                by simp [lastBody, Field.anyBytes?], by simp⟩

theorem dispatch_inserted_iff {missing : ε} {left right : List Token} {t : Token}
    (hkind : t.number ≠ kind) {f : F}
    (accepted : dispatch kind read missing (left ++ right) = .ok f) :
    dispatch kind read missing (left ++ ([t] ++ right)) = .ok f ↔
      KeepsBody kind read left t right := by
  unfold dispatch at accepted ⊢
  unfold KeepsBody
  rw [(fields_inserted hkind).1]
  cases hty : lastVarint kind (fields (left ++ right)) with
  | none =>
      rw [hty] at accepted
      cases accepted
  | some ty =>
      rw [hty] at accepted
      dsimp only at accepted ⊢
      rcases lastBody_inserted left right t with ⟨n, v, rfl, hnone, hnew, hold⟩ | ⟨hother, hsame⟩
      · rw [hold] at accepted
        rw [hnew, ← accepted]
        constructor
        · intro heq n' v' hfield _ ty' hty'
          cases hfield
          cases hty'
          exact heq
        · intro hkeeps
          exact hkeeps n v rfl hnone ty rfl
      · rw [hsame]
        exact iff_of_true accepted fun n v hfield hnone => absurd hnone (hother n v hfield)

end Dispatch

namespace Frames

/-- The numbers the schema code has in the V1 frame. -/
def modelled : List Nat :=
  [v1Type, v1ConnectionRequest, v1ConnectionResponse, v1PayloadTransfer, v1BandwidthUpgrade,
    v1KeepAlive, v1Disconnection]

/-- The dispatch on the type; `own` is the body under the number of a disconnection. -/
def readBody (own : Bytes) (ty : Nat) (body : Bytes) : Except Error Frame := do
  if ty = tConnectionRequest then return .connectionRequest (← parseConnectionRequest body)
  else if ty = tConnectionResponse then return .connectionResponse (← parseConnectionResponse body)
  else if ty = tPayloadTransfer then return .payloadTransfer (← parsePayloadTransfer body)
  else if ty = tKeepAlive then
    let ack ← varintOr0 body kaAck
    let seqNum ← varintOr0 body kaSeqNum
    return .keepAlive (decide (ack ≠ 0)) seqNum
  else if ty = tDisconnection then
    let requestSafe ← varintOr0 own dcRequestSafe
    let ackSafe ← varintOr0 own dcAckSafe
    return .disconnection (decide (requestSafe ≠ 0)) (decide (ackSafe ≠ 0))
  else if ty = tBandwidthUpgrade then return .bandwidthUpgrade body
  else return .unknown ty

/-- The body of a disconnection, under its own number. -/
def disconnectionBody (ts : List Token) : Bytes :=
  (lastBytes v1Disconnection (fields ts)).getD []

/-- Parsing is reading the frame's fields and dispatching on the type. -/
theorem parse_of_reads {m v1 : Bytes} {ts : List Token} (hframe : firstBytes m ofV1 = .ok (some v1))
    (h : Reads v1 ts) :
    parse m =
      dispatch v1Type (readBody (disconnectionBody ts)) (.malformed "no frame type") ts := by
  have hv1 : bytesField m ofV1 = .ok (some v1) := by
    rw [bytesField, hframe]
  have hown : bytesOrEmpty v1 v1Disconnection = .ok (disconnectionBody ts) := by
    rw [bytesOrEmpty, bytesField, firstBytes_of_reads h]
    rfl
  have hfold : readFields .protobuf v1Field v1 (none, none) =
      .ok (lastVarint v1Type (fields ts), lastBody (fields ts)) := by
    rw [readFields_of_reads .protobuf v1Field h]
    exact foldlM_kind_body v1Type (fun _ _ _ => rfl) (fun _ _ _ => rfl) _
  unfold parse dispatch
  simp only [hv1, hfold, hown, bind, Except.bind, pure, Except.pure]
  cases lastVarint v1Type (fields ts) with
  | none => rfl
  | some ty => rfl

/-- **In a frame of the connection.** -/
theorem parse_inserted_iff {m m' : Bytes} {left right : List Token} {t : Token}
    (h : Inserted ofV1 modelled m left t right m') {f : Frame} (accepted : parse m = .ok f) :
    parse m' = .ok f ↔
      KeepsBody v1Type (readBody (disconnectionBody (left ++ right))) left t right := by
  obtain ⟨unmodelled, v1, v1', hm, hm', hreads, hreads'⟩ := h.frames
  have hkind : t.number ≠ v1Type := fun heq => unmodelled (heq ▸ by decide)
  have hown : t.number ≠ v1Disconnection := fun heq => unmodelled (heq ▸ by decide)
  have hsame : disconnectionBody (left ++ ([t] ++ right)) = disconnectionBody (left ++ right) := by
    rw [disconnectionBody, (fields_inserted hown).2, disconnectionBody]
  rw [parse_of_reads hm hreads] at accepted
  rw [parse_of_reads hm' hreads', hsame]
  exact dispatch_inserted_iff _ _ hkind accepted

end Frames

namespace Sharing

/-- The numbers the schema code has in the V1 frame. -/
def modelled : List Nat :=
  [v1Type, v1Introduction, v1Response, v1PairedKeyEncryption, v1PairedKeyResult]

/-- The dispatch on the type. -/
def readBody (ty : Nat) (body : Bytes) : Except Error Frame := do
  if ty = tIntroduction then return .introduction (← parseIntroduction body)
  else if ty = tResponse then return .response (.ofU64 (← varintOr0 body rsStatus))
  else if ty = tPairedKeyEncryption then
    let signed ← bytesField body pkeSignedData
    let hash ← bytesField body pkeSecretIdHash
    return .pairedKeyEncryption (signed.getD []) (hash.getD [])
  else if ty = tPairedKeyResult then
    return .pairedKeyResult (.ofU64 (← varintOr0 body pkrStatus))
  else if ty = tCancel then return .cancel
  else return .unknown ty

theorem parse_of_reads {m v1 : Bytes} {ts : List Token} (hframe : firstBytes m fV1 = .ok (some v1))
    (h : Reads v1 ts) :
    parse m = dispatch v1Type readBody (.malformed "no frame type") ts := by
  have hv1 : bytesField m fV1 = .ok (some v1) := by
    rw [bytesField, hframe]
  have hfold : readFields .protobuf v1Field v1 (none, none) =
      .ok (lastVarint v1Type (fields ts), lastBody (fields ts)) := by
    rw [readFields_of_reads .protobuf v1Field h]
    exact foldlM_kind_body v1Type (fun _ _ _ => rfl) (fun _ _ _ => rfl) _
  unfold parse dispatch
  simp only [hv1, hfold, bind, Except.bind, pure, Except.pure]
  cases lastVarint v1Type (fields ts) with
  | none => rfl
  | some ty => rfl

/-- **In a frame of the sharing session.** -/
theorem parse_inserted_iff {m m' : Bytes} {left right : List Token} {t : Token}
    (h : Inserted fV1 modelled m left t right m') {f : Frame} (accepted : parse m = .ok f) :
    parse m' = .ok f ↔ KeepsBody v1Type readBody left t right := by
  obtain ⟨unmodelled, v1, v1', hm, hm', hreads, hreads'⟩ := h.frames
  have hkind : t.number ≠ v1Type := fun heq => unmodelled (heq ▸ by decide)
  rw [parse_of_reads hm hreads] at accepted
  rw [parse_of_reads hm' hreads']
  exact dispatch_inserted_iff _ _ hkind accepted

end Sharing

end Protocol
