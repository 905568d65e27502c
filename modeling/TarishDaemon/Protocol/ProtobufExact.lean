import TarishDaemon.Protocol.Tokens

/-!
# The numbers on the wire and the numbers the reader returns

The reader keeps sixty-four bits of an integer on the wire, and thirty-two of a field
number.  `OnWire` says what a field on the wire is, `Taken` what the reader takes it for,
and the two are the same where no number is oversized (`Taken.onWire`).
-/

namespace Protocol

open Rust

namespace Protobuf

/-! ## Fields -/

/-- How many bytes stand behind the tag of a field of fixed width. -/
inductive Width : Nat → Nat → Prop
  | i64 : Width wireI64 8
  | i32 : Width wireI32 4

/-- A field as the wire has it, with numbers of any size. -/
inductive OnWire : Bytes → Token → Bytes → Prop
  | varint {tag value rest : Bytes} {n v : Nat} (htag : Denotes tag (8 * n + wireVarint))
      (hvalue : Denotes value v) : OnWire (tag ++ (value ++ rest)) (.field (.varint n v)) rest
  | bytes {tag len v rest : Bytes} {n : Nat} (htag : Denotes tag (8 * n + wireBytes))
      (hlen : Denotes len v.length) :
      OnWire (tag ++ (len ++ (v ++ rest))) (.field (.bytes n v)) rest
  | fixed {tag body rest : Bytes} {n wire : Nat} (htag : Denotes tag (8 * n + wire))
      (hwidth : Width wire body.length) : OnWire (tag ++ (body ++ rest)) (.fixed n) rest

/-- A field as the reader takes it: an integer is short, and it keeps sixty-four bits of
one and thirty-two of a number. -/
inductive Taken : Bytes → Token → Bytes → Prop
  | varint {tag value rest : Bytes} {t v : Nat} (htag : Short tag t) (hwire : t % 8 = wireVarint)
      (hvalue : Short value v) :
      Taken (tag ++ (value ++ rest)) (.field (.varint (t / 8 % 2 ^ 32) (v % 2 ^ 64))) rest
  | bytes {tag len v rest : Bytes} {t m : Nat} (htag : Short tag t) (hwire : t % 8 = wireBytes)
      (hlen : Short len m) (hbody : v.length = m % 2 ^ 64) :
      Taken (tag ++ (len ++ (v ++ rest))) (.field (.bytes (t / 8 % 2 ^ 32) v)) rest
  | fixed {tag body rest : Bytes} {t : Nat} (htag : Short tag t)
      (hwidth : Width (t % 8) body.length) :
      Taken (tag ++ (body ++ rest)) (.fixed (t / 8 % 2 ^ 32)) rest

/-- The tag is read first. -/
theorem Short.token {tag : Bytes} {t : Nat} (h : Short tag t) (behind : Bytes) :
    token (tag ++ behind) = content (t / 8 % 2 ^ 32) (t % 8) behind := by
  rw [Protobuf.token, h.readVarint behind]
  dsimp only
  rw [show t % 2 ^ 64 / 8 % 2 ^ 32 = t / 8 % 2 ^ 32 by omega, show t % 2 ^ 64 % 8 = t % 8 by omega]

theorem take_length (v rest : Bytes) {n : Nat} (h : v.length = n) :
    take n (v ++ rest) = .ok (v, rest) := by
  subst h
  exact take_append v rest

theorem split_of_take {n : Nat} {buf v rest : Bytes} (h : take n buf = .ok (v, rest)) :
    v.length = n ∧ buf = v ++ rest := by
  have hsplit := (take_front h).1
  unfold take at h
  split at h
  next hle =>
    cases h
    exact ⟨List.length_take_of_le hle, hsplit⟩
  · cases h

/-- **The reader takes what `Taken` says.** -/
theorem Taken.token {buf rest : Bytes} {t : Token} (h : Taken buf t rest) :
    token buf = .ok (t, rest) := by
  cases h with
  | varint htag hwire hvalue =>
      rw [htag.token, hwire, content, if_pos rfl, hvalue.readVarint]
      rfl
  | bytes htag hwire hlen hbody =>
      rw [htag.token, hwire, content, if_neg (by decide), if_pos rfl, hlen.readVarint]
      dsimp only
      rw [take_length _ _ hbody]
      rfl
  | @fixed tag body rest t htag hwidth =>
      rw [htag.token, content]
      generalize hwire : t % 8 = wire at hwidth ⊢
      generalize hlen : body.length = width at hwidth
      cases hwidth with
      | i64 =>
          rw [if_neg (by decide), if_neg (by decide), if_pos rfl, take_length _ _ hlen]
          rfl
      | i32 =>
          rw [if_neg (by decide), if_neg (by decide), if_neg (by decide), if_pos rfl,
            take_length _ _ hlen]
          rfl

/-- **And nothing else.** -/
theorem taken_of_token {buf rest : Bytes} {t : Token} (h : token buf = .ok (t, rest)) :
    Taken buf t rest := by
  obtain ⟨tag, behind, hread⟩ : ∃ tag behind, readVarint buf 0 0 = .ok (tag, behind) := by
    unfold Protobuf.token at h
    cases hread : readVarint buf 0 0 with
    | error e =>
        rw [hread] at h
        cases h
    | ok r => exact ⟨r.1, r.2, rfl⟩
  obtain ⟨front, n, rfl, hfront, -⟩ := short_of_readVarint hread
  rw [hfront.token, content] at h
  -- the two fixed widths differ in a number only
  have hfixed : ∀ width, Width (n % 8) width →
      (take width behind).map (fun r => (Token.fixed (n / 8 % 2 ^ 32), r.2)) = .ok (t, rest) →
      Taken (front ++ behind) t rest := by
    intro width hwidth hmap
    obtain ⟨⟨v, left⟩, htake, heq⟩ := map_eq_ok hmap
    cases heq
    obtain ⟨rfl, rfl⟩ := split_of_take htake
    exact Taken.fixed hfront hwidth
  split at h
  next hwire =>
    obtain ⟨⟨v, left⟩, hvalue, heq⟩ := map_eq_ok h
    cases heq
    obtain ⟨value, m, rfl, hshort, rfl⟩ := short_of_readVarint hvalue
    exact Taken.varint hfront hwire hshort
  split at h
  next hwire =>
    cases hlen : readVarint behind 0 0 with
    | error e =>
        rw [hlen] at h
        cases h
    | ok r =>
        obtain ⟨m, body⟩ := r
        rw [hlen] at h
        obtain ⟨⟨v, left⟩, htake, heq⟩ := map_eq_ok h
        cases heq
        obtain ⟨len, n', rfl, hshort, rfl⟩ := short_of_readVarint hlen
        obtain ⟨hbody, rfl⟩ := split_of_take htake
        exact Taken.bytes hfront hwire hshort hbody
  split at h
  next hwire => exact hfixed 8 (hwire ▸ Width.i64) h
  split at h
  next hwire => exact hfixed 4 (hwire ▸ Width.i32) h
  · cases h

theorem Width.eq_or {wire width : Nat} (h : Width wire width) :
    (wire = 1 ∧ width = 8) ∨ (wire = 5 ∧ width = 4) := by
  cases h with
  | i64 => exact .inl ⟨rfl, rfl⟩
  | i32 => exact .inr ⟨rfl, rfl⟩

theorem Width.wire {wire width : Nat} (h : Width wire width) :
    wire < 8 ∧ wire ≠ wireVarint ∧ wire ≠ wireBytes := by
  have hwire := h.eq_or
  unfold wireVarint wireBytes
  omega

theorem Width.unique {wire width width' : Nat} (h : Width wire width) (h' : Width wire width') :
    width = width' := by
  have hwidth := h.eq_or
  have hwidth' := h'.eq_or
  omega

/-- A tag is one number, with the field number and the wire type in it. -/
theorem Denotes.same_tag {tag tag' behind behind' : Bytes} {n n' wire wire' : Nat}
    (h : Denotes tag (8 * n + wire)) (h' : Denotes tag' (8 * n' + wire'))
    (heq : tag ++ behind = tag' ++ behind') (hwire : wire < 8) (hwire' : wire' < 8) :
    n = n' ∧ wire = wire' ∧ behind = behind' := by
  obtain ⟨hn, hbehind⟩ := h.unique h' heq
  exact ⟨by omega, by omega, hbehind⟩

/-- The bytes of a field show which field it is: the wire type in the tag tells what
stands behind. -/
theorem OnWire.unique {buf rest rest' : Bytes} {t t' : Token} (h : OnWire buf t rest)
    (h' : OnWire buf t' rest') : t = t' ∧ rest = rest' := by
  generalize hall : buf = all at h'
  cases h with
  | varint htag hvalue =>
      cases h' with
      | varint htag' hvalue' =>
          obtain ⟨rfl, -, hbehind⟩ := htag.same_tag htag' hall (by decide) (by decide)
          obtain ⟨rfl, rfl⟩ := hvalue.unique hvalue' hbehind
          exact ⟨rfl, rfl⟩
      | bytes htag' _ =>
          have hwire := (htag.same_tag htag' hall (by decide) (by decide)).2.1
          exact absurd hwire (by decide)
      | fixed htag' hwidth' =>
          have hwire := (htag.same_tag htag' hall (by decide) hwidth'.wire.1).2.1
          exact absurd hwire.symm hwidth'.wire.2.1
  | bytes htag hlen =>
      cases h' with
      | varint htag' _ =>
          have hwire := (htag.same_tag htag' hall (by decide) (by decide)).2.1
          exact absurd hwire (by decide)
      | bytes htag' hlen' =>
          obtain ⟨rfl, -, hbehind⟩ := htag.same_tag htag' hall (by decide) (by decide)
          obtain ⟨hm, hbody⟩ := hlen.unique hlen' hbehind
          obtain ⟨rfl, rfl⟩ := List.append_inj hbody hm
          exact ⟨rfl, rfl⟩
      | fixed htag' hwidth' =>
          have hwire := (htag.same_tag htag' hall (by decide) hwidth'.wire.1).2.1
          exact absurd hwire.symm hwidth'.wire.2.2
  | fixed htag hwidth =>
      cases h' with
      | varint htag' _ =>
          have hwire := (htag.same_tag htag' hall hwidth.wire.1 (by decide)).2.1
          exact absurd hwire hwidth.wire.2.1
      | bytes htag' _ =>
          have hwire := (htag.same_tag htag' hall hwidth.wire.1 (by decide)).2.1
          exact absurd hwire hwidth.wire.2.2
      | fixed htag' hwidth' =>
          obtain ⟨rfl, rfl, hbehind⟩ :=
            htag.same_tag htag' hall hwidth.wire.1 hwidth'.wire.1
          obtain ⟨rfl, rfl⟩ := List.append_inj hbehind (hwidth.unique hwidth')
          exact ⟨rfl, rfl⟩

/-! ## The next field -/

/-- The next field as the wire has it; fields of fixed width are passed over. -/
inductive Says : Bytes → Field × Bytes → Prop
  | field {buf rest : Bytes} {f : Field} (first : OnWire buf (.field f) rest) : Says buf (f, rest)
  | skip {buf rest : Bytes} {n : Nat} {r : Field × Bytes} (first : OnWire buf (.fixed n) rest)
      (more : Says rest r) : Says buf r

theorem Says.unique {buf : Bytes} {r r' : Field × Bytes} (h : Says buf r) (h' : Says buf r') :
    r = r' := by
  induction h with
  | field first =>
      cases h' with
      | field first' =>
          obtain ⟨hfield, rfl⟩ := first.unique first'
          cases hfield
          rfl
      | skip first' _ => cases (first.unique first').1
  | skip first _ ih =>
      cases h' with
      | field first' => cases (first.unique first').1
      | skip first' more' =>
          obtain ⟨-, rfl⟩ := first.unique first'
          exact ih more'

/-- Up to the next field there is a number that the reader's types have no room for. -/
inductive Oversized : Bytes → Prop
  | tag {tag rest : Bytes} {t : Nat} (htag : Denotes tag t) (hbig : 2 ^ 32 ≤ t / 8) :
      Oversized (tag ++ rest)
  | integer {tag value rest : Bytes} {t v : Nat} (htag : Denotes tag t)
      (hwire : t % 8 = wireVarint ∨ t % 8 = wireBytes) (hvalue : Denotes value v)
      (hbig : 2 ^ 64 ≤ v) : Oversized (tag ++ (value ++ rest))
  | skip {buf rest : Bytes} {n : Nat} (first : OnWire buf (.fixed n) rest)
      (more : Oversized rest) : Oversized buf

/-- Up to the next field, or up to the end, everything the reader takes is there. -/
inductive Whole : Bytes → Prop
  | finish : Whole []
  | field {buf rest : Bytes} {f : Field} (first : Taken buf (.field f) rest) : Whole buf
  | skip {buf rest : Bytes} {n : Nat} (first : Taken buf (.fixed n) rest) (more : Whole rest) :
      Whole buf

/-- **Where no number is oversized the reader takes what is on the wire.** -/
theorem Taken.onWire {buf rest : Bytes} {t : Token} (h : Taken buf t rest)
    (hsmall : ¬ Oversized buf) : OnWire buf t rest := by
  have hnumber : ∀ {tag behind : Bytes} {n : Nat}, buf = tag ++ behind → Denotes tag n →
      8 * (n / 8 % 2 ^ 32) + n % 8 = n := by
    intro tag behind n heq htag
    by_contra hne
    refine hsmall (heq ▸ Oversized.tag htag ?_)
    omega
  have hinteger : ∀ {tag value behind : Bytes} {n v : Nat}, buf = tag ++ (value ++ behind) →
      Denotes tag n → n % 8 = wireVarint ∨ n % 8 = wireBytes → Denotes value v →
      v % 2 ^ 64 = v := by
    intro tag value behind n v heq htag hwire hvalue
    by_contra hne
    refine hsmall (heq ▸ Oversized.integer htag hwire hvalue ?_)
    by_contra hless
    exact hne (Nat.mod_eq_of_lt (by omega))
  cases h with
  | varint htag hwire hvalue =>
      rw [hinteger rfl htag.1 (.inl hwire) hvalue.1]
      refine OnWire.varint ?_ hvalue.1
      rw [← hwire, hnumber rfl htag.1]
      exact htag.1
  | bytes htag hwire hlen hbody =>
      rw [hinteger rfl htag.1 (.inr hwire) hlen.1] at hbody
      refine OnWire.bytes ?_ (hbody ▸ hlen.1)
      rw [← hwire, hnumber rfl htag.1]
      exact htag.1
  | @fixed tag body rest n htag hwidth =>
      refine OnWire.fixed ?_ hwidth
      rw [hnumber rfl htag.1]
      exact htag.1

/-- A message that is whole up to its next field is not refused. -/
theorem Whole.not_error {buf : Bytes} (h : Whole buf) (e : Error) (fuel : Nat) :
    nextFieldLoop fuel buf ≠ some (.error e) := by
  induction h generalizing fuel with
  | finish =>
      intro heq
      cases fuel <;> cases heq
  | field first =>
      have htoken := first.token
      obtain ⟨b, tail, rfl⟩ := List.exists_cons_of_ne_nil (token_ne_nil htoken)
      cases fuel with
      | zero =>
          intro heq
          cases heq
      | succ fuel =>
          rw [nextFieldLoop_succ fuel (List.cons_ne_nil b tail), htoken]
          intro heq
          cases heq
  | skip first more ih =>
      have htoken := first.token
      obtain ⟨b, tail, rfl⟩ := List.exists_cons_of_ne_nil (token_ne_nil htoken)
      cases fuel with
      | zero =>
          intro heq
          cases heq
      | succ fuel =>
          rw [nextFieldLoop_succ fuel (List.cons_ne_nil b tail), htoken]
          exact ih fuel

/-- What is not refused is whole up to its next field. -/
theorem whole_of_not_error {fuel : Nat} {buf : Bytes} (hfuel : buf.length ≤ fuel)
    (h : ∀ e, nextFieldLoop fuel buf ≠ some (.error e)) : Whole buf := by
  induction fuel generalizing buf with
  | zero =>
      rw [List.length_eq_zero_iff.mp (by omega : buf.length = 0)]
      exact Whole.finish
  | succ fuel ih =>
      by_cases hnil : buf = []
      · rw [hnil]
        exact Whole.finish
      rw [nextFieldLoop_succ fuel hnil] at h
      cases htoken : token buf with
      | error e =>
          rw [htoken] at h
          exact absurd rfl (h e)
      | ok r =>
          obtain ⟨t, rest⟩ := r
          have hless := (token_append htoken).1
          rw [htoken] at h
          cases t with
          | field f => exact Whole.field (taken_of_token htoken)
          | fixed n => exact Whole.skip (taken_of_token htoken) (ih (by omega) h)

/-- Where no number is oversized, a field that is returned is the one on the wire. -/
theorem says_of_nextFieldLoop {fuel : Nat} {buf : Bytes} {r : Field × Bytes}
    (h : nextFieldLoop fuel buf = some (.ok r)) (hsmall : ¬ Oversized buf) : Says buf r := by
  induction fuel generalizing buf with
  | zero => cases buf <;> cases h
  | succ fuel ih =>
      by_cases hnil : buf = []
      · rw [hnil] at h
        cases h
      rw [nextFieldLoop_succ fuel hnil] at h
      cases htoken : token buf with
      | error e =>
          rw [htoken] at h
          cases h
      | ok taken =>
          obtain ⟨t, rest⟩ := taken
          have first := (taken_of_token htoken).onWire hsmall
          rw [htoken] at h
          cases t with
          | field f =>
              cases h
              exact Says.field first
          | fixed n => exact Says.skip first (ih h fun hmore => hsmall (Oversized.skip first hmore))

/-- **Nothing is cut off in silence.**  A field that is returned is the one on the wire,
and nothing else on the wire is returned as it; a number that the types have no room for
is an error. -/
structure Faithful (buf : Bytes) : Prop where
  exact : ∀ r, nextField buf = some (.ok r) → Says buf r
  alone : ∀ r r', nextField buf = some (.ok r) → Says buf r' → r' = r
  refused : Oversized buf → ∃ e, nextField buf = some (.error e)

theorem faithful_of_whole {buf : Bytes} (h : Whole buf → ¬ Oversized buf) : Faithful buf := by
  -- a field that is returned comes from a whole message
  have hstated : ∀ r, nextField buf = some (.ok r) → Says buf r := by
    intro r hr
    refine says_of_nextFieldLoop hr (h (whole_of_not_error (Nat.le_refl _) fun e he => ?_))
    rw [nextField, he] at hr
    cases hr
  refine ⟨hstated, fun r r' hr hr' => hr'.unique (hstated r hr), fun hbig => ?_⟩
  by_contra hnot
  exact h (whole_of_not_error (Nat.le_refl _) fun e he => hnot ⟨e, he⟩) hbig

/-- **Nothing is cut off in silence just where nothing oversized is in front of the next
field**, or where the reader misses something else there. -/
theorem faithful_iff (buf : Bytes) : Faithful buf ↔ (Whole buf → ¬ Oversized buf) := by
  constructor
  · intro h hwhole hbig
    obtain ⟨e, he⟩ := h.refused hbig
    exact hwhole.not_error e _ he
  · exact faithful_of_whole

/-- A field number of 2³² + 1 is read as field 1, and an integer of 2⁶⁴ as zero. -/
theorem not_faithful_wide :
    ¬ Faithful [0x88, 0x80, 0x80, 0x80, 0x80, 0x01, 0x05] ∧
      ¬ Faithful [0x08, 0x80, 0x80, 0x80, 0x80, 0x80, 0x80, 0x80, 0x80, 0x80, 0x02] ∧
      nextField [0x88, 0x80, 0x80, 0x80, 0x80, 0x01, 0x05] = nextField [0x08, 0x05] := by
  refine ⟨fun h => ?_, fun h => ?_, by decide⟩
  · have htag : Denotes [0x88, 0x80, 0x80, 0x80, 0x80, 0x01] _ :=
      .more (by decide) (.more (by decide) (.more (by decide) (.more (by decide)
        (.more (by decide) (.last (by decide))))))
    obtain ⟨e, he⟩ := h.refused (Oversized.tag htag (by decide))
    exact absurd (he.symm.trans (show _ = some (.ok (.varint 1 5, [])) by decide)) (by simp)
  · have htag : Denotes [0x08] _ := .last (by decide)
    have hvalue : Denotes [0x80, 0x80, 0x80, 0x80, 0x80, 0x80, 0x80, 0x80, 0x80, 0x02] _ :=
      .more (by decide) (.more (by decide) (.more (by decide) (.more (by decide)
        (.more (by decide) (.more (by decide) (.more (by decide) (.more (by decide)
          (.more (by decide) (.last (by decide))))))))))
    obtain ⟨e, he⟩ := h.refused (Oversized.integer htag (.inl rfl) hvalue (by decide))
    exact absurd (he.symm.trans (show _ = some (.ok (.varint 1 0, [])) by decide)) (by simp)

/-! ## What the writer puts out -/

theorem onWire_encode {f : Field} (h : f.Fits) (rest : Bytes) :
    OnWire (f.encode ++ rest) (.field f) rest := by
  cases f with
  | varint n v =>
      have htag : Denotes (putTag n wireVarint) (8 * n + wireVarint) := by
        rw [Nat.mul_comm]
        exact denotes_putVarint (by have := h.1; unfold wireVarint; omega)
      rw [Field.encode, Protobuf.varint, List.append_assoc]
      exact OnWire.varint htag (denotes_putVarint h.2)
  | bytes n v =>
      have htag : Denotes (putTag n wireBytes) (8 * n + wireBytes) := by
        rw [Nat.mul_comm]
        exact denotes_putVarint (by have := h.1; unfold wireBytes; omega)
      rw [Field.encode, Protobuf.bytes, List.append_assoc, List.append_assoc]
      exact OnWire.bytes htag (denotes_putVarint h.2)

/-- A field of the source's types has room for its numbers. -/
theorem OnWire.not_oversized {buf rest : Bytes} {f : Field} (h : OnWire buf (.field f) rest)
    (hfits : f.Fits) : ¬ Oversized buf := by
  intro hbig
  generalize hall : buf = all at hbig
  cases hbig with
  | tag htag' hbig =>
      cases h with
      | varint htag _ =>
          have hn := (htag.unique htag' hall).1
          have hnumber := hfits.1
          unfold wireVarint at hn
          omega
      | bytes htag _ =>
          have hn := (htag.unique htag' hall).1
          have hnumber := hfits.1
          unfold wireBytes at hn
          omega
  | integer htag' hwire' hvalue' hbig =>
      cases h with
      | varint htag hvalue =>
          have hv := (hvalue.unique hvalue' (htag.unique htag' hall).2).1
          have hvalueFits := hfits.2
          omega
      | bytes htag hlen =>
          have hv := (hlen.unique hvalue' (htag.unique htag' hall).2).1
          have hlenFits := hfits.2
          omega
  | skip first _ => cases (h.unique (hall ▸ first)).1

/-- **What the writer puts out is not cut off.** -/
theorem faithful_encode {f : Field} (h : f.Fits) (rest : Bytes) : Faithful (f.encode ++ rest) :=
  faithful_of_whole fun _ => (onWire_encode h rest).not_oversized h

end Protobuf

end Protocol
