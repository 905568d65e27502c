import TarishDaemon.Protocol.Wire

/-!
# Messages somebody else wrote

A peer need not write fields the way `Writer` does: numbers may be padded, and there
may be fields of the two fixed widths, which the reader skips.  `Reads buf ts` says
that the bytes are fields one after the other, the skipped ones among them, and end
with the last.

A loop over such a message is a fold over the fields that are not skipped
(`readFields_of_reads`), whatever a loop gets through is such a message
(`reads_of_readFields`), and two of them in a row are one (`Reads.append`).
-/

namespace Protocol

open Rust

namespace Protobuf

/-- One field on the wire. -/
inductive Token
  | field (f : Field)
  | fixed (number : Nat)
  deriving DecidableEq, Repr

def Field.number : Field → Nat
  | .varint n _ => n
  | .bytes n _ => n

def Token.number : Token → Nat
  | .field f => f.number
  | .fixed n => n

/-- What the loops of the source see of it. -/
def Token.field? : Token → Option Field
  | .field f => some f
  | .fixed _ => none

def fields (ts : List Token) : List Field :=
  ts.filterMap Token.field?

@[simp] theorem fields_append (ts us : List Token) : fields (ts ++ us) = fields ts ++ fields us :=
  List.filterMap_append

@[simp] theorem fields_nil : fields [] = [] := rfl

@[simp] theorem fields_field (f : Field) (ts : List Token) :
    fields (.field f :: ts) = f :: fields ts := rfl

@[simp] theorem fields_fixed (n : Nat) (ts : List Token) :
    fields (.fixed n :: ts) = fields ts := rfl

/-- What stands behind a tag. -/
def content (number wire : Nat) (rest : Bytes) : Except Error (Token × Bytes) :=
  if wire = wireVarint then
    (readVarint rest 0 0).map fun r => (.field (.varint number r.1), r.2)
  else if wire = wireBytes then
    match readVarint rest 0 0 with
    | .error e => .error e
    | .ok (len, rest) => (take len rest).map fun r => (.field (.bytes number r.1), r.2)
  else if wire = wireI64 then (take 8 rest).map fun r => (.fixed number, r.2)
  else if wire = wireI32 then (take 4 rest).map fun r => (.fixed number, r.2)
  else .error (.unsupportedWireType wire)

/-- A tag and what stands behind it. -/
def token (buf : Bytes) : Except Error (Token × Bytes) :=
  match readVarint buf 0 0 with
  | .error e => .error e
  | .ok (tag, rest) => content (tag / 8 % 2 ^ 32) (tag % 8) rest

/-- The skipping loop, round by round. -/
theorem nextFieldLoop_succ (fuel : Nat) {buf : Bytes} (h : buf ≠ []) :
    nextFieldLoop (fuel + 1) buf =
      match token buf with
      | .error e => some (.error e)
      | .ok (.field f, rest) => some (.ok (f, rest))
      | .ok (.fixed _, rest) => nextFieldLoop fuel rest := by
  obtain ⟨b, tail, rfl⟩ := List.exists_cons_of_ne_nil h
  rw [nextFieldLoop, token]
  cases readVarint (b :: tail) 0 0 with
  | error e => rfl
  | ok r =>
      obtain ⟨tag, rest⟩ := r
      dsimp only
      unfold content
      split
      · cases readVarint rest 0 0 <;> rfl
      split
      · cases readVarint rest 0 0 with
        | error e => rfl
        | ok r =>
            obtain ⟨len, rest⟩ := r
            dsimp only
            cases take len rest <;> rfl
      split
      · cases take 8 rest <;> rfl
      split
      · cases take 4 rest <;> rfl
      · rfl

/-! ## Taking a field off the front -/

theorem readVarint_append {a rest : Bytes} {shift out v : Nat}
    (h : readVarint a shift out = .ok (v, rest)) :
    rest.length < a.length ∧ ∀ b, readVarint (a ++ b) shift out = .ok (v, rest ++ b) := by
  induction a generalizing shift out with
  | nil => cases h
  | cons x a ih =>
      rw [readVarint] at h
      split at h
      · cases h
      next hshift =>
      dsimp only at h
      split at h
      next hlast =>
        obtain ⟨rfl, rfl⟩ := Prod.mk.inj (Except.ok.inj h)
        refine ⟨Nat.lt_succ_self _, fun b => ?_⟩
        rw [List.cons_append, readVarint, if_neg hshift, if_pos hlast]
      next hmore =>
        obtain ⟨hless, hall⟩ := ih h
        refine ⟨Nat.lt_succ_of_lt hless, fun b => ?_⟩
        rw [List.cons_append, readVarint, if_neg hshift, if_neg hmore, hall b]

theorem take_append_right {n : Nat} {a v rest : Bytes} (h : take n a = .ok (v, rest)) :
    rest.length ≤ a.length ∧ ∀ b, take n (a ++ b) = .ok (v, rest ++ b) := by
  unfold take at h
  split at h
  next hle =>
    obtain ⟨rfl, rfl⟩ := Prod.mk.inj (Except.ok.inj h)
    refine ⟨by simp, fun b => ?_⟩
    rw [take, if_pos (by rw [List.length_append]; omega), List.take_append_of_le_length hle,
      List.drop_append_of_le_length hle]
  · cases h

theorem map_eq_ok {α β : Type} {x : Except Error α} {f : α → β} {b : β}
    (h : x.map f = .ok b) : ∃ a, x = .ok a ∧ f a = b := by
  cases x with
  | error e => cases h
  | ok a => exact ⟨a, rfl, Except.ok.inj h⟩

theorem content_append {number wire : Nat} {a rest : Bytes} {t : Token}
    (h : content number wire a = .ok (t, rest)) :
    rest.length ≤ a.length ∧ ∀ b, content number wire (a ++ b) = .ok (t, rest ++ b) := by
  -- the two fixed widths differ in a number only
  have hfixed : ∀ width, (take width a).map (fun r => (Token.fixed number, r.2)) = .ok (t, rest) →
      rest.length ≤ a.length ∧
        ∀ b, (take width (a ++ b)).map (fun r => (Token.fixed number, r.2)) =
          .ok (t, rest ++ b) := by
    intro width hwidth
    obtain ⟨⟨v, left⟩, htake, heq⟩ := map_eq_ok hwidth
    obtain ⟨rfl, rfl⟩ := Prod.mk.inj heq
    obtain ⟨hless, hall⟩ := take_append_right htake
    exact ⟨hless, fun b => by rw [hall b]; rfl⟩
  unfold content at h ⊢
  split at h
  next hwire =>
    obtain ⟨⟨v, left⟩, hread, heq⟩ := map_eq_ok h
    obtain ⟨rfl, rfl⟩ := Prod.mk.inj heq
    obtain ⟨hless, hall⟩ := readVarint_append hread
    refine ⟨Nat.le_of_lt hless, fun b => ?_⟩
    rw [if_pos hwire, hall b]
    rfl
  next hnotVarint =>
  split at h
  next hwire =>
    cases hread : readVarint a 0 0 with
    | error e =>
        rw [hread] at h
        cases h
    | ok r =>
        obtain ⟨len, behind⟩ := r
        rw [hread] at h
        obtain ⟨⟨v, left⟩, htake, heq⟩ := map_eq_ok h
        obtain ⟨rfl, rfl⟩ := Prod.mk.inj heq
        obtain ⟨hless, hall⟩ := readVarint_append hread
        obtain ⟨hless', hall'⟩ := take_append_right htake
        refine ⟨by dsimp only; omega, fun b => ?_⟩
        rw [if_neg hnotVarint, if_pos hwire, hall b]
        dsimp only
        rw [hall' b]
        rfl
  next hnotBytes =>
  split at h
  next hwire =>
    obtain ⟨hless, hall⟩ := hfixed 8 h
    exact ⟨hless, fun b => by rw [if_neg hnotVarint, if_neg hnotBytes, if_pos hwire, hall b]⟩
  next hnotI64 =>
  split at h
  next hwire =>
    obtain ⟨hless, hall⟩ := hfixed 4 h
    exact ⟨hless, fun b => by
      rw [if_neg hnotVarint, if_neg hnotBytes, if_neg hnotI64, if_pos hwire, hall b]⟩
  · cases h

/-- **A field is taken off the front whatever stands behind it.** -/
theorem token_append {a rest : Bytes} {t : Token} (h : token a = .ok (t, rest)) :
    rest.length < a.length ∧ ∀ b, token (a ++ b) = .ok (t, rest ++ b) := by
  unfold token at h ⊢
  cases htag : readVarint a 0 0 with
  | error e =>
      rw [htag] at h
      cases h
  | ok r =>
      obtain ⟨tag, behind⟩ := r
      rw [htag] at h
      obtain ⟨hless, hall⟩ := readVarint_append htag
      obtain ⟨hless', hall'⟩ := content_append h
      refine ⟨by omega, fun b => ?_⟩
      rw [hall b]
      exact hall' b

theorem readVarint_front {a rest : Bytes} {shift out v : Nat}
    (h : readVarint a shift out = .ok (v, rest)) :
    ∃ front, a = front ++ rest ∧ readVarint front shift out = .ok (v, []) := by
  induction a generalizing shift out with
  | nil => cases h
  | cons x a ih =>
      rw [readVarint] at h
      split at h
      · cases h
      next hshift =>
      dsimp only at h
      split at h
      next hlast =>
        obtain ⟨rfl, rfl⟩ := Prod.mk.inj (Except.ok.inj h)
        refine ⟨[x], rfl, ?_⟩
        rw [readVarint, if_neg hshift, if_pos hlast]
      next hmore =>
        obtain ⟨front, rfl, hfront⟩ := ih h
        refine ⟨x :: front, rfl, ?_⟩
        rw [readVarint, if_neg hshift, if_neg hmore, hfront]

theorem take_front {n : Nat} {a v rest : Bytes} (h : take n a = .ok (v, rest)) :
    a = v ++ rest ∧ take n v = .ok (v, []) := by
  unfold take at h
  split at h
  next hle =>
    obtain ⟨rfl, rfl⟩ := Prod.mk.inj (Except.ok.inj h)
    refine ⟨(List.take_append_drop n a).symm, ?_⟩
    rw [take, if_pos (by rw [List.length_take]; omega)]
    simp [List.take_take]
  · cases h

/-- The last bytes of a front are those of a field. -/
def EndsWithBytes (t : Token) (front : Bytes) : Prop :=
  ∀ n v, t = .field (.bytes n v) → ∃ head, front = head ++ v

/-- A number of fixed width. -/
theorem take_fixed {number width : Nat} {behind rest : Bytes} {t : Token}
    (h : (take width behind).map (fun r => (Token.fixed number, r.2)) = .ok (t, rest)) :
    ∃ front, behind = front ++ rest ∧
      (take width front).map (fun r => (Token.fixed number, r.2)) = .ok (t, []) ∧
      EndsWithBytes t front := by
  obtain ⟨⟨v, left⟩, htake, heq⟩ := map_eq_ok h
  obtain ⟨rfl, rfl⟩ := Prod.mk.inj heq
  obtain ⟨rfl, hv⟩ := take_front htake
  refine ⟨v, rfl, by rw [hv]; rfl, ?_⟩
  intro n w hw
  cases hw

/-- What stands behind a tag is read from the bytes it takes. -/
theorem content_front {number wire : Nat} {behind rest : Bytes} {t : Token}
    (h : content number wire behind = .ok (t, rest)) :
    ∃ front, behind = front ++ rest ∧ content number wire front = .ok (t, []) ∧
      EndsWithBytes t front := by
  unfold content at h ⊢
  split at h
  next hwire =>
    obtain ⟨⟨v, left⟩, hread, heq⟩ := map_eq_ok h
    obtain ⟨rfl, rfl⟩ := Prod.mk.inj heq
    obtain ⟨front, rfl, hfront⟩ := readVarint_front hread
    refine ⟨front, rfl, by rw [if_pos hwire, hfront]; rfl, ?_⟩
    intro n v hv
    cases hv
  next hnotVarint =>
  split at h
  next hwire =>
    cases hread : readVarint behind 0 0 with
    | error e =>
        rw [hread] at h
        cases h
    | ok r =>
        obtain ⟨len, body⟩ := r
        rw [hread] at h
        obtain ⟨⟨v, left⟩, htake, heq⟩ := map_eq_ok h
        obtain ⟨rfl, rfl⟩ := Prod.mk.inj heq
        obtain ⟨lenBytes, rfl, hlenBytes⟩ := readVarint_front hread
        obtain ⟨rfl, hv⟩ := take_front htake
        have hlenAll := (readVarint_append hlenBytes).2 v
        rw [List.nil_append] at hlenAll
        refine ⟨lenBytes ++ v, by simp, ?_, ?_⟩
        · rw [if_neg hnotVarint, if_pos hwire, hlenAll]
          dsimp only
          rw [hv]
          rfl
        · intro n w hw
          cases hw
          exact ⟨lenBytes, rfl⟩
  next hnotBytes =>
  split at h
  next hwire =>
    obtain ⟨front, hsplit, hread, hbytes⟩ := take_fixed h
    exact ⟨front, hsplit, by rw [if_neg hnotVarint, if_neg hnotBytes, if_pos hwire, hread],
      hbytes⟩
  next hnotI64 =>
  split at h
  next hwire =>
    obtain ⟨front, hsplit, hread, hbytes⟩ := take_fixed h
    exact ⟨front, hsplit,
      by rw [if_neg hnotVarint, if_neg hnotBytes, if_neg hnotI64, if_pos hwire, hread], hbytes⟩
  · cases h

/-- **A field is some bytes in front**, and the bytes it carries are the last of them. -/
theorem token_front {a rest : Bytes} {t : Token} (h : token a = .ok (t, rest)) :
    ∃ front, a = front ++ rest ∧ token front = .ok (t, []) ∧ EndsWithBytes t front := by
  unfold token at h
  cases htag : readVarint a 0 0 with
  | error e =>
      rw [htag] at h
      cases h
  | ok r =>
      obtain ⟨tag, behind⟩ := r
      rw [htag] at h
      obtain ⟨tagBytes, rfl, htagBytes⟩ := readVarint_front htag
      have htagAll := (readVarint_append htagBytes).2
      simp only [List.nil_append] at htagAll
      -- the front is the tag and the content
      obtain ⟨front, rfl, hread, hbytes⟩ := content_front h
      refine ⟨tagBytes ++ front, by simp, ?_, fun n v hv => ?_⟩
      · rw [token, htagAll front]
        exact hread
      · obtain ⟨head, rfl⟩ := hbytes n v hv
        exact ⟨tagBytes ++ head, by simp⟩

theorem token_ne_nil {a rest : Bytes} {t : Token} (h : token a = .ok (t, rest)) : a ≠ [] := by
  rintro rfl
  cases h

/-- The bytes are these fields, one after the other. -/
inductive Reads : Bytes → List Token → Prop
  | nil : Reads [] []
  | cons {buf rest : Bytes} {t : Token} {ts : List Token}
      (first : token buf = .ok (t, rest)) (more : Reads rest ts) : Reads buf (t :: ts)

/-- **Two messages in a row are one.** -/
theorem Reads.append {a b : Bytes} {ts us : List Token} (ha : Reads a ts) (hb : Reads b us) :
    Reads (a ++ b) (ts ++ us) := by
  induction ha with
  | nil => exact hb
  | cons first _ ih => exact Reads.cons ((token_append first).2 b) ih

theorem Reads.unique {buf : Bytes} {ts us : List Token} (h : Reads buf ts) (h' : Reads buf us) :
    ts = us := by
  induction h generalizing us with
  | nil =>
      cases h' with
      | nil => rfl
      | cons first _ => exact absurd rfl (token_ne_nil first)
  | cons first _ ih =>
      cases h' with
      | nil => exact absurd rfl (token_ne_nil first)
      | cons first' more' =>
          rw [first] at first'
          cases first'
          rw [ih more']

/-- What is left of a message when a message is taken off its front. -/
theorem Reads.of_append {a b : Bytes} {ts us : List Token} (ha : Reads a ts)
    (h : Reads (a ++ b) us) : ∃ vs, us = ts ++ vs ∧ Reads b vs := by
  induction ha generalizing us with
  | nil => exact ⟨us, rfl, h⟩
  | cons first _ ih =>
      have hfirst := (token_append first).2 b
      generalize hall : _ ++ b = all at h hfirst
      cases h with
      | nil => exact absurd rfl (token_ne_nil hfirst)
      | cons first' more' =>
          rw [hfirst] at first'
          cases first'
          obtain ⟨vs, rfl, hvs⟩ := ih more'
          exact ⟨vs, rfl, hvs⟩

/-- What the writer puts out is a message of its fields. -/
theorem reads_encode {fs : List Field} (hfs : ∀ f ∈ fs, f.Fits) :
    Reads (encode fs) (fs.map Token.field) := by
  induction fs with
  | nil => exact Reads.nil
  | cons f fs ih =>
      rw [encode_cons, List.map_cons]
      refine Reads.cons ?_ (ih fun g hg => hfs g (by simp [hg]))
      have hf := hfs f (by simp)
      cases f with
      | varint n v =>
          have hn : (n * 8 + wireVarint) / 8 % 2 ^ 32 = n := by
            have := hf.1
            unfold wireVarint
            omega
          have hwire : (n * 8 + wireVarint) % 8 = wireVarint := by
            unfold wireVarint
            omega
          rw [Field.encode, Protobuf.varint, List.append_assoc, token,
            readVarint_putTag _ hf.1 (by decide)]
          dsimp only
          rw [hn, hwire, content, if_pos rfl, readVarint_putVarint _ hf.2]
          rfl
      | bytes n v =>
          have hn : (n * 8 + wireBytes) / 8 % 2 ^ 32 = n := by
            have := hf.1
            unfold wireBytes
            omega
          have hwire : (n * 8 + wireBytes) % 8 = wireBytes := by
            unfold wireBytes
            omega
          rw [Field.encode, Protobuf.bytes, List.append_assoc, List.append_assoc, token,
            readVarint_putTag _ hf.1 (by decide)]
          dsimp only
          rw [hn, hwire, content, if_neg (by decide), if_pos rfl, readVarint_putVarint _ hf.2]
          dsimp only
          rw [take_append]
          rfl

/-- The fields of a message, if it is one; a field takes at least one byte. -/
def tokensLoop : Nat → Bytes → Option (List Token)
  | _, [] => some []
  | 0, _ :: _ => none
  | fuel + 1, b :: tail =>
      match token (b :: tail) with
      | .error _ => none
      | .ok (t, rest) => (tokensLoop fuel rest).map (t :: ·)

def tokens (buf : Bytes) : Option (List Token) :=
  tokensLoop buf.length buf

theorem reads_of_tokens {buf : Bytes} {ts : List Token} (h : tokens buf = some ts) :
    Reads buf ts := by
  unfold tokens at h
  generalize buf.length = fuel at h
  induction fuel generalizing buf ts with
  | zero =>
      cases buf with
      | nil =>
          cases h
          exact Reads.nil
      | cons b tail => cases h
  | succ fuel ih =>
      cases buf with
      | nil =>
          cases h
          exact Reads.nil
      | cons b tail =>
          rw [tokensLoop] at h
          split at h
          · cases h
          next t rest htoken =>
            obtain ⟨us, hus, rfl⟩ := Option.map_eq_some_iff.mp h
            exact Reads.cons htoken (ih hus)

/-! ## The loops -/

variable {σ ε : Type} (lift : Error → ε) (step : σ → Field → Except ε σ)

/-- The next field that is not skipped. -/
theorem Reads.nextField {buf : Bytes} {ts : List Token} (h : Reads buf ts) {fuel : Nat}
    (hfuel : buf.length ≤ fuel) :
    (fields ts = [] ∧ nextFieldLoop fuel buf = none) ∨
      ∃ f rest us, nextFieldLoop fuel buf = some (.ok (f, rest)) ∧ Reads rest us ∧
        fields ts = f :: fields us ∧ rest.length < buf.length := by
  induction h generalizing fuel with
  | nil =>
      left
      refine ⟨rfl, ?_⟩
      cases fuel <;> rfl
  | @cons buf rest t ts first more ih =>
      have hless := (token_append first).1
      cases fuel with
      | zero => omega
      | succ fuel =>
          rw [nextFieldLoop_succ fuel (token_ne_nil first), first]
          cases t with
          | field f => exact .inr ⟨f, rest, ts, rfl, more, rfl, hless⟩
          | fixed n =>
              rcases ih (show rest.length ≤ fuel by omega) with ⟨hnone, hloop⟩ |
                ⟨f, behind, us, hloop, hus, hfields, hshort⟩
              · exact .inl ⟨hnone, hloop⟩
              · exact .inr ⟨f, behind, us, hloop, hus, hfields, by omega⟩

/-- **A loop over a message is a fold over its fields.** -/
theorem readFields_of_reads {buf : Bytes} {ts : List Token} (h : Reads buf ts) (s : σ) :
    readFields lift step buf s = (fields ts).foldlM step s := by
  suffices hloop : ∀ (fuel : Nat) (buf : Bytes) (ts : List Token) (s : σ), Reads buf ts →
      buf.length < fuel → readFieldsLoop lift step fuel buf s = (fields ts).foldlM step s from
    hloop _ _ _ _ h (Nat.lt_succ_self _)
  intro fuel
  induction fuel with
  | zero => intro buf ts s _ hfuel; omega
  | succ fuel ih =>
      intro buf ts s h hfuel
      rw [readFieldsLoop, Protobuf.nextField]
      rcases h.nextField (Nat.le_refl _) with
        ⟨hnone, hnext⟩ | ⟨f, rest, us, hnext, hus, hfields, hless⟩
      · rw [hnone, hnext]
        rfl
      · rw [hnext, hfields, List.foldlM_cons]
        dsimp only
        cases step s f with
        | error e => rfl
        | ok s' => exact ih rest us s' hus (by omega)

/-- The skipping loop does not depend on its bound. -/
theorem nextFieldLoop_fuel {buf : Bytes} {fuel fuel' : Nat} (h : buf.length ≤ fuel)
    (h' : buf.length ≤ fuel') : nextFieldLoop fuel buf = nextFieldLoop fuel' buf := by
  induction fuel generalizing buf fuel' with
  | zero =>
      have hnil : buf = [] := List.length_eq_zero_iff.mp (by omega)
      subst hnil
      cases fuel' <;> rfl
  | succ fuel ih =>
      by_cases hnil : buf = []
      · subst hnil
        cases fuel' <;> rfl
      cases fuel' with
      | zero => exact absurd (List.length_eq_zero_iff.mp (by omega)) hnil
      | succ fuel' =>
          rw [nextFieldLoop_succ fuel hnil, nextFieldLoop_succ fuel' hnil]
          cases htoken : token buf with
          | error e => rfl
          | ok r =>
              obtain ⟨t, rest⟩ := r
              have hless := (token_append htoken).1
              cases t with
              | field f => rfl
              | fixed n => exact ih (by omega) (by omega)

/-- **Whatever a loop gets through is a message.** -/
theorem reads_of_readFields {buf : Bytes} {s r : σ} (h : readFields lift step buf s = .ok r) :
    ∃ ts, Reads buf ts := by
  suffices hloop : ∀ (n : Nat) (buf : Bytes) (fuel : Nat) (s : σ), buf.length ≤ n →
      buf.length < fuel → readFieldsLoop lift step fuel buf s = .ok r → ∃ ts, Reads buf ts from
    hloop _ buf _ s (Nat.le_refl _) (Nat.lt_succ_self _) h
  intro n
  induction n with
  | zero =>
      intro buf fuel s hn _ _
      have hnil : buf = [] := List.length_eq_zero_iff.mp (by omega)
      exact ⟨[], hnil ▸ Reads.nil⟩
  | succ n ih =>
      intro buf fuel s hn hfuel hread
      by_cases hnil : buf = []
      · exact ⟨[], hnil ▸ Reads.nil⟩
      obtain ⟨fuel, rfl⟩ := Nat.exists_eq_succ_of_ne_zero (show fuel ≠ 0 by omega)
      rw [readFieldsLoop, Protobuf.nextField,
        nextFieldLoop_fuel (Nat.le_refl _) (Nat.le_succ _), nextFieldLoop_succ _ hnil] at hread
      cases htoken : token buf with
      | error e =>
          rw [htoken] at hread
          cases hread
      | ok t =>
          obtain ⟨t, rest⟩ := t
          have hless := (token_append htoken).1
          rw [htoken] at hread
          cases t with
          | field f =>
              dsimp only at hread
              cases hstep : step s f with
              | error e =>
                  rw [hstep] at hread
                  cases hread
              | ok s' =>
                  rw [hstep] at hread
                  obtain ⟨ts, hts⟩ := ih rest fuel s' (by omega) (by omega) hread
                  exact ⟨_, Reads.cons htoken hts⟩
          | fixed m =>
              -- the same round on the bytes behind what was skipped
              have hrest : readFieldsLoop lift step (fuel + 1) rest s = .ok r := by
                rw [readFieldsLoop, Protobuf.nextField,
                  nextFieldLoop_fuel (Nat.le_refl _) (show rest.length ≤ buf.length by omega)]
                exact hread
              obtain ⟨ts, hts⟩ := ih rest (fuel + 1) s (by omega) (by omega) hrest
              exact ⟨_, Reads.cons htoken hts⟩

theorem firstVarint_of_reads {buf : Bytes} {ts : List Token} (h : Reads buf ts) (n : Nat) :
    firstVarint buf n = .ok (lastVarint n (fields ts)) := by
  rw [firstVarint, readFields_of_reads id _ h]
  exact foldlM_varint n (fields ts)

theorem firstBytes_of_reads {buf : Bytes} {ts : List Token} (h : Reads buf ts) (n : Nat) :
    firstBytes buf n = .ok (lastBytes n (fields ts)) := by
  rw [firstBytes, readFields_of_reads id _ h]
  exact foldlM_bytes n (fields ts)

/-- **The last field with bytes under a number**, with what stands in front of it and
behind it. -/
theorem Reads.split_last {buf v : Bytes} {ts : List Token} {n : Nat} (h : Reads buf ts)
    (hlast : lastBytes n (fields ts) = some v) :
    ∃ front head behind before later, buf = front ++ ((head ++ v) ++ behind) ∧
      Reads front before ∧ Reads (head ++ v) [.field (.bytes n v)] ∧ Reads behind later ∧
      lastBytes n (fields later) = none := by
  induction h with
  | nil => cases hlast
  | @cons buf rest t ts first more ih =>
      obtain ⟨piece, rfl, hpiece, hcarried⟩ := token_front first
      have hone : Reads piece [t] := Reads.cons hpiece Reads.nil
      cases hmore : lastBytes n (fields ts) with
      | some w =>
          have hw : w = v := by
            cases t with
            | fixed m => simpa [hmore] using hlast
            | field f => simpa [hmore] using hlast
          obtain ⟨front, head, behind, before, later, rfl, hfront, hframe, hbehind, hnone⟩ :=
            ih (hw ▸ hmore)
          exact ⟨piece ++ front, head, behind, t :: before, later, by simp,
            hone.append hfront, hframe, hbehind, hnone⟩
      | none =>
          have ht : t = .field (.bytes n v) := by
            cases t with
            | fixed m => simp [hmore] at hlast
            | field f =>
                cases f with
                | varint m x => simp [hmore] at hlast
                | bytes m x =>
                    simp only [fields_field, lastBytes_cons, hmore, Field.bytes?_bytes,
                      Option.none_or] at hlast
                    split at hlast
                    next hm => rw [hm, Option.some.inj hlast]
                    · cases hlast
          obtain ⟨head, rfl⟩ := hcarried n v ht
          exact ⟨[], head, rest, [], ts, by simp, Reads.nil, ht ▸ hone, more, hmore⟩

end Protobuf

end Protocol
