import TarishDaemon.Lib.Turns
import TarishDaemon.Sharingd.DnsRound

/-!
# Following a name

A name may jump about in the packet, and the reader goes on behind the part of it that
stands where it began.  The walk is a loop without a bound on its turns, as the source
has it (`turn`).  What lets it end is what the two limits leave, which a label and a jump
both lower (`turn_lowers`).

`Follows` is the labels that a place in the packet leads to, and `Ends` where the name
ends in place: neither knows of a limit.
-/

namespace Sharingd

open Rust Layout Turns
open Plist (slice slice_stands stands_of_slice)

namespace Dns

/-- The variables of the loop of `Reader::name`. -/
structure Walk where
  out : Text
  pos : Nat
  jumps : Nat
  behind : Option Nat
  deriving DecidableEq, Repr

variable (buf : Bytes)

/-- Where a pointer leads. -/
def target (len lo : UInt8) : Nat :=
  len.toNat % 64 * 256 + lo.toNat

/-- One turn of the loop of `Reader::name`: the walk goes on, or there is a result, which
may be that the name is refused. -/
def turn (w : Walk) : Option (Text × Nat) ⊕ Walk :=
  match buf[w.pos]? with
  | none => .inl none
  | some len =>
      if len.toNat / 64 = 3 then
        match buf[w.pos + 1]? with
        | none => .inl none
        | some lo =>
            if w.jumps + 1 > maxJumps ∨ target len lo ≥ buf.length then .inl none
            else .inr { w with
              pos := target len lo
              jumps := w.jumps + 1
              behind := some (w.behind.getD (w.pos + 2)) }
      else if len.toNat = 0 then .inl (some (w.out, w.behind.getD (w.pos + 1)))
      else
        match slice buf (w.pos + 1) (w.pos + 1 + len.toNat) with
        | none => .inl none
        | some label =>
            if (asBytes w.out).length + label.length + 1 > maxName then .inl none
            else
              match fromUtf8 label with
              | none => .inl none
              | some t => .inr { w with
                  out := pushLabel w.out t
                  pos := w.pos + 1 + len.toNat }

/-- Where the walk begins. -/
def outset (pos : Nat) : Walk :=
  { out := [], pos, jumps := 0, behind := none }

variable {buf} {w w' : Walk}

/-- The bounded loop takes the same turns. -/
theorem nameLoop_eq_bounded (fuel : Nat) (w : Walk) :
    nameLoop buf fuel w.out w.pos w.jumps w.behind = (bounded (turn buf) fuel w).join := by
  induction fuel generalizing w with
  | zero => rfl
  | succ fuel ih =>
      rw [nameLoop, bounded, turn]
      cases buf[w.pos]? with
      | none => rfl
      | some len =>
          dsimp only
          by_cases hkind : len.toNat / 64 = 3
          · rw [if_pos hkind, if_pos hkind]
            cases buf[w.pos + 1]? with
            | none => rfl
            | some lo =>
                dsimp only
                rw [← target]
                by_cases hrefused : w.jumps + 1 > maxJumps ∨ target len lo ≥ buf.length
                · rw [if_pos hrefused, if_pos hrefused]
                  rfl
                · rw [if_neg hrefused, if_neg hrefused]
                  exact ih { w with
                    pos := target len lo
                    jumps := w.jumps + 1
                    behind := some (w.behind.getD (w.pos + 2)) }
          rw [if_neg hkind, if_neg hkind]
          by_cases hend : len.toNat = 0
          · rw [if_pos hend, if_pos hend]
            rfl
          rw [if_neg hend, if_neg hend]
          cases slice buf (w.pos + 1) (w.pos + 1 + len.toNat) with
          | none => rfl
          | some label =>
              dsimp only
              by_cases hlong : (asBytes w.out).length + label.length + 1 > maxName
              · rw [if_pos hlong, if_pos hlong]
                rfl
              rw [if_neg hlong, if_neg hlong]
              cases fromUtf8 label with
              | none => rfl
              | some t =>
                  exact ih { w with
                    out := pushLabel w.out t
                    pos := w.pos + 1 + len.toNat }

/-! ## What one turn does -/

/-- A pointer stands at a place and leads to another. -/
def Points (buf : Bytes) (pos goal : Nat) : Prop :=
  ∃ len lo : UInt8, Stands buf pos [len, lo] ∧ len.toNat / 64 = 3 ∧ goal = target len lo

/-- A label stands at a place.  The reader takes one for a label as long as its length does
not say that it is a pointer. -/
structure Labels (buf : Bytes) (pos : Nat) (label : Text) : Prop where
  stands : Stands buf pos (encodeLabel label)
  nonempty : label ≠ []
  short : (asBytes label).length < 192

/-- The place behind a label. -/
def pastLabel (pos : Nat) (label : Text) : Nat :=
  pos + 1 + (asBytes label).length

/-- What the reader takes for a label is one. -/
theorem labels_of_slice {pos : Nat} {len : UInt8} {raw : Bytes} {label : Text}
    (hlen : buf[pos]? = some len) (hkind : ¬ len.toNat / 64 = 3) (hsome : ¬ len.toNat = 0)
    (hraw : slice buf (pos + 1) (pos + 1 + len.toNat) = some raw)
    (htext : fromUtf8 raw = some label) :
    Labels buf pos label ∧ raw = asBytes label ∧ (asBytes label).length = len.toNat := by
  obtain ⟨hbody, hlength⟩ := stands_of_slice hraw
  have hbytes := asBytes_of_fromUtf8 htext
  rw [← hbytes] at hbody hlength
  have hbyte : len.toNat < 256 := len.toNat_lt
  have hcount : (asBytes label).length = len.toNat := by omega
  refine ⟨⟨?_, ?_, by omega⟩, hbytes.symm, hcount⟩
  · rw [encodeLabel, hcount, UInt8.ofNat_toNat]
    exact (stands_of_getElem? hlen).append hbody
  · intro hempty
    rw [hempty] at hcount
    exact hsome hcount.symm

/-- A name is complete only where a zero stands. -/
theorem of_turn_stop {s : Text} {behind : Nat} (h : turn buf w = .inl (some (s, behind))) :
    Stands buf w.pos [0] ∧ s = w.out ∧ behind = w.behind.getD (w.pos + 1) := by
  unfold turn at h
  cases hlen : buf[w.pos]? with
  | none =>
      rw [hlen] at h
      cases h
  | some len =>
      rw [hlen] at h
      dsimp only at h
      split at h
      · split at h
        · cases h
        split at h <;> cases h
      split at h
      next hend =>
        cases h
        have hzero : len = 0 := UInt8.toNat_inj.mp hend
        exact ⟨hzero ▸ stands_of_getElem? hlen, rfl, rfl⟩
      split at h
      · cases h
      split at h
      · cases h
      split at h <;> cases h

/-- **The walk goes on** over a pointer, while it may still jump, or over a label that the
name has room for. -/
theorem of_turn_next (h : turn buf w = .inr w') :
    (∃ goal, Points buf w.pos goal ∧ w.jumps < maxJumps ∧
      w' = { w with
        pos := goal
        jumps := w.jumps + 1
        behind := some (w.behind.getD (w.pos + 2)) }) ∨
    ∃ label, Labels buf w.pos label ∧
      (asBytes w.out).length + (asBytes label).length + 1 ≤ maxName ∧
      w' = { w with
        out := pushLabel w.out label
        pos := pastLabel w.pos label } := by
  unfold turn at h
  cases hlen : buf[w.pos]? with
  | none =>
      rw [hlen] at h
      cases h
  | some len =>
      have hstands := stands_of_getElem? hlen
      rw [hlen] at h
      dsimp only at h
      split at h
      next hkind =>
        left
        cases hlo : buf[w.pos + 1]? with
        | none =>
            rw [hlo] at h
            cases h
        | some lo =>
            rw [hlo] at h
            dsimp only at h
            split at h
            · cases h
            next hmay =>
            cases h
            have hpair := hstands.append (stands_of_getElem? hlo)
            exact ⟨target len lo, ⟨len, lo, hpair, hkind, rfl⟩, by omega, rfl⟩
      next hkind =>
      split at h
      · cases h
      next hsome =>
      right
      cases hraw : slice buf (w.pos + 1) (w.pos + 1 + len.toNat) with
      | none =>
          rw [hraw] at h
          cases h
      | some raw =>
          rw [hraw] at h
          dsimp only at h
          split at h
          · cases h
          next hroom =>
          cases htext : fromUtf8 raw with
          | none =>
              rw [htext] at h
              cases h
          | some label =>
              rw [htext] at h
              cases h
              obtain ⟨hlabel, rfl, hcount⟩ := labels_of_slice hlen hkind hsome hraw htext
              exact ⟨label, hlabel, by omega, by rw [pastLabel, hcount]⟩

/-- **Every turn lowers what the two limits leave.** -/
theorem turn_lowers (w w' : Walk) (h : turn buf w = .inr w') :
    turnsLeft w'.out w'.jumps < turnsLeft w.out w.jumps := by
  unfold turnsLeft
  rcases of_turn_next h with ⟨goal, -, hmay, rfl⟩ | ⟨label, hlabel, hroom, rfl⟩
  · dsimp only
    omega
  · have hgrows := @length_pushLabel label w.out
    have hpos := asBytes_ne_nil hlabel.nonempty
    dsimp only
    omega

/-- The turns a reader is given are enough for any name. -/
theorem bounded_walk (buf : Bytes) (pos : Nat) :
    bounded (turn buf) (maxName + maxJumps + 2) (outset pos) = some (readName buf pos) := by
  have hfuel : turnsLeft (outset pos).out (outset pos).jumps < maxName + maxJumps + 2 := by
    unfold turnsLeft
    omega
  obtain ⟨r, hr⟩ := bounded_of_measure turn_lowers hfuel
  have hread := @nameLoop_eq_bounded buf (maxName + maxJumps + 2) (outset pos)
  rw [hr, Option.join_some] at hread
  rw [hr, ← hread]
  rfl

/-- **The walk ends, and the bounded loop comes to what it comes to.** -/
theorem readName_mem_loop (pos : Nat) : readName buf pos ∈ loop (turn buf) (outset pos) :=
  mem_loop_of_bounded (bounded_walk buf pos)

/-- More turns than a name can take change nothing. -/
theorem readName_enough (buf : Bytes) (pos more : Nat) :
    nameLoop buf (maxName + maxJumps + 2 + more) [] pos 0 none = readName buf pos := by
  have hread := @nameLoop_eq_bounded buf (maxName + maxJumps + 2 + more) (outset pos)
  rw [bounded_add more (bounded_walk buf pos), Option.join_some] at hread
  exact hread

/-! ## What the packet says -/

/-- From `pos` the packet leads to these labels, over so many pointers. -/
inductive Follows (buf : Bytes) : Nat → List Text → Nat → Prop
  | finish {pos : Nat} (zero : Stands buf pos [0]) : Follows buf pos [] 0
  | label {pos jumps : Nat} {label : Text} {labels : List Text} (first : Labels buf pos label)
      (more : Follows buf (pastLabel pos label) labels jumps) :
      Follows buf pos (label :: labels) jumps
  | pointer {pos goal jumps : Nat} {labels : List Text} (first : Points buf pos goal)
      (more : Follows buf goal labels jumps) : Follows buf pos labels (jumps + 1)

/-- The name that begins at `pos` ends there in front of `behind`: with its zero, or with
its first pointer. -/
inductive Ends (buf : Bytes) : Nat → Nat → Prop
  | finish {pos : Nat} (zero : Stands buf pos [0]) : Ends buf pos (pos + 1)
  | label {pos behind : Nat} {label : Text} (first : Labels buf pos label)
      (more : Ends buf (pastLabel pos label) behind) : Ends buf pos behind
  | pointer {pos goal : Nat} (first : Points buf pos goal) : Ends buf pos (pos + 2)

theorem Labels.getElem? {pos : Nat} {label : Text} (h : Labels buf pos label) :
    ∃ len : UInt8, buf[pos]? = some len ∧ len.toNat = (asBytes label).length ∧
      0 < len.toNat ∧ len.toNat < 192 := by
  have hpos := asBytes_ne_nil h.nonempty
  have hshort := h.short
  have hcount := toNat_ofNat_byte (n := (asBytes label).length) (by omega)
  exact ⟨_, h.stands.getElem?, hcount, by omega, by omega⟩

theorem Points.getElem? {pos goal : Nat} (h : Points buf pos goal) :
    ∃ len : UInt8, buf[pos]? = some len ∧ 192 ≤ len.toNat := by
  obtain ⟨len, lo, hstands, hkind, -⟩ := h
  exact ⟨len, hstands.getElem?, by omega⟩

theorem Labels.unique {pos : Nat} {label label' : Text} (h : Labels buf pos label)
    (h' : Labels buf pos label') : label = label' := by
  obtain ⟨len, hlen, hcount, -, -⟩ := h.getElem?
  obtain ⟨len', hlen', hcount', -, -⟩ := h'.getElem?
  cases hlen.symm.trans hlen'
  -- the same bytes of one packet
  have hsame := h.stands.tail.take_drop
  rw [← hcount, hcount', h'.stands.tail.take_drop] at hsame
  have htext := fromUtf8_asBytes label
  rw [← hsame, fromUtf8_asBytes] at htext
  exact (Option.some.inj htext).symm

theorem Points.unique {pos goal goal' : Nat} (h : Points buf pos goal)
    (h' : Points buf pos goal') : goal = goal' := by
  obtain ⟨len, lo, hstands, -, rfl⟩ := h
  obtain ⟨len', lo', hstands', -, rfl⟩ := h'
  cases hstands.getElem?.symm.trans hstands'.getElem?
  cases hstands.tail.getElem?.symm.trans hstands'.tail.getElem?
  rfl

/-- A zero, a label and a pointer begin with different bytes. -/
theorem Labels.not_zero {pos : Nat} {label : Text} (h : Labels buf pos label) :
    ¬ Stands buf pos [0] := by
  intro hzero
  obtain ⟨len, hlen, -, hpos, -⟩ := h.getElem?
  cases hlen.symm.trans hzero.getElem?
  exact absurd hpos (by decide)

theorem Points.not_zero {pos goal : Nat} (h : Points buf pos goal) : ¬ Stands buf pos [0] := by
  intro hzero
  obtain ⟨len, hlen, hbig⟩ := h.getElem?
  cases hlen.symm.trans hzero.getElem?
  exact absurd hbig (by decide)

theorem Points.not_labels {pos goal : Nat} {label : Text} (h : Points buf pos goal) :
    ¬ Labels buf pos label := by
  intro hlabel
  obtain ⟨len, hlen, hbig⟩ := h.getElem?
  obtain ⟨len', hlen', -, -, hsmall⟩ := hlabel.getElem?
  cases hlen.symm.trans hlen'
  omega

/-- **A place leads to one name.** -/
theorem Follows.unique {pos jumps jumps' : Nat} {labels labels' : List Text}
    (h : Follows buf pos labels jumps) (h' : Follows buf pos labels' jumps') :
    labels = labels' ∧ jumps = jumps' := by
  induction h generalizing labels' jumps' with
  | finish zero =>
      cases h' with
      | finish _ => exact ⟨rfl, rfl⟩
      | label first' _ => exact absurd zero first'.not_zero
      | pointer first' _ => exact absurd zero first'.not_zero
  | label first _ ih =>
      cases h' with
      | finish zero' => exact absurd zero' first.not_zero
      | label first' more' =>
          cases first.unique first'
          obtain ⟨rfl, rfl⟩ := ih more'
          exact ⟨rfl, rfl⟩
      | pointer first' _ => exact absurd first first'.not_labels
  | pointer first _ ih =>
      cases h' with
      | finish zero' => exact absurd zero' first.not_zero
      | label first' _ => exact absurd first' first.not_labels
      | pointer first' more' =>
          cases first.unique first'
          obtain ⟨rfl, rfl⟩ := ih more'
          exact ⟨rfl, rfl⟩

theorem Follows.nonempty {pos jumps : Nat} {labels : List Text}
    (h : Follows buf pos labels jumps) : ∀ label ∈ labels, label ≠ [] := by
  induction h with
  | finish _ => simp
  | label first _ ih => exact List.forall_mem_cons.mpr ⟨first.nonempty, ih⟩
  | pointer _ _ ih => exact ih

/-- A name takes at least one byte where it stands, and none behind the packet. -/
theorem Ends.within {pos behind : Nat} (h : Ends buf pos behind) :
    pos < behind ∧ behind ≤ buf.length := by
  induction h with
  | finish zero => exact ⟨Nat.lt_succ_self _, zero.length_le⟩
  | label first more ih =>
      unfold pastLabel at ih
      omega
  | pointer first =>
      obtain ⟨len, lo, hstands, -, -⟩ := first
      exact ⟨by omega, hstands.length_le⟩

/-! ## What a walk comes to -/

/-- What a name that is read has to do with the place `w` on the way to it: the packet
leads from there to the rest of its labels, within the limits. -/
def Reached (buf : Bytes) (w : Walk) (r : Option (Text × Nat)) : Prop :=
  ∀ s behind, r = some (s, behind) → w.jumps ≤ maxJumps → (asBytes w.out).length ≤ maxName →
    ∃ labels jumps inPlace, Follows buf w.pos labels jumps ∧ w.jumps + jumps ≤ maxJumps ∧
      s = labels.foldl pushLabel w.out ∧ (asBytes s).length ≤ maxName ∧
      Ends buf w.pos inPlace ∧ behind = w.behind.getD inPlace

theorem reached_stop (w : Walk) (r : Option (Text × Nat)) (h : turn buf w = .inl r) :
    Reached buf w r := by
  intro s behind hsome hjumps hout
  rw [hsome] at h
  obtain ⟨zero, rfl, rfl⟩ := of_turn_stop h
  exact ⟨[], 0, w.pos + 1, Follows.finish zero, hjumps, rfl, hout, Ends.finish zero, rfl⟩

theorem reached_next (w w' : Walk) (r : Option (Text × Nat)) (h : turn buf w = .inr w')
    (hr : Reached buf w' r) : Reached buf w r := by
  intro s behind hsome hjumps hout
  rcases of_turn_next h with ⟨goal, first, hmay, rfl⟩ | ⟨label, first, hroom, rfl⟩
  · obtain ⟨labels, jumps, inPlace, hfollows, hbound, hs, hshort, -, hbehind⟩ :=
      hr s behind hsome hmay hout
    dsimp only at hfollows hbound hs hbehind
    exact ⟨labels, jumps + 1, w.pos + 2, Follows.pointer first hfollows, by omega, hs, hshort,
      Ends.pointer first, hbehind⟩
  · have hfits : (asBytes (pushLabel w.out label)).length ≤ maxName := by
      rw [length_pushLabel]
      split <;> omega
    obtain ⟨labels, jumps, inPlace, hfollows, hbound, hs, hshort, hends, hbehind⟩ :=
      hr s behind hsome hjumps hfits
    exact ⟨label :: labels, jumps, inPlace, Follows.label first hfollows, hbound, hs, hshort,
      Ends.label first hends, hbehind⟩

/-- A name of the packet: the labels that some place leads to, within the limits. -/
def Named (buf : Bytes) (pos : Nat) (s : Text) : Prop :=
  (asBytes s).length ≤ maxName ∧
    ∃ labels jumps, Follows buf pos labels jumps ∧ jumps ≤ maxJumps ∧ s = joinLabels labels

/-- What is read at a place is the name there, and the reader goes on behind it. -/
theorem named_of_readName {pos behind : Nat} {s : Text}
    (h : readName buf pos = some (s, behind)) : Named buf pos s ∧ Ends buf pos behind := by
  have hreached : Reached buf (outset pos) (readName buf pos) :=
    loop_induction reached_stop reached_next (readName_mem_loop pos)
  obtain ⟨labels, jumps, inPlace, hfollows, hbound, hs, hshort, hends, hbehind⟩ :=
    hreached s behind h (Nat.zero_le _) (Nat.zero_le _)
  have hjumps : 0 + jumps ≤ maxJumps := hbound
  have hname : s = joinLabels labels := hs.trans (joinLabels_eq hfollows.nonempty).symm
  have hplace : behind = inPlace := hbehind
  rw [hplace]
  exact ⟨⟨hshort, labels, jumps, hfollows, by omega, hname⟩, hends⟩

/-- **Reading a name is bounded.**  From any place in any packet the walk ends; and where
it gives a name, that has at most 255 bytes and is the labels that the packet leads to,
over sixteen pointers at most, and the reader goes on behind the part that stands where
it began. -/
theorem readName_bounded (buf : Bytes) (pos : Nat) :
    readName buf pos ∈ loop (turn buf) (outset pos) ∧
      ∀ s behind, readName buf pos = some (s, behind) →
        (asBytes s).length ≤ maxName ∧
        (∃ labels jumps, Follows buf pos labels jumps ∧ jumps ≤ maxJumps ∧
          s = joinLabels labels ∧
          ∀ labels' jumps', Follows buf pos labels' jumps' → labels' = labels) ∧
        Ends buf pos behind ∧ pos < behind ∧ behind ≤ buf.length := by
  refine ⟨readName_mem_loop pos, fun s behind h => ?_⟩
  obtain ⟨⟨hshort, labels, jumps, hfollows, hjumps, hname⟩, hends⟩ := named_of_readName h
  exact ⟨hshort, ⟨labels, jumps, hfollows, hjumps, hname,
    fun labels' jumps' h' => (h'.unique hfollows).1⟩, hends, hends.within⟩

/-- A label, and a pointer to one that stands in front of it. -/
theorem readName_bounded_pointer :
    (asBytes "b.a".toList).length ≤ maxName ∧ Ends [1, 97, 0, 1, 98, 0xC0, 0] 3 7 := by
  have hread : readName [1, 97, 0, 1, 98, 0xC0, 0] 3 = some ("b.a".toList, 7) := by decide +kernel
  obtain ⟨hshort, -, hends, -⟩ := (readName_bounded _ 3).2 _ _ hread
  exact ⟨hshort, hends⟩

/-! ## Packets -/

theorem of_readMany {α : Type} {read : Nat → Option (α × Nat)} {n pos behind : Nat}
    {xs : List α} (h : readMany read n pos = some (xs, behind)) :
    ∀ x ∈ xs, ∃ a b, read a = some (x, b) := by
  induction n generalizing pos xs with
  | zero =>
      cases h
      simp
  | succ n ih =>
      obtain ⟨⟨x, next⟩, hread, h⟩ := Option.bind_eq_some_iff.mp h
      obtain ⟨⟨rest, last⟩, hmany, h⟩ := Option.bind_eq_some_iff.mp h
      cases h
      intro y hy
      rcases List.mem_cons.mp hy with hy | hy
      · rw [hy]
        exact ⟨pos, next, hread⟩
      · exact ih hmany y hy

theorem named_of_readQuestion {pos behind : Nat} {q : Question}
    (h : readQuestion buf pos = some (q, behind)) : Named buf pos q.name := by
  obtain ⟨⟨name, next⟩, hname, h⟩ := Option.bind_eq_some_iff.mp h
  obtain ⟨_, _, h⟩ := Option.bind_eq_some_iff.mp h
  obtain ⟨_, _, h⟩ := Option.bind_eq_some_iff.mp h
  cases h
  exact (named_of_readName hname).1

theorem named_of_readRecord {pos behind : Nat} {r : Record}
    (h : readRecord buf pos = some (r, behind)) : Named buf pos r.name := by
  obtain ⟨⟨name, next⟩, hname, h⟩ := Option.bind_eq_some_iff.mp h
  obtain ⟨_, _, h⟩ := Option.bind_eq_some_iff.mp h
  obtain ⟨_, _, h⟩ := Option.bind_eq_some_iff.mp h
  obtain ⟨_, _, h⟩ := Option.bind_eq_some_iff.mp h
  obtain ⟨_, _, h⟩ := Option.bind_eq_some_iff.mp h
  obtain ⟨_, _, h⟩ := Option.bind_eq_some_iff.mp h
  cases h
  exact (named_of_readName hname).1

/-- **Every name of a packet that is accepted is one of its names.** -/
theorem parse_named {msg : Message} (h : parse buf = some msg) :
    (∀ q ∈ msg.questions, ∃ pos, Named buf pos q.name) ∧
      ∀ r ∈ msg.records, ∃ pos, Named buf pos r.name := by
  unfold parse at h
  -- the six numbers of the header
  obtain ⟨_, _, h⟩ := Option.bind_eq_some_iff.mp h
  obtain ⟨_, _, h⟩ := Option.bind_eq_some_iff.mp h
  obtain ⟨_, _, h⟩ := Option.bind_eq_some_iff.mp h
  obtain ⟨_, _, h⟩ := Option.bind_eq_some_iff.mp h
  obtain ⟨_, _, h⟩ := Option.bind_eq_some_iff.mp h
  obtain ⟨_, _, h⟩ := Option.bind_eq_some_iff.mp h
  dsimp only at h
  split at h
  · cases h
  obtain ⟨⟨questions, behind⟩, hquestions, h⟩ := Option.bind_eq_some_iff.mp h
  dsimp only at h
  split at h
  · cases h
  obtain ⟨⟨records, last⟩, hrecords, h⟩ := Option.bind_eq_some_iff.mp h
  cases h
  refine ⟨fun q hq => ?_, fun r hr => ?_⟩
  · obtain ⟨pos, next, hread⟩ := of_readMany hquestions q hq
    exact ⟨pos, named_of_readQuestion hread⟩
  · obtain ⟨pos, next, hread⟩ := of_readMany hrecords r hr
    exact ⟨pos, named_of_readRecord hread⟩

end Dns

end Sharingd
