import Mathlib.Data.Nat.Bitwise
import TarishDaemon.Rust.Utf16
import TarishDaemon.Sharingd.Extract

/-!
# Apple's blocks

The body of an upload is a row of blocks: four bytes that say how long one is and whether it is
stored or deflated, and the block.  `FramedReader` takes them apart one at a time, from a source
that gives as little as it likes and may be interrupted, for a reader that asks for as little as
it likes.

What comes out is what the blocks hold, one after the other (`read_framed`); and no row of blocks
begins as a gzip file does.
-/

namespace Sharingd.Framed

open Rust

/-! ## The source -/

inductive IoError
  | interrupted
  | tooLong (len : Nat)
  | corrupt
  | other
  deriving DecidableEq, Repr

/-- What a source does when it is asked: nothing yet, or it gives no more than so many bytes. -/
inductive Turn
  | interrupted
  | gives (most : Nat)
  deriving DecidableEq, Repr

/-- The bytes that are to come, and in which turns; behind these all is given that is asked
for.  In the end it may fail. -/
structure Feed where
  bytes : Bytes
  turns : List Turn := []
  broken : Bool := false
  deriving DecidableEq, Repr

namespace Feed

def give (s : Feed) (n : Nat) : Except IoError Bytes × Feed :=
  if s.bytes = [] then (if s.broken then .error .other else .ok [], s)
  else (.ok (s.bytes.take n), { s with bytes := s.bytes.drop n })

/-- `read` into a buffer of `want` bytes. -/
def read (s : Feed) (want : Nat) : Except IoError Bytes × Feed :=
  match s.turns with
  | [] => s.give want
  | .interrupted :: turns => (.error .interrupted, { s with turns })
  | .gives most :: turns => { s with turns }.give (min want (max 1 most))

theorem give_ok {s s' : Feed} {n : Nat} {data : Bytes} (h : s.give n = (.ok data, s')) :
    s.bytes = data ++ s'.bytes ∧ s'.turns = s.turns ∧ s'.broken = s.broken ∧
      data.length ≤ n := by
  unfold give at h
  split at h
  · next hnil =>
      cases hbroken : s.broken with
      | true => simp [hbroken] at h
      | false =>
          obtain ⟨rfl, rfl⟩ : data = [] ∧ s' = s := by
            simpa [hbroken, eq_comm] using h
          simp [hnil, hbroken]
  · cases h
    refine ⟨(List.take_append_drop n s.bytes).symm, rfl, rfl, ?_⟩
    rw [List.length_take]
    exact Nat.min_le_left _ _

theorem give_error {s s' : Feed} {n : Nat} {e : IoError} (h : s.give n = (.error e, s')) :
    s.broken = true ∧ e = .other := by
  unfold give at h
  split at h
  · cases hbroken : s.broken with
    | true =>
        obtain ⟨rfl, -⟩ : IoError.other = e ∧ s = s' := by simpa [hbroken] using h
        exact ⟨rfl, rfl⟩
    | false => simp [hbroken] at h
  · cases h

theorem read_ok {s s' : Feed} {want : Nat} {data : Bytes} (h : s.read want = (.ok data, s')) :
    s.bytes = data ++ s'.bytes ∧ s'.turns.length ≤ s.turns.length ∧ s'.broken = s.broken ∧
      data.length ≤ want := by
  unfold read at h
  split at h
  · obtain ⟨hbytes, hturns, hbroken, hlen⟩ := give_ok h
    exact ⟨hbytes, by rw [hturns], hbroken, hlen⟩
  · cases h
  · next hs =>
      obtain ⟨hbytes, hturns, hbroken, hlen⟩ := give_ok h
      refine ⟨hbytes, ?_, hbroken, by omega⟩
      rw [hturns, hs]
      exact Nat.le_succ _

theorem read_interrupted {s s' : Feed} {want : Nat}
    (h : s.read want = (.error .interrupted, s')) :
    s'.bytes = s.bytes ∧ s'.turns.length < s.turns.length ∧ s'.broken = s.broken := by
  unfold read at h
  split at h
  · exact absurd (give_error h).2 (by decide)
  · next hs =>
      cases h
      simp [hs]
  · exact absurd (give_error h).2 (by decide)

theorem give_empty {s s' : Feed} {n : Nat} (hn : 0 < n) (h : s.give n = (.ok [], s')) :
    s.bytes = [] := by
  by_contra hmore
  rw [give, if_neg hmore] at h
  have hnone : s.bytes.take n = [] := by simpa using congrArg Prod.fst h
  have hlen := congrArg List.length hnone
  have hpos := List.length_pos_of_ne_nil hmore
  rw [List.length_take, List.length_nil] at hlen
  omega

/-- A source with something left gives some of it. -/
theorem read_empty {s s' : Feed} {want : Nat} (hwant : 0 < want)
    (h : s.read want = (.ok [], s')) : s.bytes = [] := by
  unfold read at h
  split at h
  · exact give_empty hwant h
  · cases h
  · next most turns _ =>
      have hmore : 0 < min want (max 1 most) := by omega
      exact give_empty (s := { s with turns }) hmore h

theorem read_fails {s s' : Feed} {want : Nat} {e : IoError} (h : s.read want = (.error e, s'))
    (hother : e ≠ .interrupted) : s.broken = true := by
  unfold read at h
  split at h
  · exact (give_error h).1
  · cases h
    exact absurd rfl hother
  · exact (give_error h).1

end Feed

/-- The loop of `read_full`: `left` bytes are missing. -/
def readFullLoop (left : Nat) (got : Bytes) (s : Feed) : Except IoError Bytes × Feed :=
  if left = 0 then (.ok got, s)
  else
    match _hread : s.read left with
    | (.ok [], s) => (.ok got, s)
    | (.ok (b :: data), s) => readFullLoop (left - (b :: data).length) (got ++ b :: data) s
    | (.error .interrupted, s) => readFullLoop left got s
    | (.error e, s) => (.error e, s)
termination_by s.turns.length + left
decreasing_by
  · have hturns := (Feed.read_ok _hread).2.1
    simp only [List.length_cons]
    omega
  · have hturns := (Feed.read_interrupted _hread).2.1
    omega

/-- Read until the buffer is full or the source ends. -/
def readFull (len : Nat) (s : Feed) : Except IoError Bytes × Feed :=
  readFullLoop len [] s

/-- What is read is the front of what there was. -/
theorem readFullLoop_ok {left : Nat} {got data : Bytes} {s s' : Feed}
    (h : readFullLoop left got s = (.ok data, s')) : got ++ s.bytes = data ++ s'.bytes := by
  fun_induction readFullLoop left got s with
  | case1 got s =>
      cases h
      rfl
  | case2 left got s hleft s₁ hread =>
      cases h
      have hbytes := (Feed.read_ok hread).1
      rw [hbytes, List.nil_append]
  | case3 left got s hleft b more s₁ hread ih =>
      have hbytes := (Feed.read_ok hread).1
      rw [hbytes, ← ih h, List.append_assoc]
  | case4 left got s hleft s₁ hread ih =>
      rw [← (Feed.read_interrupted hread).1]
      exact ih h
  | case5 => cases h

/-- However it comes, it is all read. -/
theorem readFullLoop_whole (left : Nat) (got : Bytes) (s : Feed) (whole : s.broken = false) :
    ∃ s', readFullLoop left got s = (.ok (got ++ s.bytes.take left), s') ∧
      s'.bytes = s.bytes.drop left ∧ s'.broken = false := by
  fun_induction readFullLoop left got s with
  | case1 got s => exact ⟨s, by simp, by simp, whole⟩
  | case2 left got s hleft s₁ hread =>
      have hnil := Feed.read_empty (Nat.pos_of_ne_zero hleft) hread
      obtain ⟨hbytes, -, hbroken, -⟩ := Feed.read_ok hread
      have hrest : s₁.bytes = [] := by rw [← hnil, hbytes, List.nil_append]
      exact ⟨s₁, by simp [hnil], by simp [hnil, hrest], hbroken.trans whole⟩
  | case3 left got s hleft b more s₁ hread ih =>
      obtain ⟨hbytes, -, hbroken, hlen⟩ := Feed.read_ok hread
      obtain ⟨s₂, hloop, hrest, hwhole⟩ := ih (hbroken.trans whole)
      refine ⟨s₂, ?_, ?_, hwhole⟩
      · rw [hloop, hbytes, List.take_append, List.take_of_length_le hlen, List.append_assoc]
      · rw [hrest, hbytes, List.drop_append, List.drop_eq_nil_of_le hlen, List.nil_append]
  | case4 left got s hleft s₁ hread ih =>
      obtain ⟨hbytes, -, hbroken⟩ := Feed.read_interrupted hread
      rw [← hbytes]
      exact ih (hbroken.trans whole)
  | case5 left got s hleft e s₁ hother hread =>
      have hbroken := Feed.read_fails hread fun he => hother he
      rw [whole] at hbroken
      cases hbroken

theorem readFull_whole (len : Nat) {s : Feed} (whole : s.broken = false) :
    ∃ s', readFull len s = (.ok (s.bytes.take len), s') ∧ s'.bytes = s.bytes.drop len ∧
      s'.broken = false :=
  readFullLoop_whole len [] s whole

/-! ## The reader -/

/-- Refuse a single block larger than this. -/
def maxBlock : Nat := 8 * 1024 * 1024

def storedBit : Nat := 0x80000000

def lenMask : Nat := 0x7FFFFFFF

structure FramedReader where
  inner : Feed
  buf : Bytes
  pos : Nat
  ended : Bool
  deriving DecidableEq, Repr

namespace FramedReader

def new (inner : Feed) : FramedReader where
  inner := inner
  buf := []
  pos := 0
  ended := false

section

variable (inflate : Bytes → Option Bytes)

/-- Decode the next block into `buf`; false at the end of the stream, and where it breaks off.
`inflate` is the decoder. -/
def nextBlock (r : FramedReader) : Except IoError Bool × FramedReader :=
  match readFull 4 r.inner with
  | (.error e, inner) => (.error e, { r with inner })
  | (.ok hdr, inner) =>
      if hdr.length ≠ 4 then (.ok false, { r with inner })
      else
        let len := be hdr &&& lenMask
        if len = 0 then (.ok false, { r with inner })
        else if len > maxBlock then (.error (.tooLong len), { r with inner })
        else
          match readFull len inner with
          | (.error e, inner) => (.error e, { r with inner })
          | (.ok block, inner) =>
              if block.length ≠ len then (.ok false, { r with inner })
              else
                match if be hdr &&& storedBit ≠ 0 then some block else inflate block with
                | none => (.error .corrupt, { r with inner })
                | some out => (.ok true, { r with inner, buf := out, pos := 0 })

/-- A block takes something off the source. -/
theorem nextBlock_lt {r r' : FramedReader} (h : nextBlock inflate r = (.ok true, r')) :
    r'.inner.bytes.length < r.inner.bytes.length := by
  unfold nextBlock at h
  split at h
  · cases h
  next hdr inner hhdr =>
  split at h
  · cases h
  next hfour =>
  dsimp only at h
  split at h
  · cases h
  split at h
  · cases h
  split at h
  · cases h
  next block inner' hblock =>
  split at h
  · cases h
  split at h
  · cases h
  cases h
  have hfront := congrArg List.length (readFullLoop_ok hhdr)
  have hback := congrArg List.length (readFullLoop_ok hblock)
  simp only [List.length_append, List.length_nil] at hfront hback
  show inner'.bytes.length < _
  omega

/-- `read` into a buffer of `want` bytes. -/
def read (r : FramedReader) (want : Nat) : Except IoError Bytes × FramedReader :=
  if r.pos ≥ r.buf.length then
    if r.ended then (.ok [], r)
    else
      match _hnext : nextBlock inflate r with
      | (.error e, r) => (.error e, r)
      | (.ok false, r) => (.ok [], { r with ended := true })
      | (.ok true, r) => read r want
  else
    let n := min (r.buf.length - r.pos) want
    (.ok ((r.buf.drop r.pos).take n), { r with pos := r.pos + n })
termination_by r.inner.bytes.length
decreasing_by exact nextBlock_lt inflate _hnext

/-- One read after the other, while none fails. -/
def reads (r : FramedReader) : List Nat → Except IoError (List Bytes) × FramedReader
  | [] => (.ok [], r)
  | want :: wants =>
      match read inflate r want with
      | (.error e, r) => (.error e, r)
      | (.ok data, r) =>
          match reads r wants with
          | (.error e, r) => (.error e, r)
          | (.ok more, r) => (.ok (data :: more), r)

end

end FramedReader

/-! ## A row of blocks -/

variable {inflate : Bytes → Option Bytes}

/-- A block as it may be sent: what it holds, and the bytes that say so. -/
structure Block (inflate : Bytes → Option Bytes) where
  stored : Bool
  encoded : Bytes
  content : Bytes
  decodes : (if stored then some encoded else inflate encoded) = some content
  ne_nil : encoded ≠ []
  fits : encoded.length ≤ maxBlock

namespace Block

variable (b : Block inflate)

def header : Nat :=
  b.encoded.length + if b.stored then storedBit else 0

def frame : Bytes :=
  beBytes 4 b.header ++ b.encoded

theorem length_bounds : 0 < b.encoded.length ∧ b.encoded.length < 2 ^ 24 :=
  ⟨List.length_pos_of_ne_nil b.ne_nil, Nat.lt_of_le_of_lt b.fits (by decide)⟩

theorem header_lt : b.header < 256 ^ 4 := by
  have hlen := b.length_bounds.2
  unfold header storedBit
  split
  · omega
  · omega

theorem header_len : b.header &&& lenMask = b.encoded.length := by
  have hlen := b.length_bounds.2
  have hmask : lenMask = 2 ^ 31 - 1 := by decide
  rw [hmask, Nat.and_two_pow_sub_one_eq_mod]
  unfold header storedBit
  split
  · omega
  · omega

theorem header_stored : b.header &&& storedBit ≠ 0 ↔ b.stored = true := by
  have hlen := b.length_bounds.2
  have hbit : storedBit = 2 ^ 31 := by decide
  have htest : b.header.testBit 31 = b.stored := by
    rw [Nat.testBit_eq_decide_div_mod_eq]
    unfold header storedBit
    cases b.stored with
    | true => simp; omega
    | false => simp; omega
  rw [hbit, Nat.and_two_pow, htest]
  cases b.stored with
  | true => simp
  | false => simp

end Block

def frames (blocks : List (Block inflate)) : Bytes :=
  blocks.flatMap Block.frame

def contents (blocks : List (Block inflate)) : Bytes :=
  blocks.flatMap Block.content

/-- What reads of so many bytes at most give, one after the other: something of the content while
there is some, and after that the end. -/
inductive Delivers : Bytes → List Nat → List Bytes → Prop
  | nothing (content : Bytes) : Delivers content [] []
  | some {chunk rest : Bytes} {want : Nat} {wants : List Nat} {chunks : List Bytes}
      (hchunk : chunk ≠ []) (hlen : chunk.length ≤ want) (later : Delivers rest wants chunks) :
      Delivers (chunk ++ rest) (want :: wants) (chunk :: chunks)
  | ended {want : Nat} {wants : List Nat} {chunks : List Bytes}
      (later : Delivers [] wants chunks) : Delivers [] (want :: wants) ([] :: chunks)

theorem Delivers.length {content : Bytes} {wants : List Nat} {chunks : List Bytes}
    (h : Delivers content wants chunks) : chunks.length = wants.length := by
  induction h with
  | nothing content => rfl
  | some hchunk hlen later ih => rw [List.length_cons, List.length_cons, ih]
  | ended later ih => rw [List.length_cons, List.length_cons, ih]

/-- Asked often enough, it is the content that is delivered, and then the end. -/
theorem Delivers.flatten {content : Bytes} {wants : List Nat} {chunks : List Bytes}
    (h : Delivers content wants chunks) : chunks.flatten <+: content ∧
      (content.length ≤ wants.length → chunks.flatten = content) ∧
      (content.length < wants.length → chunks.getLast? = Option.some []) := by
  induction h with
  | nothing content =>
      refine ⟨List.nil_prefix, fun hlen => ?_, fun hlen => absurd hlen (Nat.not_lt_zero _)⟩
      exact (List.eq_nil_of_length_eq_zero (Nat.le_zero.mp hlen)).symm
  | @some chunk rest want wants chunks hchunk hlen later ih =>
      obtain ⟨hpre, hall, hlast⟩ := ih
      have hpos := List.length_pos_of_ne_nil hchunk
      rw [List.flatten_cons, List.length_append, List.length_cons]
      refine ⟨(List.prefix_append_right_inj chunk).mpr hpre, fun hmany => ?_, fun hmany => ?_⟩
      · rw [hall (by omega)]
      · rw [List.getLast?_cons, hlast (by omega)]
        rfl
  | @ended want wants chunks later ih =>
      obtain ⟨hpre, hall, hlast⟩ := ih
      have hnil : chunks.flatten = [] := List.prefix_nil.mp hpre
      refine ⟨by rw [List.flatten_cons, hnil]; exact List.nil_prefix,
        fun _ => by rw [List.flatten_cons, hnil]; rfl, fun _ => ?_⟩
      rw [List.getLast?_cons]
      cases wants with
      | nil =>
          rw [List.eq_nil_of_length_eq_zero later.length]
          rfl
      | cons w wants =>
          rw [hlast (Nat.succ_pos _)]
          rfl

namespace FramedReader

/-- What a reader still has to come: the blocks that its source brings, and nothing once it has
ended. -/
structure Holds (r : FramedReader) (blocks : List (Block inflate)) : Prop where
  bytes : r.inner.bytes = frames blocks
  whole : r.inner.broken = false
  ended : r.ended = true → blocks = []

/-- The rest of the last block, and those behind it. -/
def held (r : FramedReader) (blocks : List (Block inflate)) : Bytes :=
  r.buf.drop r.pos ++ contents blocks

theorem nextBlock_block {r : FramedReader} {b : Block inflate} {blocks : List (Block inflate)}
    (h : r.Holds (b :: blocks)) : ∃ inner, nextBlock inflate r =
        (.ok true, { r with inner, buf := b.content, pos := 0 }) ∧
      inner.bytes = frames blocks ∧ inner.broken = false := by
  obtain ⟨hpos, hlen⟩ := b.length_bounds
  have hbytes : r.inner.bytes = beBytes 4 b.header ++ (b.encoded ++ frames blocks) := by
    rw [h.bytes, frames, List.flatMap_cons, Block.frame, List.append_assoc]
    rfl
  obtain ⟨s₁, hread₁, hrest₁, hwhole₁⟩ := readFull_whole 4 h.whole
  rw [hbytes, List.take_left' (beBytes_length 4 _)] at hread₁
  rw [hbytes, List.drop_left' (beBytes_length 4 _)] at hrest₁
  obtain ⟨s₂, hread₂, hrest₂, hwhole₂⟩ := readFull_whole b.encoded.length hwhole₁
  rw [hrest₁, List.take_left] at hread₂
  rw [hrest₁, List.drop_left] at hrest₂
  refine ⟨s₂, ?_, hrest₂, hwhole₂⟩
  have hheader : be (beBytes 4 b.header) = b.header := be_beBytes_of_lt (by decide) b.header_lt
  have hdecodes : (if b.header &&& storedBit ≠ 0 then some b.encoded
      else inflate b.encoded) = some b.content := by
    rw [← b.decodes]
    exact if_congr b.header_stored rfl rfl
  unfold nextBlock
  rw [hread₁]
  dsimp only
  rw [if_neg (by simp), hheader, b.header_len, if_neg (by omega),
    if_neg (Nat.not_lt.mpr b.fits), hread₂]
  dsimp only
  rw [if_neg (by simp), hdecodes]

theorem nextBlock_end {r : FramedReader} (h : r.Holds ([] : List (Block inflate))) :
    ∃ inner, nextBlock inflate r = (.ok false, { r with inner }) ∧
      inner.bytes = [] ∧ inner.broken = false := by
  have hnil : r.inner.bytes = [] := h.bytes
  obtain ⟨s₁, hread, hrest, hwhole⟩ := readFull_whole 4 h.whole
  rw [hnil] at hread hrest
  refine ⟨s₁, ?_, hrest, hwhole⟩
  unfold nextBlock
  rw [hread]
  rfl

theorem read_buffered {r : FramedReader} (hmore : r.pos < r.buf.length) (want : Nat) :
    read inflate r want =
      (.ok ((r.buf.drop r.pos).take (min (r.buf.length - r.pos) want)),
        { r with pos := r.pos + min (r.buf.length - r.pos) want }) := by
  rw [read, if_neg (Nat.not_le.mpr hmore)]

theorem read_ended {r : FramedReader} (hdone : r.buf.length ≤ r.pos) (hended : r.ended = true)
    (want : Nat) : read inflate r want = (.ok [], r) := by
  rw [read, if_pos hdone, if_pos hended]

theorem read_end {r r' : FramedReader} (hdone : r.buf.length ≤ r.pos) (hopen : ¬ r.ended = true)
    (hnext : nextBlock inflate r = (.ok false, r')) (want : Nat) :
    read inflate r want = (.ok [], { r' with ended := true }) := by
  rw [read, if_pos hdone, if_neg hopen]
  split
  next he => rw [hnext] at he; cases he
  next he => rw [hnext] at he; cases he; rfl
  next he => rw [hnext] at he; cases he

theorem read_next {r r' : FramedReader} (hdone : r.buf.length ≤ r.pos) (hopen : ¬ r.ended = true)
    (hnext : nextBlock inflate r = (.ok true, r')) (want : Nat) :
    read inflate r want = read inflate r' want := by
  rw [read, if_pos hdone, if_neg hopen]
  split
  next he => rw [hnext] at he; cases he
  next he => rw [hnext] at he; cases he
  next he => rw [hnext] at he; cases he; rfl

/-- A read gives something of what is held, or all of it has been given. -/
def Gives (r : FramedReader) (blocks : List (Block inflate)) (want : Nat) : Prop :=
  ∃ chunk r', ∃ blocks' : List (Block inflate), read inflate r want = (.ok chunk, r') ∧
    r'.Holds blocks' ∧ r.held blocks = chunk ++ r'.held blocks' ∧ chunk.length ≤ want ∧
    (chunk = [] → r'.held blocks' = [])

theorem gives_buffered {r : FramedReader} {blocks : List (Block inflate)} (h : r.Holds blocks)
    (hmore : r.pos < r.buf.length) {want : Nat} (hwant : 0 < want) : r.Gives blocks want := by
  let n := min (r.buf.length - r.pos) want
  have hlen : ((r.buf.drop r.pos).take n).length = n := by
    rw [List.length_take, List.length_drop]
    omega
  refine ⟨_, { r with pos := r.pos + n }, blocks, read_buffered hmore want,
    ⟨h.bytes, h.whole, h.ended⟩, ?_, ?_, ?_⟩
  · show r.buf.drop r.pos ++ contents blocks =
      (r.buf.drop r.pos).take n ++ (r.buf.drop (r.pos + n) ++ contents blocks)
    rw [← List.append_assoc, ← List.drop_drop, List.take_append_drop]
  · rw [hlen]
    exact Nat.min_le_right _ _
  · intro hnone
    rw [hnone, List.length_nil] at hlen
    omega

/-- **One read.**  Blocks that hold nothing are passed over, so the induction is on what is left
of them. -/
theorem read_holds {r : FramedReader} {blocks : List (Block inflate)} (h : r.Holds blocks)
    {want : Nat} (hwant : 0 < want) : r.Gives blocks want := by
  induction blocks generalizing r with
  | nil =>
      by_cases hmore : r.pos < r.buf.length
      · exact gives_buffered h hmore hwant
      · have hdone := Nat.not_lt.mp hmore
        have hdrop : r.buf.drop r.pos = [] := List.drop_eq_nil_of_le hdone
        have hheld : r.held ([] : List (Block inflate)) = [] := by
          rw [held, hdrop]
          rfl
        by_cases hended : r.ended = true
        · exact ⟨[], r, [], read_ended hdone hended want, h, by rw [List.nil_append],
            Nat.zero_le _, fun _ => hheld⟩
        · obtain ⟨inner, hnext, hbytes, hwhole⟩ := nextBlock_end h
          exact ⟨[], _, [], read_end hdone hended hnext want, ⟨hbytes, hwhole, fun _ => rfl⟩,
            rfl, Nat.zero_le _, fun _ => hheld⟩
  | cons b blocks ih =>
      by_cases hmore : r.pos < r.buf.length
      · exact gives_buffered h hmore hwant
      · have hdone := Nat.not_lt.mp hmore
        have hopen : ¬ r.ended = true := fun hended => List.cons_ne_nil _ _ (h.ended hended)
        obtain ⟨inner, hnext, hbytes, hwhole⟩ := nextBlock_block h
        let next : FramedReader := { r with inner, buf := b.content, pos := 0 }
        have hholds : next.Holds blocks := ⟨hbytes, hwhole, fun hended => absurd hended hopen⟩
        have hheld : r.held (b :: blocks) = next.held blocks := by
          rw [held, List.drop_eq_nil_of_le hdone]
          rfl
        obtain ⟨chunk, r', blocks', hread, hrest⟩ := ih hholds
        refine ⟨chunk, r', blocks', ?_, ?_⟩
        · rw [read_next hdone hopen hnext]
          exact hread
        · rw [hheld]
          exact hrest

/-- **Read after read.** -/
theorem reads_holds {r : FramedReader} {blocks : List (Block inflate)} (h : r.Holds blocks)
    {wants : List Nat} (hwants : ∀ want ∈ wants, 0 < want) :
    ∃ chunks r', reads inflate r wants = (.ok chunks, r') ∧
      Delivers (r.held blocks) wants chunks := by
  induction wants generalizing r blocks with
  | nil => exact ⟨[], r, rfl, .nothing _⟩
  | cons want wants ih =>
      obtain ⟨chunk, r₁, blocks₁, hread, hholds, hsplit, hlen, hend⟩ :=
        read_holds h (hwants want List.mem_cons_self)
      obtain ⟨chunks, r₂, hreads, hdelivers⟩ :=
        ih hholds fun w hw => hwants w (List.mem_cons_of_mem _ hw)
      refine ⟨chunk :: chunks, r₂, by rw [reads, hread]; simp only [hreads], ?_⟩
      rw [hsplit]
      by_cases hchunk : chunk = []
      · rw [hend hchunk] at hdelivers ⊢
        rw [hchunk]
        exact .ended hdelivers
      · exact .some hchunk hlen hdelivers

theorem holds_new {blocks : List (Block inflate)} (turns : List Turn) :
    (new { bytes := frames blocks, turns }).Holds blocks :=
  ⟨rfl, rfl, fun h => nomatch h⟩

end FramedReader

/-- The first two bytes would be the length of a block that is never sent. -/
theorem frames_not_gzip (blocks : List (Block inflate)) :
    (frames blocks).take 2 ≠ [0x1f, 0x8b] := by
  intro hgzip
  cases blocks with
  | nil => cases hgzip
  | cons b blocks =>
      have hlen := b.length_bounds.2
      have hfirst : UInt8.ofNat (b.header / 256 / 256 / 256 % 256) = 0x1f := by
        simp only [frames, List.flatMap_cons, Block.frame, beBytes, List.nil_append,
          List.cons_append, List.take_succ_cons, List.cons.injEq] at hgzip
        exact hgzip.1
      have hbyte := congrArg UInt8.toNat hfirst
      rw [toNat_ofNat_byte (Nat.mod_lt _ (by decide))] at hbyte
      have hbyte : b.header / 256 / 256 / 256 % 256 = 31 := hbyte
      unfold Block.header storedBit at hbyte
      split at hbyte
      · omega
      · omega

/-- **What the blocks hold is what is read**, whatever the source gives at a time and whatever is
asked for, and then the end; and no row of blocks is taken for a gzip file. -/
theorem read_framed (blocks : List (Block inflate)) (turns : List Turn) (wants : List Nat)
    (positive : ∀ want ∈ wants, 0 < want) :
    (∃ chunks r,
      FramedReader.reads inflate (.new { bytes := frames blocks, turns }) wants =
          (.ok chunks, r) ∧
        Delivers (contents blocks) wants chunks ∧
        ((contents blocks).length ≤ wants.length → chunks.flatten = contents blocks) ∧
        ((contents blocks).length < wants.length → chunks.getLast? = some [])) ∧
      (frames blocks).take 2 ≠ [0x1f, 0x8b] := by
  refine ⟨?_, frames_not_gzip blocks⟩
  have hholds : (FramedReader.new { bytes := frames blocks, turns }).Holds blocks :=
    FramedReader.holds_new turns
  obtain ⟨chunks, r, hreads, hdelivers⟩ := FramedReader.reads_holds hholds positive
  have hall := hdelivers.flatten
  exact ⟨chunks, r, hreads, hdelivers, hall.2⟩

/-- What zlib makes of no bytes and of two. -/
def inflateSample (b : Bytes) : Option Bytes :=
  if b = [0x78, 0x9c, 0x03, 0, 0, 0, 0, 0x01] then some []
  else if b = [0x78, 0x9c, 0xcb, 0xc8, 0x04, 0, 0x01, 0x3b, 0, 0xd2] then some [0x68, 0x69]
  else none

/-- A stored block, one that holds nothing, and a deflated one. -/
def sampleBlocks : List (Block inflateSample) :=
  [{ stored := true, encoded := [0x30, 0x37], content := [0x30, 0x37], decodes := rfl,
     ne_nil := by decide, fits := by decide },
   { stored := false, encoded := [0x78, 0x9c, 0x03, 0, 0, 0, 0, 0x01], content := [],
     decodes := by decide, ne_nil := by decide, fits := by decide },
   { stored := false, encoded := [0x78, 0x9c, 0xcb, 0xc8, 0x04, 0, 0x01, 0x3b, 0, 0xd2],
     content := [0x68, 0x69], decodes := by decide, ne_nil := by decide, fits := by decide }]

theorem read_framed_sampleBlocks :
    (∃ chunks r,
      FramedReader.reads inflateSample
          (.new { bytes := frames sampleBlocks, turns := [.gives 3, .interrupted, .gives 1] })
          [1, 3, 2, 2, 9] = (.ok chunks, r) ∧
        Delivers (contents sampleBlocks) [1, 3, 2, 2, 9] chunks ∧
        ((contents sampleBlocks).length ≤ 5 → chunks.flatten = contents sampleBlocks) ∧
        ((contents sampleBlocks).length < 5 → chunks.getLast? = some [])) ∧
      (frames sampleBlocks).take 2 ≠ [0x1f, 0x8b] :=
  read_framed sampleBlocks _ [1, 3, 2, 2, 9] (by decide)

/-- So the reader of blocks is the one that `extract` gives them to. -/
theorem extract_frames (env : ExtractEnv) (gunzip unframe : Bytes → Source)
    (blocks : List (Block inflate)) (inbox : HashMap Text Bytes) :
    extract env gunzip unframe (frames blocks) inbox =
      extractLoop env (Odc.Reader.before (unframe (frames blocks))) 0 0 [] inbox := by
  rw [extract, if_neg (frames_not_gzip blocks)]

end Sharingd.Framed
