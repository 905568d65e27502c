import TarishDaemon.Sharingd.Chunked

/-!
# Chunked bodies that are read into memory

`read_chunked` of the receiver and `read_chunked_body` of the sender put the chunks
together in a buffer, with a cap on it.  They differ in the cap and in what they answer
where it is passed.

What they do depends on the bytes of the connection and not on the pieces in which these
come.  `Leads` is how far whole chunks go; **the cap is kept, and no sum overflows, exactly
where no such way ends at a size that takes the sum to `2 ^ 64`** (`capped_iff`).
-/

namespace Sharingd

open Rust

/-! ## A line, and a number of bytes -/

/-- The rounds of `read_line`, on the bytes. -/
def firstLineLoop : Nat → Bytes → Bytes → Option Text × Bytes
  | 0, _, bytes => (none, bytes)
  | _ + 1, _, [] => (none, [])
  | budget + 1, buf, b :: bytes =>
      if b = 10 then (some (fromUtf8Lossy (stripCr buf)), bytes)
      else firstLineLoop budget (buf ++ [b]) bytes

/-- What `read_line` reads of some bytes, and what is left of them. -/
def firstLine (bytes : Bytes) : Option Text × Bytes :=
  firstLineLoop 256 [] bytes

namespace ByteStream

/-- One byte is read at a time, however much comes. -/
theorem read_one {s : ByteStream} {b : UInt8} {bytes : Bytes} (hs : s.bytes = b :: bytes) :
    ∃ s', s.read 1 = some ([b], s') ∧ s'.bytes = bytes := by
  obtain ⟨c, tail, s', hread⟩ := read_more (s := s) Nat.zero_lt_one (by simp [hs])
  obtain ⟨hsplit, -, hone⟩ := read_some hread
  rw [List.length_cons] at hone
  obtain rfl : tail = [] := List.eq_nil_of_length_eq_zero (by omega)
  rw [hs] at hsplit
  obtain ⟨rfl, hrest⟩ := List.cons.inj hsplit
  exact ⟨s', hread, hrest⟩

end ByteStream

theorem readLineLoop_bytes (budget : Nat) (buf : Bytes) (s : ByteStream) :
    (readLineLoop budget buf s).1 = (firstLineLoop budget buf s.bytes).1 ∧
      (readLineLoop budget buf s).2.bytes = (firstLineLoop budget buf s.bytes).2 := by
  induction budget generalizing buf s with
  | zero => exact ⟨rfl, rfl⟩
  | succ budget ih =>
      cases hs : s.bytes with
      | nil =>
          rw [readLineLoop, ByteStream.read_nil hs]
          cases s.broken
          · exact ⟨rfl, hs⟩
          · exact ⟨rfl, hs⟩
      | cons b bytes =>
          obtain ⟨s', hread, hrest⟩ := ByteStream.read_one hs
          rw [readLineLoop, hread, firstLineLoop]
          dsimp only
          split
          · exact ⟨rfl, hrest⟩
          · rw [← hrest]
            exact ih (buf ++ [b]) s'

/-- A line is read from the bytes alone. -/
theorem readLine_bytes (s : ByteStream) :
    (readLine s).1 = (firstLine s.bytes).1 ∧ (readLine s).2.bytes = (firstLine s.bytes).2 :=
  readLineLoop_bytes 256 [] s

theorem readLine_some {s s' : ByteStream} {line : Text} (h : readLine s = (some line, s')) :
    firstLine s.bytes = (some line, s'.bytes) := by
  obtain ⟨hline, hrest⟩ := readLine_bytes s
  rw [h] at hline hrest
  exact Prod.ext hline.symm hrest.symm

theorem readLine_none {s s' : ByteStream} (h : readLine s = (none, s')) :
    firstLine s.bytes = (none, s'.bytes) := by
  obtain ⟨hline, hrest⟩ := readLine_bytes s
  rw [h] at hline hrest
  exact Prod.ext hline.symm hrest.symm

theorem exists_readLine {s : ByteStream} {line : Option Text} {rest : Bytes}
    (h : firstLine s.bytes = (line, rest)) : ∃ s', readLine s = (line, s') ∧ s'.bytes = rest := by
  obtain ⟨hline, hrest⟩ := readLine_bytes s
  rw [h] at hline hrest
  exact ⟨_, Prod.ext hline rfl, hrest⟩

/-- The rounds of `read_exact_bounded`, with `left` bytes to come. -/
def readExactLoop (left : Nat) (buf : Bytes) (s : ByteStream) : Bytes × ByteStream :=
  if left = 0 then (buf, s)
  else
    match s.read left with
    | none => (buf, s)
    | some ([], s) => (buf, s)
    | some (b :: rest, s) => readExactLoop (left - (b :: rest).length) (buf ++ b :: rest) s
termination_by left
decreasing_by
  simp only [List.length_cons]
  omega

/-- `read_exact_bounded`, and the same loop in `read_chunked_body`. -/
def readExactBounded (len : Nat) (s : ByteStream) : Bytes × ByteStream :=
  readExactLoop len [] s

theorem readExactLoop_bytes (left : Nat) (buf : Bytes) (s : ByteStream) :
    (readExactLoop left buf s).1 = buf ++ s.bytes.take left ∧
      (readExactLoop left buf s).2.bytes = s.bytes.drop left := by
  fun_induction readExactLoop left buf s with
  | case1 buf s => simp
  | case2 left buf s hleft hread =>
      obtain ⟨hnil, -⟩ := ByteStream.read_none (Nat.pos_of_ne_zero hleft) hread
      simp [hnil]
  | case3 left buf s hleft s' hread =>
      obtain ⟨hnil, -, rfl⟩ := ByteStream.read_empty (Nat.pos_of_ne_zero hleft) hread
      simp [hnil]
  | case4 left buf s hleft b rest s' hread ih =>
      obtain ⟨hsplit, -, hlen⟩ := ByteStream.read_some hread
      have htake : s.bytes.take left = (b :: rest) ++ s'.bytes.take (left - (b :: rest).length) := by
        rw [← hsplit, List.take_append, List.take_of_length_le hlen]
      have hdrop : s.bytes.drop left = s'.bytes.drop (left - (b :: rest).length) := by
        rw [← hsplit, List.drop_append, List.drop_eq_nil_of_le hlen, List.nil_append]
      rw [htake, hdrop, ← List.append_assoc]
      exact ih

/-- So many bytes are read, or all there are. -/
theorem readExactBounded_bytes (len : Nat) (s : ByteStream) :
    (readExactBounded len s).1 = s.bytes.take len ∧
      (readExactBounded len s).2.bytes = s.bytes.drop len :=
  readExactLoop_bytes len [] s

/-! ## The readers -/

/-- The most that is kept of a request's body. -/
def maxBody : Nat := 8 * 1024 * 1024

/-- A body on its way into a buffer. -/
structure Body where
  stream : ByteStream
  out : Bytes := []
  /-- The numbers that `out.len() + size` was asked of. -/
  sums : List (Nat × Nat) := []
  deriving DecidableEq, Repr

inductive BodyEnd
  | ended
  | tooLarge
  /-- `out.len() + size` does not fit: a panic, of the sum or, where that wraps around and so
  passes the cap, of a buffer of more than `isize::MAX` bytes. -/
  | overflow
  deriving DecidableEq, Repr

/-- The loop of both readers. -/
def readChunks (cap : Nat) (b : Body) : BodyEnd × Body :=
  match _hline : readLine b.stream with
  | (none, s) => (.ended, { b with stream := s })
  | (some line, s) =>
      match chunkSize line with
      | none => (.ended, { b with stream := s })
      | some 0 => (.ended, { b with stream := skipTrailers s })
      | some size =>
          let b := { b with sums := b.sums ++ [(b.out.length, size)] }
          if 2 ^ 64 ≤ b.out.length + size then (.overflow, { b with stream := s })
          else if b.out.length + size > cap then (.tooLarge, { b with stream := s })
          else
            match _hread : readExactBounded size s with
            | (data, s') =>
                let b := { b with out := b.out ++ data, stream := s' }
                if data.length < size then (.ended, b)
                else readChunks cap { b with stream := (readLine s').2 }
termination_by b.stream.bytes.length
decreasing_by
  have hline := readLine_lt _hline
  have hread : s'.bytes = s.bytes.drop size := by
    have hrest := (readExactBounded_bytes size s).2
    rw [_hread] at hrest
    exact hrest
  have hend := readLineLoop_le 256 [] s'
  have hdrop := congrArg List.length hread
  rw [List.length_drop] at hdrop
  show (readLineLoop 256 [] s').2.bytes.length < _
  omega

/-- `read_chunked`: the body, and whether the connection is out of step; `none` is a panic. -/
def readChunked (s : ByteStream) : Option (Bytes × Bool) × Body :=
  match readChunks maxBody { stream := s } with
  | (.ended, b) => (some (b.out, false), b)
  | (.tooLarge, b) => (some (b.out, true), b)
  | (.overflow, b) => (none, b)

inductive ResponseError
  | bodyTooLarge
  deriving DecidableEq, Repr

/-- `read_chunked_body`. -/
def readChunkedBody (max : Nat) (s : ByteStream) : Option (Except ResponseError Bytes) × Body :=
  match readChunks max { stream := s } with
  | (.ended, b) => (some (.ok b.out), b)
  | (.tooLarge, b) => (some (.error .bodyTooLarge), b)
  | (.overflow, b) => (none, b)

/-! ## How far whole chunks go -/

/-- With `n` bytes in before `bytes`, whole chunks within the cap lead to `n'` bytes in and
`rest`. -/
inductive Leads (cap : Nat) : Nat → Bytes → Nat → Bytes → Prop
  | here (n : Nat) (bytes : Bytes) : Leads cap n bytes n bytes
  | chunk {n n' size : Nat} {bytes data rest : Bytes} {line : Text}
      (hline : firstLine bytes = (some line, data)) (hsize : chunkSize line = some size)
      (hpos : size ≠ 0) (hcap : n + size ≤ cap) (whole : size ≤ data.length)
      (later : Leads cap (n + size) (firstLine (data.drop size)).2 n' rest) :
      Leads cap n bytes n' rest

/-- The place where the next chunk is `size` bytes long, with `n` bytes in. -/
def SizeAt (cap n₀ : Nat) (bytes : Bytes) (n size : Nat) : Prop :=
  ∃ at' line data, Leads cap n₀ bytes n at' ∧ firstLine at' = (some line, data) ∧
    chunkSize line = some size ∧ size ≠ 0

theorem Leads.le {cap n n' : Nat} {bytes rest : Bytes} (h : Leads cap n bytes n' rest)
    (hn : n ≤ cap) : n ≤ n' ∧ n' ≤ cap := by
  induction h with
  | here => exact ⟨Nat.le_refl _, hn⟩
  | chunk _ _ _ hcap _ _ ih =>
      obtain ⟨hle, hle'⟩ := ih hcap
      exact ⟨by omega, hle'⟩

section Reader

variable {cap size : Nat} {b : Body} {line : Text} {s : ByteStream}

theorem readChunks_line (hline : readLine b.stream = (some line, s))
    (hsize : chunkSize line = some size) (hpos : size ≠ 0) :
    readChunks cap b =
      if 2 ^ 64 ≤ b.out.length + size then
        (.overflow, { b with stream := s, sums := b.sums ++ [(b.out.length, size)] })
      else if b.out.length + size > cap then
        (.tooLarge, { b with stream := s, sums := b.sums ++ [(b.out.length, size)] })
      else if (readExactBounded size s).1.length < size then
        (.ended, ⟨(readExactBounded size s).2, b.out ++ (readExactBounded size s).1,
          b.sums ++ [(b.out.length, size)]⟩)
      else
        readChunks cap ⟨(readLine (readExactBounded size s).2).2,
          b.out ++ (readExactBounded size s).1, b.sums ++ [(b.out.length, size)]⟩ := by
  rw [readChunks]
  split
  next h => rw [hline] at h; cases h
  next line' s' h =>
    rw [hline] at h
    cases h
    split
    next hnone => rw [hsize] at hnone; cases hnone
    next hzero => rw [hsize] at hzero; cases hzero; exact absurd rfl hpos
    next size' _ hsome =>
      rw [hsize] at hsome
      cases hsome
      rfl

/-- A chunk that is whole and within the cap is taken. -/
theorem readChunks_more (hbits : cap < 2 ^ 64) (hline : readLine b.stream = (some line, s))
    (hsize : chunkSize line = some size) (hpos : size ≠ 0) (hcap : b.out.length + size ≤ cap)
    (whole : size ≤ s.bytes.length) :
    ∃ s', s'.bytes = (firstLine (s.bytes.drop size)).2 ∧
      readChunks cap b =
        readChunks cap ⟨s', b.out ++ s.bytes.take size, b.sums ++ [(b.out.length, size)]⟩ := by
  obtain ⟨hdata, hrest⟩ := readExactBounded_bytes size s
  refine ⟨(readLine (readExactBounded size s).2).2, ?_, ?_⟩
  · rw [(readLine_bytes _).2, hrest]
  · rw [readChunks_line hline hsize hpos, if_neg (by omega), if_neg (by omega), hdata,
      if_neg (by rw [List.length_take]; omega)]

end Reader

/-- A reader asks its sum at every place that whole chunks lead to. -/
theorem sums_of_leads {cap n n' : Nat} {bytes rest : Bytes} (hbits : cap < 2 ^ 64)
    (h : Leads cap n bytes n' rest) {b : Body} (hbytes : b.stream.bytes = bytes)
    (hout : b.out.length = n) :
    ∃ b' : Body, b'.stream.bytes = rest ∧ b'.out.length = n' ∧
      readChunks cap b = readChunks cap b' := by
  induction h generalizing b with
  | here n bytes => exact ⟨b, hbytes, hout, rfl⟩
  | chunk hline hsize hpos hcap whole _ ih =>
      subst hbytes hout
      obtain ⟨s, hread, rfl⟩ := exists_readLine hline
      obtain ⟨s', hs', hmore⟩ := readChunks_more hbits hread hsize hpos hcap whole
      obtain ⟨b', hb', hout', hrun⟩ := ih (b := ⟨s', b.out ++ s.bytes.take _, _⟩) hs'
        (by rw [List.length_append, List.length_take, Nat.min_eq_left whole])
      exact ⟨b', hb', hout', hmore.trans hrun⟩

theorem sizeAt_here {cap n size : Nat} {bytes data : Bytes} {line : Text}
    (hline : firstLine bytes = (some line, data)) (hsize : chunkSize line = some size)
    (hpos : size ≠ 0) : SizeAt cap n bytes n size :=
  ⟨bytes, line, data, .here n bytes, hline, hsize, hpos⟩

theorem SizeAt.later {cap n n' size size' : Nat} {bytes data : Bytes} {line : Text}
    (hline : firstLine bytes = (some line, data)) (hsize : chunkSize line = some size)
    (hpos : size ≠ 0) (hcap : n + size ≤ cap) (whole : size ≤ data.length)
    (h : SizeAt cap (n + size) (firstLine (data.drop size)).2 n' size') :
    SizeAt cap n bytes n' size' := by
  obtain ⟨at', line', data', hleads, hplace⟩ := h
  exact ⟨at', line', data', .chunk hline hsize hpos hcap whole hleads, hplace⟩

/-- A chunk that is read whole, as the walk sees it. -/
theorem readExactBounded_whole {size : Nat} {s s' : ByteStream} {data : Bytes}
    (hread : readExactBounded size s = (data, s')) (hwhole : ¬data.length < size) :
    data.length = size ∧ size ≤ s.bytes.length ∧ s'.bytes = s.bytes.drop size := by
  obtain ⟨hdata, hrest⟩ := readExactBounded_bytes size s
  rw [hread] at hdata hrest
  have hlen : data.length = (s.bytes.take size).length := congrArg List.length hdata
  rw [List.length_take] at hlen
  exact ⟨by omega, by omega, hrest⟩

/-- It asks no other, and keeps to its cap. -/
theorem readChunks_sums {cap : Nat} (b : Body) (hout : b.out.length ≤ cap) :
    (readChunks cap b).2.out.length ≤ cap ∧
      ∀ p ∈ (readChunks cap b).2.sums,
        p ∈ b.sums ∨ SizeAt cap b.out.length b.stream.bytes p.1 p.2 := by
  fun_induction readChunks cap b with
  | case1 b s hline => exact ⟨hout, fun p hp => .inl hp⟩
  | case2 b line s hline hsize => exact ⟨hout, fun p hp => .inl hp⟩
  | case3 b line s hline hsize => exact ⟨hout, fun p hp => .inl hp⟩
  | case4 b line s hline size hpos hsize b' hover =>
      refine ⟨hout, fun p hp => (List.mem_append.mp hp).imp_right fun hp => ?_⟩
      obtain rfl := List.mem_singleton.mp hp
      exact sizeAt_here (readLine_some hline) hsize (fun h => hpos h)
  | case5 b line s hline size hpos hsize b' hover hcap =>
      refine ⟨hout, fun p hp => (List.mem_append.mp hp).imp_right fun hp => ?_⟩
      obtain rfl := List.mem_singleton.mp hp
      exact sizeAt_here (readLine_some hline) hsize (fun h => hpos h)
  | case6 b line s hline size hpos hsize b' hover hcap data s' hread b'' hshort =>
      refine ⟨?_, fun p hp => (List.mem_append.mp hp).imp_right fun hp => ?_⟩
      · show (b.out ++ data).length ≤ cap
        have : ¬(b.out.length + size > cap) := hcap
        rw [List.length_append]
        omega
      · obtain rfl := List.mem_singleton.mp hp
        exact sizeAt_here (readLine_some hline) hsize (fun h => hpos h)
  | case7 b line s hline size hpos hsize b' hover hcap data s' hread b'' hwhole ih =>
      obtain ⟨hlen, hthere, hrest⟩ := readExactBounded_whole hread hwhole
      have hfits : b.out.length + size ≤ cap := Nat.not_lt.mp hcap
      have hout' : (b.out ++ data).length = b.out.length + size := by
        rw [List.length_append, hlen]
      obtain ⟨hkept, hsums⟩ := ih (show (b.out ++ data).length ≤ cap by omega)
      refine ⟨hkept, fun p hp => ?_⟩
      rcases hsums p hp with hp | hlater
      · refine (List.mem_append.mp hp).imp_right fun hp => ?_
        obtain rfl := List.mem_singleton.mp hp
        exact sizeAt_here (readLine_some hline) hsize (fun h => hpos h)
      · have hlater : SizeAt cap (b.out ++ data).length (readLine s').2.bytes p.1 p.2 := hlater
        rw [hout', (readLine_bytes s').2, hrest] at hlater
        exact .inr (hlater.later (readLine_some hline) hsize (fun h => hpos h) hfits hthere)

theorem sums_subset {cap : Nat} (b : Body) : b.sums ⊆ (readChunks cap b).2.sums := by
  fun_induction readChunks cap b with
  | case1 | case2 | case3 => exact fun p hp => hp
  | case4 | case5 | case6 => exact List.subset_append_left _ _
  | case7 =>
      rename_i ih
      exact fun p hp => ih (List.mem_append_left _ hp)

/-- The reader gets to every place that whole chunks lead to. -/
theorem readChunks_sizeAt {cap n size : Nat} (hbits : cap < 2 ^ 64) {s : ByteStream}
    (h : SizeAt cap 0 s.bytes n size) :
    ∃ (b : Body) (line : Text) (s' : ByteStream), readLine b.stream = (some line, s') ∧
      chunkSize line = some size ∧ size ≠ 0 ∧ b.out.length = n ∧
      readChunks cap { stream := s } = readChunks cap b := by
  obtain ⟨at', line, data, hleads, hline, hsize, hpos⟩ := h
  obtain ⟨b, hbytes, hout, hrun⟩ := sums_of_leads hbits hleads (b := { stream := s }) rfl rfl
  subst hbytes
  obtain ⟨s', hread, -⟩ := exists_readLine hline
  exact ⟨b, line, s', hread, hsize, hpos, hout, hrun⟩

/-- **The sums of a reader** are those of the places that whole chunks lead to. -/
theorem mem_sums_iff {cap : Nat} (hbits : cap < 2 ^ 64) (s : ByteStream) (n size : Nat) :
    (n, size) ∈ (readChunks cap { stream := s }).2.sums ↔ SizeAt cap 0 s.bytes n size := by
  constructor
  · intro hmem
    rcases (readChunks_sums { stream := s } (Nat.zero_le cap)).2 _ hmem with hnil | hplace
    · cases hnil
    · exact hplace
  · intro hplace
    obtain ⟨b, line, s', hline, hsize, hpos, rfl, hrun⟩ := readChunks_sizeAt hbits hplace
    rw [hrun, readChunks_line hline hsize hpos]
    have hlast : (b.out.length, size) ∈ b.sums ++ [(b.out.length, size)] :=
      List.mem_append_right _ (List.mem_singleton.mpr rfl)
    split
    · exact hlast
    split
    · exact hlast
    split
    · exact hlast
    · exact sums_subset _ hlast

theorem readChunks_overflow {cap n size : Nat} (hbits : cap < 2 ^ 64) {s : ByteStream}
    (h : SizeAt cap 0 s.bytes n size) (hover : 2 ^ 64 ≤ n + size) :
    (readChunks cap { stream := s }).1 = .overflow := by
  obtain ⟨b, line, s', hline, hsize, hpos, rfl, hrun⟩ := readChunks_sizeAt hbits h
  rw [hrun, readChunks_line hline hsize hpos, if_pos hover]

/-- A body is refused at a place that takes the sum past the cap. -/
theorem readChunks_refuses {cap : Nat} (hbits : cap < 2 ^ 64) (b : Body)
    (h : (readChunks cap b).1 ≠ .ended) :
    ∃ n size, SizeAt cap b.out.length b.stream.bytes n size ∧ cap < n + size := by
  fun_induction readChunks cap b with
  | case1 b s hline => exact absurd rfl h
  | case2 b line s hline hsize => exact absurd rfl h
  | case3 b line s hline hsize => exact absurd rfl h
  | case4 b line s hline size hpos hsize b' hover =>
      have hover : 2 ^ 64 ≤ b.out.length + size := hover
      exact ⟨_, size, sizeAt_here (readLine_some hline) hsize (fun h => hpos h), by omega⟩
  | case5 b line s hline size hpos hsize b' hover hcap =>
      exact ⟨_, size, sizeAt_here (readLine_some hline) hsize (fun h => hpos h), hcap⟩
  | case6 b line s hline size hpos hsize b' hover hcap data s' hread b'' hshort =>
      exact absurd rfl h
  | case7 b line s hline size hpos hsize b' hover hcap data s' hread b'' hwhole ih =>
      obtain ⟨hlen, hthere, hrest⟩ := readExactBounded_whole hread hwhole
      obtain ⟨n, size', hplace, hpast⟩ := ih h
      have hplace : SizeAt cap (b.out ++ data).length (readLine s').2.bytes n size' := hplace
      rw [List.length_append, hlen, (readLine_bytes s').2, hrest] at hplace
      exact ⟨n, size', hplace.later (readLine_some hline) hsize (fun h => hpos h)
        (Nat.not_lt.mp hcap) hthere, hpast⟩

theorem readChunks_ended_iff {cap : Nat} (hbits : cap < 2 ^ 64) (s : ByteStream) :
    (readChunks cap { stream := s }).1 = .ended ↔
      ∀ n size, SizeAt cap 0 s.bytes n size → n + size ≤ cap := by
  constructor
  · intro hended n size hplace
    obtain ⟨b, line, s', hline, hsize, hpos, rfl, hrun⟩ := readChunks_sizeAt hbits hplace
    rw [hrun, readChunks_line hline hsize hpos] at hended
    by_contra hpast
    split at hended
    · cases hended
    · rw [if_pos (by omega)] at hended
      cases hended
  · intro hall
    by_contra hrefused
    obtain ⟨n, size, hplace, hpast⟩ := readChunks_refuses hbits { stream := s } hrefused
    exact absurd (hall n size hplace) (Nat.not_le.mpr hpast)

/-! ## The cap -/

/-- No sum overflows; what the check lets through is within the cap, a sum that wraps around
included; and so is what is kept. -/
structure Capped (cap : Nat) (b : Body) : Prop where
  sums : ∀ p ∈ b.sums, p.1 + p.2 < 2 ^ 64
  allocated : ∀ p ∈ b.sums, (p.1 + p.2) % 2 ^ 64 ≤ cap → p.1 + p.2 ≤ cap
  buffered : b.out.length ≤ cap

theorem readChunks_capped_iff {cap : Nat} (hbits : cap < 2 ^ 64) (s : ByteStream) :
    Capped cap (readChunks cap { stream := s }).2 ↔
      ∀ n size, SizeAt cap 0 s.bytes n size → n + size < 2 ^ 64 := by
  constructor
  · intro hcapped n size hplace
    exact hcapped.sums _ ((mem_sums_iff hbits s n size).mpr hplace)
  · intro hall
    have hsums : ∀ p ∈ (readChunks cap { stream := s }).2.sums, p.1 + p.2 < 2 ^ 64 := fun p hp =>
      hall p.1 p.2 ((mem_sums_iff hbits s p.1 p.2).mp hp)
    refine ⟨hsums, fun p hp hle => ?_, (readChunks_sums { stream := s } (Nat.zero_le cap)).1⟩
    rwa [Nat.mod_eq_of_lt (hsums p hp)] at hle

theorem readChunked_body (s : ByteStream) :
    (readChunked s).2 = (readChunks maxBody { stream := s }).2 := by
  unfold readChunked
  split <;> next h => rw [h]

theorem readChunkedBody_body (max : Nat) (s : ByteStream) :
    (readChunkedBody max s).2 = (readChunks max { stream := s }).2 := by
  unfold readChunkedBody
  split <;> next h => rw [h]

/-- **Both readers keep their cap, and their sums fit, exactly where no chunk that they come
to takes the sum to `2 ^ 64`.** -/
theorem capped_iff (s : ByteStream) :
    (Capped maxBody (readChunked s).2 ↔
      ∀ n size, SizeAt maxBody 0 s.bytes n size → n + size < 2 ^ 64) ∧
    ∀ max : Fin (2 ^ 64), Capped max (readChunkedBody max s).2 ↔
      ∀ n size, SizeAt max 0 s.bytes n size → n + size < 2 ^ 64 := by
  refine ⟨?_, fun max => ?_⟩
  · rw [readChunked_body]
    exact readChunks_capped_iff (by decide) s
  · rw [readChunkedBody_body]
    exact readChunks_capped_iff max.isLt s

/-- One chunk of a byte, and then the size `2 ^ 64 - 1`. -/
def hugeSecond : ByteStream :=
  { bytes := asBytes "1\r\nx\r\nffffffffffffffff\r\n".toList }

theorem hugeSecond_sizeAt {cap : Nat} (hcap : 1 ≤ cap) :
    SizeAt cap 0 hugeSecond.bytes 1 (2 ^ 64 - 1) := by
  have hfirst : firstLine hugeSecond.bytes =
      (some ['1'], asBytes "x\r\nffffffffffffffff\r\n".toList) := by
    decide +kernel
  have hone : chunkSize ['1'] = some 1 := by decide
  have hsecond : firstLine (firstLine (asBytes "x\r\nffffffffffffffff\r\n".toList |>.drop 1)).2 =
      (some "ffffffffffffffff".toList, []) := by
    decide +kernel
  have hhuge : chunkSize "ffffffffffffffff".toList = some (2 ^ 64 - 1) := by decide +kernel
  exact .later hfirst hone Nat.one_ne_zero (by omega) (by decide)
    (sizeAt_here hsecond hhuge (by decide))

/-- The sum of one and `2 ^ 64 - 1` is a panic in either reader. -/
theorem hugeSecond_overflows :
    ((readChunked hugeSecond).1 = none ∧ ¬Capped maxBody (readChunked hugeSecond).2) ∧
      (readChunkedBody maxBody hugeSecond).1 = none ∧
        ¬Capped maxBody (readChunkedBody maxBody hugeSecond).2 := by
  have hplace : SizeAt maxBody 0 hugeSecond.bytes 1 (2 ^ 64 - 1) := hugeSecond_sizeAt (by decide)
  have hover : 2 ^ 64 ≤ 1 + (2 ^ 64 - 1) := by decide
  have hbits : maxBody < 2 ^ 64 := by decide
  have hend := readChunks_overflow hbits hplace hover
  have hpast : ¬Capped maxBody (readChunks maxBody { stream := hugeSecond }).2 := fun hcapped =>
    Nat.not_lt.mpr hover (hcapped.sums _ ((mem_sums_iff hbits _ _ _).mpr hplace))
  refine ⟨⟨?_, by rwa [readChunked_body]⟩, ?_, by rwa [readChunkedBody_body]⟩
  · unfold readChunked
    split
    next h => rw [h] at hend; cases hend
    next h => rw [h] at hend; cases hend
    next h => rfl
  · unfold readChunkedBody
    split
    next h => rw [h] at hend; cases hend
    next h => rw [h] at hend; cases hend
    next h => rfl

/-! ## What was written is what is read -/

theorem readChunks_last {cap : Nat} {b : Body} {line : Text} {s : ByteStream}
    (hline : readLine b.stream = (some line, s)) (hsize : chunkSize line = some 0) :
    readChunks cap b = (.ended, { b with stream := skipTrailers s }) := by
  rw [readChunks]
  split
  next h => rw [hline] at h; cases h
  next line' s' h =>
    rw [hline] at h
    cases h
    simp only [hsize]

theorem readChunks_none {cap : Nat} {b : Body} {s : ByteStream}
    (hline : readLine b.stream = (none, s)) :
    readChunks cap b = (.ended, { b with stream := s }) := by
  rw [readChunks]
  split
  next h => rw [hline] at h; cases h; rfl
  next h => rw [hline] at h; cases h

/-- Either reader gets what was written, and the connection stands after the body. -/
theorem readChunks_written {cap : Nat} (hbits : cap < 2 ^ 64) (writes : List Bytes) (rest : Bytes)
    (b : Body) (hb : b.stream.bytes = chunkedBody writes ++ rest)
    (hcap : b.out.length + writes.flatten.length ≤ cap) :
    ∃ b', readChunks cap b = (.ended, b') ∧ b'.out = b.out ++ writes.flatten ∧
      b'.stream.bytes = rest := by
  induction writes generalizing b with
  | nil =>
      obtain ⟨s, hline, hs⟩ := readLine_toDigits (n := 0) (by decide) hb
      exact ⟨{ b with stream := skipTrailers s },
        readChunks_last hline (chunkSize_toDigits (by decide)), (List.append_nil _).symm,
        skipTrailers_blank hs⟩
  | cons data writes ih =>
      rw [List.flatten_cons, List.length_append] at hcap
      by_cases hdata : data = []
      · -- the empty write leaves nothing on the connection
        subst hdata
        exact ih b hb (by simpa using hcap)
      · have hlen : data.length ≠ 0 := by simpa using hdata
        have hbody : b.stream.bytes = asBytes (Nat.toDigits 16 data.length) ++
            (crlf ++ (data ++ (crlf ++ (chunkedBody writes ++ rest)))) := by
          rw [hb, chunkedBody, List.flatMap_cons, chunk, if_neg hdata]
          simp only [chunkedBody, List.append_assoc]
        obtain ⟨s, hline, hs⟩ := readLine_toDigits (by omega) hbody
        obtain ⟨s', hs', hmore⟩ := readChunks_more hbits hline (chunkSize_toDigits (by omega)) hlen
          (show b.out.length + data.length ≤ cap by omega)
          (by rw [hs, List.length_append]; omega)
        rw [hs, List.drop_left] at hs'
        obtain ⟨s'', hend, hs''⟩ := readLine_crlf List.not_mem_nil List.not_mem_nil (by decide)
          (show ({ bytes := crlf ++ (chunkedBody writes ++ rest) } : ByteStream).bytes =
            [] ++ (crlf ++ (chunkedBody writes ++ rest)) from rfl)
        rw [readLine_some hend, hs''] at hs'
        rw [hs, List.take_left] at hmore
        obtain ⟨b', hrun, hout, hrest⟩ := ih ⟨s', b.out ++ data, _⟩ hs'
          (show (b.out ++ data).length + writes.flatten.length ≤ cap by
            rw [List.length_append]; omega)
        exact ⟨b', hmore.trans hrun, by rw [hout, List.append_assoc, List.flatten_cons], hrest⟩

/-- **The three readers agree with the writer**, however the body comes. -/
theorem readers_written (writes : List Bytes) (rest : Bytes) (s : ByteStream)
    (hs : s.bytes = chunkedBody writes ++ rest) :
    (writes.flatten.length ≤ maxBody →
      ∃ b, readChunked s = (some (writes.flatten, false), b) ∧ b.stream.bytes = rest) ∧
    (∀ max : Fin (2 ^ 64), writes.flatten.length ≤ max →
      ∃ b, readChunkedBody max s = (some (.ok writes.flatten), b) ∧ b.stream.bytes = rest) ∧
    ∀ env : UploadEnv, (∀ n, env.cancelled n = false) → writes.flatten.length ≤ env.limit →
      ∃ u, streamChunked env 0 { stream := s } = (.ok writes.flatten.length, u) ∧
        u.out = writes.flatten ∧ u.stream.bytes = rest := by
  refine ⟨fun hcap => ?_, fun max hcap => ?_, fun env quiet hcap => ?_⟩
  · obtain ⟨b, hrun, hout, hrest⟩ := readChunks_written (show maxBody < 2 ^ 64 by decide) writes rest
      { stream := s } hs (by simpa using hcap)
    have hout : b.out = writes.flatten := hout
    exact ⟨b, by rw [readChunked, hrun, ← hout], hrest⟩
  · obtain ⟨b, hrun, hout, hrest⟩ := readChunks_written max.isLt writes rest { stream := s } hs
      (by simpa using hcap)
    have hout : b.out = writes.flatten := hout
    exact ⟨b, by rw [readChunkedBody, hrun, ← hout], hrest⟩
  · obtain ⟨u, hrun, hout, hrest⟩ := streamChunked_body quiet writes 0 rest { stream := s } hs
      rfl (by omega)
    exact ⟨u, by rw [hrun, Nat.zero_add], hout, hrest⟩

/-- Two writes, the second of which looks like the end of a body, that come in pieces. -/
theorem readers_written_lookalike :
    ∃ s : ByteStream, s.bytes = chunkedBody [asBytes "hi".toList, asBytes "0\r\n\r\n".toList] ++
        asBytes "POST".toList ∧ s.grants = [1, 3, 2] ∧
      (∃ b, readChunked s = (some (asBytes "hi0\r\n\r\n".toList, false), b) ∧
        b.stream.bytes = asBytes "POST".toList) ∧
      (∃ b, readChunkedBody maxBody s = (some (.ok (asBytes "hi0\r\n\r\n".toList)), b) ∧
        b.stream.bytes = asBytes "POST".toList) ∧
      ∃ u, streamChunked { cancelled := fun _ => false } 0 { stream := s } = (.ok 7, u) ∧
        u.out = asBytes "hi0\r\n\r\n".toList ∧ u.stream.bytes = asBytes "POST".toList := by
  obtain ⟨hchunked, hbody, hstream⟩ := readers_written
    [asBytes "hi".toList, asBytes "0\r\n\r\n".toList] (asBytes "POST".toList)
    { bytes := chunkedBody [asBytes "hi".toList, asBytes "0\r\n\r\n".toList] ++
        asBytes "POST".toList, grants := [1, 3, 2] } rfl
  exact ⟨_, rfl, rfl, hchunked (by decide), hbody ⟨maxBody, by decide⟩ (by decide),
    hstream _ (fun _ => rfl) (by decide)⟩

end Sharingd
