import TarishDaemon.Sharingd.Requests

/-!
# Requests in step

The next request on a connection begins where the body of this one ends: after so many bytes
as its length says, or where its chunked coding ends.  `Coded` is that coding; how long a
line may be is an argument, as `read_line` gives up at 256 bytes.
-/

namespace Sharingd

open Rust

/-! ## The chunked coding -/

/-- A line without line ends. -/
structure PlainLine (line : Bytes) : Prop where
  lf : (10 : UInt8) ∉ line
  cr : (13 : UInt8) ∉ line

/-- Lines up to an empty one, and what follows. -/
inductive Trailers (ok : Bytes → Prop) : Bytes → Bytes → Prop
  | blank (rest : Bytes) : Trailers ok (crlf ++ rest) rest
  | line {line bytes rest : Bytes} (plain : PlainLine line) (hne : line ≠ []) (hok : ok line)
      (later : Trailers ok bytes rest) : Trailers ok (line ++ (crlf ++ bytes)) rest

/-- A chunked body, and what follows. -/
inductive Coded (ok : Bytes → Prop) : Bytes → Bytes → Prop
  | last {line bytes rest : Bytes} (plain : PlainLine line) (hok : ok line)
      (hsize : chunkSize (fromUtf8Lossy line) = some 0) (later : Trailers ok bytes rest) :
      Coded ok (line ++ (crlf ++ bytes)) rest
  | chunk {line data bytes rest : Bytes} (plain : PlainLine line) (hok : ok line)
      (hsize : chunkSize (fromUtf8Lossy line) = some data.length) (hdata : data ≠ [])
      (later : Coded ok bytes rest) :
      Coded ok (line ++ (crlf ++ (data ++ (crlf ++ bytes)))) rest

/-- A line that `read_line` takes with its end. -/
def Short (line : Bytes) : Prop :=
  line.length < 255

def AnyLine (_ : Bytes) : Prop :=
  True

section Lines

variable {line bytes rest : Bytes}

theorem firstLine_crlf (plain : PlainLine line) (hshort : Short line) (rest : Bytes) :
    firstLine (line ++ (crlf ++ rest)) = (some (fromUtf8Lossy line), rest) := by
  obtain ⟨s', hread, hrest⟩ := readLine_crlf plain.lf plain.cr hshort
    (show ({ bytes := line ++ (crlf ++ rest) } : ByteStream).bytes = line ++ (crlf ++ rest) from
      rfl)
  have hfirst := readLine_some hread
  rwa [hrest] at hfirst

theorem firstLineLoop_long (budget : Nat) (buf : Bytes) (hlen : budget ≤ bytes.length)
    (hnone : ∀ b ∈ bytes.take budget, b ≠ 10) :
    firstLineLoop budget buf bytes = (none, bytes.drop budget) := by
  induction budget generalizing buf bytes with
  | zero => rfl
  | succ budget ih =>
      cases bytes with
      | nil => exact absurd hlen (Nat.not_succ_le_zero budget)
      | cons b bytes =>
          rw [List.take_succ_cons] at hnone
          rw [firstLineLoop, if_neg (hnone b List.mem_cons_self), List.drop_succ_cons]
          exact ih (buf ++ [b]) (Nat.le_of_succ_le_succ hlen) fun c hc =>
            hnone c (List.mem_cons_of_mem _ hc)

/-- A longer line is not read to its end. -/
theorem firstLine_long (plain : PlainLine line) (hlong : ¬Short line) (rest : Bytes) :
    ∃ rest', firstLine (line ++ (crlf ++ rest)) = (none, rest') ∧ rest.length < rest'.length := by
  have hlong : 255 ≤ line.length := Nat.not_lt.mp hlong
  have hsplit : line ++ (crlf ++ rest) = (line ++ [13]) ++ (10 :: rest) := by
    rw [List.append_assoc]
    rfl
  have hnone : ∀ b ∈ (line ++ (crlf ++ rest)).take 256, b ≠ 10 := by
    have hfits : 256 ≤ (line ++ [13]).length := by
      rw [List.length_append, List.length_singleton]
      omega
    rw [hsplit, List.take_append_of_le_length hfits]
    rintro b hb rfl
    rcases List.mem_append.mp (List.mem_of_mem_take hb) with hline | hcr
    · exact plain.lf hline
    · exact absurd (List.mem_singleton.mp hcr) (by decide)
  have hlength : (line ++ (crlf ++ rest)).length = line.length + 2 + rest.length := by
    rw [List.length_append, List.length_append, Nat.add_assoc]
    rfl
  refine ⟨_, firstLineLoop_long 256 [] (by omega) hnone, ?_⟩
  rw [List.length_drop]
  omega

end Lines

/-! ## The reader of trailers -/

theorem skipTrailers_more {s s' : ByteStream} {line : Text} (hne : line ≠ [])
    (h : readLine s = (some line, s')) : skipTrailers s = skipTrailers s' := by
  rw [skipTrailers]
  split
  next he => rw [h] at he; cases he
  next he => rw [h] at he; cases he; exact absurd rfl hne
  next he => rw [h] at he; cases he; rfl

theorem skipTrailers_none {s s' : ByteStream} (h : readLine s = (none, s')) :
    skipTrailers s = s' := by
  rw [skipTrailers]
  split
  next he => rw [h] at he; cases he; rfl
  next he => rw [h] at he; cases he
  next he => rw [h] at he; cases he

theorem Trailers.length_le {ok : Bytes → Prop} {bytes rest : Bytes}
    (h : Trailers ok bytes rest) : rest.length ≤ bytes.length := by
  induction h with
  | blank rest =>
      rw [List.length_append]
      omega
  | line plain hne hok later ih =>
      simp only [List.length_append]
      omega

/-- Short trailers are read to their end. -/
theorem Trailers.skip {bytes rest : Bytes} (h : Trailers Short bytes rest) (s : ByteStream)
    (hs : s.bytes = bytes) : (skipTrailers s).bytes = rest := by
  induction h generalizing s with
  | blank rest => exact skipTrailers_blank hs
  | line plain hne hok later ih =>
      obtain ⟨s', hread, hrest⟩ := exists_readLine (hs ▸ firstLine_crlf plain hok _)
      rw [skipTrailers_more (fromUtf8Lossy_ne_nil hne) hread]
      exact ih s' hrest

/-- Others are left with more to come than there should be. -/
theorem Trailers.skip_long {bytes rest : Bytes} (h : Trailers AnyLine bytes rest) (s : ByteStream)
    (hs : s.bytes = bytes) :
    Trailers Short bytes rest ∨ rest.length < (skipTrailers s).bytes.length := by
  induction h generalizing s with
  | blank rest => exact .inl (.blank rest)
  | @line line bytes rest plain hne hok later ih =>
      by_cases hshort : Short line
      · obtain ⟨s', hread, hrest⟩ := exists_readLine (hs ▸ firstLine_crlf plain hshort bytes)
        rw [skipTrailers_more (fromUtf8Lossy_ne_nil hne) hread]
        exact (ih s' hrest).imp_left fun hlater => .line plain hne hshort hlater
      · obtain ⟨rest', hfirst, hmore⟩ := firstLine_long plain hshort bytes
        obtain ⟨s', hread, hrest⟩ := exists_readLine (hs ▸ hfirst)
        rw [skipTrailers_none hread, hrest]
        exact .inr (Nat.lt_of_le_of_lt later.length_le hmore)

/-! ## The reader of chunks -/

theorem Coded.length_lt {ok : Bytes → Prop} {bytes rest : Bytes} (h : Coded ok bytes rest) :
    rest.length < bytes.length := by
  have hcrlf : crlf.length = 2 := rfl
  induction h with
  | last plain hok hsize later =>
      have := later.length_le
      simp only [List.length_append]
      omega
  | chunk plain hok hsize hdata later ih =>
      simp only [List.length_append]
      omega

theorem Trailers.mono {ok ok' : Bytes → Prop} {bytes rest : Bytes} (hall : ∀ line, ok line → ok' line)
    (h : Trailers ok bytes rest) : Trailers ok' bytes rest := by
  induction h with
  | blank rest => exact .blank rest
  | line plain hne hok later ih => exact .line plain hne (hall _ hok) ih

theorem Coded.mono {ok ok' : Bytes → Prop} {bytes rest : Bytes} (hall : ∀ line, ok line → ok' line)
    (h : Coded ok bytes rest) : Coded ok' bytes rest := by
  induction h with
  | last plain hok hsize later => exact .last plain (hall _ hok) hsize (later.mono hall)
  | chunk plain hok hsize hdata later ih => exact .chunk plain (hall _ hok) hsize hdata ih

/-- A chunk that the reader does not refuse is behind it, with its end. -/
theorem readChunks_chunk {cap : Nat} {b : Body} {line data bytes : Bytes} (plain : PlainLine line)
    (hshort : Short line) (hsize : chunkSize (fromUtf8Lossy line) = some data.length)
    (hdata : data ≠ []) (hb : b.stream.bytes = line ++ (crlf ++ (data ++ (crlf ++ bytes))))
    (hended : (readChunks cap b).1 = .ended) :
    ∃ b' : Body, readChunks cap b = readChunks cap b' ∧ b'.stream.bytes = bytes := by
  obtain ⟨s, hread, hrest⟩ := exists_readLine (hb ▸ firstLine_crlf plain hshort _)
  have hpos : data.length ≠ 0 := by simpa using hdata
  obtain ⟨hgot, hafter⟩ := readExactBounded_bytes data.length s
  rw [hrest, List.take_left] at hgot
  rw [hrest, List.drop_left] at hafter
  have hrun : readChunks cap b = _ := readChunks_line hread hsize hpos
  rw [hrun] at hended
  by_cases hover : 2 ^ 64 ≤ b.out.length + data.length
  · rw [if_pos hover] at hended
    cases hended
  by_cases hcap : b.out.length + data.length > cap
  · rw [if_neg hover, if_pos hcap] at hended
    cases hended
  rw [if_neg hover, if_neg hcap, hgot, if_neg (Nat.lt_irrefl _)] at hrun
  refine ⟨_, hrun, ?_⟩
  -- the line after the data is empty
  have hnone : PlainLine [] := ⟨List.not_mem_nil, List.not_mem_nil⟩
  have hend := firstLine_crlf hnone (show 0 < 255 by decide) bytes
  rw [(readLine_bytes _).2, hafter]
  exact congrArg Prod.snd hend

/-- **A body in the chunked coding is read to its end**, if it is not refused and its lines are
short. -/
theorem Coded.read {bytes rest : Bytes} (h : Coded Short bytes rest) {cap : Nat} (b : Body)
    (hb : b.stream.bytes = bytes) (hended : (readChunks cap b).1 = .ended) :
    (readChunks cap b).2.stream.bytes = rest := by
  induction h generalizing b with
  | last plain hok hsize later =>
      obtain ⟨s, hread, hrest⟩ := exists_readLine (hb ▸ firstLine_crlf plain hok _)
      rw [readChunks_last hread hsize]
      exact later.skip s hrest
  | chunk plain hok hsize hdata later ih =>
      obtain ⟨b', hrun, hb'⟩ := readChunks_chunk plain hok hsize hdata hb hended
      rw [hrun] at hended ⊢
      exact ih b' hb' hended

/-- **With a longer line the reader stops before the end.** -/
theorem Coded.read_long {bytes rest : Bytes} (h : Coded AnyLine bytes rest) {cap : Nat} (b : Body)
    (hb : b.stream.bytes = bytes) (hended : (readChunks cap b).1 = .ended) :
    Coded Short bytes rest ∨ rest.length < (readChunks cap b).2.stream.bytes.length := by
  induction h generalizing b with
  | @last line bytes rest plain hok hsize later =>
      by_cases hshort : Short line
      · obtain ⟨s, hread, hrest⟩ := exists_readLine (hb ▸ firstLine_crlf plain hshort _)
        rw [readChunks_last hread hsize]
        exact (later.skip_long s hrest).imp_left fun htrailers => .last plain hshort hsize htrailers
      · obtain ⟨rest', hfirst, hmore⟩ := firstLine_long plain hshort bytes
        obtain ⟨s, hread, hrest⟩ := exists_readLine (hb ▸ hfirst)
        rw [readChunks_none hread]
        have hlater := later.length_le
        right
        show rest.length < s.bytes.length
        rw [hrest]
        omega
  | @chunk line data bytes rest plain hok hsize hdata later ih =>
      by_cases hshort : Short line
      · obtain ⟨b', hrun, hb'⟩ := readChunks_chunk plain hshort hsize hdata hb hended
        rw [hrun] at hended ⊢
        exact (ih b' hb' hended).imp_left fun hcoded => .chunk plain hshort hsize hdata hcoded
      · obtain ⟨rest', hfirst, hmore⟩ := firstLine_long plain hshort (data ++ (crlf ++ bytes))
        obtain ⟨s, hread, hrest⟩ := exists_readLine (hb ▸ hfirst)
        rw [readChunks_none hread]
        have hlater := later.length_lt
        simp only [List.length_append] at hmore
        right
        show rest.length < s.bytes.length
        rw [hrest]
        omega

end Sharingd
