import Mathlib.Data.List.TakeWhile
import TarishDaemon.Rust.Radix
import TarishDaemon.Sharingd.Inbox

/-!
# The chunked body of an upload

`ChunkedWriter` makes a chunk of every write, and `stream_chunked` puts the chunks
together again in a file.  The connection gives each read as much as it likes, which
`grants` says; the size lines are read byte by byte.

**What was written is what arrives** (`streamChunked_body`), in whatever pieces it is
read, while nothing cancels it and the disk holds it.
-/

namespace Sharingd

open Rust

/-! ## The writer -/

def crlf : Bytes := [13, 10]

/-- `ChunkedWriter::write`.  A chunk of length zero would end the body early. -/
def chunk (data : Bytes) : Bytes :=
  if data = [] then []
  else asBytes (Nat.toDigits 16 data.length) ++ (crlf ++ (data ++ crlf))

/-- The body that a list of writes makes, with its end. -/
def chunkedBody (writes : List Bytes) : Bytes :=
  writes.flatMap chunk ++ (asBytes ['0'] ++ (crlf ++ crlf))

/-! ## The connection -/

/-- What a connection still brings; `grants` bounds each read to come, and `broken` is
whether it fails or ends after that. -/
structure ByteStream where
  bytes : Bytes
  grants : List Nat := []
  broken : Bool := false
  deriving DecidableEq, Repr

namespace ByteStream

/-- `read` into a buffer of `want` bytes; `none` is an error. -/
def read (s : ByteStream) (want : Nat) : Option (Bytes × ByteStream) :=
  if s.bytes = [] then
    if s.broken then none else some ([], s)
  else
    let n := min want (max 1 (s.grants.head?.getD want))
    some (s.bytes.take n, { s with bytes := s.bytes.drop n, grants := s.grants.tail })

theorem read_some {s s' : ByteStream} {want : Nat} {data : Bytes}
    (h : s.read want = some (data, s')) :
    data ++ s'.bytes = s.bytes ∧ s'.broken = s.broken ∧ data.length ≤ want := by
  unfold read at h
  split at h
  next hnil =>
    split at h
    · cases h
    · cases h
      exact ⟨rfl, rfl, Nat.zero_le _⟩
  · cases h
    refine ⟨List.take_append_drop _ _, rfl, ?_⟩
    rw [List.length_take]
    omega

theorem read_le {s s' : ByteStream} {want : Nat} {data : Bytes}
    (h : s.read want = some (data, s')) :
    s'.bytes.length ≤ s.bytes.length := by
  rw [← (read_some h).1, List.length_append]
  omega

theorem read_nil {s : ByteStream} (hs : s.bytes = []) (want : Nat) :
    s.read want = if s.broken then none else some ([], s) := by
  unfold read
  rw [if_pos hs]

/-- Something is read while there is something to read. -/
theorem read_more {s : ByteStream} {want : Nat} (hwant : 0 < want) (hmore : s.bytes ≠ []) :
    ∃ b rest s', s.read want = some (b :: rest, s') := by
  have hread : s.read want = some (s.bytes.take (min want (max 1 (s.grants.head?.getD want))),
      { s with
        bytes := s.bytes.drop (min want (max 1 (s.grants.head?.getD want)))
        grants := s.grants.tail }) := by
    unfold read
    rw [if_neg hmore]
  obtain ⟨n, hn⟩ : ∃ n, min want (max 1 (s.grants.head?.getD want)) = n + 1 :=
    Nat.exists_eq_succ_of_ne_zero (by omega)
  obtain ⟨b, tail, hbytes⟩ := List.exists_cons_of_ne_nil hmore
  rw [hn, hbytes, List.take_succ_cons] at hread
  exact ⟨b, _, _, hread⟩

theorem read_none {s : ByteStream} {want : Nat} (hwant : 0 < want) (h : s.read want = none) :
    s.bytes = [] ∧ s.broken = true := by
  have hnil : s.bytes = [] := by
    by_contra hmore
    obtain ⟨b, rest, s', hsome⟩ := read_more hwant hmore
    rw [h] at hsome
    cases hsome
  rw [read_nil hnil] at h
  cases hbroken : s.broken with
  | false => rw [hbroken] at h; cases h
  | true => exact ⟨hnil, rfl⟩

theorem read_empty {s s' : ByteStream} {want : Nat} (hwant : 0 < want)
    (h : s.read want = some ([], s')) : s.bytes = [] ∧ s.broken = false ∧ s' = s := by
  have hnil : s.bytes = [] := by
    by_contra hmore
    obtain ⟨b, rest, s', hsome⟩ := read_more hwant hmore
    rw [h] at hsome
    cases hsome
  rw [read_nil hnil] at h
  cases hbroken : s.broken with
  | false =>
      rw [hbroken] at h
      cases h
      exact ⟨hnil, rfl, rfl⟩
  | true => rw [hbroken] at h; cases h

end ByteStream

/-- `while buf.last() == Some(&b'\r')`. -/
def stripCr (buf : Bytes) : Bytes :=
  (buf.reverse.dropWhile (· = 13)).reverse

/-- The rounds of `read_line`, of 256 bytes at most. -/
def readLineLoop : Nat → Bytes → ByteStream → Option Text × ByteStream
  | 0, _, s => (none, s)
  | budget + 1, buf, s =>
      match s.read 1 with
      | none => (none, s)
      | some ([], s) => (none, s)
      | some (b :: _, s) =>
          if b = 10 then (some (fromUtf8Lossy (stripCr buf)), s)
          else readLineLoop budget (buf ++ [b]) s

def readLine (s : ByteStream) : Option Text × ByteStream :=
  readLineLoop 256 [] s

theorem readLineLoop_le (budget : Nat) (buf : Bytes) (s : ByteStream) :
    (readLineLoop budget buf s).2.bytes.length ≤ s.bytes.length := by
  induction budget generalizing buf s with
  | zero => exact Nat.le_refl _
  | succ budget ih =>
      unfold readLineLoop
      split
      · exact Nat.le_refl _
      next s' hread => exact ByteStream.read_le hread
      next b rest s' hread =>
        have hlen := congrArg List.length (ByteStream.read_some hread).1
        rw [List.length_append, List.length_cons] at hlen
        split
        · show s'.bytes.length ≤ _
          omega
        · have := ih (buf ++ [b]) s'
          omega

/-- A line takes at least its end from the connection. -/
theorem readLine_lt {s s' : ByteStream} {line : Text} (h : readLine s = (some line, s')) :
    s'.bytes.length < s.bytes.length := by
  have hsome : (readLine s).1 ≠ none := by simp [h]
  have hpart : (readLine s).2 = s' := by rw [h]
  rw [← hpart]
  unfold readLine readLineLoop at hsome ⊢
  split at hsome
  · exact absurd rfl hsome
  · exact absurd rfl hsome
  next b rest t hread =>
    have hlen := congrArg List.length (ByteStream.read_some hread).1
    rw [List.length_append, List.length_cons] at hlen
    split
    · show t.bytes.length < _
      omega
    · have := readLineLoop_le 255 ([] ++ [b]) t
      omega

/-! ## The reader -/

/-- The longest archive that is taken, compressed. -/
def maxUploadBytes : Nat := 8 * 1024 * 1024 * 1024

inductive UploadError
  | read
  /-- The connection ends in a chunk: that is how a sender cancels. -/
  | senderCancelled
  | notWritten
  | tooLarge
  deriving DecidableEq, Repr

/-- A body on its way into a file. -/
structure Upload where
  stream : ByteStream
  out : Bytes := []
  /-- The first bytes, kept for format sniffing. -/
  sniff : Bytes := []
  progress : List Nat := []
  deriving DecidableEq, Repr

/-- What `stream_chunked` does not decide: whether the transfer is cancelled once so many
bytes are in, and how many the disk takes. -/
structure UploadEnv where
  cancelled : Nat → Bool
  room : Option Nat := none

/-- The bytes of one chunk.  The outer error is a return from the whole function. -/
def copyChunk (env : UploadEnv) (left total : Nat) (u : Upload) :
    Except (Except UploadError Nat) Nat × Upload :=
  if left = 0 then (.ok total, u)
  else
    match u.stream.read (min left 8192) with
    | none => (.error (.error .read), u)
    | some ([], s) => (.error (.error .senderCancelled), { u with stream := s })
    | some (b :: rest, s) =>
        let data := b :: rest
        let u := { u with stream := s, sniff := u.sniff ++ data.take (16 - u.sniff.length) }
        let room := env.room.getD (u.out ++ data).length
        let u := { u with out := (u.out ++ data).take room }
        if room < total + data.length then (.error (.error .notWritten), u)
        else if total + data.length > maxUploadBytes then (.error (.error .tooLarge), u)
        else
          let u := { u with progress := u.progress ++ [total + data.length] }
          if env.cancelled (total + data.length) then (.error (.ok (total + data.length)), u)
          else copyChunk env (left - data.length) (total + data.length) u
termination_by left
decreasing_by
  simp only [List.length_cons]
  omega

/-- The lines after the last chunk, up to an empty one. -/
def skipTrailers (s : ByteStream) : ByteStream :=
  match _hline : readLine s with
  | (none, s') => s'
  | (some [], s') => s'
  | (some (_ :: _), s') => skipTrailers s'
termination_by s.bytes.length
decreasing_by exact readLine_lt _hline

/-- The size that a chunk's first line gives. -/
def chunkSize (line : Text) : Option Nat :=
  fromStrRadix 16 (2 ^ 64) (trim (line.takeWhile (· ≠ ';')))

theorem copyChunk_le (env : UploadEnv) (left total : Nat) (u : Upload) :
    (copyChunk env left total u).2.stream.bytes.length ≤ u.stream.bytes.length := by
  fun_induction copyChunk env left total u with
  | case1 total u => exact Nat.le_refl _
  | case2 left total u hleft hread => exact Nat.le_refl _
  | case3 left total u hleft s hread => exact ByteStream.read_le hread
  | case4 left total u hleft b rest s hread => exact ByteStream.read_le hread
  | case5 left total u hleft b rest s hread => exact ByteStream.read_le hread
  | case6 left total u hleft b rest s hread => exact ByteStream.read_le hread
  | case7 left total u hleft b rest s hread data _ _ _ _ _ _ _ ih =>
      exact Nat.le_trans ih (ByteStream.read_le hread)

/-- `stream_chunked`, with `total` bytes in. -/
def streamChunked (env : UploadEnv) (total : Nat) (u : Upload) : Except UploadError Nat × Upload :=
  match _hline : readLine u.stream with
  | (none, s) => (.ok total, { u with stream := s })
  | (some line, s) =>
      match chunkSize line with
      | none => (.ok total, { u with stream := s })
      | some 0 => (.ok total, { u with stream := skipTrailers s })
      | some size =>
          match _hcopy : copyChunk env size total { u with stream := s } with
          | (.error r, u') => (r, u')
          | (.ok total', u') =>
              streamChunked env total' { u' with stream := (readLine u'.stream).2 }
termination_by u.stream.bytes.length
decreasing_by
  have hline := readLine_lt _hline
  have hchunk := copyChunk_le env size total { u with stream := s }
  rw [_hcopy] at hchunk
  have hend := readLineLoop_le 256 [] u'.stream
  exact Nat.lt_of_le_of_lt (Nat.le_trans hend hchunk) hline

/-! ## What was written is what arrives -/

/-- A line of fewer than 256 bytes is read, its carriage returns left out. -/
theorem readLineLoop_line {line rest : Bytes} (hline : (10 : UInt8) ∉ line) (budget : Nat)
    (hlen : line.length < budget) (buf : Bytes) (s : ByteStream)
    (hs : s.bytes = line ++ 10 :: rest) :
    ∃ s', readLineLoop budget buf s = (some (fromUtf8Lossy (stripCr (buf ++ line))), s') ∧
      s'.bytes = rest := by
  induction line generalizing budget buf s with
  | nil =>
      obtain ⟨budget, rfl⟩ := Nat.exists_eq_succ_of_ne_zero (Nat.ne_of_gt hlen)
      obtain ⟨b, tail, s', hread⟩ := ByteStream.read_more (s := s) Nat.zero_lt_one (by simp [hs])
      obtain ⟨hsplit, -, hone⟩ := ByteStream.read_some hread
      rw [List.length_cons] at hone
      obtain rfl : tail = [] := List.eq_nil_of_length_eq_zero (by omega)
      rw [hs] at hsplit
      obtain ⟨rfl, hrest⟩ := List.cons.inj hsplit
      refine ⟨s', ?_, hrest⟩
      rw [readLineLoop, hread]
      simp
  | cons c line ih =>
      obtain ⟨budget, rfl⟩ := Nat.exists_eq_succ_of_ne_zero (Nat.ne_of_gt (Nat.zero_lt_of_lt hlen))
      obtain ⟨b, tail, s', hread⟩ := ByteStream.read_more (s := s) Nat.zero_lt_one (by simp [hs])
      obtain ⟨hsplit, -, hone⟩ := ByteStream.read_some hread
      rw [List.length_cons] at hone
      obtain rfl : tail = [] := List.eq_nil_of_length_eq_zero (by omega)
      rw [hs] at hsplit
      obtain ⟨rfl, hrest⟩ := List.cons.inj hsplit
      obtain ⟨hne, hmem⟩ := not_or.mp (mt List.mem_cons.mpr hline)
      obtain ⟨s'', hloop, hbytes⟩ := ih hmem budget (by rw [List.length_cons] at hlen; omega)
        (buf ++ [b]) s' hrest
      refine ⟨s'', ?_, hbytes⟩
      rw [readLineLoop, hread]
      dsimp only
      rw [if_neg (Ne.symm hne), hloop, List.append_assoc, List.singleton_append]

/-- A line of text that ends in CR LF. -/
theorem readLine_crlf {line rest : Bytes} {s : ByteStream} (hlf : (10 : UInt8) ∉ line)
    (hcr : (13 : UInt8) ∉ line) (hlen : line.length < 255)
    (hs : s.bytes = line ++ (crlf ++ rest)) :
    ∃ s', readLine s = (some (fromUtf8Lossy line), s') ∧ s'.bytes = rest := by
  have hmem : (10 : UInt8) ∉ line ++ [13] := by
    simpa using hlf
  obtain ⟨s', hloop, hrest⟩ := readLineLoop_line hmem 256
    (by rw [List.length_append, List.length_singleton]; omega) [] s
    (show s.bytes = line ++ [13] ++ 10 :: rest by rw [hs, List.append_assoc]; rfl)
  have hstrip : stripCr (line ++ [13]) = line := by
    unfold stripCr
    rw [List.reverse_append, List.reverse_singleton, List.singleton_append, List.dropWhile_cons,
      if_pos (by decide)]
    have hstay : line.reverse.dropWhile (· = 13) = line.reverse := by
      cases hrev : line.reverse with
      | nil => rfl
      | cons c tail =>
          have hc : c ∈ line := List.mem_reverse.mp (by rw [hrev]; exact List.mem_cons_self)
          have hne : c ≠ 13 := fun h => hcr (h ▸ hc)
          rw [List.dropWhile_cons, if_neg (by simpa using hne)]
    rw [hstay, List.reverse_reverse]
  refine ⟨s', ?_, hrest⟩
  rw [readLine, hloop, List.nil_append, hstrip]

/-- The most that is taken: the cap, or what the disk holds. -/
def UploadEnv.limit (env : UploadEnv) : Nat :=
  match env.room with
  | none => maxUploadBytes
  | some room => min room maxUploadBytes

theorem limit_le (env : UploadEnv) : env.limit ≤ maxUploadBytes := by
  unfold UploadEnv.limit
  split
  · exact Nat.le_refl _
  · exact Nat.min_le_right _ _

theorem limit_of_room {env : UploadEnv} (hroom : env.room = none) : env.limit = maxUploadBytes := by
  unfold UploadEnv.limit
  rw [hroom]

/-- A chunk that is all there and within the limit. -/
structure Copied (env : UploadEnv) (left total : Nat) (u u' : Upload) : Prop where
  there : left ≤ u.stream.bytes.length
  within : left ≠ 0 → total + left ≤ env.limit
  out : u'.out = u.out ++ u.stream.bytes.take left
  rest : u'.stream.bytes = u.stream.bytes.drop left
  broken : u'.stream.broken = u.stream.broken

/-- A chunk that is not; within the limit the connection is at its end. -/
structure NotCopied (env : UploadEnv) (left total : Nat) (u u' : Upload) (e : UploadError) :
    Prop where
  short : left ≤ u.stream.bytes.length → env.limit < total + left
  atEnd : total + min left u.stream.bytes.length ≤ env.limit →
    e = if u.stream.broken then .read else .senderCancelled

theorem limit_lt_iff {env : UploadEnv} {out : Bytes} {n : Nat} (hout : out.length = n) :
    env.limit < n ↔ env.room.getD out.length < n ∨ n > maxUploadBytes := by
  unfold UploadEnv.limit
  cases env.room with
  | none => simp [hout]
  | some room =>
      simp only [Option.getD_some]
      omega

theorem NotCopied.of_past {env : UploadEnv} {left total n : Nat} {u u' : Upload}
    {e : UploadError} (hleft : n ≤ left) (hthere : n ≤ u.stream.bytes.length)
    (hpast : env.limit < total + n) : NotCopied env left total u u' e :=
  ⟨fun _ => by omega, fun h => absurd h (by omega)⟩

theorem NotCopied.of_end {env : UploadEnv} {left total : Nat} {u u' : Upload} {e : UploadError}
    (hleft : left ≠ 0) (hnil : u.stream.bytes = [])
    (he : e = if u.stream.broken then .read else .senderCancelled) :
    NotCopied env left total u u' e := by
  refine ⟨fun h => ?_, fun _ => he⟩
  rw [hnil] at h
  exact absurd (Nat.le_zero.mp h) hleft

section Piece

variable {env : UploadEnv} {left total : Nat} {u m u' : Upload} {data : Bytes} {e : UploadError}

/-- A piece that was read and written goes before the rest of its chunk. -/
theorem Copied.after (hsplit : data ++ m.stream.bytes = u.stream.bytes)
    (hbroken : m.stream.broken = u.stream.broken) (hout : m.out = u.out ++ data)
    (hlen : data.length ≤ left) (hwithin : total + data.length ≤ env.limit)
    (h : Copied env (left - data.length) (total + data.length) m u') :
    Copied env left total u u' := by
  have hthere := h.there
  refine ⟨?_, fun _ => ?_, ?_, ?_, h.broken.trans hbroken⟩
  · rw [← hsplit, List.length_append]
    omega
  · by_cases hlast : left - data.length = 0
    · omega
    · have := h.within hlast
      omega
  · rw [h.out, hout, ← hsplit, List.take_append, List.take_of_length_le hlen, List.append_assoc]
  · rw [h.rest, ← hsplit, List.drop_append, List.drop_eq_nil_of_le hlen, List.nil_append]

theorem NotCopied.after (hsplit : data ++ m.stream.bytes = u.stream.bytes)
    (hbroken : m.stream.broken = u.stream.broken) (hlen : data.length ≤ left)
    (h : NotCopied env (left - data.length) (total + data.length) m u' e) :
    NotCopied env left total u u' e := by
  have hlength : u.stream.bytes.length = data.length + m.stream.bytes.length := by
    rw [← hsplit, List.length_append]
  constructor
  · intro hthere
    have := h.short (by omega)
    omega
  · intro hwithin
    rw [← hbroken]
    exact h.atEnd (by omega)

end Piece

/-- What becomes of a chunk while nothing cancels it. -/
theorem copyChunk_cases {env : UploadEnv} (quiet : ∀ n, env.cancelled n = false)
    (left total : Nat) (u : Upload) (hout : u.out.length = total) :
    (∃ u', copyChunk env left total u = (.ok (total + left), u') ∧ Copied env left total u u') ∨
      ∃ e u', copyChunk env left total u = (.error (.error e), u') ∧
        NotCopied env left total u u' e := by
  fun_induction copyChunk env left total u with
  | case1 total u =>
      refine .inl ⟨u, rfl, Nat.zero_le _, fun h => absurd rfl h, ?_, ?_, rfl⟩
      · rw [List.take_zero, List.append_nil]
      · rw [List.drop_zero]
  | case2 left total u hleft hread =>
      obtain ⟨hnil, hbroken⟩ := ByteStream.read_none (by omega) hread
      exact .inr ⟨.read, u, rfl, .of_end hleft hnil (by rw [hbroken]; rfl)⟩
  | case3 left total u hleft s hread =>
      obtain ⟨hnil, hbroken, -⟩ := ByteStream.read_empty (by omega) hread
      exact .inr ⟨.senderCancelled, _, rfl, .of_end hleft hnil (by rw [hbroken]; rfl)⟩
  | case4 left total u hleft b rest s hread data u1 room u2 hfull =>
      obtain ⟨hsplit, -, hlen⟩ := ByteStream.read_some hread
      have hpast : env.limit < total + data.length :=
        (limit_lt_iff (by rw [List.length_append, hout])).mpr (.inl hfull)
      exact .inr ⟨.notWritten, u2, rfl, .of_past (Nat.le_trans hlen (Nat.min_le_left _ _))
        (by rw [← hsplit, List.length_append]; omega) hpast⟩
  | case5 left total u hleft b rest s hread data u1 room u2 hfull hlarge =>
      obtain ⟨hsplit, -, hlen⟩ := ByteStream.read_some hread
      have hpast : env.limit < total + data.length :=
        Nat.lt_of_le_of_lt (limit_le env) hlarge
      exact .inr ⟨.tooLarge, u2, rfl, .of_past (Nat.le_trans hlen (Nat.min_le_left _ _))
        (by rw [← hsplit, List.length_append]; omega) hpast⟩
  | case6 left total u hleft b rest s hread data u1 room u2 hfull hlarge u3 hcancel =>
      rw [quiet] at hcancel
      cases hcancel
  | case7 left total u hleft b rest s hread data u1 room u2 hfull hlarge u3 hgo ih =>
      obtain ⟨hsplit, hbroken, hlen⟩ := ByteStream.read_some hread
      have hsplit : data ++ s.bytes = u.stream.bytes := hsplit
      have hlen : data.length ≤ left := Nat.le_trans hlen (Nat.min_le_left _ _)
      have hwithin : total + data.length ≤ env.limit := Nat.not_lt.mp fun hpast =>
        ((limit_lt_iff (by rw [List.length_append, hout])).mp hpast).elim hfull hlarge
      have hout' : u3.out = u.out ++ data := by
        refine List.take_of_length_le ?_
        have : ¬(room < total + data.length) := hfull
        show (u.out ++ data).length ≤ room
        rw [List.length_append, hout]
        omega
      have hlater : left - data.length + (total + data.length) = total + left := by omega
      rcases ih (by rw [hout', List.length_append, hout]) with
        ⟨u', hcopy, hcopied⟩ | ⟨e, u', hcopy, hnot⟩
      · exact .inl ⟨u', by rw [hcopy, Nat.add_comm, hlater],
          hcopied.after hsplit hbroken hout' hlen hwithin⟩
      · exact .inr ⟨e, u', hcopy, hnot.after hsplit hbroken hlen⟩

/-- A chunk is copied whole, however it comes. -/
theorem copyChunk_data {env : UploadEnv} (quiet : ∀ n, env.cancelled n = false)
    (data rest : Bytes) (total : Nat) (u : Upload) (hu : u.stream.bytes = data ++ rest)
    (hout : u.out.length = total) (hcap : total + data.length ≤ env.limit) :
    ∃ u', copyChunk env data.length total u = (.ok (total + data.length), u') ∧
      u'.out = u.out ++ data ∧ u'.stream.bytes = rest := by
  rcases copyChunk_cases quiet data.length total u hout with
    ⟨u', hcopy, hcopied⟩ | ⟨e, u', -, hnot⟩
  · refine ⟨u', hcopy, ?_, ?_⟩
    · rw [hcopied.out, hu, List.take_left]
    · rw [hcopied.rest, hu, List.drop_left]
  · have := hnot.short (by rw [hu, List.length_append]; omega)
    omega

theorem isWhitespace_digitChar {d : Nat} (hd : d < 16) :
    isWhitespace (Nat.digitChar d) = false := by
  have hall : ∀ d < 16, isWhitespace (Nat.digitChar d) = false := by decide
  exact hall d hd

theorem dropWhile_whitespace {t : Text} (h : ∀ c ∈ t, isWhitespace c = false) :
    t.dropWhile isWhitespace = t := by
  cases t with
  | nil => rfl
  | cons c t => rw [List.dropWhile_cons, if_neg (by simp [h c List.mem_cons_self])]

theorem trim_of_solid {t : Text} (h : ∀ c ∈ t, isWhitespace c = false) : trim t = t := by
  have hback : ∀ c ∈ t.reverse, isWhitespace c = false := fun c hc => h c (List.mem_reverse.mp hc)
  rw [trim, dropWhile_whitespace h, dropWhile_whitespace hback, List.reverse_reverse]

/-- The size that the writer puts before a chunk is the one that is read. -/
theorem chunkSize_toDigits {n : Nat} (hn : n < 2 ^ 64) :
    chunkSize (Nat.toDigits 16 n) = some n := by
  have hone : 1 < 16 := by decide
  have hsemi : (Nat.toDigits 16 n).takeWhile (· ≠ ';') = Nat.toDigits 16 n := by
    rw [List.takeWhile_eq_self_iff]
    intro c hc
    obtain ⟨d, hd, rfl⟩ := mem_toDigits hone hc
    have hall : ∀ d < 16, Nat.digitChar d ≠ ';' := by decide
    exact decide_eq_true (hall d hd)
  have hsolid : ∀ c ∈ Nat.toDigits 16 n, isWhitespace c = false := by
    intro c hc
    obtain ⟨d, hd, rfl⟩ := mem_toDigits hone hc
    exact isWhitespace_digitChar hd
  unfold chunkSize
  rw [hsemi, trim_of_solid hsolid]
  exact fromStrRadix_toDigits hone (Nat.le_refl 16) hn 0

/-- The line of digits before a chunk. -/
theorem readLine_toDigits {n : Nat} {rest : Bytes} {s : ByteStream} (hn : n < 2 ^ 64)
    (hs : s.bytes = asBytes (Nat.toDigits 16 n) ++ (crlf ++ rest)) :
    ∃ s', readLine s = (some (Nat.toDigits 16 n), s') ∧ s'.bytes = rest := by
  have hone : 1 < 16 := by decide
  have hbytes := asBytes_ascii (isAscii_toDigits hone (Nat.le_refl 16) 0 n)
  rw [List.replicate_zero, List.nil_append] at hbytes
  have hnone : ∀ b ∈ asBytes (Nat.toDigits 16 n), b ≠ 10 ∧ b ≠ 13 := by
    intro b hb
    rw [hbytes] at hb
    obtain ⟨c, hc, rfl⟩ := List.mem_map.mp hb
    obtain ⟨d, hd, rfl⟩ := mem_toDigits hone hc
    have hall : ∀ d < 16, UInt8.ofNat (Nat.digitChar d).toNat ≠ 10 ∧
        UInt8.ofNat (Nat.digitChar d).toNat ≠ 13 := by decide
    exact hall d hd
  have hlen : (asBytes (Nat.toDigits 16 n)).length ≤ 16 := by
    rw [hbytes, List.length_map]
    refine (Nat.length_toDigits_le_iff hone (by decide)).mpr (lt_of_lt_of_le hn ?_)
    exact Nat.le_of_eq rfl
  obtain ⟨s', hread, hrest⟩ := readLine_crlf (fun h => (hnone _ h).1 rfl)
    (fun h => (hnone _ h).2 rfl) (by omega) hs
  rw [fromUtf8Lossy_asBytes] at hread
  exact ⟨s', hread, hrest⟩

theorem streamChunked_last {env : UploadEnv} {total : Nat} {u : Upload} {line : Text}
    {s : ByteStream} (hline : readLine u.stream = (some line, s))
    (hsize : chunkSize line = some 0) :
    streamChunked env total u = (.ok total, { u with stream := skipTrailers s }) := by
  rw [streamChunked]
  split
  next h => rw [hline] at h; cases h
  next line' s' h =>
    rw [hline] at h
    cases h
    simp only [hsize]

theorem streamChunked_more {env : UploadEnv} {total total' size : Nat} {u u' : Upload} {line : Text}
    {s : ByteStream} (hline : readLine u.stream = (some line, s))
    (hsize : chunkSize line = some size) (hpos : size ≠ 0)
    (hcopy : copyChunk env size total { u with stream := s } = (.ok total', u')) :
    streamChunked env total u =
      streamChunked env total' { u' with stream := (readLine u'.stream).2 } := by
  rw [streamChunked]
  split
  next h => rw [hline] at h; cases h
  next line' s' h =>
    rw [hline] at h
    cases h
    split
    next hnone => rw [hsize] at hnone; cases hnone
    next hzero => rw [hsize] at hzero; cases hzero; exact absurd rfl hpos
    next size' _ hsome =>
      rw [hsize] at hsome
      cases hsome
      split
      next r _ herr => rw [hcopy] at herr; cases herr
      next hok => rw [hcopy] at hok; cases hok; rfl

/-- A blank line is the end of the trailers. -/
theorem skipTrailers_blank {s : ByteStream} {rest : Bytes} (hs : s.bytes = crlf ++ rest) :
    (skipTrailers s).bytes = rest := by
  obtain ⟨s', hempty, hs'⟩ := readLine_crlf List.not_mem_nil List.not_mem_nil (by decide)
    (show s.bytes = [] ++ (crlf ++ rest) from hs)
  rw [skipTrailers]
  split
  next h => rw [hempty] at h; cases h
  next h => rw [hempty] at h; cases h; exact hs'
  next h => rw [hempty] at h; cases h

/-- **The file gets what was written**, and the connection stands after the body. -/
theorem streamChunked_body {env : UploadEnv} (quiet : ∀ n, env.cancelled n = false)
    (writes : List Bytes) (total : Nat) (rest : Bytes) (u : Upload)
    (hu : u.stream.bytes = chunkedBody writes ++ rest) (hout : u.out.length = total)
    (hcap : total + writes.flatten.length ≤ env.limit) :
    ∃ u', streamChunked env total u = (.ok (total + writes.flatten.length), u') ∧
      u'.out = u.out ++ writes.flatten ∧ u'.stream.bytes = rest := by
  have hmax : maxUploadBytes < 2 ^ 64 := by decide
  have hlimit := limit_le env
  induction writes generalizing total u with
  | nil =>
      obtain ⟨s, hline, hs⟩ := readLine_toDigits (n := 0) (by decide) hu
      refine ⟨{ u with stream := skipTrailers s }, ?_, (List.append_nil _).symm,
        skipTrailers_blank hs⟩
      rw [streamChunked_last hline (chunkSize_toDigits (by decide))]
      rfl
  | cons data writes ih =>
      rw [List.flatten_cons, List.length_append] at hcap
      by_cases hdata : data = []
      · -- the empty write leaves nothing on the connection
        subst hdata
        exact ih total u hu hout (by simpa using hcap)
      · have hlen : data.length ≠ 0 := by simpa using hdata
        have hbody : u.stream.bytes = asBytes (Nat.toDigits 16 data.length) ++
            (crlf ++ (data ++ (crlf ++ (chunkedBody writes ++ rest)))) := by
          rw [hu, chunkedBody, List.flatMap_cons, chunk, if_neg hdata]
          simp only [chunkedBody, List.append_assoc]
        obtain ⟨s, hline, hs⟩ := readLine_toDigits (by omega) hbody
        obtain ⟨u1, hcopy, hout1, hstream1⟩ := copyChunk_data quiet data _ total
          { u with stream := s } hs hout (by omega)
        obtain ⟨s2, hend, hs2⟩ := readLine_crlf List.not_mem_nil List.not_mem_nil
          (by decide)
          (show u1.stream.bytes = [] ++ (crlf ++ (chunkedBody writes ++ rest)) from hstream1)
        obtain ⟨u', hrun, hout', hstream'⟩ := ih (total + data.length) { u1 with stream := s2 } hs2
          (by rw [hout1, List.length_append, hout]) (by omega)
        refine ⟨u', ?_, ?_, hstream'⟩
        · rw [streamChunked_more hline (chunkSize_toDigits (by omega)) hlen hcopy, hend, hrun,
            List.flatten_cons, List.length_append, Nat.add_assoc]
        · rw [hout', hout1, List.flatten_cons, List.append_assoc]

end Sharingd
