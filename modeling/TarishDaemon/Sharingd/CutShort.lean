import TarishDaemon.Sharingd.Bodies

/-!
# An upload that is cut short

`stream_chunked` ends well at the chunk of length zero.  It also ends well wherever it cannot
read a size: where the connection closes between two chunks or in a size line, and where the
line is no number.  Only a close inside the data of a chunk is taken for the sender's
cancelling.

**An upload that is cut short is reported as such exactly where, wherever whole chunks lead,
there is a size to read** (`cut_short_iff`).
-/

namespace Sharingd

open Rust

/-- The size that the next line gives. -/
def sizeLine (bytes : Bytes) : Option Nat :=
  (firstLine bytes).1.bind chunkSize

/-- Whole chunks lead to the one of length zero. -/
def Terminated (cap : Nat) (bytes : Bytes) : Prop :=
  ∃ n rest, Leads cap 0 bytes n rest ∧ sizeLine rest = some 0

/-- The sender closes the connection before the chunk of length zero, with nothing sent that
is past the limit. -/
structure ClosesEarly (cap : Nat) (s : ByteStream) : Prop where
  closes : s.broken = false
  early : ¬Terminated cap s.bytes
  within : ∀ n rest line data size, Leads cap 0 s.bytes n rest →
    firstLine rest = (some line, data) → chunkSize line = some size →
    n + min size data.length ≤ cap

/-! ## The places that whole chunks lead to -/

section Leads

variable {cap n n₁ n₂ : Nat} {bytes rest₁ rest₂ : Bytes}

/-- Of two places one leads to the other. -/
theorem Leads.comparable (h₁ : Leads cap n bytes n₁ rest₁) (h₂ : Leads cap n bytes n₂ rest₂) :
    Leads cap n₁ rest₁ n₂ rest₂ ∨ Leads cap n₂ rest₂ n₁ rest₁ := by
  induction h₁ with
  | here => exact .inl h₂
  | chunk hline hsize hpos hcap whole later ih =>
      cases h₂ with
      | here => exact .inr (.chunk hline hsize hpos hcap whole later)
      | chunk hline' hsize' _ _ _ later' =>
          rw [hline] at hline'
          cases hline'
          rw [hsize] at hsize'
          cases hsize'
          exact ih later'

/-- The next chunk is not one that is whole and within the cap. -/
def Stuck (cap n : Nat) (bytes : Bytes) : Prop :=
  ∀ line data size, firstLine bytes = (some line, data) → chunkSize line = some size →
    size ≠ 0 → size ≤ data.length → cap < n + size

theorem stuck_of_sizeLine (h : sizeLine bytes = none ∨ sizeLine bytes = some 0) :
    Stuck cap n bytes := by
  intro line data size hline hsize hpos
  have hsome : sizeLine bytes = some size := by
    rw [sizeLine, hline]
    exact hsize
  rw [hsome] at h
  rcases h with hnone | hzero
  · cases hnone
  · exact absurd (Option.some.inj hzero) hpos

theorem Leads.stop (hstuck : Stuck cap n bytes) (h : Leads cap n bytes n₁ rest₁) :
    n₁ = n ∧ rest₁ = bytes := by
  cases h with
  | here => exact ⟨rfl, rfl⟩
  | chunk hline hsize hpos hcap whole =>
      exact absurd (hstuck _ _ _ hline hsize hpos whole) (Nat.not_lt.mpr hcap)

/-- There is one place from which chunks lead nowhere. -/
theorem Leads.stop_unique (h₁ : Leads cap n bytes n₁ rest₁) (h₂ : Leads cap n bytes n₂ rest₂)
    (stuck₁ : Stuck cap n₁ rest₁) (stuck₂ : Stuck cap n₂ rest₂) : n₁ = n₂ ∧ rest₁ = rest₂ := by
  rcases h₁.comparable h₂ with h | h
  · obtain ⟨hn, hrest⟩ := h.stop stuck₁
    exact ⟨hn.symm, hrest.symm⟩
  · exact h.stop stuck₂

end Leads

/-! ## Where the reader ends -/

/-- What the reader answers where whole chunks have led it, if they lead no further. -/
inductive StopsWith (env : UploadEnv) (broken : Bool) (n : Nat) (rest : Bytes) :
    Except UploadError Nat → Prop
  | noSize (hsize : sizeLine rest = none) : StopsWith env broken n rest (.ok n)
  | zero (hsize : sizeLine rest = some 0) : StopsWith env broken n rest (.ok n)
  | part {line : Text} {data : Bytes} {size : Nat} {e : UploadError}
      (hline : firstLine rest = (some line, data)) (hsize : chunkSize line = some size)
      (hpos : size ≠ 0) (hshort : size ≤ data.length → env.limit < n + size)
      (hend : n + min size data.length ≤ env.limit →
        e = if broken then .read else .senderCancelled) :
      StopsWith env broken n rest (.error e)

theorem StopsWith.stuck {env : UploadEnv} {broken : Bool} {n : Nat} {rest : Bytes}
    {result : Except UploadError Nat} (h : StopsWith env broken n rest result) :
    Stuck env.limit n rest := by
  cases h with
  | noSize hsize => exact stuck_of_sizeLine (.inl hsize)
  | zero hsize => exact stuck_of_sizeLine (.inr hsize)
  | part hline hsize _ hshort _ =>
      intro line' data' size' hline' hsize' _ whole
      rw [hline] at hline'
      cases hline'
      rw [hsize] at hsize'
      cases hsize'
      exact hshort whole

theorem readLineLoop_broken (budget : Nat) (buf : Bytes) (s : ByteStream) :
    (readLineLoop budget buf s).2.broken = s.broken := by
  induction budget generalizing buf s with
  | zero => rfl
  | succ budget ih =>
      unfold readLineLoop
      split
      · rfl
      next s' hread => exact (ByteStream.read_some hread).2.1
      next b rest s' hread =>
        have hsame := (ByteStream.read_some hread).2.1
        split
        · exact hsame
        · exact (ih _ s').trans hsame

/-- **The reader goes where whole chunks lead**, and answers where they lead no further. -/
theorem streamChunked_stops {env : UploadEnv} (quiet : ∀ n, env.cancelled n = false) (total : Nat)
    (u : Upload) (hout : u.out.length = total) :
    ∃ n rest, Leads env.limit total u.stream.bytes n rest ∧
      StopsWith env u.stream.broken n rest (streamChunked env total u).1 := by
  fun_induction streamChunked env total u with
  | case1 total u s hline =>
      exact ⟨total, _, .here _ _, .noSize (by rw [sizeLine, readLine_none hline]; rfl)⟩
  | case2 total u line s hline hsize =>
      exact ⟨total, _, .here _ _, .noSize (by rw [sizeLine, readLine_some hline]; exact hsize)⟩
  | case3 total u line s hline hsize =>
      exact ⟨total, _, .here _ _, .zero (by rw [sizeLine, readLine_some hline]; exact hsize)⟩
  | case4 total u line s hline size hpos hsize r u' hcopy =>
      have hbroken : s.broken = u.stream.broken := by
        have := readLineLoop_broken 256 [] u.stream
        rwa [show readLineLoop 256 [] u.stream = _ from hline] at this
      rcases copyChunk_cases quiet size total { u with stream := s } hout with
        ⟨u'', hwhole, -⟩ | ⟨e, u'', herr, hnot⟩
      · rw [hcopy] at hwhole
        cases hwhole
      · rw [hcopy] at herr
        cases herr
        have hend : total + min size s.bytes.length ≤ env.limit →
            e = if s.broken then .read else .senderCancelled := hnot.atEnd
        rw [hbroken] at hend
        exact ⟨total, _, .here _ _, .part (readLine_some hline) hsize (fun h => hpos h)
          hnot.short hend⟩
  | case5 total u line s hline size hpos hsize total' u' hcopy ih =>
      have hbroken : s.broken = u.stream.broken := by
        have := readLineLoop_broken 256 [] u.stream
        rwa [show readLineLoop 256 [] u.stream = _ from hline] at this
      rcases copyChunk_cases quiet size total { u with stream := s } hout with
        ⟨u'', hwhole, hcopied⟩ | ⟨e, u'', herr, -⟩
      · rw [hcopy] at hwhole
        cases hwhole
        have hthere : size ≤ s.bytes.length := hcopied.there
        have hout' : u'.out = u.out ++ s.bytes.take size := hcopied.out
        have hrest : u'.stream.bytes = s.bytes.drop size := hcopied.rest
        have hsame : u'.stream.broken = s.broken := hcopied.broken
        obtain ⟨n, rest, hleads, hstops⟩ := ih (show u'.out.length = total + size by
          rw [hout', List.length_append, List.length_take, Nat.min_eq_left hthere, hout])
        have hleads : Leads env.limit (total + size) (readLine u'.stream).2.bytes n rest := hleads
        rw [(readLine_bytes u'.stream).2, hrest] at hleads
        have hstops : StopsWith env (readLine u'.stream).2.broken n rest _ := hstops
        rw [readLine, readLineLoop_broken, hsame, hbroken] at hstops
        exact ⟨n, rest, .chunk (readLine_some hline) hsize (fun h => hpos h)
          (hcopied.within fun h => hpos h) hthere hleads, hstops⟩
      · rw [hcopy] at herr
        cases herr

/-- Where there is no size to read the transfer ends well. -/
theorem streamChunked_noSize {env : UploadEnv} (quiet : ∀ n, env.cancelled n = false)
    {s : ByteStream} {n : Nat} {rest : Bytes} (h : Leads env.limit 0 s.bytes n rest)
    (hsize : sizeLine rest = none) :
    (streamChunked env 0 { stream := s }).1 = .ok n ∧ ¬Terminated env.limit s.bytes := by
  have hstuck : Stuck env.limit n rest := stuck_of_sizeLine (.inl hsize)
  constructor
  · obtain ⟨n', rest', hleads, hstops⟩ := streamChunked_stops quiet 0 { stream := s } rfl
    obtain ⟨rfl, rfl⟩ := hleads.stop_unique h hstops.stuck hstuck
    generalize (streamChunked env 0 { stream := s }).1 = result at hstops ⊢
    cases hstops with
    | noSize => rfl
    | zero => rfl
    | part hline hsome =>
        rw [sizeLine, hline] at hsize
        rw [Option.bind_some, hsome] at hsize
        cases hsize
  · rintro ⟨m, rest', hleads, hzero⟩
    obtain ⟨-, rfl⟩ := hleads.stop_unique h (stuck_of_sizeLine (.inr hzero)) hstuck
    rw [hsize] at hzero
    cases hzero

/-- **What is cut short is reported as cut short** exactly where there is a size to read
wherever whole chunks lead. -/
theorem cut_short_iff {env : UploadEnv} (quiet : ∀ n, env.cancelled n = false) (s : ByteStream) :
    ((∀ n u, streamChunked env 0 { stream := s } = (.ok n, u) → Terminated env.limit s.bytes) ∧
        (ClosesEarly env.limit s →
          (streamChunked env 0 { stream := s }).1 = .error .senderCancelled)) ↔
      ∀ n rest, Leads env.limit 0 s.bytes n rest → sizeLine rest ≠ none := by
  constructor
  · rintro ⟨hok, -⟩ n rest hleads hnone
    obtain ⟨hresult, hopen⟩ := streamChunked_noSize quiet hleads hnone
    exact hopen (hok n _ (Prod.ext hresult rfl))
  · intro hall
    obtain ⟨n, rest, hleads, hstops⟩ := streamChunked_stops quiet 0 { stream := s } rfl
    have hleads : Leads env.limit 0 s.bytes n rest := hleads
    generalize hrun : streamChunked env 0 { stream := s } = run at hstops ⊢
    obtain ⟨result, u⟩ := run
    cases hstops with
    | noSize hsize => exact absurd hsize (hall n rest hleads)
    | zero hsize =>
        refine ⟨fun _ _ _ => ⟨n, rest, hleads, hsize⟩, fun hearly => ?_⟩
        exact absurd ⟨n, rest, hleads, hsize⟩ hearly.early
    | part hline hsize hpos _ hend =>
        refine ⟨fun _ _ hok => (by cases hok), fun hearly => ?_⟩
        have hbroken : s.broken = false := hearly.closes
        have hcancelled := hend (hearly.within n rest _ _ _ hleads hline hsize)
        rw [hbroken] at hcancelled
        rw [hcancelled]
        rfl

/-- A sender that closes the connection inside its first chunk. -/
def insideChunk : ByteStream :=
  { bytes := asBytes "5\r\nhel".toList }

theorem insideChunk_cut_short :
    (∀ n u, streamChunked { cancelled := fun _ => false } 0 { stream := insideChunk } = (.ok n, u) →
        Terminated maxUploadBytes insideChunk.bytes) ∧
      (ClosesEarly maxUploadBytes insideChunk →
        (streamChunked { cancelled := fun _ => false } 0 { stream := insideChunk }).1 =
          .error .senderCancelled) := by
  have hfirst : firstLine insideChunk.bytes = (some ['5'], asBytes "hel".toList) := by
    decide +kernel
  have hfive : chunkSize ['5'] = some 5 := by decide
  refine (cut_short_iff (fun _ => rfl) insideChunk).mpr fun n rest hleads hnone => ?_
  cases hleads with
  | here =>
      rw [sizeLine, hfirst, Option.bind_some, hfive] at hnone
      cases hnone
  | chunk hline hsize _ _ whole =>
      rw [hfirst] at hline
      cases hline
      rw [hfive] at hsize
      cases hsize
      exact absurd whole (by decide)

/-- A sender that closes the connection after its first chunk. -/
def oneChunk : ByteStream :=
  { bytes := asBytes "5\r\nhello\r\n".toList }

/-- The transfer ends well. -/
theorem oneChunk_ends_well :
    ∃ u, streamChunked { cancelled := fun _ => false } 0 { stream := oneChunk } = (.ok 5, u) ∧
      ¬Terminated maxUploadBytes oneChunk.bytes ∧ ClosesEarly maxUploadBytes oneChunk := by
  have hfirst : firstLine oneChunk.bytes = (some ['5'], asBytes "hello\r\n".toList) := by
    decide +kernel
  have hsecond : firstLine ((asBytes "hello\r\n".toList).drop 5) = (some [], []) := by
    decide +kernel
  have hfive : chunkSize ['5'] = some 5 := by decide
  have hend : sizeLine [] = none := rfl
  have hleads : Leads maxUploadBytes 0 oneChunk.bytes 5 [] := by
    refine .chunk hfirst hfive (by decide) (by decide) (by decide) ?_
    rw [hsecond]
    exact .here 5 []
  have quiet : ∀ n, ({ cancelled := fun _ => false } : UploadEnv).cancelled n = false :=
    fun _ => rfl
  obtain ⟨hresult, hopen⟩ := streamChunked_noSize quiet hleads hend
  refine ⟨_, Prod.ext hresult rfl, hopen, rfl, hopen, ?_⟩
  intro n rest line data size hplace hline hsize
  cases hplace with
  | here =>
      rw [hfirst] at hline
      cases hline
      rw [hfive] at hsize
      cases hsize
      decide
  | chunk hline' hsize' _ _ _ later =>
      rw [hfirst] at hline'
      cases hline'
      rw [hfive] at hsize'
      cases hsize'
      rw [hsecond] at later
      obtain ⟨-, rfl⟩ := later.stop (stuck_of_sizeLine (.inl hend))
      cases hline

end Sharingd
