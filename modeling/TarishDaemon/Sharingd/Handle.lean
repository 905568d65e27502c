import TarishDaemon.Sharingd.Ask
import TarishDaemon.Sharingd.InStep
import TarishDaemon.Sharingd.Uploads

/-!
# One request of an AirDrop connection

`handle` reads a head, reads the body that goes with it, except on `/Upload`, and answers.
Where the answer keeps the connection, the next head is read from where this request left it.

**That is the end of the body exactly where the body is delimited the way the reader goes by**
(`in_step_iff`): a length that is a number and that comes in full, or chunks with short lines;
and on the path of the uploads, no body.
-/

namespace Sharingd

open Rust

inductive AskOutcome
  | accept
  | decline
  | cancelled
  | timeout
  deriving DecidableEq, Repr

/-- What `handle` does not decide. -/
structure HandleEnv where
  visible : Bool
  /-- Is the slot for a transfer free? -/
  begins : Bool
  autoAccept : Bool
  answer : AskOutcome
  /-- Is there an accepted offer? -/
  current : Bool
  /-- Can the reply be written? -/
  responds : Bool
  receive : ReceiveEnv

inductive Disposition
  | keepAlive
  | close
  deriving DecidableEq, Repr

structure Reply where
  status : Nat
  keepAlive : Bool
  deriving DecidableEq, Repr

/-- What `handle` returns, with what it wrote; no disposition is an error or a panic. -/
structure Handled where
  disposition : Option Disposition
  reply : Option Reply := none
  stream : ByteStream
  inbox : HashMap Text Bytes

inductive Route
  | head
  | discover
  | ask
  | upload
  | other
  deriving DecidableEq, Repr

/-- The arms of the match on the method and the path. -/
def routeOf (method path : Text) : Route :=
  if method = "HEAD".toList ∧ path = "/".toList then .head
  else if method = "POST".toList ∧ path = "/Discover".toList then .discover
  else if method = "POST".toList ∧ path = "/Ask".toList then .ask
  else if method = "POST".toList ∧ path = "/Upload".toList then .upload
  else .other

/-- The body that is read before the answer. -/
def requestBody (head : Text) (s : ByteStream) : Option (Bytes × Bool) × ByteStream :=
  if (requestLine head).2 = "/Upload".toList then (some ([], false), s) else readBody s head

/-- A reply that keeps the connection if it is to be kept. -/
def reply (env : HandleEnv) (status : Nat) (keepAlive : Bool) (s : ByteStream)
    (inbox : HashMap Text Bytes) : Handled :=
  if env.responds then
    ⟨some (if keepAlive then .keepAlive else .close), some ⟨status, keepAlive⟩, s, inbox⟩
  else ⟨none, none, s, inbox⟩

/-- The answer to an offer that is shown. -/
def askAnswer (env : HandleEnv) : AskOutcome :=
  if env.autoAccept then .accept else env.answer

/-- The match of `handle`. -/
def answerRoute (env : HandleEnv) (head : Text) (body : Bytes) (s : ByteStream)
    (inbox : HashMap Text Bytes) : Handled :=
  let keepAlive := asksKeepAlive head
  match routeOf (requestLine head).1 (requestLine head).2 with
  | .head | .discover =>
      if env.visible then reply env 200 keepAlive s inbox else reply env 401 false s inbox
  | .ask =>
      if !env.visible then reply env 401 false s inbox
      else if !env.begins then reply env 401 false s inbox
      else if describeOffer body = none then reply env 401 false s inbox
      else
        match askAnswer env with
        | .accept => reply env 200 keepAlive s inbox
        | .decline => reply env 401 false s inbox
        | .cancelled => ⟨some .close, none, s, inbox⟩
        | .timeout => reply env 401 false s inbox
  | .upload =>
      if !env.current then reply env 401 false s inbox
      else
        let received := receiveUpload env.receive head s inbox
        match received.result with
        | .ok _ => reply env 200 false received.stream received.inbox
        | .error _ => reply env 500 false received.stream received.inbox
  | .other => reply env 401 keepAlive s inbox

/-- `handle`. -/
def handle (env : HandleEnv) (s : ByteStream) (inbox : HashMap Text Bytes) : Handled :=
  match readHead s with
  | (none, s) => ⟨none, none, s, inbox⟩
  | (some head, s) =>
      match requestBody head s with
      | (none, s) => ⟨none, none, s, inbox⟩
      | (some (_, true), s) => reply env 413 false s inbox
      | (some (body, false), s) => answerRoute env head body s inbox

/-! ## Where the connection is kept -/

/-- Does the route answer in a way that may keep the connection? -/
def admits (env : HandleEnv) (head : Text) (body : Bytes) : Bool :=
  match routeOf (requestLine head).1 (requestLine head).2 with
  | .head | .discover => env.visible
  | .ask =>
      env.visible && env.begins && (describeOffer body).isSome && decide (askAnswer env = .accept)
  | .upload => false
  | .other => true

/-- The body is larger than what is kept of it. -/
def TooLarge (head : Text) (bytes : Bytes) : Prop :=
  if isChunked head then ∃ n size, SizeAt maxBody 0 bytes n size ∧ maxBody < n + size
  else maxBody < declaredLength head

/-- What the peer and the device have to do for the connection to be kept. -/
structure StaysOpen (env : HandleEnv) (head : Text) (s : ByteStream) : Prop where
  asked : asksKeepAlive head = true
  responds : env.responds = true
  taken : (requestLine head).2 ≠ "/Upload".toList → ¬TooLarge head s.bytes
  admitted : ∀ body desynced, (requestBody head s).1 = some (body, desynced) →
    admits env head body = true

section Kept

variable {env : HandleEnv} {head : Text} {s : ByteStream} {inbox : HashMap Text Bytes}

theorem reply_keepAlive_iff {status : Nat} {keepAlive : Bool} :
    (reply env status keepAlive s inbox).disposition = some .keepAlive ↔
      env.responds = true ∧ keepAlive = true := by
  unfold reply
  cases env.responds <;> cases keepAlive <;> simp

theorem reply_stream {status : Nat} {keepAlive : Bool} :
    (reply env status keepAlive s inbox).stream = s := by
  unfold reply
  cases env.responds <;> rfl

/-- A reply that closes the connection does not keep it. -/
theorem reply_close {status : Nat} :
    (reply env status false s inbox).disposition ≠ some .keepAlive := by
  rw [ne_eq, reply_keepAlive_iff]
  simp

/-- After an upload the connection is closed. -/
theorem answerRoute_upload (env : HandleEnv) (body : Bytes) (s : ByteStream)
    (inbox : HashMap Text Bytes)
    (hroute : routeOf (requestLine head).1 (requestLine head).2 = .upload) :
    (answerRoute env head body s inbox).disposition ≠ some .keepAlive := by
  unfold answerRoute
  rw [hroute]
  dsimp only
  split
  · exact reply_close
  · split
    · exact reply_close
    · exact reply_close

theorem answerRoute_keepAlive_iff {body : Bytes} :
    (answerRoute env head body s inbox).disposition = some .keepAlive ↔
      (env.responds = true ∧ asksKeepAlive head = true) ∧ admits env head body = true := by
  cases hroute : routeOf (requestLine head).1 (requestLine head).2 with
  | head | discover =>
      unfold answerRoute admits
      rw [hroute]
      cases env.visible <;> simp [reply_keepAlive_iff]
  | ask =>
      unfold answerRoute admits
      rw [hroute]
      cases env.visible <;> cases env.begins <;> cases describeOffer body <;>
        cases askAnswer env <;> simp [reply_keepAlive_iff]
  | upload =>
      have hclosed := answerRoute_upload env body s inbox hroute
      unfold admits
      rw [hroute]
      simp [hclosed]
  | other =>
      unfold answerRoute admits
      rw [hroute]
      simp [reply_keepAlive_iff]

/-- Where the connection is kept, nothing more was read. -/
theorem answerRoute_stream {body : Bytes}
    (h : (answerRoute env head body s inbox).disposition = some .keepAlive) :
    (answerRoute env head body s inbox).stream = s := by
  cases hroute : routeOf (requestLine head).1 (requestLine head).2 with
  | upload => exact absurd h (answerRoute_upload env body s inbox hroute)
  | head | discover | other =>
      unfold answerRoute
      rw [hroute]
      dsimp only
      first
        | exact reply_stream
        | split <;> exact reply_stream
  | ask =>
      unfold answerRoute
      rw [hroute]
      dsimp only
      repeat' split
      all_goals first
        | exact reply_stream
        | rfl

theorem readChunked_ended_iff :
    (∃ body, (readChunked s).1 = some (body, false)) ↔
      (readChunks maxBody { stream := s }).1 = .ended := by
  unfold readChunked
  obtain ⟨r, b, hrun⟩ : ∃ r b, readChunks maxBody { stream := s } = (r, b) := ⟨_, _, rfl⟩
  rw [hrun]
  cases r <;> simp

/-- A body that is not too large is taken as far as it goes. -/
theorem readBody_taken_iff :
    (∃ body, (readBody s head).1 = some (body, false)) ↔ ¬TooLarge head s.bytes := by
  unfold readBody TooLarge
  by_cases hchunked : isChunked head = true
  · rw [if_pos hchunked, if_pos hchunked]
    rw [readChunked_ended_iff, readChunks_ended_iff (by decide)]
    constructor
    · rintro hall ⟨n, size, hplace, hpast⟩
      exact absurd (hall n size hplace) (Nat.not_le.mpr hpast)
    · intro hnone n size hplace
      exact Nat.not_lt.mp fun hpast => hnone ⟨n, size, hplace, hpast⟩
  · rw [if_neg hchunked, if_neg hchunked]
    by_cases hlarge : declaredLength head > maxBody
    · rw [if_pos hlarge]
      simp [hlarge]
    · rw [if_neg hlarge]
      exact ⟨fun _ => hlarge, fun _ => ⟨_, rfl⟩⟩

theorem requestBody_taken_iff :
    (∃ body, (requestBody head s).1 = some (body, false)) ↔
      ((requestLine head).2 ≠ "/Upload".toList → ¬TooLarge head s.bytes) := by
  unfold requestBody
  by_cases hpath : (requestLine head).2 = "/Upload".toList
  · rw [if_pos hpath]
    exact ⟨fun _ hne => absurd hpath hne, fun _ => ⟨[], rfl⟩⟩
  · rw [if_neg hpath, readBody_taken_iff]
    exact ⟨fun h _ => h, fun h => h hpath⟩

theorem handle_taken {s₀ : ByteStream} (hhead : readHead s₀ = (some head, s)) {body : Bytes}
    (hbody : (requestBody head s).1 = some (body, false)) :
    handle env s₀ inbox = answerRoute env head body (requestBody head s).2 inbox := by
  obtain ⟨r, t, hread⟩ : ∃ r t, requestBody head s = (r, t) := ⟨_, _, rfl⟩
  rw [hread] at hbody ⊢
  have hbody : r = some (body, false) := hbody
  rw [handle, hhead]
  dsimp only
  rw [hread, hbody]

theorem handle_refused {s₀ : ByteStream} (hhead : readHead s₀ = (some head, s))
    (hbody : ¬∃ body, (requestBody head s).1 = some (body, false)) :
    (handle env s₀ inbox).disposition ≠ some .keepAlive := by
  obtain ⟨r, t, hread⟩ : ∃ r t, requestBody head s = (r, t) := ⟨_, _, rfl⟩
  rw [hread] at hbody
  rw [handle, hhead]
  dsimp only
  rw [hread]
  match r with
  | none => exact fun h => by cases h
  | some (_, true) => exact reply_close
  | some (body, false) => exact absurd ⟨body, rfl⟩ hbody

/-- **The connection is kept exactly where it stays open.** -/
theorem handle_keepAlive_iff {s₀ : ByteStream} (hhead : readHead s₀ = (some head, s)) :
    (handle env s₀ inbox).disposition = some .keepAlive ↔ StaysOpen env head s := by
  by_cases htaken : ∃ body, (requestBody head s).1 = some (body, false)
  · obtain ⟨body, hbody⟩ := htaken
    rw [handle_taken hhead hbody, answerRoute_keepAlive_iff]
    constructor
    · rintro ⟨⟨hresponds, hasked⟩, hadmits⟩
      refine ⟨hasked, hresponds, requestBody_taken_iff.mp ⟨body, hbody⟩, fun body' d hbody' => ?_⟩
      rw [hbody] at hbody'
      cases hbody'
      exact hadmits
    · intro hopen
      exact ⟨⟨hopen.responds, hopen.asked⟩, hopen.admitted body false hbody⟩
  · constructor
    · intro hkeep
      exact absurd hkeep (handle_refused hhead htaken)
    · intro hopen
      exact absurd (requestBody_taken_iff.mpr hopen.taken) htaken

/-- It stands where the body was read to. -/
theorem handle_stream {s₀ : ByteStream} (hhead : readHead s₀ = (some head, s))
    (hopen : StaysOpen env head s) :
    (handle env s₀ inbox).stream = (requestBody head s).2 := by
  obtain ⟨body, hbody⟩ := requestBody_taken_iff.mpr hopen.taken
  have hkeep : (handle env s₀ inbox).disposition = some .keepAlive :=
    (handle_keepAlive_iff hhead).mpr hopen
  rw [handle_taken hhead hbody] at hkeep ⊢
  exact answerRoute_stream hkeep

theorem handle_noHead {s₀ : ByteStream} (hhead : (readHead s₀).1 = none) :
    (handle env s₀ inbox).disposition = none := by
  obtain ⟨r, t, hread⟩ : ∃ r t, readHead s₀ = (r, t) := ⟨_, _, rfl⟩
  rw [hread] at hhead
  have hhead : r = none := hhead
  rw [handle, hread, hhead]

end Kept

/-! ## Where the next request begins -/

/-- The length that the head gives the body; no header is the length zero. -/
def bodyLength (head : Text) : Option Nat :=
  match header head "content-length".toList with
  | none => some 0
  | some v => fromStrRadix 10 (2 ^ 64) v

/-- The body of a request is delimited, and `rest` follows it. -/
inductive BodyEnds (head : Text) : Bytes → Bytes → Prop
  | chunked {bytes rest : Bytes} (coded : isChunked head = true)
      (ends : Coded AnyLine bytes rest) : BodyEnds head bytes rest
  | length {bytes rest : Bytes} {n : Nat} (plain : isChunked head = false)
      (stated : bodyLength head = some n) (whole : n ≤ bytes.length)
      (follows : rest = bytes.drop n) : BodyEnds head bytes rest

/-- The body is delimited in a way that the reader goes by. -/
def Delimited (head : Text) (bytes : Bytes) : Prop :=
  if (requestLine head).2 = "/Upload".toList then
    isChunked head = false ∧ bodyLength head = some 0
  else if isChunked head then ∃ rest, Coded Short bytes rest
  else ∃ n, bodyLength head = some n ∧ n ≤ bytes.length

theorem declaredLength_of_stated {head : Text} {n : Nat} (h : bodyLength head = some n) :
    declaredLength head = n := by
  unfold bodyLength at h
  unfold declaredLength
  split at h
  next hnone =>
    cases h
    rw [hnone]
    rfl
  next v hsome =>
    rw [hsome, Option.bind_some, h]
    rfl

section Ends

variable {head : Text} {s : ByteStream}

/-- A body of which nothing is read. -/
theorem bodyEnds_nothing_iff {bytes : Bytes} :
    BodyEnds head bytes bytes ↔ isChunked head = false ∧ bodyLength head = some 0 := by
  constructor
  · intro h
    cases h with
    | chunked coded ends => exact absurd ends.length_lt (Nat.lt_irrefl _)
    | @length n plain stated whole follows =>
        have hlen := congrArg List.length follows
        rw [List.length_drop] at hlen
        have hzero : n = 0 := by omega
        exact ⟨plain, hzero ▸ stated⟩
  · rintro ⟨hplain, hzero⟩
    exact .length hplain hzero (Nat.zero_le _) List.drop_zero.symm

theorem bodyEnds_chunked_iff (hchunked : isChunked head = true)
    (htaken : ∃ body, (readBody s head).1 = some (body, false)) :
    BodyEnds head s.bytes (readBody s head).2.bytes ↔ ∃ rest, Coded Short s.bytes rest := by
  have hbody : readBody s head = ((readChunked s).1, (readChunked s).2.stream) := by
    rw [readBody, if_pos hchunked]
  rw [hbody] at htaken ⊢
  have hended := readChunked_ended_iff.mp htaken
  rw [readChunked_body]
  constructor
  · intro h
    cases h with
    | chunked _ ends =>
        rcases ends.read_long { stream := s } rfl hended with hshort | hless
        · exact ⟨_, hshort⟩
        · exact absurd hless (Nat.lt_irrefl _)
    | length plain =>
        rw [hchunked] at plain
        cases plain
  · rintro ⟨rest, hcoded⟩
    refine .chunked hchunked ?_
    rw [hcoded.read { stream := s } rfl hended]
    exact hcoded.mono fun _ _ => trivial

theorem bodyEnds_length_iff (hplain : isChunked head = false)
    (htaken : ∃ body, (readBody s head).1 = some (body, false)) :
    BodyEnds head s.bytes (readBody s head).2.bytes ↔
      ∃ n, bodyLength head = some n ∧ n ≤ s.bytes.length := by
  have hsmall : ¬declaredLength head > maxBody := by
    have hfits := readBody_taken_iff.mp htaken
    rwa [TooLarge, hplain, if_neg Bool.false_ne_true] at hfits
  have hrest : (readBody s head).2.bytes = s.bytes.drop (declaredLength head) := by
    rw [readBody, hplain, if_neg Bool.false_ne_true, if_neg hsmall]
    exact (readExactBounded_bytes _ s).2
  rw [hrest]
  constructor
  · intro h
    cases h with
    | chunked coded =>
        rw [hplain] at coded
        cases coded
    | length _ stated whole => exact ⟨_, stated, whole⟩
  · rintro ⟨n, hstated, hwhole⟩
    rw [declaredLength_of_stated hstated]
    exact .length hplain hstated hwhole rfl

end Ends

/-- **What is read of a body ends where the body does exactly where the body is delimited.** -/
theorem bodyEnds_iff {head : Text} {s : ByteStream}
    (htaken : ∃ body, (requestBody head s).1 = some (body, false)) :
    BodyEnds head s.bytes (requestBody head s).2.bytes ↔ Delimited head s.bytes := by
  by_cases hpath : (requestLine head).2 = "/Upload".toList
  · have hnothing : (requestBody head s).2 = s := by rw [requestBody, if_pos hpath]
    rw [hnothing, Delimited, if_pos hpath]
    exact bodyEnds_nothing_iff
  · have hread : requestBody head s = readBody s head := by rw [requestBody, if_neg hpath]
    rw [hread] at htaken ⊢
    rw [Delimited, if_neg hpath]
    cases hchunked : isChunked head with
    | true =>
        rw [if_pos rfl]
        exact bodyEnds_chunked_iff hchunked htaken
    | false =>
        rw [if_neg Bool.false_ne_true]
        exact bodyEnds_length_iff hchunked htaken

/-- Is it a request that `handle` knows? -/
def Known (head : Text) : Prop :=
  routeOf (requestLine head).1 (requestLine head).2 ≠ .other

/-- **A request after which the connection is kept is a known one, and leaves the connection at
the end of its body, exactly where every request for which it stays open is known, and its body
delimited.** -/
theorem in_step_iff (env : HandleEnv) (s : ByteStream) (inbox : HashMap Text Bytes) :
    ((handle env s inbox).disposition = some .keepAlive →
        ∃ head s', readHead s = (some head, s') ∧
          BodyEnds head s'.bytes (handle env s inbox).stream.bytes ∧ Known head) ↔
      ∀ head s', readHead s = (some head, s') → StaysOpen env head s' →
        Delimited head s'.bytes ∧ Known head := by
  constructor
  · intro hall head s' hhead hopen
    obtain ⟨head', s'', hhead', hends, hknown⟩ := hall ((handle_keepAlive_iff hhead).mpr hopen)
    rw [hhead] at hhead'
    cases hhead'
    rw [handle_stream hhead hopen,
      bodyEnds_iff (requestBody_taken_iff.mpr hopen.taken)] at hends
    exact ⟨hends, hknown⟩
  · intro hall hkeep
    obtain ⟨r, s', hhead⟩ : ∃ r s', readHead s = (r, s') := ⟨_, _, rfl⟩
    cases r with
    | none =>
        rw [handle_noHead (congrArg Prod.fst hhead)] at hkeep
        cases hkeep
    | some head =>
        have hopen := (handle_keepAlive_iff hhead).mp hkeep
        obtain ⟨hdelimited, hknown⟩ := hall head s' hhead hopen
        refine ⟨head, s', hhead, ?_, hknown⟩
        rw [handle_stream hhead hopen, bodyEnds_iff (requestBody_taken_iff.mpr hopen.taken)]
        exact hdelimited

/-- A device that can be seen, and a connection that takes its replies. -/
def openHost : HandleEnv where
  visible := true
  begins := true
  autoAccept := false
  answer := .accept
  current := false
  responds := true
  receive := unseen false

/-- A request whose length is not a number. -/
def notANumber : Text :=
  "POST /Discover HTTP/1.1\r\nConnection: keep-alive\r\nContent-Length: 5x\r\n\r\n".toList

def notANumberSent : ByteStream :=
  { bytes := asBytes notANumber ++ asBytes "hello".toList }

/-- The connection is kept, and the body is what the next request is read from. -/
theorem body_read_as_request :
    (handle openHost notANumberSent ∅).disposition = some .keepAlive ∧
      (handle openHost notANumberSent ∅).stream.bytes = asBytes "hello".toList ∧
      ¬∃ head s', readHead notANumberSent = (some head, s') ∧
        BodyEnds head s'.bytes (handle openHost notANumberSent ∅).stream.bytes ∧ Known head := by
  have hhead : readHead notANumberSent =
      (some notANumber, { bytes := asBytes "hello".toList }) := by
    decide +kernel
  have hplain : isChunked notANumber = false := by decide
  have hlength : bodyLength notANumber = none := by decide
  have hdeclared : declaredLength notANumber = 0 := by decide
  have hpath : (requestLine notANumber).2 ≠ "/Upload".toList := by decide +kernel
  have hopen : StaysOpen openHost notANumber { bytes := asBytes "hello".toList } := by
    refine ⟨by decide, rfl, fun _ hlarge => ?_, fun body _ _ => ?_⟩
    · rw [TooLarge, hplain, if_neg Bool.false_ne_true, hdeclared] at hlarge
      exact Nat.not_lt_zero _ hlarge
    · have hroute : routeOf (requestLine notANumber).1 (requestLine notANumber).2 = .discover := by
        decide +kernel
      rw [admits, hroute]
      rfl
  have htaken := requestBody_taken_iff.mpr hopen.taken
  refine ⟨(handle_keepAlive_iff hhead).mpr hopen, ?_, ?_⟩
  · rw [handle_stream hhead hopen, requestBody, if_neg hpath, readBody, hplain,
      if_neg Bool.false_ne_true, hdeclared, if_neg (Nat.not_lt_zero _)]
    exact (readExactBounded_bytes 0 _).2
  · rintro ⟨head, s', hhead', hends, -⟩
    rw [hhead] at hhead'
    cases hhead'
    rw [handle_stream hhead hopen, bodyEnds_iff htaken, Delimited, if_neg hpath, hplain,
      if_neg Bool.false_ne_true] at hends
    obtain ⟨n, hstated, -⟩ := hends
    rw [hlength] at hstated
    cases hstated

end Sharingd
