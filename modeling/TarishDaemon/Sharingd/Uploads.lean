import TarishDaemon.Sharingd.ExtractFiles
import TarishDaemon.Sharingd.Requests

/-!
# The archive of an upload

`receive_upload` puts the body in a new file in the inbox and unpacks that.  Where it fails
early, in the stream or before it, the file stays as it is; only a cancelled transfer and a
large archive that does not unpack are removed.

**A failed upload leaves no large archive, and a cancelled one leaves none, exactly where it
does not fail early in the wrong way** (`failed_upload_iff`).
-/

namespace Sharingd

open Rust Unpack

/-! ## A body of a given length -/

/-- `stream_exact`, with `left` bytes to come and `total` bytes in. -/
def streamExact (env : UploadEnv) (left total : Nat) (u : Upload) :
    Except UploadError Nat × Upload :=
  if left = 0 then (.ok total, u)
  else
    match u.stream.read (min left 8192) with
    | none => (.error .read, u)
    | some ([], s) => (.error .senderCancelled, { u with stream := s })
    | some (b :: rest, s) =>
        let data := b :: rest
        let u := { u with stream := s, sniff := u.sniff ++ data.take (16 - u.sniff.length) }
        let room := env.room.getD (u.out ++ data).length
        let u := { u with out := (u.out ++ data).take room }
        if room < total + data.length then (.error .notWritten, u)
        else
          let u := { u with progress := u.progress ++ [total + data.length] }
          if env.cancelled (total + data.length) then (.ok (total + data.length), u)
          else streamExact env (left - data.length) (total + data.length) u
termination_by left
decreasing_by
  simp only [List.length_cons]
  omega

/-! ## `receive_upload` -/

/-- A failed archive above this is not kept. -/
def failedArchiveKeepMax : Nat := 64 * 1024 * 1024

inductive ReceiveError
  | notCreated
  | tooLarge
  | stream (e : UploadError)
  | cancelled
  | extract (e : ExtractError)
  deriving DecidableEq, Repr

/-- What `receive_upload` does not decide.  The user's cancelling is seen, if at all, by the
two looks at the flag. -/
structure ReceiveEnv where
  upload : UploadEnv
  /-- The random name of each try, and whether the file can be made. -/
  names : Nat → Text
  creates : Nat → Bool
  cancelledAfter : Bool
  byUser : Bool
  byUser_of_seen : (∃ n, upload.cancelled n = true) ∨ cancelledAfter = true → byUser = true
  opens : Bool
  metadata : Bool
  removes : Bool
  disk : ExtractEnv
  gunzip : Bytes → Source
  unframe : Bytes → Source

/-- The tries of `create_unique`. -/
def createUniqueLoop (env : ReceiveEnv) (inbox : HashMap Text Bytes) : Nat → Nat → Option Text
  | 0, _ => none
  | tries + 1, k =>
      let path := inboxPath (env.names k ++ ".cpio".toList)
      if path ∈ inbox then createUniqueLoop env inbox tries (k + 1)
      else if env.creates k then some path
      else none

/-- `create_unique`. -/
def createUnique (env : ReceiveEnv) (inbox : HashMap Text Bytes) : Option Text :=
  createUniqueLoop env inbox 8 0

/-- A number of bytes that the head states. -/
def statedSize (head name : Text) : Option Nat :=
  (header head name).bind fun v => fromStrRadix 10 (2 ^ 64) (trim v)

/-- Is the upload refused before a byte of it is read? -/
def refusedAtOnce (head : Text) : Bool :=
  decide (maxUploadBytes < (statedSize head "totalbytes".toList).getD 0) ||
    decide (maxUploadBytes < (statedSize head "content-length".toList).getD 0)

/-- The body goes into the file. -/
def streamBody (env : UploadEnv) (head : Text) (s : ByteStream) :
    Except UploadError Nat × Upload :=
  if isChunked head then streamChunked env 0 { stream := s }
  else
    let total := (statedSize head "totalbytes".toList).getD 0
    let len := ((header head "content-length".toList).bind (fromStrRadix 10 (2 ^ 64))).getD total
    streamExact env len 0 { stream := s }

structure Received where
  result : Except ReceiveError Text
  stream : ByteStream
  inbox : HashMap Text Bytes

/-- `std::fs::remove_file`. -/
def removeFile (env : ReceiveEnv) (inbox : HashMap Text Bytes) (path : Text) :
    HashMap Text Bytes :=
  if env.removes then inbox.erase path else inbox

/-- Is the archive too large to be kept?  `false` where the file cannot be looked at. -/
def isBig (env : ReceiveEnv) (inbox : HashMap Text Bytes) (path : Text) : Bool :=
  match inbox.lookup path with
  | none => false
  | some data => env.metadata && decide (failedArchiveKeepMax < data.length)

/-- `receive_upload`. -/
def receiveUpload (env : ReceiveEnv) (head : Text) (s : ByteStream) (inbox : HashMap Text Bytes) :
    Received :=
  match createUnique env inbox with
  | none => ⟨.error .notCreated, s, inbox⟩
  | some path =>
      if refusedAtOnce head then ⟨.error .tooLarge, s, inbox.insert path []⟩
      else
        match streamBody env.upload head s with
        | (.error e, u) => ⟨.error (.stream e), u.stream, inbox.insert path u.out⟩
        | (.ok _, u) =>
            let inbox := inbox.insert path u.out
            if env.cancelledAfter then
              ⟨.error .cancelled, u.stream, removeFile env inbox path⟩
            else
              match extractFile env.disk env.gunzip env.unframe
                  (if env.opens then some u.out else none) inbox with
              | (.ok _, inbox) => ⟨.ok path, u.stream, removeFile env inbox path⟩
              | (.error e, inbox) =>
                  ⟨.error (.extract e), u.stream,
                    if isBig env inbox path then removeFile env inbox path else inbox⟩

/-! ## What becomes of the archive -/

/-- What is to become of the archive of a failed upload: it is gone, or it is small and nobody
cancelled. -/
structure Settled (env : ReceiveEnv) (inbox : HashMap Text Bytes) (path : Text) : Prop where
  small : ∀ data, inbox.lookup path = some data → data.length ≤ failedArchiveKeepMax
  gone : env.byUser = true → path ∉ inbox

/-- The unpacking of what came in. -/
def unpacked (env : ReceiveEnv) (u : Upload) (inbox : HashMap Text Bytes) (path : Text) :
    Except ExtractError (List Text) × HashMap Text Bytes :=
  extractFile env.disk env.gunzip env.unframe (if env.opens then some u.out else none)
    (inbox.insert path u.out)

/-- An upload that is refused or breaks off has at most a small part in, and nobody cancelled
it; where somebody cancelled and it is seen, the file can be removed; and what does not unpack
is small and not cancelled, or is large and can be looked at and removed. -/
def SettlesWell (env : ReceiveEnv) (head : Text) (s : ByteStream) (inbox : HashMap Text Bytes)
    (path : Text) : Prop :=
  if refusedAtOnce head then env.byUser = false
  else
    match streamBody env.upload head s with
    | (.error _, u) => u.out.length ≤ failedArchiveKeepMax ∧ env.byUser = false
    | (.ok _, u) =>
        if env.cancelledAfter then env.removes = true
        else
          (∃ names, (unpacked env u inbox path).1 = .ok names) ∨
            if failedArchiveKeepMax < u.out.length then env.metadata = true ∧ env.removes = true
            else env.byUser = false

section Archive

variable {env : ReceiveEnv} {inbox : HashMap Text Bytes} {path : Text} {data : Bytes}

/-- A file that is there is as it should be if it is small and nobody cancelled. -/
theorem settled_there (h : inbox.lookup path = some data) :
    Settled env inbox path ↔ data.length ≤ failedArchiveKeepMax ∧ env.byUser = false := by
  have hin : path ∈ inbox := AList.lookup_isSome.mp (by rw [h]; rfl)
  constructor
  · intro hsettled
    refine ⟨hsettled.small data h, ?_⟩
    cases huser : env.byUser with
    | false => rfl
    | true => exact absurd hin (hsettled.gone huser)
  · rintro ⟨hsmall, huser⟩
    refine ⟨fun data' h' => ?_, fun htrue => ?_⟩
    · rw [h] at h'
      cases h'
      exact hsmall
    · rw [huser] at htrue
      cases htrue

theorem settled_erase : Settled env (inbox.erase path) path := by
  refine ⟨fun data h => ?_, fun _ hin => ?_⟩
  · rw [AList.lookup_erase] at h
    cases h
  · exact (AList.mem_erase.mp hin).1 rfl

/-- One that was to be removed. -/
theorem settled_removeFile (h : inbox.lookup path = some data) :
    Settled env (removeFile env inbox path) path ↔
      env.removes = true ∨ data.length ≤ failedArchiveKeepMax ∧ env.byUser = false := by
  unfold removeFile
  cases hremoves : env.removes with
  | true => simp only [if_true, true_or, settled_erase]
  | false =>
      simp only [Bool.false_eq_true, if_false, false_or]
      exact settled_there h

/-- An archive that does not unpack. -/
theorem settled_notExtracted (env : ReceiveEnv) (h : inbox.lookup path = some data) :
    Settled env (if isBig env inbox path then removeFile env inbox path else inbox) path ↔
      if failedArchiveKeepMax < data.length then env.metadata = true ∧ env.removes = true
      else env.byUser = false := by
  have hbig : isBig env inbox path =
      (env.metadata && decide (failedArchiveKeepMax < data.length)) := by
    rw [isBig, h]
  rw [hbig]
  by_cases hlarge : failedArchiveKeepMax < data.length
  · rw [if_pos hlarge, decide_eq_true hlarge, Bool.and_true]
    cases hmetadata : env.metadata with
    | true =>
        simp only [if_true, true_and]
        rw [settled_removeFile h]
        exact or_iff_left fun hsmall => absurd hsmall.1 (Nat.not_le.mpr hlarge)
    | false =>
        simp only [Bool.false_eq_true, if_false, false_and, iff_false]
        rw [settled_there h]
        exact fun hsmall => absurd hsmall.1 (Nat.not_le.mpr hlarge)
  · rw [if_neg hlarge, decide_eq_false hlarge, Bool.and_false]
    simp only [Bool.false_eq_true, if_false]
    rw [settled_there h]
    exact and_iff_right (Nat.not_lt.mp hlarge)

end Archive

/-- **The archive of a failed upload is settled exactly where `SettlesWell`.** -/
theorem failed_upload_iff (env : ReceiveEnv) (head : Text) (s : ByteStream)
    (inbox : HashMap Text Bytes) {path : Text} (created : createUnique env inbox = some path) :
    ((∃ e, (receiveUpload env head s inbox).result = .error e) →
        Settled env (receiveUpload env head s inbox).inbox path) ↔
      SettlesWell env head s inbox path := by
  unfold receiveUpload SettlesWell unpacked
  rw [created]
  dsimp only
  cases hrefused : refusedAtOnce head with
  | true =>
      simp only [if_true]
      have hempty : (inbox.insert path []).lookup path = some [] := AList.lookup_insert _
      rw [settled_there hempty]
      exact ⟨fun h => (h ⟨_, rfl⟩).2, fun h _ => ⟨Nat.zero_le _, h⟩⟩
  | false =>
      simp only [Bool.false_eq_true, if_false]
      obtain ⟨r, u, hstream⟩ : ∃ r u, streamBody env.upload head s = (r, u) := ⟨_, _, rfl⟩
      rw [hstream]
      have hfile : (inbox.insert path u.out).lookup path = some u.out := AList.lookup_insert _
      cases r with
      | error e =>
          dsimp only
          rw [settled_there hfile]
          exact ⟨fun h => h ⟨_, rfl⟩, fun h _ => h⟩
      | ok written =>
          dsimp only
          cases hafter : env.cancelledAfter with
          | true =>
              simp only [if_true]
              have huser : env.byUser = true := env.byUser_of_seen (.inr hafter)
              rw [settled_removeFile hfile, huser]
              simp
          | false =>
              simp only [Bool.false_eq_true, if_false]
              -- unpacking leaves the archive as it was
              have hkept : (extractFile env.disk env.gunzip env.unframe
                  (if env.opens then some u.out else none)
                  (inbox.insert path u.out)).2.lookup path = some u.out :=
                (extractFile_old ((AList.mem_insert _).mpr (.inl rfl))).trans hfile
              generalize extractFile env.disk env.gunzip env.unframe
                (if env.opens then some u.out else none) (inbox.insert path u.out) = x at hkept ⊢
              obtain ⟨r, inbox'⟩ := x
              cases r with
              | ok names =>
                  refine ⟨fun _ => .inl ⟨names, rfl⟩, ?_⟩
                  rintro - ⟨e, he⟩
                  cases he
              | error e =>
                  have hsettled := settled_notExtracted env hkept
                  constructor
                  · intro h
                    exact .inr (hsettled.mp (h ⟨_, rfl⟩))
                  · rintro (⟨names, hok⟩ | hwell) -
                    · cases hok
                    · exact hsettled.mpr hwell

/-! ## Uploads that break off -/

/-- A sender that closes the connection too early leaves what it sent. -/
theorem streamExact_closed {env : UploadEnv} (quiet : ∀ n, env.cancelled n = false)
    (hroom : env.room = none) (left total : Nat) (u : Upload) (hout : u.out.length = total)
    (hclosed : u.stream.broken = false) (hshort : u.stream.bytes.length < left) :
    ∃ u', streamExact env left total u = (.error .senderCancelled, u') ∧
      u'.out = u.out ++ u.stream.bytes := by
  fun_induction streamExact env left total u with
  | case1 total u => exact absurd hshort (Nat.not_lt_zero _)
  | case2 left total u hleft hread =>
      obtain ⟨-, hbroken⟩ := ByteStream.read_none (by omega) hread
      rw [hclosed] at hbroken
      cases hbroken
  | case3 left total u hleft s hread =>
      obtain ⟨hnil, -⟩ := ByteStream.read_empty (by omega) hread
      exact ⟨_, rfl, by rw [hnil, List.append_nil]⟩
  | case4 left total u hleft b rest s hread data u1 room u2 hfull =>
      have hroom' : room = (u.out ++ data).length := by
        show env.room.getD _ = _
        rw [hroom]
        rfl
      rw [hroom', List.length_append, hout] at hfull
      exact absurd hfull (Nat.lt_irrefl _)
  | case5 left total u hleft b rest s hread data u1 room u2 hfull u3 hcancel =>
      rw [quiet] at hcancel
      cases hcancel
  | case6 left total u hleft b rest s hread data u1 room u2 hfull u3 hgo ih =>
      obtain ⟨hsplit, hbroken, hlen⟩ := ByteStream.read_some hread
      have hsplit : data ++ s.bytes = u.stream.bytes := hsplit
      have hroom' : room = (u.out ++ data).length := by
        show env.room.getD _ = _
        rw [hroom]
        rfl
      have hout' : u3.out = u.out ++ data := by
        show (u.out ++ data).take room = _
        rw [hroom', List.take_length]
      have hlength : u.stream.bytes.length = data.length + s.bytes.length := by
        rw [← hsplit, List.length_append]
      obtain ⟨u', hrun, hmore⟩ := ih (by rw [hout', List.length_append, hout])
        (hbroken.trans hclosed) (show s.bytes.length < left - data.length by omega)
      refine ⟨u', hrun, ?_⟩
      rw [hmore, hout', ← hsplit, List.append_assoc]

/-- Everything works, and the transfer is cancelled, if at all, without being seen. -/
def unseen (byUser : Bool) : ReceiveEnv where
  upload := { cancelled := fun _ => false }
  names := fun _ => "0123456789abcdef".toList
  creates := fun _ => true
  cancelledAfter := false
  byUser := byUser
  byUser_of_seen := by simp
  opens := true
  metadata := true
  removes := true
  disk := goodDisk
  gunzip := fun _ => ⟨[], true⟩
  unframe := fun _ => ⟨[], true⟩

def largeHead : Text :=
  "POST /Upload HTTP/1.1\r\nContent-Length: 134217728\r\n\r\n".toList

def archivePath : Text :=
  inboxPath "0123456789abcdef.cpio".toList

theorem unseen_created (byUser : Bool) : createUnique (unseen byUser) ∅ = some archivePath := by
  simp [createUnique, createUniqueLoop, unseen, archivePath, AList.notMem_empty]

theorem largeHead_taken : refusedAtOnce largeHead = false := by
  decide

theorem unseen_streamBody (byUser : Bool) (body : Bytes) (hbody : body.length < 134217728) :
    ∃ u, streamBody (unseen byUser).upload largeHead { bytes := body } =
      (.error .senderCancelled, u) ∧ u.out = body := by
  have hchunked : isChunked largeHead = false := by decide
  have hlength : (header largeHead "content-length".toList).bind (fromStrRadix 10 (2 ^ 64)) =
      some 134217728 := by decide
  have quiet : ∀ n, (unseen byUser).upload.cancelled n = false := fun _ => rfl
  obtain ⟨u, hrun, hout⟩ := streamExact_closed quiet rfl 134217728 0 { stream := { bytes := body } }
    rfl rfl hbody
  refine ⟨u, ?_, hout⟩
  rw [streamBody, hchunked, if_neg Bool.false_ne_true, hlength]
  exact hrun

theorem unseen_breaksOff (byUser : Bool) (body : Bytes) (hbody : body.length < 134217728) :
    (receiveUpload (unseen byUser) largeHead { bytes := body } ∅).result =
        .error (.stream .senderCancelled) ∧
      (receiveUpload (unseen byUser) largeHead { bytes := body } ∅).inbox.lookup archivePath =
        some body := by
  obtain ⟨u, hstream, hout⟩ := unseen_streamBody byUser body hbody
  rw [receiveUpload, unseen_created]
  dsimp only
  rw [largeHead_taken, if_neg Bool.false_ne_true, hstream]
  dsimp only
  exact ⟨rfl, by rw [AList.lookup_insert, hout]⟩

/-- One byte of an upload that breaks off is kept. -/
theorem failed_upload_one_byte :
    (∃ e, (receiveUpload (unseen false) largeHead { bytes := [0] } ∅).result = .error e) ∧
      Settled (unseen false) (receiveUpload (unseen false) largeHead { bytes := [0] } ∅).inbox
        archivePath := by
  obtain ⟨u, hstream, hout⟩ := unseen_streamBody false [0] (by decide)
  have hwell : SettlesWell (unseen false) largeHead { bytes := [0] } ∅ archivePath := by
    rw [SettlesWell, largeHead_taken, if_neg Bool.false_ne_true, hstream]
    dsimp only
    rw [hout]
    exact ⟨by decide, rfl⟩
  have hresult := (unseen_breaksOff false [0] (by decide)).1
  exact ⟨⟨_, hresult⟩, (failed_upload_iff (unseen false) largeHead { bytes := [0] } ∅
    (unseen_created false)).mpr hwell ⟨_, hresult⟩⟩

/-- The sender closes the connection after 64 MiB and a byte of 128 MiB, and the archive stays;
it stays too where the user has cancelled and the sender closes first. -/
theorem archive_left_behind :
    ¬((∃ e, (receiveUpload (unseen false) largeHead
          { bytes := List.replicate (failedArchiveKeepMax + 1) 0 } ∅).result = .error e) →
        Settled (unseen false) (receiveUpload (unseen false) largeHead
          { bytes := List.replicate (failedArchiveKeepMax + 1) 0 } ∅).inbox archivePath) ∧
      ¬((∃ e, (receiveUpload (unseen true) largeHead { bytes := [0] } ∅).result = .error e) →
        Settled (unseen true) (receiveUpload (unseen true) largeHead { bytes := [0] } ∅).inbox
          archivePath) := by
  constructor
  · intro claim
    -- the body's length is all that is asked of it
    obtain ⟨body, hbody⟩ : ∃ body : Bytes, body = List.replicate (failedArchiveKeepMax + 1) 0 :=
      ⟨_, rfl⟩
    have hlength : body.length = failedArchiveKeepMax + 1 := by
      rw [hbody, List.length_replicate]
    rw [← hbody] at claim
    obtain ⟨hresult, hleft⟩ := unseen_breaksOff false body (by rw [hlength]; decide)
    have hsmall := (claim ⟨_, hresult⟩).small body hleft
    rw [hlength] at hsmall
    exact Nat.not_succ_le_self _ hsmall
  · intro claim
    obtain ⟨hresult, hleft⟩ := unseen_breaksOff true [0] (by decide)
    exact (claim ⟨_, hresult⟩).gone rfl (AList.lookup_isSome.mp (by rw [hleft]; rfl))

end Sharingd
