import TarishDaemon.Sharingd.Extract

/-!
# From the sender's files to the inbox

The whole way of an upload: the archive, the compression, the chunks, the file they are
put in, and the inbox.  The compression is not this program's; what is asked of it is
that the archive comes out again, and that its first bytes say what it is.
-/

namespace Sharingd

open Rust

section

variable {gzip : Bytes → List Bytes} {gunzip : Bytes → Source} {now : Int} {items : List Item}
  {archive : Bytes} {env : UploadEnv} {disk : ExtractEnv} {inbox : HashMap Text Bytes}

/-- What the receiver puts in its file unpacks into what the sender put in the archive. -/
theorem upload_landed (built : cpioArchive now 0 items = .ok archive)
    (safe : ∀ i ∈ items, SafeLeaf i.name) (hread : ∀ i ∈ items, i.file.length = i.size)
    (hcount : items.length ≤ maxMembers)
    (htotal : (items.map Item.size).sum ≤ maxExtractedBytes)
    (inverse : gunzip (gzip archive).flatten = ⟨archive, false⟩)
    (magic : (gzip archive).flatten.take 2 = [0x1f, 0x8b])
    (hwire : (gzip archive).flatten.length ≤ maxUploadBytes)
    (quiet : ∀ n, env.cancelled n = false) (hspace : env.room = none)
    (hopens : ∀ k, disk.opens k = true) (hstops : ∀ k, disk.stops k = none)
    (room : HasRoom inbox (items.filter kept)) (unframe : Bytes → Source) (s : ByteStream)
    (rest : Bytes) (hs : s.bytes = chunkedBody (gzip archive) ++ rest) :
    ∃ u, streamChunked env 0 { stream := s } = (.ok u.out.length, u) ∧ u.stream.bytes = rest ∧
      ∃ names inbox', extract disk gunzip unframe u.out inbox = (.ok names, inbox') ∧
        Landed inbox (items.filter kept) names inbox' := by
  obtain ⟨u, hrun, hout, hrest⟩ := streamChunked_body quiet (gzip archive) 0 rest
    { stream := s } hs rfl (by rw [Nat.zero_add, limit_of_room hspace]; exact hwire)
  have hfile : u.out = (gzip archive).flatten := hout.trans (List.nil_append _)
  obtain ⟨names, inbox', hloop, hlanded⟩ := extractLoop_archive hopens hstops built safe hread
    (show 0 + items.length ≤ maxMembers by omega) (show 0 + _ ≤ maxExtractedBytes by omega) room
    [] false
  rw [List.append_nil] at hloop
  refine ⟨u, ?_, hrest, names, inbox', ?_, hlanded⟩
  · rw [hrun, hfile, Nat.zero_add]
  · unfold extract
    rw [hfile, if_pos magic, inverse]
    exact hloop

/-- **The archive round trip.** -/
theorem upload_unpacked (safe : ∀ i ∈ items, ∃ entry, safeLeaf entry = some i.name)
    (hread : ∀ i ∈ items, i.file.length = i.size) (hcount : items.length ≤ 1024)
    (htotal : (items.map Item.size).sum ≤ maxExtractedBytes)
    (fits : ∀ i ∈ items, (asBytes i.name).length + 3 < 8 ^ 6 ∧ i.size < 8 ^ 11)
    (inverse : ∀ archive, cpioArchive now 0 items = .ok archive →
      gunzip (gzip archive).flatten = ⟨archive, false⟩)
    (magic : ∀ archive, cpioArchive now 0 items = .ok archive →
      (gzip archive).flatten.take 2 = [0x1f, 0x8b])
    (hwire : ∀ archive, cpioArchive now 0 items = .ok archive →
      (gzip archive).flatten.length ≤ maxUploadBytes)
    (quiet : ∀ n, env.cancelled n = false) (hspace : env.room = none)
    (hopens : ∀ k, disk.opens k = true) (hstops : ∀ k, disk.stops k = none)
    (room : HasRoom inbox (items.filter kept)) :
    ∃ body, uploadBody gzip now items = .ok body ∧
      ∀ (s : ByteStream) (rest : Bytes) (unframe : Bytes → Source), s.bytes = body ++ rest →
        ∃ u, streamChunked env 0 { stream := s } = (.ok u.out.length, u) ∧ u.stream.bytes = rest ∧
          ∃ names inbox', extract disk gunzip unframe u.out inbox = (.ok names, inbox') ∧
            names.Nodup ∧ (∀ name ∈ names, inboxPath name ∉ inbox) ∧
            List.Forall₂ (fun i name => inbox'.lookup (inboxPath name) = some i.file ∧
                (name = i.name ∨ ∃ n, 1 ≤ n ∧ n ≤ 9999 ∧ name = variant i.name n))
              (items.filter kept) names ∧
            ∀ path, path ∉ names.map inboxPath → inbox'.lookup path = inbox.lookup path := by
  have hsafe : ∀ i ∈ items, SafeLeaf i.name := by
    intro i hi
    obtain ⟨entry, hentry⟩ := safe i hi
    exact safeLeaf_safe hentry
  have hlimit : maxMembers < 8 ^ 6 := by decide
  obtain ⟨archive, built⟩ := cpioArchive_total now hread fits
    (show 0 + items.length < 8 ^ 6 by omega)
  refine ⟨chunkedBody (gzip archive), ?_, ?_⟩
  · simp [uploadBody, built, bind, Except.bind, pure, Except.pure]
  · intro s rest unframe hs
    obtain ⟨u, hrun, hrest, names, inbox', hextract, hlanded⟩ := upload_landed built hsafe hread
      hcount htotal (inverse archive built) (magic archive built) (hwire archive built) quiet
      hspace hopens hstops room unframe s rest hs
    exact ⟨u, hrun, hrest, names, inbox', hextract, hlanded.new_nodup.2, hlanded.new_nodup.1,
      hlanded.files, fun path => hlanded.lookup_other⟩

end

/-! ## Two runs -/

/-- A disk that does what it is asked. -/
def goodDisk : ExtractEnv :=
  { opens := fun _ => true, stops := fun _ => none, removes := fun _ => true }

/-- A connection and a user that let the transfer go on. -/
def calm : UploadEnv :=
  { cancelled := fun _ => false }

def sameNames : List Item :=
  [⟨asBytes "hi".toList, "a.txt".toList, 2⟩, ⟨asBytes "hey".toList, "a.txt".toList, 3⟩]

theorem sameNames_safe : ∀ i ∈ sameNames, safeLeaf i.name = some i.name := by
  decide +kernel

/-- What the encoder wrote for these two files. -/
def sameNamesGzip (_ : Bytes) : List Bytes :=
  [[31, 139, 8, 0, 0, 0, 0, 0, 0, 255],
    [51, 48, 55, 0, 65, 36, 96, 104, 96, 96, 102, 98, 98, 64, 28, 48, 68, 98, 27, 233, 233, 39,
      234, 149, 84, 148, 48, 100, 100, 26, 160, 155, 106, 72, 182, 169, 198, 112, 83, 83, 43, 49,
      140, 53, 50, 32, 201, 88, 99, 36, 78, 72, 144, 163, 167, 143, 107, 144, 162, 162, 34, 3, 0],
    [73, 176, 236, 202, 4, 1, 0, 0]]

/-- The decoder, on the one input it gets. -/
def gunzipOf (now : Int) (items : List Item) (_ : Bytes) : Source :=
  match cpioArchive now 0 items with
  | .ok archive => ⟨archive, false⟩
  | .error _ => ⟨[], true⟩

theorem gunzipOf_ok {now : Int} {items : List Item} {archive : Bytes}
    (built : cpioArchive now 0 items = .ok archive) (data : Bytes) :
    gunzipOf now items data = ⟨archive, false⟩ := by
  unfold gunzipOf
  rw [built]

theorem sameNames_unpacked :
    ∃ body, uploadBody sameNamesGzip 0 sameNames = .ok body ∧
      ∀ (s : ByteStream) (rest : Bytes) (unframe : Bytes → Source), s.bytes = body ++ rest →
        ∃ u, streamChunked calm 0 { stream := s } = (.ok u.out.length, u) ∧
          u.stream.bytes = rest ∧
          ∃ names inbox', extract goodDisk (gunzipOf 0 sameNames) unframe u.out ∅ =
              (.ok names, inbox') ∧
            names.Nodup ∧ (∀ name ∈ names, inboxPath name ∉ (∅ : HashMap Text Bytes)) ∧
            List.Forall₂ (fun i name => inbox'.lookup (inboxPath name) = some i.file ∧
                (name = i.name ∨ ∃ n, 1 ≤ n ∧ n ≤ 9999 ∧ name = variant i.name n))
              (sameNames.filter kept) names ∧
            ∀ path, path ∉ names.map inboxPath →
              inbox'.lookup path = (∅ : HashMap Text Bytes).lookup path :=
  upload_unpacked (fun i hi => ⟨i.name, sameNames_safe i hi⟩) (by decide) (by decide) (by decide)
    (by decide) (fun _ built => gunzipOf_ok built _) (fun _ _ => rfl)
    (fun _ _ => show 81 ≤ maxUploadBytes by decide)
    (fun _ => rfl) rfl (fun _ => rfl) (fun _ => rfl) (hasRoom_of_length (by decide))

/-- An empty file is sent, and no file comes of it. -/
def emptyFile : List Item :=
  [⟨[], "empty.txt".toList, 0⟩]

def emptyFileGzip (_ : Bytes) : List Bytes :=
  [[31, 139, 8, 0, 0, 0, 0, 0, 0, 255],
    [51, 48, 55, 0, 65, 36, 96, 104, 96, 96, 102, 98, 98, 64, 28, 48, 68, 86, 168, 167, 159, 154,
      91, 80, 82, 169, 87, 82, 81, 194, 96, 128, 110, 46, 208, 88, 82, 204, 53, 70, 226, 132, 4,
      57, 122, 250, 184, 6, 41, 42, 42, 50, 0, 0],
    [76, 206, 6, 93, 175, 0, 0, 0]]

theorem empty_file_left_out :
    safeLeaf "empty.txt".toList = some "empty.txt".toList ∧
      ∃ body u, uploadBody emptyFileGzip 0 emptyFile = .ok body ∧
        streamChunked calm 0 { stream := { bytes := body } } = (.ok u.out.length, u) ∧
        extract goodDisk (gunzipOf 0 emptyFile) (fun _ => ⟨[], true⟩) u.out ∅ = (.ok [], ∅) := by
  have hsafe : safeLeaf "empty.txt".toList = some "empty.txt".toList := by decide +kernel
  have hsafe' : ∀ i ∈ emptyFile, SafeLeaf i.name := by
    intro i hi
    rw [List.mem_singleton.mp hi]
    exact safeLeaf_safe hsafe
  have hread : ∀ i ∈ emptyFile, i.file.length = i.size := by decide
  obtain ⟨archive, built⟩ := cpioArchive_total 0 hread (by decide)
    (show 0 + emptyFile.length < 8 ^ 6 by decide)
  have hnone : emptyFile.filter kept = [] := by decide
  have hroom : HasRoom ∅ (emptyFile.filter kept) := by
    rw [hnone]
    trivial
  have hinverse : gunzipOf 0 emptyFile (emptyFileGzip archive).flatten =
      ⟨archive, false⟩ := gunzipOf_ok built _
  have hquiet : ∀ n, calm.cancelled n = false := fun _ => rfl
  have hspace : calm.room = none := rfl
  have hopens : ∀ k, goodDisk.opens k = true := fun _ => rfl
  have hstops : ∀ k, goodDisk.stops k = none := fun _ => rfl
  obtain ⟨u, hrun, -, names, inbox', hextract, hlanded⟩ := upload_landed built hsafe' hread
    (by decide) (by decide) hinverse rfl
    (show 72 ≤ maxUploadBytes by decide) hquiet hspace hopens hstops hroom
    (fun _ => ⟨[], true⟩) { bytes := chunkedBody (emptyFileGzip archive) } [] (List.append_nil _).symm
  rw [hnone] at hlanded
  cases hlanded
  refine ⟨hsafe, chunkedBody (emptyFileGzip archive), u, ?_, hrun, hextract⟩
  simp [uploadBody, built, bind, Except.bind, pure, Except.pure]

end Sharingd
