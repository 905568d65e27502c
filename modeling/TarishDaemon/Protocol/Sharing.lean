import TarishDaemon.Protocol.Protobuf

/-!
# The sharing frames

What is being sent and whether it is wanted.  A sharing frame travels inside a
BYTES payload; these are its types, its encoders and its parser.

`paired_key_encryption` fills two fields with random bytes.  The random source is
outside the daemon, so what it returned is an argument: `none` where it failed.
-/

namespace Protocol

open Rust

namespace Sharing

def versionV1 : Nat := 1

-- Frame
def fVersion : Nat := 1
def fV1 : Nat := 2

-- V1Frame
def v1Type : Nat := 1
def v1Introduction : Nat := 2
def v1Response : Nat := 3
def v1PairedKeyEncryption : Nat := 4
def v1PairedKeyResult : Nat := 5

-- V1Frame.FrameType
def tIntroduction : Nat := 1
def tResponse : Nat := 2
def tPairedKeyEncryption : Nat := 3
def tPairedKeyResult : Nat := 4
def tCancel : Nat := 6

-- FileMetadata
def fmName : Nat := 1
def fmType : Nat := 2
def fmPayloadId : Nat := 3
def fmSize : Nat := 4
def fmMimeType : Nat := 5
def fmId : Nat := 6
def fmParentFolder : Nat := 7
def fmAttachmentHash : Nat := 8
def fmIsSensitive : Nat := 9

-- TextMetadata
def tmTitle : Nat := 2
def tmType : Nat := 3
def tmPayloadId : Nat := 4
def tmSize : Nat := 5
def tmId : Nat := 6

-- IntroductionFrame
def inFileMetadata : Nat := 1
def inTextMetadata : Nat := 2
def inStartTransfer : Nat := 6
def inUseCase : Nat := 8

def useCaseNearbyShare : Nat := 1

def rsStatus : Nat := 1

-- PairedKeyEncryptionFrame
def pkeSignedData : Nat := 1
def pkeSecretIdHash : Nat := 2

def pkrStatus : Nat := 1

def secretIdHashLen : Nat := 6

def signedDataLen : Nat := 72

inductive FileType
  | unknown
  | image
  | video
  | androidApp
  | audio
  | document
  | contactCard
  deriving DecidableEq, Repr

def FileType.ofU64 : Nat → FileType
  | 1 => .image
  | 2 => .video
  | 3 => .androidApp
  | 4 => .audio
  | 5 => .document
  | 6 => .contactCard
  | _ => .unknown

def FileType.toU64 : FileType → Nat
  | .unknown => 0
  | .image => 1
  | .video => 2
  | .androidApp => 3
  | .audio => 4
  | .document => 5
  | .contactCard => 6

/-- The kind a MIME type suggests; it only picks an icon. -/
def FileType.ofMime (mime : Text) : FileType :=
  let kind := mime.takeWhile (· ≠ '/')
  if kind = "image".toList then .image
  else if kind = "video".toList then .video
  else if kind = "audio".toList then .audio
  else if mime = "application/vnd.android.package-archive".toList then .androidApp
  else if "text/".toList.isPrefixOf mime ∨ mime = "application/pdf".toList then .document
  else .unknown

inductive Status
  | unknown
  | accept
  | reject
  | notEnoughSpace
  | unsupportedAttachmentType
  | timedOut
  deriving DecidableEq, Repr

def Status.ofU64 : Nat → Status
  | 1 => .accept
  | 2 => .reject
  | 3 => .notEnoughSpace
  | 4 => .unsupportedAttachmentType
  | 5 => .timedOut
  | _ => .unknown

def Status.toU64 : Status → Nat
  | .unknown => 0
  | .accept => 1
  | .reject => 2
  | .notEnoughSpace => 3
  | .unsupportedAttachmentType => 4
  | .timedOut => 5

inductive PairedKeyResult
  | unknown
  | success
  | fail
  | unable
  deriving DecidableEq, Repr

def PairedKeyResult.ofU64 : Nat → PairedKeyResult
  | 1 => .success
  | 2 => .fail
  | 3 => .unable
  | _ => .unknown

def PairedKeyResult.toU64 : PairedKeyResult → Nat
  | .unknown => 0
  | .success => 1
  | .fail => 2
  | .unable => 3

structure FileMetadata where
  name : Text := []
  fileType : FileType := .unknown
  payloadId : Int := 0
  size : Int := 0
  mimeType : Text := "application/octet-stream".toList
  id : Int := 0
  parentFolder : Text := []
  attachmentHash : Int := 0
  isSensitive : Bool := false
  deriving DecidableEq, Repr

structure TextMetadata where
  title : Text := []
  textType : Nat := 0
  payloadId : Int := 0
  size : Int := 0
  id : Int := 0
  deriving DecidableEq, Repr

structure Introduction where
  files : List FileMetadata := []
  texts : List TextMetadata := []
  startTransfer : Bool := false
  deriving DecidableEq, Repr

/-- Total bytes on offer, saturating. -/
def Introduction.totalSize (i : Introduction) : Int :=
  (i.files.map (·.size) ++ i.texts.map (·.size)).foldl saturatingAdd 0

inductive Frame
  | introduction (i : Introduction)
  | response (status : Status)
  | pairedKeyEncryption (signedData secretIdHash : Bytes)
  | pairedKeyResult (result : PairedKeyResult)
  | cancel
  | unknown (ty : Nat)
  deriving DecidableEq, Repr

inductive Error
  | protobuf (e : Protobuf.Error)
  | malformed (what : String)
  | crypto
  deriving DecidableEq, Repr

/-! ## Encoding -/

def wrap (frameType field : Nat) (body : Bytes) : Bytes :=
  let v1 := Protobuf.varint v1Type frameType ++
    (if body ≠ [] ∨ field ≠ 0 then Protobuf.bytes field body else [])
  Protobuf.varint fVersion versionV1 ++ Protobuf.bytes fV1 v1

def encodeFile (f : FileMetadata) : Bytes :=
  Protobuf.bytes fmName (asBytes f.name) ++
    Protobuf.varint fmType f.fileType.toU64 ++
    Protobuf.varint fmPayloadId (toU64 f.payloadId) ++
    Protobuf.varint fmSize (toU64 f.size) ++
    Protobuf.bytes fmMimeType (asBytes f.mimeType) ++
    Protobuf.varint fmId (toU64 f.id) ++
    (if f.parentFolder ≠ [] then Protobuf.bytes fmParentFolder (asBytes f.parentFolder) else []) ++
    (if f.attachmentHash ≠ 0 then
      Protobuf.varint fmAttachmentHash (toU64 f.attachmentHash) else []) ++
    (if f.isSensitive then Protobuf.varint fmIsSensitive 1 else [])

def encodeText (t : TextMetadata) : Bytes :=
  Protobuf.bytes tmTitle (asBytes t.title) ++
    Protobuf.varint tmType t.textType ++
    Protobuf.varint tmPayloadId (toU64 t.payloadId) ++
    Protobuf.varint tmSize (toU64 t.size) ++
    Protobuf.varint tmId (toU64 t.id)

def introduction (i : Introduction) : Bytes :=
  let body := i.files.flatMap (fun f => Protobuf.bytes inFileMetadata (encodeFile f)) ++
    i.texts.flatMap (fun t => Protobuf.bytes inTextMetadata (encodeText t)) ++
    (if i.startTransfer then Protobuf.varint inStartTransfer 1 else []) ++
    -- always present: absent it reads as an unknown use case
    Protobuf.varint inUseCase useCaseNearbyShare
  wrap tIntroduction v1Introduction body

def response (status : Status) : Bytes :=
  wrap tResponse v1Response (Protobuf.varint rsStatus status.toU64)

/-- What two calls of the random source return: the claimed signature and the
claimed hash, of the lengths asked for. -/
structure RandomFill where
  signed : Bytes
  hash : Bytes
  signed_length : signed.length = signedDataLen
  hash_length : hash.length = secretIdHashLen

/-- Some random bytes. -/
def someFill : RandomFill where
  signed := List.replicate signedDataLen 0
  hash := List.replicate secretIdHashLen 0
  signed_length := by decide
  hash_length := by decide

def pairedKeyEncryption : Option RandomFill → Except Error Bytes
  | none => .error .crypto
  | some fill =>
      .ok (wrap tPairedKeyEncryption v1PairedKeyEncryption
        (Protobuf.bytes pkeSignedData fill.signed ++
          Protobuf.bytes pkeSecretIdHash fill.hash))

def pairedKeyResult (result : PairedKeyResult) : Bytes :=
  wrap tPairedKeyResult v1PairedKeyResult (Protobuf.varint pkrStatus result.toU64)

def cancel : Bytes :=
  Protobuf.varint fVersion versionV1 ++
    Protobuf.bytes fV1 (Protobuf.varint v1Type tCancel)

/-! ## Decoding -/

/-- A varint field of a message, absent read as `0`. -/
def varintOr0 (b : Bytes) (field : Nat) : Except Error Nat :=
  match Protobuf.firstVarint b field with
  | .error e => .error (.protobuf e)
  | .ok v => .ok (v.getD 0)

/-- A bytes field of a message. -/
def bytesField (b : Bytes) (field : Nat) : Except Error (Option Bytes) :=
  match Protobuf.firstBytes b field with
  | .error e => .error (.protobuf e)
  | .ok v => .ok v

def parseFile (b : Bytes) : Except Error FileMetadata := do
  let name ← bytesField b fmName
  let fileType ← varintOr0 b fmType
  let payloadId ← varintOr0 b fmPayloadId
  let size ← varintOr0 b fmSize
  let mimeType ← bytesField b fmMimeType
  let id ← varintOr0 b fmId
  let parentFolder ← bytesField b fmParentFolder
  let attachmentHash ← varintOr0 b fmAttachmentHash
  let isSensitive ← varintOr0 b fmIsSensitive
  return {
    name := (name.map fromUtf8Lossy).getD []
    fileType := .ofU64 fileType
    payloadId := toI64 payloadId
    size := toI64 size
    mimeType := (mimeType.map fromUtf8Lossy).getD "application/octet-stream".toList
    id := toI64 id
    parentFolder := (parentFolder.map fromUtf8Lossy).getD []
    attachmentHash := toI64 attachmentHash
    isSensitive := decide (isSensitive ≠ 0) }

def parseText (b : Bytes) : Except Error TextMetadata := do
  let title ← bytesField b tmTitle
  let textType ← varintOr0 b tmType
  let payloadId ← varintOr0 b tmPayloadId
  let size ← varintOr0 b tmSize
  let id ← varintOr0 b tmId
  return {
    title := (title.map fromUtf8Lossy).getD []
    textType := textType
    payloadId := toI64 payloadId
    size := toI64 size
    id := toI64 id }

/-- One field of an introduction.  File and text metadata are repeated. -/
def introductionField (out : Introduction) : Protobuf.Field → Except Error Introduction
  | .bytes field v =>
      if field = inFileMetadata then do
        let f ← parseFile v
        return { out with files := out.files ++ [f] }
      else if field = inTextMetadata then do
        let t ← parseText v
        return { out with texts := out.texts ++ [t] }
      else .ok out
  | .varint field v =>
      if field = inStartTransfer then .ok { out with startTransfer := decide (v ≠ 0) }
      else .ok out

def parseIntroduction (b : Bytes) : Except Error Introduction :=
  Protobuf.readFields .protobuf introductionField b {}

/-- One field of the V1 frame: its type, and its body under whatever number. -/
def v1Field (seen : Option Nat × Option Bytes) :
    Protobuf.Field → Except Error (Option Nat × Option Bytes)
  | .varint field v => .ok (if field = v1Type then (some v, seen.2) else seen)
  | .bytes _ v => .ok (seen.1, some v)

def parse (b : Bytes) : Except Error Frame := do
  let v1 ← match ← bytesField b fV1 with
    | some v1 => .ok v1
    | none => .error (.malformed "no v1 frame")
  let (ty, body) ← Protobuf.readFields .protobuf v1Field v1 (none, none)
  let ty ← match ty with
    | some ty => .ok ty
    | none => .error (.malformed "no frame type")
  let body := body.getD []
  if ty = tIntroduction then return .introduction (← parseIntroduction body)
  else if ty = tResponse then return .response (.ofU64 (← varintOr0 body rsStatus))
  else if ty = tPairedKeyEncryption then
    let signed ← bytesField body pkeSignedData
    let hash ← bytesField body pkeSecretIdHash
    return .pairedKeyEncryption (signed.getD []) (hash.getD [])
  else if ty = tPairedKeyResult then
    return .pairedKeyResult (.ofU64 (← varintOr0 body pkrStatus))
  else if ty = tCancel then return .cancel
  else return .unknown ty

end Sharing

end Protocol
