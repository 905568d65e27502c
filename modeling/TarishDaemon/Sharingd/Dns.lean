import TarishDaemon.Sharingd.Plist

/-!
# DNS packets

The reader of packets and the writer of responses.  A reader is a place in the packet:
what it reads it hands back with the place behind it.  A name may be written in part and
point to where it goes on, so following it is bounded twice: in how often it jumps, and in
how long the name gets.
-/

namespace Sharingd

open Rust
open Plist (slice)

namespace Dns

def typeA : UInt16 := 1

def typePtr : UInt16 := 12

def typeTxt : UInt16 := 16

def typeAaaa : UInt16 := 28

def typeSrv : UInt16 := 33

def maxJumps : Nat := 16

def maxName : Nat := 255

/-! ## Reading -/

section Reader

variable (buf : Bytes)

def readU8 (pos : Nat) : Option (UInt8 × Nat) :=
  buf[pos]?.map fun v => (v, pos + 1)

def readU16 (pos : Nat) : Option (UInt16 × Nat) := do
  let (hi, pos) ← readU8 buf pos
  let (lo, pos) ← readU8 buf pos
  return (UInt16.ofNat (hi.toNat * 256 + lo.toNat), pos)

def readU32 (pos : Nat) : Option (UInt32 × Nat) := do
  let (a, pos) ← readU16 buf pos
  let (b, pos) ← readU16 buf pos
  return (UInt32.ofNat (a.toNat * 65536 + b.toNat), pos)

def readBytes (n pos : Nat) : Option (Bytes × Nat) :=
  (slice buf pos (pos + n)).map fun s => (s, pos + n)

/-- A label is added to a name. -/
def pushLabel (out label : Text) : Text :=
  if out = [] then label else out ++ '.' :: label

/-- The loop of `Reader::name`.  `behind` is the place behind the name as it appears here,
once a pointer has been followed. -/
def nameLoop : Nat → Text → Nat → Nat → Option Nat → Option (Text × Nat)
  | 0, _, _, _, _ => none
  | fuel + 1, out, pos, jumps, behind =>
      match buf[pos]? with
      | none => none
      | some b =>
          let len := b.toNat
          -- both high bits: a pointer of fourteen bits
          if len / 64 = 3 then
            match buf[pos + 1]? with
            | none => none
            | some lo =>
                let target := len % 64 * 256 + lo.toNat
                if jumps + 1 > maxJumps ∨ target ≥ buf.length then none
                else nameLoop fuel out target (jumps + 1) (some (behind.getD (pos + 2)))
          else if len = 0 then some (out, behind.getD (pos + 1))
          else
            match slice buf (pos + 1) (pos + 1 + len) with
            | none => none
            | some label =>
                if (asBytes out).length + label.length + 1 > maxName then none
                else
                  match fromUtf8 label with
                  | none => none
                  | some t => nameLoop fuel (pushLabel out t) (pos + 1 + len) jumps behind

/-- Every turn of the loop jumps or lengthens the name. -/
def readName (pos : Nat) : Option (Text × Nat) :=
  nameLoop buf (maxName + maxJumps + 2) [] pos 0 none

structure Question where
  name : Text
  qtype : UInt16
  deriving DecidableEq, Repr

structure Record where
  name : Text
  rtype : UInt16
  ttl : UInt32
  rdata : Bytes
  /-- Where the rdata is in the packet: a name in it may point anywhere. -/
  rdataAt : Nat
  deriving DecidableEq, Repr

structure Message where
  questions : List Question
  records : List Record
  deriving DecidableEq, Repr

def readQuestion (pos : Nat) : Option (Question × Nat) := do
  let (name, pos) ← readName buf pos
  let (qtype, pos) ← readU16 buf pos
  let (_, pos) ← readU16 buf pos
  return ({ name, qtype }, pos)

def readRecord (pos : Nat) : Option (Record × Nat) := do
  let (name, pos) ← readName buf pos
  let (rtype, pos) ← readU16 buf pos
  let (_, pos) ← readU16 buf pos
  let (ttl, pos) ← readU32 buf pos
  let (rdlen, pos) ← readU16 buf pos
  let (rdata, behind) ← readBytes buf rdlen.toNat pos
  return ({ name, rtype, ttl, rdata, rdataAt := pos }, behind)

/-- The same, `n` times. -/
def readMany {α : Type} (read : Nat → Option (α × Nat)) : Nat → Nat → Option (List α × Nat)
  | 0, pos => some ([], pos)
  | n + 1, pos => do
      let (x, pos) ← read pos
      let (xs, pos) ← readMany read n pos
      return (x :: xs, pos)

end Reader

def parse (buf : Bytes) : Option Message := do
  let (_, pos) ← readU16 buf 0
  let (_, pos) ← readU16 buf pos
  let (qd, pos) ← readU16 buf pos
  let (an, pos) ← readU16 buf pos
  let (ns, pos) ← readU16 buf pos
  let (ar, pos) ← readU16 buf pos
  if qd.toNat > 64 then none
  else
    let (questions, pos) ← readMany (readQuestion buf) qd.toNat pos
    let total := an.toNat + ns.toNat + ar.toNat
    if total > 128 then none
    else
      let (records, _) ← readMany (readRecord buf) total pos
      return { questions, records }

/-! ## Writing -/

def encodeLabel (label : Text) : Bytes :=
  UInt8.ofNat (asBytes label).length :: asBytes label

def encodeName (n : Text) : Bytes :=
  ((n.splitOn '.').filter fun label => label ≠ []).flatMap encodeLabel ++ [0]

def record (name : Text) (rtype : UInt16) (ttl : UInt32) (rdata : Bytes) (flush : Bool) : Bytes :=
  encodeName name ++ (beBytes 2 rtype.toNat ++ (beBytes 2 (if flush then 0x8001 else 0x0001) ++
    (beBytes 4 ttl.toNat ++ (beBytes 2 rdata.length ++ rdata))))

def response (answers : List Bytes) : Bytes :=
  beBytes 2 0 ++ (beBytes 2 0x8400 ++ (beBytes 2 0 ++ (beBytes 2 answers.length ++
    (beBytes 2 0 ++ (beBytes 2 0 ++ answers.flatten)))))

example : parse (response [record "a.local".toList typeA 120 [1, 2, 3, 4] true]) =
    some { questions := [], records := [⟨"a.local".toList, typeA, 120, [1, 2, 3, 4], 31⟩] } := by
  decide +kernel

end Dns

end Sharingd
