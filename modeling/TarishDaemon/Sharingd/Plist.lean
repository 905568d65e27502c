import TarishDaemon.Lib.Layout
import TarishDaemon.Rust.Utf16

/-!
# Binary property lists

The writer walks the value, giving every part an index, and then writes the objects,
the table of their places and a trailer.  The reader looks objects up by index and
spends two budgets while it does: objects, and bytes of leaves.  They are the
state it passes on; where it refuses, it refuses the document.
-/

namespace Sharingd

open Rust

namespace Plist

/-! ## Writing -/

/-- A value to be written. -/
inductive Value
  | str (s : Text)
  | data (d : Bytes)
  | bool (b : Bool)
  | array (items : List Value)
  | dict (entries : List (Text × Value))

/-- An object with its children already resolved to indices. -/
inductive Node
  | bool (b : Bool)
  | str (s : Text)
  | data (d : Bytes)
  | array (children : List Nat)
  | dict (keys values : List Nat)
  deriving DecidableEq, Repr

mutual

/-- Give the value the next index and append its children after it. -/
def flatten : Value → List Node → Nat × List Node
  | .bool b, out => (out.length, out ++ [Node.bool b])
  | .str s, out => (out.length, out ++ [Node.str s])
  | .data d, out => (out.length, out ++ [Node.data d])
  | .array items, out =>
      -- the slot is reserved before the children take theirs
      let r := flattenAll items (out ++ [Node.array []])
      (out.length, r.2.set out.length (Node.array r.1))
  | .dict entries, out =>
      let k := flattenKeys entries (out ++ [Node.dict [] []])
      let r := flattenValues entries k.2
      (out.length, r.2.set out.length (Node.dict k.1 r.1))

def flattenAll : List Value → List Node → List Nat × List Node
  | [], out => ([], out)
  | v :: items, out =>
      let first := flatten v out
      let r := flattenAll items first.2
      (first.1 :: r.1, r.2)

def flattenKeys : List (Text × Value) → List Node → List Nat × List Node
  | [], out => ([], out)
  | (k, _) :: entries, out =>
      let r := flattenKeys entries (out ++ [Node.str k])
      (out.length :: r.1, r.2)

def flattenValues : List (Text × Value) → List Node → List Nat × List Node
  | [], out => ([], out)
  | (_, v) :: entries, out =>
      let first := flatten v out
      let r := flattenValues entries first.2
      (first.1 :: r.1, r.2)

end

/-- The smallest width, 1, 2, 4 or 8, that holds `max`. -/
def byteWidth (max : Nat) : Nat :=
  if max ≤ 0xFF then 1
  else if max ≤ 0xFFFF then 2
  else if max ≤ 0xFFFFFFFF then 4
  else 8

/-- An integer used as a length. -/
def writeIntObject (v : Nat) : Bytes :=
  if v ≤ 0xFF then 0x10 :: beBytes 1 v
  else if v ≤ 0xFFFF then 0x11 :: beBytes 2 v
  else 0x12 :: beBytes 4 v

/-- A marker carries its length in the low half when it fits there. -/
def writeMarker (kind len : Nat) : Bytes :=
  if len < 0x0F then [UInt8.ofNat (kind + len)]
  else UInt8.ofNat (kind + 0x0F) :: writeIntObject len

def writeString (s : Text) : Bytes :=
  if isAscii s then writeMarker 0x50 (asBytes s).length ++ asBytes s
  else writeMarker 0x60 (encodeUtf16 s).length ++ (encodeUtf16 s).flatMap (beBytes 2)

def writeNode (refSize : Nat) : Node → Bytes
  | .bool b => [if b then 0x09 else 0x08]
  | .str s => writeString s
  | .data d => writeMarker 0x40 d.length ++ d
  | .array children => writeMarker 0xA0 children.length ++ children.flatMap (beBytes refSize)
  | .dict keys values =>
      writeMarker 0xD0 keys.length ++ keys.flatMap (beBytes refSize) ++
        values.flatMap (beBytes refSize)

def magic : Bytes := [0x62, 0x70, 0x6C, 0x69, 0x73, 0x74, 0x30, 0x30]

/-- Write the objects, noting where each begins. -/
def writeNodes (refSize : Nat) : List Node → Bytes → List Nat → Bytes × List Nat
  | [], out, offsets => (out, offsets)
  | node :: nodes, out, offsets =>
      writeNodes refSize nodes (out ++ writeNode refSize node) (offsets ++ [out.length])

def encode (root : Value) : Bytes :=
  let objects := (flatten root []).2
  let refSize := byteWidth objects.length
  let (out, offsets) := writeNodes refSize objects magic []
  let tableStart := out.length
  let offsetSize := byteWidth tableStart
  out ++ offsets.flatMap (beBytes offsetSize) ++ [0, 0, 0, 0, 0] ++
    [0, UInt8.ofNat offsetSize, UInt8.ofNat refSize] ++ beBytes 8 objects.length ++
    beBytes 8 0 ++ beBytes 8 tableStart

/-! ## Reading -/

/-- A value read back. -/
inductive Val
  | str (s : Text)
  | data (d : Bytes)
  | int (i : Int)
  | bool (b : Bool)
  | array (items : List Val)
  | dict (entries : List (Text × Val))
  | other

/-- The value under a key; nothing where there is no dictionary. -/
def Val.get (v : Val) (key : Text) : Option Val :=
  match v with
  | .dict entries => (entries.find? fun e => decide (e.1 = key)).map Prod.snd
  | _ => none

def Val.asStr : Val → Option Text
  | .str s => some s
  | _ => none

def maxDepth : Nat := 16

def maxElements : Nat := 4096

def maxTotalObjects : Nat := 100000

def byteAmplification : Nat := 8

def minByteBudget : Nat := 256 * 1024

/-- What is left to spend. -/
structure Budget where
  objects : Nat
  bytes : Nat
  deriving DecidableEq, Repr

structure Parser where
  buf : Bytes
  tableStart : Nat
  offsetSize : Nat
  refSize : Nat
  numObjects : Nat

/-- `buf.get(a..b)`. -/
def slice (buf : Bytes) (a b : Nat) : Option Bytes :=
  if a ≤ b ∧ b ≤ buf.length then some ((buf.drop a).take (b - a)) else none

namespace Parser

variable (p : Parser)

def spendBytes (n : Nat) (left : Budget) : Option Budget :=
  if n > left.bytes then none else some { left with bytes := left.bytes - n }

def offsetOf (index : Nat) : Option Nat :=
  if index ≥ p.numObjects then none
  else
    let at' := p.tableStart + index * p.offsetSize
    match slice p.buf at' (at' + p.offsetSize) with
    | none => none
    | some raw => if be raw < p.buf.length then some (be raw) else none

/-- A marker's length, and where the body starts. -/
def sized (at' low : Nat) : Option (Nat × Nat) :=
  if low ≠ 0x0F then some (low, at' + 1)
  else
    match p.buf[at' + 1]? with
    | none => none
    | some m =>
        if m.toNat / 16 ≠ 0x1 then none
        else
          let width := 2 ^ (m.toNat % 16)
          match slice p.buf (at' + 2) (at' + 2 + width) with
          | none => none
          | some bytes => some (be bytes, at' + 2 + width)

def reference (body i : Nat) : Option Nat :=
  (slice p.buf (body + i * p.refSize) (body + i * p.refSize + p.refSize)).map be

/-- The code units of pairs of bytes. -/
def units : Bytes → List Nat
  | b0 :: b1 :: rest => (b0.toNat * 256 + b1.toNat) :: units rest
  | _ => []

/-- The elements of an array, from number `i` on; `left` of them. -/
def arrayLoop (object : Nat → Budget → Option (Val × Budget)) (body : Nat) :
    Nat → Nat → Budget → Option (List Val × Budget)
  | 0, _, budget => some ([], budget)
  | left + 1, i, budget =>
      match p.reference body i with
      | none => none
      | some r =>
          match object r budget with
          | none => none
          | some (v, budget) =>
              match arrayLoop object body left (i + 1) budget with
              | none => none
              | some (vs, budget) => some (v :: vs, budget)

/-- The entries of a dictionary of `count`, from number `i` on; `left` of them. -/
def dictLoop (object : Nat → Budget → Option (Val × Budget)) (body count : Nat) :
    Nat → Nat → Budget → Option (List (Text × Val) × Budget)
  | 0, _, budget => some ([], budget)
  | left + 1, i, budget =>
      match p.reference body i, p.reference body (count + i) with
      | some kr, some vr =>
          match object kr budget with
          | none => none
          | some (.str key, budget) =>
              match object vr budget with
              | none => none
              | some (v, budget) =>
                  match dictLoop object body count left (i + 1) budget with
                  | none => none
                  | some (es, budget) => some ((key, v) :: es, budget)
          -- an entry whose key is no string is passed over
          | some (_, budget) => dictLoop object body count left (i + 1) budget
      | _, _ => none

/-- The object at an index, `left` being the levels that may still be entered. -/
def object : Nat → Nat → Budget → Option (Val × Budget)
  | 0, _, _ => none
  | left + 1, index, budget =>
      if budget.objects = 0 then none
      else
        let budget := { budget with objects := budget.objects - 1 }
        match p.offsetOf index with
        | none => none
        | some at' =>
            match p.buf[at']? with
            | none => none
            | some marker =>
                let low := marker.toNat % 16
                match marker.toNat / 16 with
                | 0x0 =>
                    if marker = 0x08 then some (.bool false, budget)
                    else if marker = 0x09 then some (.bool true, budget)
                    else some (.other, budget)
                | 0x1 =>
                    match slice p.buf (at' + 1) (at' + 1 + 2 ^ low) with
                    | none => none
                    | some bytes => some (.int (toI64 (be bytes)), budget)
                | 0x4 =>
                    match p.sized at' low with
                    | none => none
                    | some (len, body) =>
                        match slice p.buf body (body + len) with
                        | none => none
                        | some v => (spendBytes v.length budget).map fun b => (.data v, b)
                | 0x5 =>
                    match p.sized at' low with
                    | none => none
                    | some (len, body) =>
                        match slice p.buf body (body + len) with
                        | none => none
                        | some raw =>
                            let s := fromUtf8Lossy raw
                            (spendBytes (asBytes s).length budget).map fun b => (.str s, b)
                | 0x6 =>
                    match p.sized at' low with
                    | none => none
                    | some (len, body) =>
                        match slice p.buf body (body + len * 2) with
                        | none => none
                        | some raw =>
                            let s := fromUtf16Lossy (units raw)
                            (spendBytes (asBytes s).length budget).map fun b => (.str s, b)
                | 0xA =>
                    match p.sized at' low with
                    | none => none
                    | some (count, body) =>
                        if count > maxElements then none
                        else
                          (p.arrayLoop (object left) body count 0 budget).map fun r =>
                            (.array r.1, r.2)
                | 0xD =>
                    match p.sized at' low with
                    | none => none
                    | some (count, body) =>
                        if count > maxElements then none
                        else
                          (p.dictLoop (object left) body count count 0 budget).map fun r =>
                            (.dict r.1, r.2)
                | _ => some (.other, budget)

end Parser

/-- `usize::saturating_mul`. -/
def saturatingMul (a b : Nat) : Nat :=
  min (a * b) (2 ^ 64 - 1)

def parse (buf : Bytes) : Option Val :=
  if buf.length < 40 ∨ buf.take 8 ≠ magic then none
  else
    let trailer := buf.drop (buf.length - 32)
    let offsetSize := (trailer.getD 6 0).toNat
    let refSize := (trailer.getD 7 0).toNat
    let numObjects := be ((trailer.drop 8).take 8)
    let root := be ((trailer.drop 16).take 8)
    let tableStart := be ((trailer.drop 24).take 8)
    if offsetSize = 0 ∨ offsetSize > 8 ∨ refSize = 0 ∨ refSize > 8 then none
    else if numObjects = 0 ∨ numObjects > maxElements ∨ root ≥ numObjects then none
    else if tableStart + numObjects * offsetSize > buf.length then none
    else
      let p : Parser := { buf, tableStart, offsetSize, refSize, numObjects }
      -- a depth above the limit is refused, so one level more may be entered
      (p.object (maxDepth + 1) root
        ⟨maxTotalObjects, max (saturatingMul buf.length byteAmplification) minByteBudget⟩).map
          Prod.fst

end Plist

end Sharingd
