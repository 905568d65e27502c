import TarishDaemon.Rust.Text

/-!
# Just enough protobuf

The writer emits varints and length-delimited fields.  The reader works on the
bytes that are left: `nextField` takes one field off the front, skipping fields
of the two fixed widths, and every caller in the source is a loop over it.  That
loop is `readFields`, with the caller's own step as a parameter, so that an error
of the caller and an error of the reader come out in the order the source finds
them in.

Recursion is on the bytes left, or on a bound of them, so that a concrete frame
can be evaluated.
-/

namespace Protocol

open Rust

namespace Protobuf

def wireVarint : Nat := 0

def wireI64 : Nat := 1

def wireBytes : Nat := 2

def wireI32 : Nat := 5

inductive Error
  | truncated
  | varintTooLong
  | unsupportedWireType (wire : Nat)
  deriving DecidableEq, Repr

/-! ## Writing -/

/-- The loop of `put_varint`; a `u64` is done after ten bytes. -/
def putVarintLoop : Nat → Nat → Bytes
  | 0, _ => []
  | fuel + 1, v =>
      if v ≥ 0x80 then UInt8.ofNat (v % 128 + 128) :: putVarintLoop fuel (v / 128)
      else [UInt8.ofNat v]

def putVarint (v : Nat) : Bytes :=
  putVarintLoop 10 v

def putTag (field wire : Nat) : Bytes :=
  putVarint (field * 8 + wire)

/-- `Writer::varint`: integers, bools and enums. -/
def varint (field v : Nat) : Bytes :=
  putTag field wireVarint ++ putVarint v

/-- `Writer::bytes`: bytes, strings and nested messages. -/
def bytes (field : Nat) (v : Bytes) : Bytes :=
  putTag field wireBytes ++ putVarint v.length ++ v

/-! ## Reading -/

inductive Field
  | varint (field value : Nat)
  | bytes (field : Nat) (value : Bytes)
  deriving DecidableEq, Repr

/-- `Reader::varint` on the bytes left. -/
def readVarint : Bytes → Nat → Nat → Except Error (Nat × Bytes)
  | [], _, _ => .error .truncated
  | b :: rest, shift, out =>
      if shift > 63 then .error .varintTooLong
      else
        let out := out ||| ((b.toNat % 128) <<< shift) % 2 ^ 64
        if b.toNat < 128 then .ok (out, rest) else readVarint rest (shift + 7) out

/-- `Reader::take`. -/
def take (n : Nat) (buf : Bytes) : Except Error (Bytes × Bytes) :=
  if n ≤ buf.length then .ok (buf.take n, buf.drop n) else .error .truncated

/-- `Reader::next_field`, with a bound on the fields it may skip. -/
def nextFieldLoop : Nat → Bytes → Option (Except Error (Field × Bytes))
  | _, [] => none
  | 0, _ :: _ => none
  | fuel + 1, b :: tail =>
      match readVarint (b :: tail) 0 0 with
      | .error e => some (.error e)
      | .ok (tag, rest) =>
          let field := tag / 8 % 2 ^ 32
          let wire := tag % 8
          if wire = wireVarint then
            match readVarint rest 0 0 with
            | .error e => some (.error e)
            | .ok (v, rest) => some (.ok (.varint field v, rest))
          else if wire = wireBytes then
            match readVarint rest 0 0 with
            | .error e => some (.error e)
            | .ok (len, rest) =>
                match take len rest with
                | .error e => some (.error e)
                | .ok (v, rest) => some (.ok (.bytes field v, rest))
          else if wire = wireI64 then
            match take 8 rest with
            | .error e => some (.error e)
            | .ok (_, rest) => nextFieldLoop fuel rest
          else if wire = wireI32 then
            match take 4 rest with
            | .error e => some (.error e)
            | .ok (_, rest) => nextFieldLoop fuel rest
          else some (.error (.unsupportedWireType wire))

def nextField (buf : Bytes) : Option (Except Error (Field × Bytes)) :=
  nextFieldLoop buf.length buf

variable {σ ε : Type}

/-- `while let Some(f) = r.next_field() { step(f?)? }`. -/
def readFieldsLoop (lift : Error → ε) (step : σ → Field → Except ε σ) :
    Nat → Bytes → σ → Except ε σ
  | 0, _, s => .ok s
  | fuel + 1, buf, s =>
      match nextField buf with
      | none => .ok s
      | some (.error e) => .error (lift e)
      | some (.ok (f, rest)) =>
          match step s f with
          | .error e => .error e
          | .ok s => readFieldsLoop lift step fuel rest s

/-- Every field takes at least one byte, so the length bounds the rounds; the
last round finds the end. -/
def readFields (lift : Error → ε) (step : σ → Field → Except ε σ) (buf : Bytes) (s : σ) :
    Except ε σ :=
  readFieldsLoop lift step (buf.length + 1) buf s

/-- `first_bytes`: the last occurrence wins. -/
def firstBytes (buf : Bytes) (field : Nat) : Except Error (Option Bytes) :=
  readFields id (fun found f =>
    match f with
    | .bytes n v => .ok (if n = field then some v else found)
    | .varint _ _ => .ok found) buf none

/-- `first_varint`: the last occurrence wins. -/
def firstVarint (buf : Bytes) (field : Nat) : Except Error (Option Nat) :=
  readFields id (fun found f =>
    match f with
    | .varint n v => .ok (if n = field then some v else found)
    | .bytes _ _ => .ok found) buf none

example : varint 1 150 = [0x08, 0x96, 0x01] := by decide

example : firstBytes (bytes 2 [1, 2] ++ varint 1 300 ++ bytes 2 [3]) 2 = .ok (some [3]) := by
  decide

end Protobuf

end Protocol
