import TarishDaemon.Rust.Text

/-!
# `std::net`

Addresses as their octets, and the tests of `Ipv4Addr` and `Ipv6Addr` that the daemon
uses.

`IpAddr.scope` sorts all addresses by how far they reach, each into one class.  An
address that belongs to no smaller scope is routable; blocks that are set aside for
other purposes are not told apart from it.
-/

namespace Rust

/-- `octets()[i]`. -/
def Octets.get {n : Nat} (o : Octets n) (i : Nat) : Nat :=
  (o.bytes.getD i 0).toNat

inductive IpAddr
  | v4 (addr : Octets 4)
  | v6 (addr : Octets 16)
  deriving DecidableEq, Repr

namespace Ipv4Addr

variable (a : Octets 4)

def isLoopback : Bool := a.get 0 == 127

def isUnspecified : Bool := a.bytes == [0, 0, 0, 0]

def isMulticast : Bool := 224 ≤ a.get 0 && a.get 0 ≤ 239

def isBroadcast : Bool := a.bytes == [255, 255, 255, 255]

def isLinkLocal : Bool := a.get 0 == 169 && a.get 1 == 254

def isDocumentation : Bool :=
  (a.get 0 == 192 && a.get 1 == 0 && a.get 2 == 2) ||
    (a.get 0 == 198 && a.get 1 == 51 && a.get 2 == 100) ||
    (a.get 0 == 203 && a.get 1 == 0 && a.get 2 == 113)

def isPrivate : Bool :=
  a.get 0 == 10 || (a.get 0 == 172 && (16 ≤ a.get 1 && a.get 1 ≤ 31)) ||
    (a.get 0 == 192 && a.get 1 == 168)

/-- `to_string`. -/
def toText : Text :=
  ['.'].intercalate ((List.range 4).map fun i => Nat.toDigits 10 (a.get i))

end Ipv4Addr

namespace Ipv6Addr

variable (a : Octets 16)

def isLoopback : Bool := a.bytes == List.replicate 15 0 ++ [1]

def isUnspecified : Bool := a.bytes == List.replicate 16 0

def isMulticast : Bool := a.get 0 == 0xff

/-- The first twelve octets of `::ffff:0:0/96`. -/
def mappedPrefix : Bytes := List.replicate 10 0 ++ [0xff, 0xff]

def toIpv4Mapped : Option (Octets 4) :=
  if a.bytes.take 12 = mappedPrefix then Octets.tryFrom 4 (a.bytes.drop 12) else none

def segments : List Nat :=
  (List.range 8).map fun i => a.get (2 * i) * 256 + a.get (2 * i + 1)

structure Span where
  start : Nat := 0
  len : Nat := 0

/-- The longest run of zeroes, and the first one if there are several. -/
def zeroes (segments : List Nat) : Span :=
  (segments.zipIdx.foldl
    (fun (longest, current) (segment, i) =>
      if segment = 0 then
        let current : Span :=
          { start := if current.len = 0 then i else current.start, len := current.len + 1 }
        (if longest.len < current.len then current else longest, current)
      else (longest, {}))
    (({} : Span), ({} : Span))).1

def fmtSubslice (chunk : List Nat) : Text :=
  [':'].intercalate (chunk.map (Nat.toDigits 16))

/-- `to_string`. -/
def toText : Text :=
  match toIpv4Mapped a with
  | some m => "::ffff:".toList ++ Ipv4Addr.toText m
  | none =>
      let z := zeroes (segments a)
      if 1 < z.len then
        fmtSubslice ((segments a).take z.start) ++ "::".toList ++
          fmtSubslice ((segments a).drop (z.start + z.len))
      else fmtSubslice (segments a)

end Ipv6Addr

/-! ## Scopes -/

inductive Scope
  | unspecified
  | loopback
  | linkLocal
  | multicast
  | broadcast
  | privateUse
  | routable
  deriving DecidableEq, Repr

namespace IpAddr

/-- The IPv4 address that a mapped one stands for. -/
def canonical : IpAddr → IpAddr
  | .v4 a => .v4 a
  | .v6 a =>
      match Ipv6Addr.toIpv4Mapped a with
      | some m => .v4 m
      | none => .v6 a

/-- 0.0.0.0, 127/8, 169.254/16, 224/4, 255.255.255.255, and 10/8, 172.16/12 and 192.168/16;
::, ::1, fe80::/10, ff00::/8 and fc00::/7. -/
def scope : IpAddr → Scope
  | .v4 a =>
      if a.bytes = [0, 0, 0, 0] then .unspecified
      else if a.bytes = [255, 255, 255, 255] then .broadcast
      else if a.get 0 = 127 then .loopback
      else if a.get 0 = 169 ∧ a.get 1 = 254 then .linkLocal
      else if 224 ≤ a.get 0 ∧ a.get 0 < 240 then .multicast
      else if a.get 0 = 10 ∨ (a.get 0 = 172 ∧ 16 ≤ a.get 1 ∧ a.get 1 < 32) ∨
          (a.get 0 = 192 ∧ a.get 1 = 168) then .privateUse
      else .routable
  | .v6 a =>
      if a.bytes = List.replicate 16 0 then .unspecified
      else if a.bytes = List.replicate 15 0 ++ [1] then .loopback
      else if a.get 0 = 0xfe ∧ 0x80 ≤ a.get 1 ∧ a.get 1 < 0xc0 then .linkLocal
      else if a.get 0 = 0xff then .multicast
      else if 0xfc ≤ a.get 0 ∧ a.get 0 < 0xfe then .privateUse
      else .routable

end IpAddr

theorem Octets.get_lt {n : Nat} (o : Octets n) (i : Nat) : o.get i < 256 :=
  UInt8.toNat_lt _

theorem Octets.get_of_bytes {n : Nat} {o : Octets n} {b : Bytes} (h : o.bytes = b) (i : Nat) :
    o.get i = (b.getD i 0).toNat := by
  rw [Octets.get, h]

/-- The octets that an address with the mapped prefix begins with. -/
theorem Ipv6Addr.get_of_mapped {a : Octets 16} (h : a.bytes.take 12 = mappedPrefix) {i : Nat}
    (hi : i < 12) : a.get i = (mappedPrefix.getD i 0).toNat := by
  have hsame : a.bytes.getD i 0 = (a.bytes.take 12).getD i 0 := by
    rw [List.getD_eq_getElem?_getD, List.getD_eq_getElem?_getD, List.getElem?_take_of_lt hi]
  rw [Octets.get, hsame, h]

end Rust
