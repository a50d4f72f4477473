import Mathlib.Order.Basic

/-!
# Socket addresses

`std::net`: addresses with a decidable equality (it is the key equality of the address tables) and
the textual form of an IP address, under which the registration code compares addresses.
-/

namespace NemoServer

/-- `Bytes` and `Vec<u8>`. -/
abbrev Bytes := List UInt8

structure Ipv4Addr where
  a : UInt8
  b : UInt8
  c : UInt8
  d : UInt8
  deriving DecidableEq

structure Ipv6Addr where
  s0 : UInt16
  s1 : UInt16
  s2 : UInt16
  s3 : UInt16
  s4 : UInt16
  s5 : UInt16
  s6 : UInt16
  s7 : UInt16
  deriving DecidableEq

inductive IpAddr
  | v4 (ip : Ipv4Addr)
  | v6 (ip : Ipv6Addr)
  deriving DecidableEq

inductive SocketAddr
  | v4 (ip : Ipv4Addr) (port : UInt16)
  | v6 (ip : Ipv6Addr) (port : UInt16) (flowinfo scopeId : UInt32)
  deriving DecidableEq

namespace Ipv4Addr

/-- `Display`: four decimal numbers. -/
def toText (x : Ipv4Addr) : String :=
  toString x.a.toNat ++ "." ++ toString x.b.toNat ++ "." ++ toString x.c.toNat ++ "." ++
    toString x.d.toNat

/-- 127.0.0.0/8. -/
def isLoopback (x : Ipv4Addr) : Bool := x.a == 127

end Ipv4Addr

namespace Ipv6Addr

def segments (x : Ipv6Addr) : List UInt16 := [x.s0, x.s1, x.s2, x.s3, x.s4, x.s5, x.s6, x.s7]

/-- The IPv4 address in the last two segments. -/
def tail4 (x : Ipv6Addr) : Ipv4Addr :=
  ⟨(x.s6 >>> 8).toUInt8, x.s6.toUInt8, (x.s7 >>> 8).toUInt8, x.s7.toUInt8⟩

/-- `to_ipv4_mapped`: the address is `::ffff:a.b.c.d`. -/
def toIpv4Mapped (x : Ipv6Addr) : Option Ipv4Addr :=
  if x.segments.take 6 = [0, 0, 0, 0, 0, 0xffff] then some x.tail4 else none

/-- `to_ipv4`: the address is `::a.b.c.d` or `::ffff:a.b.c.d`. -/
def toIpv4 (x : Ipv6Addr) : Option Ipv4Addr :=
  if x.segments.take 5 = [0, 0, 0, 0, 0] ∧ (x.s5 = 0 ∨ x.s5 = 0xffff) then some x.tail4 else none

def isLoopback (x : Ipv6Addr) : Bool := x.segments == [0, 0, 0, 0, 0, 0, 0, 1]

/-- Start and length of the longest run of zero segments, the first of them if there are
several. -/
def zeroes : List UInt16 → ℕ → (current longest : ℕ × ℕ) → ℕ × ℕ
  | [], _, _, longest => longest
  | s :: rest, i, current, longest =>
    if s = 0 then
      let current := if current.2 = 0 then (i, 1) else (current.1, current.2 + 1)
      zeroes rest (i + 1) current (if longest.2 < current.2 then current else longest)
    else zeroes rest (i + 1) (0, 0) longest

def hex (s : UInt16) : String := String.ofList (Nat.toDigits 16 s.toNat)

/-- `Display`: hexadecimal segments, the longest run of two or more zeroes left out. -/
def toText (x : Ipv6Addr) : String :=
  match x.toIpv4Mapped with
  | some ip => "::ffff:" ++ ip.toText
  | none =>
    let z := zeroes x.segments 0 (0, 0) (0, 0)
    if 1 < z.2 then
      ":".intercalate ((x.segments.take z.1).map hex) ++ "::" ++
        ":".intercalate ((x.segments.drop (z.1 + z.2)).map hex)
    else ":".intercalate (x.segments.map hex)

end Ipv6Addr

namespace IpAddr

def toText : IpAddr → String
  | .v4 ip => ip.toText
  | .v6 ip => ip.toText

def isLoopback : IpAddr → Bool
  | .v4 ip => ip.isLoopback
  | .v6 ip => ip.isLoopback

end IpAddr

namespace SocketAddr

def ip : SocketAddr → IpAddr
  | .v4 ip _ => .v4 ip
  | .v6 ip _ _ _ => .v6 ip

def port : SocketAddr → UInt16
  | .v4 _ port => port
  | .v6 _ port _ _ => port

/-- `Display`: the address and the port; an IPv6 address stands in brackets, with its scope. -/
def toText : SocketAddr → String
  | .v4 ip port => ip.toText ++ ":" ++ toString port.toNat
  | .v6 ip port _ 0 => "[" ++ ip.toText ++ "]:" ++ toString port.toNat
  | .v6 ip port _ scopeId =>
    "[" ++ ip.toText ++ "%" ++ toString scopeId.toNat ++ "]:" ++ toString port.toNat

/-- `0.0.0.0:0`, the address of a peer that has not been seen. -/
def unspecified : SocketAddr := .v4 ⟨0, 0, 0, 0⟩ 0

end SocketAddr

example : (Ipv6Addr.mk 0x2001 0xdb8 0 0 1 0 0 1).toText = "2001:db8::1:0:0:1" := by decide

end NemoServer
