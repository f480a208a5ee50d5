import DnsResolver.Address.IPv6

/-!
# Addresses of hosts and of their ports

A host has an address of either version.  A socket address adds the port; for version 6 it may
also number the zone that the address is valid in.
-/

namespace DnsResolver

/-- An Internet address of either version. -/
inductive IPAddress where
  | v4 (address : IPv4)
  | v6 (address : IPv6)
  deriving DecidableEq, Repr

namespace IPAddress

/-- The address that the whole text spells. -/
def ofString? (s : String) : Option IPAddress :=
  match IPv4.ofString? s with
  | some address => some (v4 address)
  | none => (IPv6.ofString? s).map v6

end IPAddress

/-- The address of a port of a host. -/
inductive SocketAddress where
  | v4 (address : IPv4) (port : UInt16)
  | v6 (address : IPv6) (zone : UInt32) (port : UInt16)
  deriving DecidableEq, Repr

namespace SocketAddress

/-- The address of a port of the given host. -/
def ofHost (host : IPAddress) (port : UInt16) : SocketAddress :=
  match host with
  | .v4 address => v4 address port
  | .v6 address => v6 address 0 port

/-- The text of the address, in which the port follows a colon. -/
def display : SocketAddress → String
  | v4 address port => s!"{address}:{port.toNat}"
  | v6 address zone port =>
    let suffix := if zone = 0 then "" else s!"%{zone.toNat}"
    s!"[{address}{suffix}]:{port.toNat}"

instance : ToString SocketAddress := ⟨display⟩

/-- Reads a port behind a colon. -/
def scanPort : List Char → Option (UInt16 × List Char)
  | ':' :: text => do
    let (port, text) ← Numeral.scanDecimal 65536 text
    return (UInt16.ofNat port, text)
  | _ => none

/-- Reads the number of a zone behind a percent sign, which may be left out. -/
def scanZone : List Char → Option (UInt32 × List Char)
  | '%' :: text => do
    let (zone, text) ← Numeral.scanDecimal 4294967296 text
    return (UInt32.ofNat zone, text)
  | text => some (0, text)

/-- Reads a socket address in front of a text. -/
def scan : List Char → Option (SocketAddress × List Char)
  | '[' :: text => do
    let (address, text) ← IPv6.scan text
    let (zone, text) ← scanZone text
    match text with
    | ']' :: text =>
      let (port, text) ← scanPort text
      return (v6 address zone port, text)
    | _ => none
  | text => do
    let (address, text) ← IPv4.scan text
    let (port, text) ← scanPort text
    return (v4 address port, text)

/-- The socket address that the whole text spells. -/
def ofString? (s : String) : Option SocketAddress :=
  match scan s.toList with
  | some (address, []) => some address
  | _ => none

end SocketAddress
end DnsResolver
