import DnsResolver.Octets
import DnsResolver.Numeral

/-!
# Addresses of version 4

An address is four octets.  Its text has the octets in decimal, joined with full stops; it is read
back only without superfluous zeros.
-/

namespace DnsResolver

/-- An Internet address of version 4. -/
structure IPv4 where
  a : UInt8
  b : UInt8
  c : UInt8
  d : UInt8
  deriving DecidableEq, Repr

namespace IPv4

/-- The octets of the address as they are sent. -/
def octets (address : IPv4) : Octets :=
  [address.a, address.b, address.c, address.d]

/-- The address with the given 32-bit value. -/
def ofWord32 (w : UInt32) : IPv4 where
  a := UInt8.ofNat (w.toNat / 16777216)
  b := UInt8.ofNat (w.toNat / 65536)
  c := UInt8.ofNat (w.toNat / 256)
  d := UInt8.ofNat w.toNat

/-- The octets in decimal, joined with full stops. -/
def display (address : IPv4) : String :=
  s!"{address.a.toNat}.{address.b.toNat}.{address.c.toNat}.{address.d.toNat}"

instance : ToString IPv4 := ⟨display⟩

/-- Reads one octet of an address: no leading zero, and at most 255. -/
def scanOctet (text : List Char) : Option (UInt8 × List Char) := do
  let (n, rest) ← Numeral.scan 10 3 256 text
  if text.head? = some '0' ∧ rest.length + 1 < text.length then none
  return (UInt8.ofNat n, rest)

/-- Reads one octet behind a full stop. -/
def scanNext : List Char → Option (UInt8 × List Char)
  | '.' :: text => scanOctet text
  | _ => none

/-- Reads an address in front of a text. -/
def scan (text : List Char) : Option (IPv4 × List Char) := do
  let (a, text) ← scanOctet text
  let (b, text) ← scanNext text
  let (c, text) ← scanNext text
  let (d, text) ← scanNext text
  return (⟨a, b, c, d⟩, text)

/-- The address that the whole text spells. -/
def ofString? (s : String) : Option IPv4 :=
  match scan s.toList with
  | some (address, []) => some address
  | _ => none

end IPv4
end DnsResolver
