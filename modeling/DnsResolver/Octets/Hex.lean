import DnsResolver.Octets

/-!
# Hexadecimal text

Octets are written as two hexadecimal digits each.  Diagnostics quote single octets and 16-bit
words in the same way behind `0x`, always with all leading zeros.
-/

namespace DnsResolver
namespace Hex

/-- The two lower case digits of an octet. -/
def digits (octet : UInt8) : List Char :=
  [Nat.digitChar (octet.toNat / 16), Nat.digitChar (octet.toNat % 16)]

/-- Lower case text of a sequence of octets, without separators. -/
def ofOctets (octets : Octets) : String :=
  String.ofList (octets.flatMap digits)

/-- Upper case text of one octet. -/
def upper (octet : UInt8) : String :=
  String.ofList ((digits octet).map Char.toUpper)

/-- A quoted octet, such as `0x2e`. -/
def octet (octet : UInt8) : String :=
  "0x" ++ ofOctets [octet]

/-- A quoted 16-bit word, such as `0x00ff`. -/
def word (word : UInt16) : String :=
  "0x" ++ ofOctets (Octets.ofWord16 word)

/-- The value of a hexadecimal digit of either case. -/
def value? (c : Char) : Option Nat :=
  if '0' ≤ c ∧ c ≤ '9' then some (c.toNat - '0'.toNat)
  else if 'a' ≤ c ∧ c ≤ 'f' then some (c.toNat - 'a'.toNat + 10)
  else if 'A' ≤ c ∧ c ≤ 'F' then some (c.toNat - 'A'.toNat + 10)
  else none

/-- The octets that a text of digit pairs stands for, if it is one. -/
def octetsOf? : List Char → Option Octets
  | [] => some []
  | [_] => none
  | high :: low :: rest => do
    let h ← value? high
    let l ← value? low
    let octets ← octetsOf? rest
    return UInt8.ofNat (h * 16 + l) :: octets

end Hex
end DnsResolver
