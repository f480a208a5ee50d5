/-!
# Numerals in text

Addresses and command line values contain numbers.  `Numeral.scan` reads the longest run of digits
in front of a text and returns its value with what follows.
-/

namespace DnsResolver
namespace Numeral

/-- The value of a digit of either case, as far as it is one in the given base. -/
def digit? (base : Nat) (c : Char) : Option Nat :=
  let value :=
    if '0' ≤ c ∧ c ≤ '9' then c.toNat - '0'.toNat
    else if 'a' ≤ c ∧ c ≤ 'z' then c.toNat - 'a'.toNat + 10
    else if 'A' ≤ c ∧ c ≤ 'Z' then c.toNat - 'A'.toNat + 10
    else base
  if value < base then some value else none

/-- The digits in front of a text, and what follows them. -/
def run (base : Nat) : List Char → List Nat × List Char
  | [] => ([], [])
  | c :: rest =>
    match digit? base c with
    | some d => ((d :: (run base rest).1), (run base rest).2)
    | none => ([], c :: rest)

/-- The number that digits spell, the most significant one first. -/
def value (base : Nat) (digits : List Nat) : Nat :=
  digits.foldl (fun n d => n * base + d) 0

/-- Reads a number below `bound` that is written with at most `most` digits. -/
def scan (base most bound : Nat) (text : List Char) : Option (Nat × List Char) :=
  let (digits, rest) := run base text
  if digits.isEmpty || most < digits.length || bound ≤ value base digits then none
  else some (value base digits, rest)

/-- Reads a decimal number below `bound` of any length, leading zeros included. -/
def scanDecimal (bound : Nat) (text : List Char) : Option (Nat × List Char) :=
  scan 10 text.length bound text

/-- The number below `bound` that the whole text spells in decimal. -/
def ofDecimal? (bound : Nat) (text : List Char) : Option Nat :=
  match scanDecimal bound text with
  | some (n, []) => some n
  | _ => none

end Numeral
end DnsResolver
