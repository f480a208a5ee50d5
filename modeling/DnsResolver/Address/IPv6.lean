import DnsResolver.Address.IPv4

/-!
# Addresses of version 6

An address is eight groups of sixteen bits.  Its text has the groups in hexadecimal, joined with
colons; the first of the longest runs of at least two zero groups is left out, and an address
that stands for one of version 4 ends in the text of that one.
-/

namespace DnsResolver

/-- An Internet address of version 6. -/
structure IPv6 where
  groups : List UInt16
  length_groups : groups.length = 8
  deriving DecidableEq, Repr

namespace IPv6

/-- The groups of the address of version 4 that this address stands for, if it does. -/
def mapped? (address : IPv6) : Option IPv4 :=
  match address.groups with
  | [0, 0, 0, 0, 0, 0xffff, high, low] =>
    some (IPv4.ofWord32 (UInt32.ofNat (high.toNat * 65536 + low.toNat)))
  | _ => none

/-- The number of zero groups in front. -/
def zeros (groups : List UInt16) : Nat :=
  (groups.takeWhile (· == 0)).length

/-- The place and length of the first of the longest runs of zero groups. -/
def longestZeros (groups : List UInt16) : Nat × Nat :=
  (List.range groups.length).foldl
    (fun best start =>
      let length := zeros (groups.drop start)
      if best.2 < length then (start, length) else best)
    (0, 0)

/-- Groups in hexadecimal, joined with colons. -/
def groupText (groups : List UInt16) : String :=
  ":".intercalate (groups.map fun g => String.ofList (Nat.toDigits 16 g.toNat))

/-- The shortest text of the address. -/
def display (address : IPv6) : String :=
  match address.mapped? with
  | some v4 => s!"::ffff:{v4}"
  | none =>
    let (start, length) := longestZeros address.groups
    if 1 < length then
      groupText (address.groups.take start) ++ "::" ++
        groupText (address.groups.drop (start + length))
    else
      groupText address.groups

instance : ToString IPv6 := ⟨display⟩

/-- Drops the colon in front of every group but the first. -/
def skipColon (first : Bool) : List Char → Option (List Char)
  | text => if first then some text else
    match text with
    | ':' :: rest => some rest
    | _ => none

/-- Reads up to `slots` groups, of which the last two may be written as an address of version 4.
The second result tells whether they were. -/
def scanGroups (slots : Nat) (first : Bool) (text : List Char) :
    List UInt16 × Bool × List Char :=
  match slots with
  | 0 => ([], false, text)
  | slots + 1 =>
    match skipColon first text with
    | none => ([], false, text)
    | some body =>
      match if slots = 0 then none else IPv4.scan body with
      | some (v4, rest) =>
        ([UInt16.ofNat (v4.a.toNat * 256 + v4.b.toNat),
          UInt16.ofNat (v4.c.toNat * 256 + v4.d.toNat)], true, rest)
      | none =>
        match Numeral.scan 16 4 65536 body with
        | some (n, rest) =>
          let (groups, ended, rest) := scanGroups slots false rest
          (UInt16.ofNat n :: groups, ended, rest)
        | none => ([], false, text)

/-- The address with the given groups, if there are eight. -/
def ofGroups? (groups : List UInt16) : Option IPv6 :=
  if h : groups.length = 8 then some ⟨groups, h⟩ else none

/-- Reads an address in front of a text.  Two colons stand for at least one zero group, and no
address of version 4 stands before them. -/
def scan (text : List Char) : Option (IPv6 × List Char) := do
  let (head, ended, text) := scanGroups 8 true text
  if head.length = 8 then
    return (← ofGroups? head, text)
  if ended then none
  match text with
  | ':' :: ':' :: text =>
    let (tail, _, text) := scanGroups (7 - head.length) true text
    let gap := List.replicate (8 - head.length - tail.length) 0
    return (← ofGroups? (head ++ gap ++ tail), text)
  | _ => none

/-- The address that the whole text spells. -/
def ofString? (s : String) : Option IPv6 :=
  match scan s.toList with
  | some (address, []) => some address
  | _ => none

end IPv6
end DnsResolver
