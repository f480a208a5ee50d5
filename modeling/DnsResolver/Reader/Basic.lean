import DnsResolver.Name.Basic

/-!
# Readers

A `Reader` is a cursor over a received message.  Sequential reads stop at the end of its window,
while the whole message stays in reach, because a compressed name may point anywhere into it.  A
`Decoder` is a step on a reader; when it fails, the reader it fails with shows how far it came.
Each primitive step that fails leaves the reader as it was.
-/

namespace DnsResolver

/-- The reasons why octets cannot be decoded. -/
inductive DecodeError where
  /-- A read needs more octets than are left in the window. -/
  | truncated (position needed available : Nat)
  /-- The cursor was to be set behind the end of the message. -/
  | seekOutOfBounds (position length : Nat)
  /-- A compression pointer points behind the end of the message. -/
  | pointerOutOfBounds (offset length : Nat)
  /-- A name follows too many compression pointers. -/
  | compressionLoop
  /-- The two highest bits of a length octet are neither both clear nor both set. -/
  | reservedLabelType (octet : UInt8)
  /-- A label on the wire holds an octet that no label may hold. -/
  | illegalLabelOctet (octet : UInt8)
  /-- The labels were read, but they do not make a name. -/
  | name (error : NameError)
  deriving DecidableEq, Repr

/-- The most compression pointers that are followed for one name. -/
def maxPointers : Nat := 5

namespace DecodeError

/-- What is reported about a failed read. -/
def message : DecodeError → String
  | truncated position needed available =>
    s!"Packet truncated: {needed} bytes needed at offset {position} but only {available} remain"
  | seekOutOfBounds position length =>
    s!"Cannot seek to offset {position} in a buffer of {length} bytes"
  | pointerOutOfBounds offset length =>
    s!"Compression pointer to offset {offset} is outside of the {length} byte buffer"
  | compressionLoop =>
    s!"Too many compression pointers in domain name (more than {maxPointers})"
  | reservedLabelType octet =>
    s!"The label length byte {Hex.octet octet} uses a reserved label type"
  | illegalLabelOctet octet =>
    s!"The byte {Hex.octet octet} is not allowed in a label"
  | name error => error.message

end DecodeError

/-- A cursor over `buffer`; sequential reads end at `limit`. -/
structure Reader where
  buffer : Array UInt8
  position : Nat
  limit : Nat
  deriving DecidableEq, Repr

namespace Reader

/-- A reader at the start of a message, with all of the message as its window. -/
def ofOctets (octets : Octets) : Reader where
  buffer := octets.toArray
  position := 0
  limit := octets.length

/-- The number of octets between the cursor and the end of the window. -/
def remaining (reader : Reader) : Nat :=
  reader.limit - reader.position

/-- The `count` octets of the message from `start` on. -/
def slice (reader : Reader) (start count : Nat) : Octets :=
  (reader.buffer.extract start (start + count)).toList

/-- The octet of the message at `index`. -/
def octetAt (reader : Reader) (index : Nat) : UInt8 :=
  reader.buffer.getD index 0

/-- The same reader with its cursor at `position`. -/
def moveTo (reader : Reader) (position : Nat) : Reader :=
  { reader with position }

end Reader

/-- A step that reads from a reader and moves it on, or fails. -/
abbrev Decoder := EStateM DecodeError Reader

namespace Decoder

/-- The next `count` octets of the window. -/
def octets (count : Nat) : Decoder Octets := fun reader =>
  if count ≤ reader.remaining then
    .ok (reader.slice reader.position count) (reader.moveTo (reader.position + count))
  else
    .error (.truncated reader.position count reader.remaining) reader

/-- The next octet. -/
def octet : Decoder UInt8 :=
  return UInt8.ofNat (← octets 1).value

/-- The next two octets as a word. -/
def word16 : Decoder UInt16 :=
  return UInt16.ofNat (← octets 2).value

/-- The next four octets as a word. -/
def word32 : Decoder UInt32 :=
  return UInt32.ofNat (← octets 4).value

/-- All octets that are left in the window. -/
def rest : Decoder Octets := fun reader => octets reader.remaining reader

/-- Sets the cursor to any place in the message, its end included. -/
def seek (position : Nat) : Decoder Unit := fun reader =>
  if position ≤ reader.buffer.size then .ok () (reader.moveTo position)
  else .error (.seekOutOfBounds position reader.buffer.size) reader

/-- A reader whose window is the next `count` octets; the reader it comes from stays in place. -/
def narrow (count : Nat) : Decoder Reader := fun reader =>
  if count ≤ reader.remaining then
    .ok { reader with limit := reader.position + count } reader
  else
    .error (.truncated reader.position count reader.remaining) reader

/-- Runs a step on the next `count` octets alone and then continues behind them.  If the step
fails, the cursor stays in front of them. -/
def within (count : Nat) (step : Decoder α) : Decoder α := do
  let window ← narrow count
  match step window with
  | .ok a _ =>
    seek (window.position + count)
    return a
  | .error e _ => throw e

/-- Repeats a step a given number of times and collects the results in order. -/
def replicate (count : Nat) (step : Decoder α) : Decoder (List α) :=
  match count with
  | 0 => return []
  | count + 1 => do
    let a ← step
    let as ← replicate count step
    return a :: as

end Decoder
end DnsResolver
