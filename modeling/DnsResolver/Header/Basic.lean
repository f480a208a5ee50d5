import DnsResolver.Header.Control
import DnsResolver.Reader.Basic

/-!
# Headers

Every message starts with a header of twelve octets: an identifier, the control word, and the
number of entries in each of the four sections.
-/

namespace DnsResolver

/-- The header of a message. -/
structure Header where
  id : UInt16
  control : Control := .zero
  questionCount : UInt16 := 0
  answerCount : UInt16 := 0
  authorityCount : UInt16 := 0
  additionalCount : UInt16 := 0
  deriving DecidableEq, Repr

namespace MessageKind

/-- The value of the response bit. -/
def bit : MessageKind → Nat
  | query => 0
  | response => 1

/-- The name of the kind. -/
def describe : MessageKind → String
  | query => "Query"
  | response => "Response"

/-- The kind of a message by its third octet alone; shorter messages have none. -/
def of? (message : Octets) : Option MessageKind :=
  match message with
  | _ :: _ :: c :: _ => some (if 128 ≤ c then response else query)
  | _ => none

end MessageKind

namespace Header

/-- The number of octets of a header. -/
def wireLength : Nat := 12

/-- The control word. -/
def word (header : Header) : UInt16 :=
  header.control.word

/-- The flags that are set and cleared together. -/
def flags (header : Header) : Flags :=
  header.control.flags

/-- Whether the message asks or answers. -/
def kind (header : Header) : MessageKind :=
  if header.flags.response then .response else .query

/-- What the query is for. -/
def opcode (header : Header) : Opcode :=
  ⟨UInt8.ofNat header.control.opcode⟩

/-- How the request was answered. -/
def responseCode (header : Header) : ResponseCode :=
  ⟨UInt8.ofNat header.control.responseCode⟩

/-- Replaces all fields of the control word. -/
def setWord (header : Header) (word : UInt16) : Header :=
  { header with control := Control.ofWord word }

/-- Sets or clears each of the combined flags. -/
def setFlags (header : Header) (flags : Flags) : Header :=
  { header with control.flags := flags }

/-- Marks the message as an answer or as a question. -/
def setResponse (header : Header) (value : Bool) : Header :=
  { header with control.flags.response := value }

/-- Replaces the opcode, of which four bits are kept. -/
def setOpcode (header : Header) (opcode : Opcode) : Header :=
  { header with control.opcode := Control.lowFour opcode.code.toNat }

/-- Replaces the response code, of which four bits are kept. -/
def setResponseCode (header : Header) (code : ResponseCode) : Header :=
  { header with control.responseCode := Control.lowFour code.code.toNat }

/-- Sets or clears the flag of answers from a server of the zone. -/
def setAuthoritative (header : Header) (value : Bool) : Header :=
  { header with control.flags.authoritative := value }

/-- Sets or clears the flag of messages that were cut short. -/
def setTruncated (header : Header) (value : Bool) : Header :=
  { header with control.flags.truncated := value }

/-- Sets or clears the flag that asks for recursion. -/
def setRecursionDesired (header : Header) (value : Bool) : Header :=
  { header with control.flags.recursionDesired := value }

/-- Sets or clears the flag that offers recursion. -/
def setRecursionAvailable (header : Header) (value : Bool) : Header :=
  { header with control.flags.recursionAvailable := value }

/-- Sets or clears the flag of data that was found authentic. -/
def setAuthenticData (header : Header) (value : Bool) : Header :=
  { header with control.authenticData := value }

/-- Sets or clears the flag that declines checks of authenticity. -/
def setCheckingDisabled (header : Header) (value : Bool) : Header :=
  { header with control.checkingDisabled := value }

/-- The wire form of a header. -/
def wire (header : Header) : Octets :=
  Octets.ofWord16 header.id ++ Octets.ofWord16 header.word ++
    Octets.ofWord16 header.questionCount ++ Octets.ofWord16 header.answerCount ++
    Octets.ofWord16 header.authorityCount ++ Octets.ofWord16 header.additionalCount

/-- The text of a header: identifier, flags and counts, a line for each. -/
def display (header : Header) : String :=
  let mark (value : Bool) (text : String) : String := if value then text else ""
  s!"id: {Hex.word header.id}\n" ++
    s!"flags: {header.kind.describe} {header.opcode.describe}" ++
    mark header.flags.authoritative " aa" ++
    mark header.flags.truncated " tc" ++
    mark header.flags.recursionDesired " rd" ++
    mark header.flags.recursionAvailable " ra" ++
    mark header.control.authenticData " ad" ++
    mark header.control.checkingDisabled " cd" ++
    s!" {header.responseCode.describe}\n" ++
    s!"qdcount: {header.questionCount.toNat} ancount: {header.answerCount.toNat} " ++
    s!"nscount: {header.authorityCount.toNat} arcount: {header.additionalCount.toNat}"

instance : ToString Header := ⟨display⟩

/-- A change to one field, or to several fields at once, of a header. -/
inductive Edit where
  | word (word : UInt16)
  | flags (flags : Flags)
  | response (value : Bool)
  | opcode (opcode : Opcode)
  | responseCode (code : ResponseCode)
  | authoritative (value : Bool)
  | truncated (value : Bool)
  | recursionDesired (value : Bool)
  | recursionAvailable (value : Bool)
  | authenticData (value : Bool)
  | checkingDisabled (value : Bool)
  | id (id : UInt16)
  | questionCount (count : UInt16)
  | answerCount (count : UInt16)
  | authorityCount (count : UInt16)
  | additionalCount (count : UInt16)
  deriving DecidableEq, Repr

/-- The header after a change. -/
def edit (header : Header) : Edit → Header
  | .word word => header.setWord word
  | .flags flags => header.setFlags flags
  | .response value => header.setResponse value
  | .opcode opcode => header.setOpcode opcode
  | .responseCode code => header.setResponseCode code
  | .authoritative value => header.setAuthoritative value
  | .truncated value => header.setTruncated value
  | .recursionDesired value => header.setRecursionDesired value
  | .recursionAvailable value => header.setRecursionAvailable value
  | .authenticData value => header.setAuthenticData value
  | .checkingDisabled value => header.setCheckingDisabled value
  | .id id => { header with id }
  | .questionCount count => { header with questionCount := count }
  | .answerCount count => { header with answerCount := count }
  | .authorityCount count => { header with authorityCount := count }
  | .additionalCount count => { header with additionalCount := count }

end Header

namespace Decoder

/-- The next header. -/
def header : Decoder Header := do
  let id ← word16
  let word ← word16
  let questionCount ← word16
  let answerCount ← word16
  let authorityCount ← word16
  let additionalCount ← word16
  return { id, control := Control.ofWord word, questionCount, answerCount, authorityCount,
           additionalCount }

end Decoder
end DnsResolver
