import DnsResolver.Header.Basic
import DnsResolver.Question
import DnsResolver.Record.Basic

/-!
# Packets

A packet is a whole message: a header, and four sections with as many entries as the header
counts.  Packets are made from an empty one by changes that keep the counts in step, or read from
a message; octets behind the last entry are ignored then.
-/

namespace DnsResolver

/-- A whole message. -/
structure Packet where
  header : Header
  questions : List Question := []
  answers : List Record := []
  authority : List Record := []
  additional : List Record := []
  deriving DecidableEq

namespace Packet

/-- The records of the last three sections. -/
def records (packet : Packet) : List Record :=
  packet.answers ++ packet.authority ++ packet.additional

/-- Whether two sections agree entry by entry. -/
def sameAll {α : Type} (same : α → α → Bool) : List α → List α → Bool
  | [], [] => true
  | x :: xs, y :: ys => same x y && sameAll same xs ys
  | _, _ => false

/-- Whether two packets agree, the case of letters in names aside. -/
def same (a b : Packet) : Bool :=
  a.header == b.header && sameAll Question.same a.questions b.questions &&
    sameAll Record.same a.answers b.answers && sameAll Record.same a.authority b.authority &&
    sameAll Record.same a.additional b.additional

/-- The wire form of a packet. -/
def wire (packet : Packet) : Octets :=
  packet.header.wire ++ packet.questions.flatMap Question.wire ++
    packet.records.flatMap Record.wire

/-- The number of octets that the packet takes on the wire. -/
def wireLength (packet : Packet) : Nat :=
  let questions := packet.questions.foldr (·.wireLength + ·) 0
  let records := packet.records.foldr (·.wireLength + ·) 0
  Header.wireLength + questions + records

/-- The text of a packet: its header, its questions, and each other section that has records. -/
def display (packet : Packet) : String :=
  let lines {α : Type} [ToString α] (entries : List α) : String :=
    String.join (entries.map fun entry => s!"{entry}\n")
  let titled (title : String) (records : List Record) : String :=
    if records.isEmpty then "" else s!";; {title} SECTION:\n" ++ lines records
  s!"{packet.header}\n" ++ ";; QUESTION SECTION:\n" ++ lines packet.questions ++
    titled "ANSWER" packet.answers ++ titled "AUTHORITY" packet.authority ++
    titled "ADDITIONAL" packet.additional

instance : ToString Packet := ⟨display⟩

/-- A packet without entries and with all fields of the control word zero. -/
def empty (id : UInt16) : Packet where
  header := { id }

/-- An empty packet that asks for recursion. -/
def query (id : UInt16) : Packet where
  header := Header.setFlags { id } { recursionDesired := true }

/-- An empty reply to a packet, with its identifier, opcode and wish for recursion. -/
def respond (packet : Packet) (code : ResponseCode) : Packet where
  header :=
    let reply : Header := { id := packet.header.id }
    reply.setResponse true
      |>.setOpcode packet.header.opcode
      |>.setRecursionDesired packet.header.flags.recursionDesired
      |>.setResponseCode code

/-- Adds a question at the end of its section. -/
def addQuestion (packet : Packet) (question : Question) : Packet :=
  { packet with
    questions := packet.questions ++ [question]
    header.questionCount := packet.header.questionCount + 1 }

/-- Adds a record at the end of the answer section. -/
def addAnswer (packet : Packet) (record : Record) : Packet :=
  { packet with
    answers := packet.answers ++ [record]
    header.answerCount := packet.header.answerCount + 1 }

/-- Adds records in order at the end of the answer section. -/
def addAnswers (packet : Packet) (records : List Record) : Packet :=
  { packet with
    answers := packet.answers ++ records
    header.answerCount := packet.header.answerCount + UInt16.ofNat records.length }

/-- Adds a record at the end of the authority section. -/
def addAuthority (packet : Packet) (record : Record) : Packet :=
  { packet with
    authority := packet.authority ++ [record]
    header.authorityCount := packet.header.authorityCount + 1 }

/-- Adds a record at the end of the additional section. -/
def addAdditional (packet : Packet) (record : Record) : Packet :=
  { packet with
    additional := packet.additional ++ [record]
    header.additionalCount := packet.header.additionalCount + 1 }

/-- A step in making a packet. -/
inductive Step where
  | word (word : UInt16)
  | flags (flags : Flags)
  | opcode (opcode : Opcode)
  | responseCode (code : ResponseCode)
  | recursionAvailable (value : Bool)
  | question (question : Question)
  | answer (record : Record)
  | answers (records : List Record)
  | authority (record : Record)
  | additional (record : Record)
  deriving DecidableEq

/-- The packet after a step. -/
def step (packet : Packet) : Step → Packet
  | .word word => { packet with header := packet.header.setWord word }
  | .flags flags => { packet with header := packet.header.setFlags flags }
  | .opcode opcode => { packet with header := packet.header.setOpcode opcode }
  | .responseCode code => { packet with header := packet.header.setResponseCode code }
  | .recursionAvailable value =>
    { packet with header := packet.header.setRecursionAvailable value }
  | .question question => packet.addQuestion question
  | .answer record => packet.addAnswer record
  | .answers records => packet.addAnswers records
  | .authority record => packet.addAuthority record
  | .additional record => packet.addAdditional record

end Packet

namespace Decoder

/-- The next packet: a header and as many entries as it counts. -/
def packet : Decoder Packet := do
  let header ← header
  let questions ← replicate header.questionCount.toNat question
  let answers ← replicate header.answerCount.toNat record
  let authority ← replicate header.authorityCount.toNat record
  let additional ← replicate header.additionalCount.toNat record
  return { header, questions, answers, authority, additional }

end Decoder

namespace Packet

/-- Reads a message. -/
def ofOctets (octets : Octets) : Except DecodeError Packet :=
  match Decoder.packet (Reader.ofOctets octets) with
  | .ok packet _ => .ok packet
  | .error error _ => .error error

end Packet
end DnsResolver
