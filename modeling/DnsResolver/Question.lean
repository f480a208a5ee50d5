import DnsResolver.Reader.Name
import DnsResolver.Record.Code

/-!
# Questions

A question asks for the records of one type and class that a name owns.
-/

namespace DnsResolver

/-- An entry of the question section. -/
structure Question where
  name : Name
  type : RecordType
  recordClass : RecordClass
  deriving DecidableEq

namespace Question

/-- Whether two questions ask the same, the case of letters aside. -/
def same (a b : Question) : Bool :=
  a.name.same b.name && a.type == b.type && a.recordClass == b.recordClass

/-- The wire form of a question. -/
def wire (question : Question) : Octets :=
  question.name.wire ++ Octets.ofWord16 question.type.code ++
    Octets.ofWord16 question.recordClass.code

/-- The number of octets that the question takes on the wire. -/
def wireLength (question : Question) : Nat :=
  question.name.wireLength + 4

/-- The name, the class and the type, with blanks between them. -/
def display (question : Question) : String :=
  s!"{question.name} {question.recordClass} {question.type}"

instance : ToString Question := ⟨display⟩

end Question

namespace Decoder

/-- The next question. -/
def question : Decoder Question := do
  let name ← name
  let type ← word16
  let recordClass ← word16
  return { name, type := ⟨type⟩, recordClass := ⟨recordClass⟩ }

end Decoder
end DnsResolver
