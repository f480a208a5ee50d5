import DnsResolver.Octets

/-!
# Types and classes of records

A record type or class is a 16-bit code.  Some codes have a mnemonic; the others are written with
their number.  Since a type is nothing but its code, there is only one way to hold it.
-/

namespace DnsResolver

/-- The type of a resource record, or of the records that a question asks for. -/
structure RecordType where
  code : UInt16
  deriving DecidableEq, Repr

namespace RecordType

/-- A host address. -/
def a : RecordType := ⟨1⟩

/-- An authoritative name server. -/
def ns : RecordType := ⟨2⟩

/-- The canonical name for an alias. -/
def cname : RecordType := ⟨5⟩

/-- A pointer to a domain name. -/
def ptr : RecordType := ⟨12⟩

/-- A mail exchange. -/
def mx : RecordType := ⟨15⟩

/-- The types with a name of their own. -/
def mnemonics : List (UInt16 × String) :=
  [(1, "A"), (2, "NS"), (5, "CNAME"), (6, "SOA"), (12, "PTR"), (13, "HINFO"), (14, "MINFO"),
    (15, "MX"), (16, "TXT"), (28, "AAAA"), (33, "SRV"), (41, "OPT"), (255, "ANY")]

/-- The name of the type, if it has one. -/
def mnemonic? (type : RecordType) : Option String :=
  mnemonics.lookup type.code

/-- The mnemonic, or the number behind `TYPE`. -/
def display (type : RecordType) : String :=
  type.mnemonic?.getD s!"TYPE{type.code.toNat}"

/-- The mnemonic, or the number marked as unknown. -/
def describe (type : RecordType) : String :=
  type.mnemonic?.getD s!"Unknown({type.code.toNat})"

instance : ToString RecordType := ⟨display⟩

end RecordType

/-- The class of a resource record or of a question. -/
structure RecordClass where
  code : UInt16
  deriving DecidableEq, Repr

namespace RecordClass

/-- The Internet. -/
def internet : RecordClass := ⟨1⟩

/-- The classes with a name of their own. -/
def mnemonics : List (UInt16 × String) :=
  [(1, "IN"), (3, "CH"), (4, "HS"), (255, "ANY")]

/-- The name of the class, if it has one. -/
def mnemonic? (recordClass : RecordClass) : Option String :=
  mnemonics.lookup recordClass.code

/-- The mnemonic, or the number behind `CLASS`. -/
def display (recordClass : RecordClass) : String :=
  recordClass.mnemonic?.getD s!"CLASS{recordClass.code.toNat}"

/-- The mnemonic, or the number marked as unknown. -/
def describe (recordClass : RecordClass) : String :=
  recordClass.mnemonic?.getD s!"Unknown({recordClass.code.toNat})"

instance : ToString RecordClass := ⟨display⟩

end RecordClass
end DnsResolver
