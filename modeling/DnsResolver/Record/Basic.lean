import DnsResolver.Reader.Name
import DnsResolver.Record.Code
import DnsResolver.Address.IPv4

/-!
# Resource records

A record ties some data to a name, with a class and a time to live.  The data of the types that
the resolver acts on is taken apart; the data of every other type is kept as it was received.
-/

namespace DnsResolver

/-- The data of a record. -/
inductive RecordData where
  /-- A host address. -/
  | a (address : IPv4)
  /-- An authoritative name server of a zone. -/
  | ns (host : Name)
  /-- The name that the owner is an alias of. -/
  | cname (target : Name)
  /-- A pointer to another name. -/
  | ptr (target : Name)
  /-- A mail exchange. -/
  | mx (preference : UInt16) (exchange : Name)
  /-- Data that is not taken apart, of any type. -/
  | raw (type : RecordType) (data : Octets)
  deriving DecidableEq

/-- The most octets that the data of a record may have. -/
def maxDataLength : Nat := 65535

/-- The reason why a record cannot be made. -/
inductive RecordError where
  /-- The data has more octets than its length field can hold. -/
  | dataTooLong (length : Nat)
  deriving DecidableEq, Repr

namespace RecordError

/-- What is reported about a record that cannot be made. -/
def message : RecordError → String
  | dataTooLong length =>
    s!"The record data is {length} bytes long but at most {maxDataLength} bytes fit in a record"

end RecordError

namespace RecordData

/-- The type of the record that holds the data. -/
def type : RecordData → RecordType
  | a _ => .a
  | ns _ => .ns
  | cname _ => .cname
  | ptr _ => .ptr
  | mx .. => .mx
  | raw type _ => type

/-- Whether two data agree, the case of letters in names aside. -/
def same : RecordData → RecordData → Bool
  | a x, a y => x == y
  | ns x, ns y => x.same y
  | cname x, cname y => x.same y
  | ptr x, ptr y => x.same y
  | mx p x, mx q y => p == q && x.same y
  | raw s x, raw t y => s == t && x == y
  | _, _ => false

/-- The wire form of the data. -/
def wire : RecordData → Octets
  | a address => address.octets
  | ns name => name.wire
  | cname name => name.wire
  | ptr name => name.wire
  | mx preference exchange => Octets.ofWord16 preference ++ exchange.wire
  | raw _ data => data

/-- The number of octets that the data takes on the wire. -/
def wireLength : RecordData → Nat
  | a _ => 4
  | ns name => name.wireLength
  | cname name => name.wireLength
  | ptr name => name.wireLength
  | mx _ exchange => 2 + exchange.wireLength
  | raw _ data => data.length

/-- The text of the data behind its type; raw data is given by its length and its octets. -/
def display : RecordData → String
  | a address => s!"A {address}"
  | ns host => s!"NS {host}"
  | cname target => s!"CNAME {target}"
  | ptr target => s!"PTR {target}"
  | mx preference exchange => s!"MX {preference.toNat} {exchange}"
  | raw type data =>
    let octets := String.join (data.map fun c => " " ++ Hex.upper c)
    s!"TYPE{type.code.toNat} \\# {data.length}" ++
      (if data.isEmpty then "" else " (" ++ octets ++ " )")

end RecordData

/-- A resource record. -/
structure Record where
  name : Name
  recordClass : RecordClass
  ttl : UInt32
  data : RecordData
  deriving DecidableEq

namespace Record

/-- A record of the Internet class. -/
def ofData (name : Name) (ttl : UInt32) (data : RecordData) : Record where
  name := name
  recordClass := .internet
  ttl := ttl
  data := data

/-- A record with raw data, which must fit its length field. -/
def ofRaw (name : Name) (ttl : UInt32) (type : RecordType) (data : Octets) :
    Except RecordError Record :=
  if maxDataLength < data.length then .error (.dataTooLong data.length)
  else .ok (ofData name ttl (.raw type data))

/-- The type of the record is that of its data. -/
def type (record : Record) : RecordType :=
  record.data.type

/-- Whether two records agree, the case of letters in names aside. -/
def same (a b : Record) : Bool :=
  a.name.same b.name && a.recordClass == b.recordClass && a.ttl == b.ttl && a.data.same b.data

/-- The wire form of a record. -/
def wire (record : Record) : Octets :=
  record.name.wire ++ Octets.ofWord16 record.type.code ++
    Octets.ofWord16 record.recordClass.code ++ Octets.ofWord32 record.ttl ++
    Octets.ofWord16 (UInt16.ofNat record.data.wireLength) ++ record.data.wire

/-- The number of octets that the record takes on the wire. -/
def wireLength (record : Record) : Nat :=
  record.name.wireLength + 10 + record.data.wireLength

/-- The name, the time to live, the class and the data, with blanks between them. -/
def display (record : Record) : String :=
  s!"{record.name} {record.ttl.toNat} {record.recordClass} {record.data.display}"

instance : ToString Record := ⟨display⟩

end Record

namespace Decoder

/-- The data of a record of the given type, for which the window holds the data alone. -/
def recordData (type : RecordType) : Decoder RecordData := do
  if type = .a then
    return .a (IPv4.ofWord32 (← word32))
  else if type = .ns then
    return .ns (← name)
  else if type = .cname then
    return .cname (← name)
  else if type = .ptr then
    return .ptr (← name)
  else if type = .mx then
    let preference ← word16
    return .mx preference (← name)
  else
    return .raw type (← rest)

/-- The next record.  The cursor ends up behind the announced length of the data, however much of
it was used. -/
def record : Decoder Record := do
  let name ← name
  let type ← word16
  let recordClass ← word16
  let ttl ← word32
  let length ← word16
  let data ← within length.toNat (recordData ⟨type⟩)
  return { name, recordClass := ⟨recordClass⟩, ttl, data }

end Decoder
end DnsResolver
