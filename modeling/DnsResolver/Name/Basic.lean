import DnsResolver.Name.Labels

/-!
# Domain names

A `Name` is a faultless text: at most 253 octets, and labels of letters, digits, underscores and
inner hyphens.  The text keeps the spelling it was made from, and structural equality compares
spellings; `Name.same` is the equality of the domain name system, which ignores the case of
letters.
-/

namespace DnsResolver

/-- The name of a domain, without the final full stop; the name of the root is empty. -/
structure Name where
  text : Octets
  faultless : Labels.textFault? text = none
  deriving DecidableEq

namespace Name

open Octets (dot lower sameText)

/-- The name with the given text, of which one final full stop is dropped. -/
def ofOctets (octets : Octets) : Except NameError Name :=
  match h : Labels.textFault? (Octets.withoutFinalDot octets) with
  | none => .ok ⟨Octets.withoutFinalDot octets, h⟩
  | some fault => .error fault

/-- The name written in `s`. -/
def ofString (s : String) : Except NameError Name :=
  ofOctets (Octets.ofText s)

/-- The name of the root of the tree. -/
def root : Name := ⟨[], rfl⟩

instance : Inhabited Name := ⟨root⟩

/-- Whether the name is that of the root. -/
def isRoot (name : Name) : Bool :=
  name.text.isEmpty

/-- The text of the name as characters; the root has the empty text. -/
def toString (name : Name) : String :=
  Octets.text name.text

/-- The name as it is shown to a reader, who sees the root as a full stop. -/
def display (name : Name) : String :=
  if name.isRoot then "." else name.toString

/-- The name in quotes, or a placeholder for the root. -/
def quoted (name : Name) : String :=
  if name.isRoot then "<ROOT>" else "\"" ++ name.toString ++ "\""

instance : ToString Name := ⟨display⟩

/-- The labels of the name from the leaf up; the root has none. -/
def labels (name : Name) : List Octets :=
  if name.isRoot then [] else Labels.split name.text

/-- The same name in lower case. -/
def lowerCase (name : Name) : Name :=
  ⟨name.text.map lower, Labels.textFault?_map_lower name.faultless⟩

/-- Whether two names name the same domain: the case of letters does not matter. -/
def same (a b : Name) : Bool :=
  sameText a.text b.text

/-- Whether a text, with or without a final full stop, spells the name in some case. -/
def sameAsText (name : Name) (octets : Octets) : Bool :=
  sameText name.text (Octets.withoutFinalDot octets)

/-- Whether `name` is `parent` or lies below it in the tree: its text ends in the text of
`parent`, and a full stop stands before that ending. -/
def isSubdomainOf (name parent : Name) : Bool :=
  let lead := name.text.length - parent.text.length
  parent.isRoot || name.same parent ||
    (decide (parent.text.length < name.text.length) &&
      name.text[lead - 1]? == some dot &&
      sameText (name.text.drop lead) parent.text)

/-- The octets that stand for the name in a hash, the same for every spelling of it. -/
def hashOctets (name : Name) : Octets :=
  name.text.map lower ++ [0]

/-- The wire form of one label: its length and its octets. -/
def labelWire (label : Octets) : Octets :=
  UInt8.ofNat label.length :: label

/-- The wire form of the name, never compressed: its labels and a zero octet. -/
def wire (name : Name) : Octets :=
  name.labels.flatMap labelWire ++ [0]

/-- The number of octets that the name takes on the wire. -/
def wireLength (name : Name) : Nat :=
  name.labels.foldr (fun label length => label.length + 1 + length) 1

end Name
end DnsResolver
