import DnsResolver.Octets.Ascii
import DnsResolver.Octets.Hex

/-!
# Labels

The text of a name is its labels joined with full stops.  `Labels.split` and `Labels.join` go
between the two, `Labels.fault?` finds the first fault of a single label, and `Labels.textFault?`
the first fault of a whole text.  Lower case never brings a fault in.
-/

namespace DnsResolver

/-- The most octets that a label may have. -/
def maxLabelLength : Nat := 63

/-- The most octets that the text of a name may have. -/
def maxNameLength : Nat := 253

/-- The reasons why a text is not the name of a domain. -/
inductive NameError where
  /-- A label has more than 63 octets. -/
  | labelTooLong (label : Octets)
  /-- The text has more than 253 octets. -/
  | nameTooLong (length : Nat)
  /-- Two full stops follow each other, or one stands at an end. -/
  | emptyLabel
  /-- An octet is no letter, digit or underscore, and no hyphen inside a label. -/
  | illegalOctet (octet : UInt8)
  deriving DecidableEq, Repr

namespace NameError

/-- What is reported about a rejected name. -/
def message : NameError → String
  | labelTooLong label =>
    let text := (Octets.utf8Text? label).getD (Octets.text label)
    s!"The label '{text}' is too long. A label can be at most {maxLabelLength} bytes."
  | nameTooLong length =>
    s!"The domain name is {length} bytes long, expected at most {maxNameLength}."
  | emptyLabel => "The domain name contains an empty label"
  | illegalOctet octet =>
    s!"The character code of {Hex.octet octet} is not allowed in a label. " ++
      "Expected A-Z, a-z, 0-9, -, and _."

end NameError

namespace Labels

open Octets (dot hyphen lower isWordOctet)

/-- The pieces of a text between its full stops, empty pieces included. -/
def split : Octets → List Octets
  | [] => [[]]
  | c :: rest =>
    if c = dot then [] :: split rest
    else
      match split rest with
      | [] => [[c]]
      | label :: labels => (c :: label) :: labels

/-- The labels in order with a full stop between each two of them. -/
def join : List Octets → Octets
  | [] => []
  | [label] => label
  | label :: labels => label ++ dot :: join labels

/-- The first octet that may not stand where it does; a hyphen may stand neither first nor last. -/
def illegalOctet? (first : Bool) : Octets → Option UInt8
  | [] => none
  | c :: rest =>
    if isWordOctet c || (c == hyphen && !first && !rest.isEmpty) then illegalOctet? false rest
    else some c

/-- The first fault of a label: it is empty, too long, or holds an illegal octet. -/
def fault? (label : Octets) : Option NameError :=
  if label = [] then some .emptyLabel
  else if maxLabelLength < label.length then some (.labelTooLong label)
  else (illegalOctet? true label).map .illegalOctet

/-- The first fault of the text of a name; the empty text is the name of the root. -/
def textFault? (text : Octets) : Option NameError :=
  if maxNameLength < text.length then some (.nameTooLong text.length)
  else if text = [] then none
  else (split text).findSome? fault?

/-- Lower case does not move the full stops. -/
theorem split_map_lower (text : Octets) :
    split (text.map lower) = (split text).map (List.map lower) := by
  induction text with
  | nil => rfl
  | cons c rest ih =>
    by_cases hc : c = dot
    · simp [split, hc, show lower dot = dot from rfl, ih]
    · have hl : lower c ≠ dot := fun h => hc ((Octets.lower_eq_dot c).mp h)
      simp only [List.map_cons, split, hc, hl, if_false, ih]
      cases split rest <;> simp

/-- Lower case makes no octet illegal and none legal. -/
theorem illegalOctet?_map_lower (first : Bool) (label : Octets) :
    illegalOctet? first (label.map lower) = (illegalOctet? first label).map lower := by
  induction label generalizing first with
  | nil => rfl
  | cons c rest ih =>
    simp only [List.map_cons, illegalOctet?, Octets.isWordOctet_lower,
      Octets.lower_beq_hyphen, List.isEmpty_map]
    split
    · exact ih false
    · rfl

/-- The lower case form of a faultless label is faultless. -/
theorem fault?_map_lower {label : Octets} (h : fault? label = none) :
    fault? (label.map lower) = none := by
  simp only [fault?, List.map_eq_nil_iff, List.length_map, illegalOctet?_map_lower] at h ⊢
  split at h
  · simp at h
  · split at h
    · simp at h
    · simp_all

/-- The lower case form of a faultless text is faultless. -/
theorem textFault?_map_lower {text : Octets} (h : textFault? text = none) :
    textFault? (text.map lower) = none := by
  simp only [textFault?, List.length_map, List.map_eq_nil_iff, split_map_lower] at h ⊢
  split at h
  · simp at h
  · rename_i hlen
    rw [if_neg hlen]
    split at h
    · rename_i hnil
      rw [if_pos hnil]
    · rename_i hnil
      rw [if_neg hnil]
      simp only [List.findSome?_eq_none_iff, List.mem_map] at h ⊢
      rintro _ ⟨label, hmem, rfl⟩
      exact fault?_map_lower (h label hmem)

end Labels
end DnsResolver
