import DnsResolver.Octets

/-!
# ASCII text in octets

Names are ASCII text held as octets.  Two texts are the same name when they differ only in the
case of ASCII letters, so this module fixes the lower case of an octet, the comparison that
ignores case, and the text that a sequence of ASCII octets stands for.
-/

namespace DnsResolver
namespace Octets

/-- The octet of a full stop, which separates the labels of a name. -/
def dot : UInt8 := 46

/-- The octet of a hyphen. -/
def hyphen : UInt8 := 45

/-- The lower case form of an ASCII capital letter; every other octet stands for itself. -/
def lower (c : UInt8) : UInt8 :=
  if 65 ≤ c ∧ c ≤ 90 then c + 32 else c

/-- Whether two texts agree octet by octet up to the case of ASCII letters. -/
def sameText : Octets → Octets → Bool
  | [], [] => true
  | a :: as, b :: bs => lower a == lower b && sameText as bs
  | _, _ => false

/-- A letter or a digit of ASCII, or an underscore. -/
def isWordOctet (c : UInt8) : Bool :=
  (65 ≤ c && c ≤ 90) || (97 ≤ c && c ≤ 122) || (48 ≤ c && c ≤ 57) || c == 95

/-- An octet that may stand in a label on the wire. -/
def isLabelOctet (c : UInt8) : Bool :=
  isWordOctet c || c == hyphen

/-- The text with one character for every octet. -/
def text (octets : Octets) : String :=
  String.ofList (octets.map fun c => Char.ofNat c.toNat)

/-- The octets of a text in UTF-8. -/
def ofText (s : String) : Octets :=
  s.toByteArray.data.toList

/-- The text that octets stand for in UTF-8; octets that are no such text have none. -/
def utf8Text? (octets : Octets) : Option String :=
  String.fromUTF8? ⟨octets.toArray⟩

/-- A text without its final full stop, if it ends in one. -/
def withoutFinalDot (octets : Octets) : Octets :=
  if octets.getLast? = some dot then octets.dropLast else octets

/-- A fact about all octets may be checked on the 256 values. -/
theorem forall_octet {p : UInt8 → Prop} (h : ∀ i : Fin 256, p (UInt8.ofFin i)) :
    ∀ c, p c :=
  fun c => h c.toFin

theorem lower_lower : ∀ c : UInt8, lower (lower c) = lower c :=
  forall_octet (by decide +kernel)

/-- Lower case and the characters of a label go together. -/
theorem isWordOctet_lower : ∀ c : UInt8, isWordOctet (lower c) = isWordOctet c :=
  forall_octet (by decide +kernel)

theorem lower_eq_dot : ∀ c : UInt8, lower c = dot ↔ c = dot :=
  forall_octet (by decide +kernel)

theorem lower_beq_hyphen : ∀ c : UInt8, (lower c == hyphen) = (c == hyphen) :=
  forall_octet (by decide +kernel)

/-- Comparison that ignores case is equality of the lower case forms. -/
theorem sameText_iff (a b : Octets) : sameText a b = true ↔ a.map lower = b.map lower := by
  induction a generalizing b with
  | nil => cases b <;> simp [sameText]
  | cons x xs ih => cases b <;> simp [sameText, ih]

end Octets
end DnsResolver
