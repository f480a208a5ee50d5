/-!
# Octets

Everything the library writes to the wire is a list of octets.  Integers are written most
significant octet first, and `Octets.value` is the number that such octets spell.
-/

namespace DnsResolver

/-- A sequence of octets in the order in which it is sent. -/
abbrev Octets := List UInt8

namespace Octets

/-- The number that the octets spell in base 256, the most significant one first. -/
def value (octets : Octets) : Nat :=
  octets.foldl (fun n c => n * 256 + c.toNat) 0

/-- The two octets of a 16-bit word. -/
def ofWord16 (w : UInt16) : Octets :=
  [UInt8.ofNat (w.toNat / 256), UInt8.ofNat (w.toNat % 256)]

/-- The four octets of a 32-bit word. -/
def ofWord32 (w : UInt32) : Octets :=
  [UInt8.ofNat (w.toNat / 16777216), UInt8.ofNat (w.toNat / 65536 % 256),
    UInt8.ofNat (w.toNat / 256 % 256), UInt8.ofNat (w.toNat % 256)]

theorem length_ofWord16 (w : UInt16) : (ofWord16 w).length = 2 := rfl

theorem length_ofWord32 (w : UInt32) : (ofWord32 w).length = 4 := rfl

/-- The octets of a 16-bit word spell its value. -/
theorem value_ofWord16 (w : UInt16) : value (ofWord16 w) = w.toNat := by
  have hw : w.toNat < 65536 := w.toNat_lt
  simp only [value, ofWord16, List.foldl_cons, List.foldl_nil, UInt8.toNat_ofNat']
  omega

/-- The octets of a 32-bit word spell its value. -/
theorem value_ofWord32 (w : UInt32) : value (ofWord32 w) = w.toNat := by
  have hw : w.toNat < 4294967296 := w.toNat_lt
  simp only [value, ofWord32, List.foldl_cons, List.foldl_nil, UInt8.toNat_ofNat']
  omega

/-- Two octets are the octets of the word they spell. -/
theorem ofWord16_value (a b : UInt8) : ofWord16 (UInt16.ofNat (value [a, b])) = [a, b] := by
  have ha : a.toNat < 256 := a.toNat_lt
  have hb : b.toNat < 256 := b.toNat_lt
  simp only [ofWord16, value, List.foldl_cons, List.foldl_nil, UInt16.toNat_ofNat',
    List.cons.injEq, and_true]
  constructor <;> apply UInt8.toNat_inj.mp <;> simp only [UInt8.toNat_ofNat'] <;> omega

/-- Four octets are the octets of the word they spell. -/
theorem ofWord32_value (a b c d : UInt8) :
    ofWord32 (UInt32.ofNat (value [a, b, c, d])) = [a, b, c, d] := by
  have ha : a.toNat < 256 := a.toNat_lt
  have hb : b.toNat < 256 := b.toNat_lt
  have hc : c.toNat < 256 := c.toNat_lt
  have hd : d.toNat < 256 := d.toNat_lt
  simp only [ofWord32, value, List.foldl_cons, List.foldl_nil, UInt32.toNat_ofNat',
    List.cons.injEq, and_true]
  refine ⟨?_, ?_, ?_, ?_⟩ <;> apply UInt8.toNat_inj.mp <;>
    simp only [UInt8.toNat_ofNat'] <;> omega

end Octets
end DnsResolver
