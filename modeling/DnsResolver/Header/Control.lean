import DnsResolver.Octets

/-!
# The control word of a header

The second word of a header holds, from the highest bit down, the response bit, four bits of
opcode, the flags AA, TC, RD and RA, a reserved bit, the flags AD and CD, and four bits of response
code.  `Control` holds these fields apart from each other; `Control.word` and `Control.ofWord`
convert between the fields and the word, and undo each other.
-/

namespace DnsResolver

/-- Whether a message asks or answers. -/
inductive MessageKind where
  | query
  | response
  deriving DecidableEq, Repr

/-- What a query is for. -/
structure Opcode where
  code : UInt8
  deriving DecidableEq, Repr

namespace Opcode

/-- The opcodes with a name of their own. -/
def names : List (UInt8 × String) :=
  [(0, "Query"), (1, "InverseQuery"), (2, "Status"), (4, "Notify"), (5, "Update")]

/-- The name of the opcode, or its number marked as unknown. -/
def describe (opcode : Opcode) : String :=
  (names.lookup opcode.code).getD s!"Unknown({opcode.code.toNat})"

end Opcode

/-- How a request was answered. -/
structure ResponseCode where
  code : UInt8
  deriving DecidableEq, Repr

namespace ResponseCode

/-- No error condition. -/
def noError : ResponseCode := ⟨0⟩

/-- The request could not be interpreted. -/
def formatError : ResponseCode := ⟨1⟩

/-- The name asked for was not found. -/
def nameError : ResponseCode := ⟨3⟩

/-- The response codes with a name of their own. -/
def names : List (UInt8 × String) :=
  [(0, "NoError"), (1, "FormatError"), (2, "ServerFailure"), (3, "NameError"),
    (4, "NotImplemented"), (5, "Refused")]

/-- The name of the response code, or its number marked as unknown. -/
def describe (responseCode : ResponseCode) : String :=
  (names.lookup responseCode.code).getD s!"Unknown({responseCode.code.toNat})"

end ResponseCode

/-- The flags that are set and cleared together. -/
structure Flags where
  response : Bool := false
  authoritative : Bool := false
  truncated : Bool := false
  recursionDesired : Bool := false
  recursionAvailable : Bool := false
  deriving DecidableEq, Repr

namespace Flags

/-- No flag set. -/
def none : Flags := {}

/-- The flags that are set in either operand. -/
def union (a b : Flags) : Flags where
  response := a.response || b.response
  authoritative := a.authoritative || b.authoritative
  truncated := a.truncated || b.truncated
  recursionDesired := a.recursionDesired || b.recursionDesired
  recursionAvailable := a.recursionAvailable || b.recursionAvailable

/-- Whether all flags of `b` are set in `a`. -/
def contains (a b : Flags) : Bool :=
  a.union b = a

/-- The place of the flags in the control word, as a number. -/
def weight (flags : Flags) : Nat :=
  flags.response.toNat * 32768 + flags.authoritative.toNat * 1024 + flags.truncated.toNat * 512 +
    flags.recursionDesired.toNat * 256 + flags.recursionAvailable.toNat * 128

/-- The control word in which these flags alone are set. -/
def bits (flags : Flags) : UInt16 :=
  UInt16.ofNat flags.weight

end Flags

/-- The fields of the control word. -/
structure Control where
  flags : Flags := {}
  opcode : Fin 16 := 0
  reserved : Bool := false
  authenticData : Bool := false
  checkingDisabled : Bool := false
  responseCode : Fin 16 := 0
  deriving DecidableEq, Repr

namespace Control

/-- The word that holds the fields. -/
def word (control : Control) : UInt16 :=
  UInt16.ofNat (control.flags.weight + control.opcode.val * 2048 + control.reserved.toNat * 64 +
    control.authenticData.toNat * 32 + control.checkingDisabled.toNat * 16 +
    control.responseCode.val)

/-- The control word in which no bit is set. -/
def zero : Control := {}

/-- The lowest four bits of a number. -/
def lowFour (n : Nat) : Fin 16 :=
  Fin.ofNat 16 n

@[simp]
theorem val_lowFour (n : Nat) : (lowFour n).val = n % 16 :=
  rfl

/-- Whether the bit of the given weight is set in `n`. -/
def bit (n weight : Nat) : Bool :=
  n / weight % 2 == 1

/-- The fields that a word holds. -/
def ofWord (word : UInt16) : Control where
  flags :=
    { response := bit word.toNat 32768
      authoritative := bit word.toNat 1024
      truncated := bit word.toNat 512
      recursionDesired := bit word.toNat 256
      recursionAvailable := bit word.toNat 128 }
  opcode := lowFour (word.toNat / 2048)
  reserved := bit word.toNat 64
  authenticData := bit word.toNat 32
  checkingDisabled := bit word.toNat 16
  responseCode := lowFour word.toNat

theorem toNat_bit (n weight : Nat) : (bit n weight).toNat = n / weight % 2 := by
  unfold bit
  rcases Nat.mod_two_eq_zero_or_one (n / weight) with h | h <;> simp [h]

/-- A bit and the quotient above it make up the quotient at the bit. -/
theorem div_eq_bit_add (n weight : Nat) :
    n / weight = n / weight % 2 + 2 * (n / (weight * 2)) := by
  rw [← Nat.div_div_eq_div_mul]
  omega

/-- The fields of a word make up that word. -/
theorem word_ofWord (w : UInt16) : (ofWord w).word = w := by
  have hw : w.toNat < 65536 := w.toNat_lt
  have h4 := div_eq_bit_add w.toNat 16
  have h5 := div_eq_bit_add w.toNat 32
  have h6 := div_eq_bit_add w.toNat 64
  have h7 := div_eq_bit_add w.toNat 128
  have h8 := div_eq_bit_add w.toNat 256
  have h9 := div_eq_bit_add w.toNat 512
  have h10 := div_eq_bit_add w.toNat 1024
  have hrcode : w.toNat = w.toNat % 16 + 16 * (w.toNat / 16) := by omega
  have hopcode : w.toNat / 2048 = w.toNat / 2048 % 16 + 16 * (w.toNat / 32768) := by omega
  have hqr : w.toNat / 32768 % 2 = w.toNat / 32768 := by omega
  apply UInt16.toNat_inj.mp
  simp only [word, ofWord, Flags.weight, toNat_bit, val_lowFour, UInt16.toNat_ofNat']
  simp only [Nat.reduceMul] at h4 h5 h6 h7 h8 h9 h10
  have hsum : w.toNat / 32768 % 2 * 32768 + w.toNat / 1024 % 2 * 1024 + w.toNat / 512 % 2 * 512 +
      w.toNat / 256 % 2 * 256 + w.toNat / 128 % 2 * 128 + w.toNat / 2048 % 16 * 2048 +
      w.toNat / 64 % 2 * 64 + w.toNat / 32 % 2 * 32 + w.toNat / 16 % 2 * 16 + w.toNat % 16 =
      w.toNat := by
    rw [hqr]
    generalize w.toNat / 16 % 2 = b4 at *
    generalize w.toNat / 32 % 2 = b5 at *
    generalize w.toNat / 64 % 2 = b6 at *
    generalize w.toNat / 128 % 2 = b7 at *
    generalize w.toNat / 256 % 2 = b8 at *
    generalize w.toNat / 512 % 2 = b9 at *
    generalize w.toNat / 1024 % 2 = b10 at *
    generalize w.toNat / 2048 % 16 = opcode at *
    generalize w.toNat % 16 = rcode at *
    generalize w.toNat / 16 = q4 at *
    generalize w.toNat / 32 = q5 at *
    generalize w.toNat / 64 = q6 at *
    generalize w.toNat / 128 = q7 at *
    generalize w.toNat / 256 = q8 at *
    generalize w.toNat / 512 = q9 at *
    generalize w.toNat / 1024 = q10 at *
    generalize w.toNat / 2048 = q11 at *
    generalize w.toNat / 32768 = q15 at *
    omega
  rw [hsum, Nat.mod_eq_of_lt hw]

/-- A number made up of a low part, a bit and a high part has that bit. -/
theorem bit_of_parts {n weight : Nat} {b : Bool} (low high : Nat)
    (hn : n = low + weight * (b.toNat + 2 * high)) (hlow : low < weight) : bit n weight = b := by
  have hdiv : n / weight = b.toNat + 2 * high := by
    rw [hn, Nat.add_mul_div_left _ _ (by omega), Nat.div_eq_of_lt hlow, Nat.zero_add]
  cases b <;> simp [bit, hdiv]

/-- The word made up of some fields holds these fields. -/
theorem ofWord_word (control : Control) : ofWord control.word = control := by
  obtain ⟨⟨qr, aa, tc, rd, ra⟩, opcode, z, ad, cd, rcode⟩ := control
  have ho := opcode.isLt
  have hr := rcode.isLt
  have hqr := Bool.toNat_le qr
  have haa := Bool.toNat_le aa
  have htc := Bool.toNat_le tc
  have hrd := Bool.toNat_le rd
  have hra := Bool.toNat_le ra
  have hz := Bool.toNat_le z
  have had := Bool.toNat_le ad
  have hcd := Bool.toNat_le cd
  let low4 := rcode.val
  let low5 := low4 + 16 * cd.toNat
  let low6 := low5 + 32 * ad.toNat
  let low7 := low6 + 64 * z.toNat
  let low8 := low7 + 128 * ra.toNat
  let low9 := low8 + 256 * rd.toNat
  let low10 := low9 + 512 * tc.toNat
  let high11 := opcode.val + 16 * qr.toNat
  let high10 := aa.toNat + 2 * high11
  let high9 := tc.toNat + 2 * high10
  let high8 := rd.toNat + 2 * high9
  let high7 := ra.toNat + 2 * high8
  let high6 := z.toNat + 2 * high7
  let high5 := ad.toNat + 2 * high6
  simp only [ofWord, word, Flags.weight, UInt16.toNat_ofNat', mk.injEq, Flags.mk.injEq]
  rw [Nat.mod_eq_of_lt (by omega)]
  refine ⟨⟨?_, ?_, ?_, ?_, ?_⟩, ?_, ?_, ?_, ?_, ?_⟩
  · exact bit_of_parts (low10 + 1024 * aa.toNat + 2048 * opcode.val) 0 (by omega) (by omega)
  · exact bit_of_parts low10 high11 (by omega) (by omega)
  · exact bit_of_parts low9 high10 (by omega) (by omega)
  · exact bit_of_parts low8 high9 (by omega) (by omega)
  · exact bit_of_parts low7 high8 (by omega) (by omega)
  · apply Fin.ext
    simp only [val_lowFour]
    omega
  · exact bit_of_parts low6 high7 (by omega) (by omega)
  · exact bit_of_parts low5 high6 (by omega) (by omega)
  · exact bit_of_parts low4 high5 (by omega) (by omega)
  · apply Fin.ext
    simp only [val_lowFour]
    omega

end Control
end DnsResolver
