import Mathlib.Data.Nat.Bitwise
import DnsResolver.Header.Control

/-!
# Masks of the control word

Each field of the control word is a run of its bits, and no two runs overlap.  A mask selects the
run: with it a field is read from a word, a flag is set or cleared, and four bits are replaced by
the lowest bits of a number.  None of this touches the bits of another field, and the fields are
all that there is in a word.
-/

namespace DnsResolver
namespace Control

/-- The fields of the control word, from the highest bits down. -/
inductive Field where
  | response
  | opcode
  | authoritative
  | truncated
  | recursionDesired
  | recursionAvailable
  | reserved
  | authenticData
  | checkingDisabled
  | responseCode
  deriving DecidableEq, Repr

namespace Field

/-- The place of the lowest bit of a field. -/
def shift : Field → Nat
  | response => 15
  | opcode => 11
  | authoritative => 10
  | truncated => 9
  | recursionDesired => 8
  | recursionAvailable => 7
  | reserved => 6
  | authenticData => 5
  | checkingDisabled => 4
  | responseCode => 0

/-- The number of bits of a field. -/
def width : Field → Nat
  | opcode | responseCode => 4
  | _ => 1

/-- The word in which the bits of the field alone are set. -/
def mask (field : Field) : UInt16 :=
  UInt16.ofNat ((2 ^ field.width - 1) <<< field.shift)

/-- The number that a word holds in the field. -/
def read (field : Field) (word : UInt16) : Nat :=
  ((word &&& field.mask) >>> UInt16.ofNat field.shift).toNat

/-- Whether all bits of the field are set in a word. -/
def isSet (field : Field) (word : UInt16) : Bool :=
  word &&& field.mask == field.mask

/-- The word with all bits of the field set or cleared. -/
def setBit (field : Field) (value : Bool) (word : UInt16) : UInt16 :=
  if value then word ||| field.mask else word &&& ~~~field.mask

/-- The word with the lowest bits of a number in the field. -/
def setBits (field : Field) (value : UInt8) (word : UInt16) : UInt16 :=
  word &&& ~~~field.mask ||| (value.toUInt16 <<< UInt16.ofNat field.shift &&& field.mask)

/-- The field has the bit at this place. -/
def Covers (field : Field) (place : Nat) : Prop :=
  field.shift ≤ place ∧ place < field.shift + field.width

instance (field : Field) : DecidablePred field.Covers :=
  fun _ => inferInstanceAs (Decidable (_ ∧ _))

/-! ## Bits -/

variable {field other : Field}

theorem shift_add_width_le (field : Field) : field.shift + field.width ≤ 16 := by
  cases field <;> decide

theorem toNat_shift_mod (field : Field) : (UInt16.ofNat field.shift).toNat % 16 = field.shift := by
  cases field <;> rfl

theorem toNat_mask (field : Field) : field.mask.toNat = (2 ^ field.width - 1) <<< field.shift := by
  cases field <;> rfl

theorem covers_add {i : Nat} (h : i < field.width) : field.Covers (field.shift + i) :=
  ⟨Nat.le_add_right _ _, Nat.add_lt_add_left h _⟩

/-- A bit belongs to one field only. -/
theorem not_covers_of_ne (h : field ≠ other) {place : Nat} (hplace : field.Covers place) :
    ¬other.Covers place := by
  have hdisjoint : field.shift + field.width ≤ other.shift ∨
      other.shift + other.width ≤ field.shift := by
    cases field <;> cases other <;> first | exact absurd rfl h | decide
  unfold Covers at *
  omega

theorem testBit_of_le {word : UInt16} {place : Nat} (h : 16 ≤ place) :
    word.toNat.testBit place = false :=
  Nat.testBit_lt_two_pow (Nat.lt_of_lt_of_le word.toNat_lt (Nat.pow_le_pow_right (by decide) h))

theorem testBit_mask (field : Field) (place : Nat) :
    field.mask.toNat.testBit place = decide (field.Covers place) := by
  rw [toNat_mask, Nat.testBit_shiftLeft, Nat.testBit_two_pow_sub_one, ← Bool.decide_and]
  refine decide_eq_decide.mpr ?_
  unfold Covers
  omega

theorem testBit_clear (field : Field) (word : UInt16) (place : Nat) :
    (word &&& ~~~field.mask).toNat.testBit place =
      (word.toNat.testBit place && !decide (field.Covers place)) := by
  have hnot : (~~~field.mask).toNat = 2 ^ 16 - (field.mask.toNat + 1) := by
    rw [UInt16.toNat_not, Nat.sub_sub, Nat.add_comm 1]
    rfl
  rw [UInt16.toNat_and, Nat.testBit_and, hnot, Nat.testBit_two_pow_sub_succ field.mask.toNat_lt,
    testBit_mask]
  by_cases hplace : place < 16
  · rw [decide_eq_true hplace, Bool.true_and]
  · rw [testBit_of_le (Nat.le_of_not_lt hplace), Bool.false_and, Bool.false_and]

theorem testBit_setBit (field : Field) (value : Bool) (word : UInt16) (place : Nat) :
    (field.setBit value word).toNat.testBit place =
      if field.Covers place then value else word.toNat.testBit place := by
  cases value with
  | false =>
    rw [setBit, if_neg Bool.false_ne_true, testBit_clear]
    by_cases hplace : field.Covers place
    · simp [hplace]
    · simp [hplace]
  | true =>
    rw [setBit, if_pos rfl, UInt16.toNat_or, Nat.testBit_or, testBit_mask]
    by_cases hplace : field.Covers place
    · simp [hplace]
    · simp [hplace]

theorem testBit_setBits (field : Field) (value : UInt8) (word : UInt16) (place : Nat) :
    (field.setBits value word).toNat.testBit place =
      if field.Covers place then value.toNat.testBit (place - field.shift)
      else word.toNat.testBit place := by
  rw [setBits, UInt16.toNat_or, Nat.testBit_or, testBit_clear, UInt16.toNat_and, Nat.testBit_and,
    testBit_mask, UInt16.toNat_shiftLeft, toNat_shift_mod, UInt8.toNat_toUInt16,
    Nat.testBit_mod_two_pow, Nat.testBit_shiftLeft]
  by_cases hplace : field.Covers place
  · have hinside := shift_add_width_le field
    have hlow : place ≥ field.shift := hplace.1
    have hhigh : place < 16 := Nat.lt_of_lt_of_le hplace.2 hinside
    simp [hplace, hlow, hhigh]
  · simp [hplace]

theorem testBit_read (field : Field) (word : UInt16) (i : Nat) :
    (field.read word).testBit i =
      (decide (i < field.width) && word.toNat.testBit (field.shift + i)) := by
  have hcovers : field.Covers (field.shift + i) ↔ i < field.width := by
    unfold Covers
    omega
  rw [read, UInt16.toNat_shiftRight, toNat_shift_mod, Nat.testBit_shiftRight, UInt16.toNat_and,
    Nat.testBit_and, testBit_mask, decide_eq_decide.mpr hcovers, Bool.and_comm]

/-! ## Reading what was written -/

theorem read_congr {word word' : UInt16}
    (h : ∀ place, field.Covers place → word.toNat.testBit place = word'.toNat.testBit place) :
    field.read word = field.read word' := by
  refine Nat.eq_of_testBit_eq fun i => ?_
  rw [testBit_read, testBit_read]
  by_cases hi : i < field.width
  · rw [h (field.shift + i) (covers_add hi)]
  · rw [decide_eq_false hi, Bool.false_and, Bool.false_and]

/-- A field holds a quotient of the word, cut off to its bits. -/
theorem read_eq (field : Field) (word : UInt16) :
    field.read word = word.toNat / 2 ^ field.shift % 2 ^ field.width := by
  refine Nat.eq_of_testBit_eq fun i => ?_
  rw [testBit_read, Nat.testBit_mod_two_pow, Nat.testBit_div_two_pow, Nat.add_comm]

/-- A flag is set if it reads as one, and clear if it reads as zero. -/
theorem toNat_isSet (hwidth : field.width = 1) (word : UInt16) :
    (field.isSet word).toNat = field.read word := by
  have hmask : field.mask.toNat = 2 ^ field.shift := by
    rw [toNat_mask, hwidth]
    exact Nat.one_shiftLeft field.shift
  have hset : field.isSet word = word.toNat.testBit field.shift := by
    rw [isSet, Bool.eq_iff_iff, beq_iff_eq, ← UInt16.toNat_inj, UInt16.toNat_and, hmask,
      Nat.and_two_pow]
    cases word.toNat.testBit field.shift with
    | false => simp [(Nat.two_pow_pos field.shift).ne]
    | true => simp
  rw [hset, Nat.toNat_testBit, read_eq, hwidth, Nat.pow_one]

/-- A field whose bits are all set or cleared reads so, and no other field notices. -/
theorem read_setBit (value : Bool) (word : UInt16) :
    field.read (other.setBit value word) =
      if field = other then value.toNat * (2 ^ field.width - 1) else field.read word := by
  split
  next heq =>
    subst heq
    refine Nat.eq_of_testBit_eq fun i => ?_
    have hbits : (value.toNat * (2 ^ field.width - 1)).testBit i =
        (decide (i < field.width) && value) := by
      cases value with
      | false => simp
      | true => simp [Nat.testBit_two_pow_sub_one]
    rw [testBit_read, testBit_setBit, hbits]
    by_cases hi : i < field.width
    · rw [if_pos (covers_add hi)]
    · rw [decide_eq_false hi, Bool.false_and, Bool.false_and]
  next hne =>
    refine read_congr fun place hplace => ?_
    rw [testBit_setBit, if_neg (not_covers_of_ne hne hplace)]

/-- Bits that are replaced read as the lowest bits of the number, and no other field notices. -/
theorem read_setBits (value : UInt8) (word : UInt16) :
    field.read (other.setBits value word) =
      if field = other then value.toNat % 2 ^ field.width else field.read word := by
  split
  next heq =>
    subst heq
    refine Nat.eq_of_testBit_eq fun i => ?_
    rw [testBit_read, testBit_setBits, Nat.testBit_mod_two_pow, Nat.add_sub_cancel_left]
    by_cases hi : i < field.width
    · rw [if_pos (covers_add hi)]
    · rw [decide_eq_false hi, Bool.false_and, Bool.false_and]
  next hne =>
    refine read_congr fun place hplace => ?_
    rw [testBit_setBits, if_neg (not_covers_of_ne hne hplace)]

end Field

/-! ## The fields of a word -/

/-- The number in a field of the control word. -/
def get (control : Control) : Field → Nat
  | .response => control.flags.response.toNat
  | .opcode => control.opcode.val
  | .authoritative => control.flags.authoritative.toNat
  | .truncated => control.flags.truncated.toNat
  | .recursionDesired => control.flags.recursionDesired.toNat
  | .recursionAvailable => control.flags.recursionAvailable.toNat
  | .reserved => control.reserved.toNat
  | .authenticData => control.authenticData.toNat
  | .checkingDisabled => control.checkingDisabled.toNat
  | .responseCode => control.responseCode.val

theorem get_ofWord (word : UInt16) (field : Field) : (ofWord word).get field = field.read word := by
  rw [Field.read_eq]
  cases field with
  | opcode => rfl
  | responseCode => exact congrArg (· % 16) (Nat.div_one word.toNat).symm
  | _ => exact toNat_bit _ _

theorem read_word (control : Control) (field : Field) :
    field.read control.word = control.get field := by
  rw [← get_ofWord, ofWord_word]

/-- Control words with the same numbers in all fields are the same. -/
theorem eq_of_get_eq {a b : Control} (h : ∀ field, a.get field = b.get field) : a = b := by
  have hbit {x y : Bool} (hxy : x.toNat = y.toNat) : x = y := by
    cases x <;> cases y <;> first | rfl | cases hxy
  obtain ⟨⟨_, _, _, _, _⟩, _, _, _, _, _⟩ := a
  obtain ⟨⟨_, _, _, _, _⟩, _, _, _, _, _⟩ := b
  simp only [mk.injEq, Flags.mk.injEq]
  exact ⟨⟨hbit (h .response), hbit (h .authoritative), hbit (h .truncated),
    hbit (h .recursionDesired), hbit (h .recursionAvailable)⟩, Fin.ext (h .opcode),
    hbit (h .reserved), hbit (h .authenticData), hbit (h .checkingDisabled),
    Fin.ext (h .responseCode)⟩

/-- There is nothing in a word but its fields. -/
theorem eq_of_read_eq {word word' : UInt16}
    (h : ∀ field : Field, field.read word = field.read word') :
    word = word' := by
  have hcontrol : ofWord word = ofWord word' := by
    refine eq_of_get_eq fun field => ?_
    rw [get_ofWord, get_ofWord, h]
  rw [← word_ofWord word, hcontrol, word_ofWord]

end Control
end DnsResolver
