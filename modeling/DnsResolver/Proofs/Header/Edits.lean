import Mathlib.Data.List.Induction
import DnsResolver.Proofs.Header.Masks
import DnsResolver.Proofs.Packet.Compression

/-!
# Edits of headers

However often a header is edited, each of its fields reads as what was written to it last, and as it
did at first if nothing was.  On the control word, edits act through the masks of its fields.  A
header is read from just the twelve octets that it is written as, and the third of these alone tells
whether the message is a response.
-/

namespace DnsResolver
namespace Header

open Control (Field)

/-- The numbers that a header holds: those in the control word, and those around it. -/
inductive Entry where
  | id
  | control (field : Field)
  | questionCount
  | answerCount
  | authorityCount
  | additionalCount
  deriving DecidableEq, Repr

/-- What a header tells about one of its numbers. -/
def get (header : Header) : Entry → Nat
  | .id => header.id.toNat
  | .control .response => header.kind.bit
  | .control .opcode => header.opcode.code.toNat
  | .control .responseCode => header.responseCode.code.toNat
  | .control field => header.control.get field
  | .questionCount => header.questionCount.toNat
  | .answerCount => header.answerCount.toNat
  | .authorityCount => header.authorityCount.toNat
  | .additionalCount => header.additionalCount.toNat

namespace Edit

/-- What an edit writes to a number, if it covers it.  Of a wide number for a field of four bits the
lowest four are left. -/
def value? : Edit → Entry → Option Nat
  | .word value, .control field => some (field.read value)
  | .flags marks, .control .response => some marks.response.toNat
  | .flags marks, .control .authoritative => some marks.authoritative.toNat
  | .flags marks, .control .truncated => some marks.truncated.toNat
  | .flags marks, .control .recursionDesired => some marks.recursionDesired.toNat
  | .flags marks, .control .recursionAvailable => some marks.recursionAvailable.toNat
  | .response value, .control .response => some value.toNat
  | .opcode value, .control .opcode => some (value.code.toNat % 16)
  | .responseCode value, .control .responseCode => some (value.code.toNat % 16)
  | .authoritative value, .control .authoritative => some value.toNat
  | .truncated value, .control .truncated => some value.toNat
  | .recursionDesired value, .control .recursionDesired => some value.toNat
  | .recursionAvailable value, .control .recursionAvailable => some value.toNat
  | .authenticData value, .control .authenticData => some value.toNat
  | .checkingDisabled value, .control .checkingDisabled => some value.toNat
  | .id value, .id => some value.toNat
  | .questionCount value, .questionCount => some value.toNat
  | .answerCount value, .answerCount => some value.toNat
  | .authorityCount value, .authorityCount => some value.toNat
  | .additionalCount value, .additionalCount => some value.toNat
  | _, _ => none

/-- What an edit does to the control word, by masks. -/
def onWord : Edit → UInt16 → UInt16
  | .word value, _ => value
  | .flags marks, w =>
    [Field.response, .authoritative, .truncated, .recursionDesired, .recursionAvailable].foldl
      (fun w field => field.setBit (field.isSet marks.bits) w) w
  | .response value, w => Field.response.setBit value w
  | .opcode value, w => Field.opcode.setBits value.code w
  | .responseCode value, w => Field.responseCode.setBits value.code w
  | .authoritative value, w => Field.authoritative.setBit value w
  | .truncated value, w => Field.truncated.setBit value w
  | .recursionDesired value, w => Field.recursionDesired.setBit value w
  | .recursionAvailable value, w => Field.recursionAvailable.setBit value w
  | .authenticData value, w => Field.authenticData.setBit value w
  | .checkingDisabled value, w => Field.checkingDisabled.setBit value w
  | .id _, w | .questionCount _, w | .answerCount _, w | .authorityCount _, w
  | .additionalCount _, w => w

end Edit

/-- What edits have written to a number last, if any of them covers it. -/
def lastWritten (edits : List Edit) (entry : Entry) : Option Nat :=
  (edits.filterMap fun edit => edit.value? entry).getLast?

/-- The header after some edits. -/
def after (header : Header) (edits : List Edit) : Header :=
  edits.foldl edit header

theorem after_concat (header : Header) (edits : List Edit) (last : Edit) :
    header.after (edits ++ [last]) = (header.after edits).edit last :=
  List.foldl_append

theorem lastWritten_concat (edits : List Edit) (last : Edit) (entry : Entry) :
    lastWritten (edits ++ [last]) entry = (last.value? entry).or (lastWritten edits entry) := by
  rw [lastWritten, List.filterMap_append, List.getLast?_append]
  congr 1
  cases h : last.value? entry with
  | none => simp [h]
  | some value => simp [h]

/-! ## One edit -/

theorem bit_kind (header : Header) : header.kind.bit = header.flags.response.toNat := by
  rw [kind]
  cases header.flags.response <;> rfl

theorem toNat_ofNat_fin (n : Fin 16) : (UInt8.ofNat n.val).toNat = n.val := by
  have := n.isLt
  rw [UInt8.toNat_ofNat']
  omega

/-- The number that a header tells about a field is the one in the control word. -/
theorem get_control (header : Header) (field : Field) :
    header.get (.control field) = header.control.get field := by
  cases field with
  | response => exact bit_kind header
  | opcode => exact toNat_ofNat_fin header.control.opcode
  | responseCode => exact toNat_ofNat_fin header.control.responseCode
  | _ => rfl

/-- An edit writes to what it covers, and everything else stays. -/
theorem get_edit (header : Header) (edit : Edit) (entry : Entry) :
    (header.edit edit).get entry = (edit.value? entry).getD (header.get entry) := by
  cases entry with
  | control field =>
    rw [get_control, get_control]
    cases edit with
    | word word => exact Control.get_ofWord word field
    | _ => cases field <;> rfl
  | _ => cases edit <;> rfl

theorem isSet_bits (flags : Flags) :
    (Field.response.isSet flags.bits = flags.response ∧
      Field.authoritative.isSet flags.bits = flags.authoritative ∧
      Field.truncated.isSet flags.bits = flags.truncated) ∧
    Field.recursionDesired.isSet flags.bits = flags.recursionDesired ∧
      Field.recursionAvailable.isSet flags.bits = flags.recursionAvailable := by
  obtain ⟨qr, aa, tc, rd, ra⟩ := flags
  revert qr aa tc rd ra
  decide

/-- On the word, too, an edit writes to what it covers, and everything else stays. -/
theorem read_onWord (edit : Edit) (word : UInt16) (field : Field) :
    field.read (edit.onWord word) = (edit.value? (.control field)).getD (field.read word) := by
  cases edit with
  | word => rfl
  | flags flags =>
    obtain ⟨⟨hqr, haa, htc⟩, hrd, hra⟩ := isSet_bits flags
    simp only [Edit.onWord, List.foldl_cons, List.foldl_nil, hqr, haa, htc, hrd, hra]
    cases field <;> simp [Field.read_setBit, Field.width, Edit.value?]
  | opcode opcode =>
    cases field <;> simp [Edit.onWord, Field.read_setBits, Field.width, Edit.value?]
  | responseCode code =>
    cases field <;> simp [Edit.onWord, Field.read_setBits, Field.width, Edit.value?]
  | id | questionCount | answerCount | authorityCount | additionalCount => rfl
  | _ => cases field <;> simp [Edit.onWord, Field.read_setBit, Field.width, Edit.value?]

/-- The control word of an edited header is the edited control word. -/
theorem word_edit (header : Header) (edit : Edit) :
    (header.edit edit).word = edit.onWord header.word := by
  refine Control.eq_of_read_eq fun field => ?_
  have hedited : field.read (header.edit edit).word = (header.edit edit).get (.control field) := by
    rw [get_control]
    exact Control.read_word _ field
  have horiginal : field.read header.word = header.get (.control field) := by
    rw [get_control]
    exact Control.read_word _ field
  rw [hedited, get_edit, read_onWord, horiginal]

/-! ## Many edits -/

theorem get_after (header : Header) (edits : List Edit) (entry : Entry) :
    (header.after edits).get entry = (lastWritten edits entry).getD (header.get entry) := by
  induction edits using List.reverseRecOn with
  | nil => rfl
  | append_singleton edits last ih =>
    rw [after_concat, get_edit, lastWritten_concat, ih]
    cases last.value? entry with
    | none => rfl
    | some value => rfl

theorem word_after (header : Header) (edits : List Edit) :
    (header.after edits).word = edits.foldl (fun word edit => edit.onWord word) header.word := by
  induction edits using List.reverseRecOn with
  | nil => rfl
  | append_singleton edits last ih => rw [after_concat, word_edit, ih, List.foldl_concat]

/-- The reserved bit is only written with the whole word. -/
theorem lastWritten_reserved {edits : List Edit} (h : ∀ word, .word word ∉ edits) :
    lastWritten edits (.control .reserved) = none := by
  rw [lastWritten, List.getLast?_eq_none_iff, List.filterMap_eq_nil_iff]
  intro edit hedit
  cases edit with
  | word word => exact absurd hedit (h word)
  | _ => rfl

/-! ## The wire form -/

/-- Any twelve octets are the wire form of a header. -/
theorem exists_wire_eq {octets : Octets} (h : octets.length = wireLength) :
    ∃ header : Header, header.wire = octets := by
  match octets, h with
  | [a, b, c, d, e, f, g, i, j, k, l, m], _ =>
    refine ⟨⟨UInt16.ofNat (Octets.value [a, b]),
      Control.ofWord (UInt16.ofNat (Octets.value [c, d])), UInt16.ofNat (Octets.value [e, f]),
      UInt16.ofNat (Octets.value [g, i]), UInt16.ofNat (Octets.value [j, k]),
      UInt16.ofNat (Octets.value [l, m])⟩, ?_⟩
    rw [wire, word, Control.word_ofWord]
    simp only [Octets.ofWord16_value]
    rfl

/-- The kind of a message that starts with a header is the kind of the header. -/
theorem of?_wire_append (header : Header) (trailing : Octets) :
    MessageKind.of? (header.wire ++ trailing) = some header.kind := by
  have hthird : MessageKind.of? (header.wire ++ trailing) =
      some (if 128 ≤ UInt8.ofNat (header.word.toNat / 256) then .response else .query) :=
    rfl
  have hword : header.word.toNat < 65536 := header.word.toNat_lt
  have hbit : header.flags.response.toNat = header.word.toNat / 32768 % 2 := by
    have hread := Control.read_word header.control .response
    rw [Field.read_eq] at hread
    exact hread.symm
  rw [hthird, kind]
  cases hresponse : header.flags.response with
  | false =>
    rw [hresponse, Bool.toNat_false] at hbit
    rw [if_neg]
    · rfl
    · rw [UInt8.le_iff_toNat_le, UInt8.toNat_ofNat']
      change ¬128 ≤ _
      omega
  | true =>
    rw [hresponse, Bool.toNat_true] at hbit
    rw [if_pos]
    · rfl
    · rw [UInt8.le_iff_toNat_le, UInt8.toNat_ofNat']
      change 128 ≤ _
      omega

/-! ## The main result -/

/-- After any edits, a header tells of each number what was written to it last, and what it told at
first if nothing was; the reserved bit is only written with the whole word.  The control word is
what masks make of the word at first, and each field is what its mask selects of it.  Wherever its
wire form stands, the header is read from it.  Any twelve octets are read as a header that is
written as these octets, and the kind of a message that starts with them is the kind of this
header. -/
theorem fields_are_independent (header : Header) (edits : List Edit) :
    (∀ entry, (header.after edits).get entry = (lastWritten edits entry).getD (header.get entry)) ∧
    ((∀ word, .word word ∉ edits) →
      (header.after edits).get (.control .reserved) = header.get (.control .reserved)) ∧
    (header.after edits).word = edits.foldl (fun word edit => edit.onWord word) header.word ∧
    (∀ field, (header.after edits).get (.control field) = field.read (header.after edits).word ∧
      (field.width = 1 → (header.after edits).get (.control field) =
        (field.isSet (header.after edits).word).toNat)) ∧
    (∀ message, Decoder.header.Decodes message (header.after edits).wire (header.after edits)) ∧
    ∀ octets : Octets, octets.length = wireLength →
      ∃ parsed : Header, parsed.wire = octets ∧
        (∀ message, Decoder.header.Decodes message octets parsed) ∧
        ∀ trailing, MessageKind.of? (octets ++ trailing) = some parsed.kind := by
  have hread (field : Field) :
      (header.after edits).get (.control field) = field.read (header.after edits).word := by
    rw [get_control]
    exact (Control.read_word _ field).symm
  refine ⟨get_after header edits, ?_, word_after header edits, ?_, ?_, ?_⟩
  · intro h
    rw [get_after, lastWritten_reserved h]
    rfl
  · intro field
    refine ⟨hread field, fun hwidth => ?_⟩
    rw [hread field, Field.toNat_isSet hwidth]
  · exact fun message => Decoder.decodes_header _
  · intro octets hlength
    obtain ⟨parsed, rfl⟩ := exists_wire_eq hlength
    exact ⟨parsed, rfl, fun message => Decoder.decodes_header parsed, of?_wire_append parsed⟩

/-- All flags are cleared, and an opcode and a response code are set that take five bits each. -/
def wideEdits : List Edit :=
  [.flags .none, .opcode ⟨20⟩, .responseCode ⟨19⟩]

/-- In a word of ones, the wide numbers reach neither the response bit nor the checking bit, and the
reserved bit stays. -/
theorem fields_are_independent_wideEdits :
    let full : Header := Header.setWord { id := 7 } 65535
    (full.after wideEdits).get (.control .opcode) = 4 ∧
      (full.after wideEdits).get (.control .reserved) = 1 ∧
      (full.after wideEdits).get (.control .response) = 0 ∧
      (full.after wideEdits).word = 8307 ∧
      Decoder.header (.placed (full.after wideEdits).wire 0 12) =
        .ok (full.after wideEdits) (.placed (full.after wideEdits).wire 12 12) ∧
      ∃ parsed : Header, parsed.wire = List.replicate 12 255 ∧
        MessageKind.of? (List.replicate 12 255 ++ [9]) = some parsed.kind := by
  intro full
  obtain ⟨hlast, hreserved, hword, hmask, hread, hoctets⟩ := fields_are_independent full wideEdits
  obtain ⟨parsed, hwire, -, hkind⟩ := hoctets (List.replicate 12 255) rfl
  have hresponse := (hmask .response).2 rfl
  refine ⟨hlast (.control .opcode), hreserved (by simp [wideEdits]), ?_, ?_, ?_, parsed, hwire,
    hkind [9]⟩
  · rw [hresponse, hword]
    decide
  · rw [hword]
    decide
  · exact hread _ 0 12 (List.prefix_rfl) (Nat.le_refl 12) (Nat.le_refl 12)

end Header
end DnsResolver
