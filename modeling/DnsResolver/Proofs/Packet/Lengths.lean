import DnsResolver.Proofs.Packet.Frames

/-!
# Announced and written lengths

The length of whatever is written is known before it is written, and some lengths are written
themselves: that of a label in one octet, and that of the data of a record in two.  None of them is
cut off, because names, labels and raw data are checked when they are made, and data that was read
has come with a length of two octets.  So the written lengths alone lead through a packet, from each
entry to the next and at last to its end.
-/

namespace DnsResolver

open Octets (StandsAt ofWord16 ofWord32)
open Name (labelWire)

/-! ## Names -/

/-- The lengths that go with a name are those of its wire form. -/
structure Name.Measured (name : Name) : Prop where
  announced : name.wireLength = name.wire.length
  text : name.isRoot = false → name.wire.length = name.text.length + 2
  bound : name.wire.length ≤ 255
  /-- In front of each label stands one octet with its length. -/
  label : ∀ leading label rest, name.labels = leading ++ label :: rest →
    ∃ c, name.wire = leading.flatMap labelWire ++ c :: (label ++ (rest.flatMap labelWire ++ [0])) ∧
      c.toNat = label.length ∧ label.length ≤ 63

theorem Name.measured (name : Name) : name.Measured where
  announced := name.wireLength_eq
  text := by
    intro hroot
    have hne : name.text ≠ [] := by simpa [isRoot] using hroot
    rw [length_wire, if_neg hne]
  bound := name.length_wire_le
  label := by
    intro leading label rest hlabels
    have hlegal : Labels.Legal label := by
      apply name.labels_legal
      rw [hlabels]
      exact List.mem_append_right _ List.mem_cons_self
    refine ⟨UInt8.ofNat label.length, ?_, hlegal.toNat_lengthOctet, hlegal.length_le⟩
    rw [wire, hlabels, List.flatMap_append, List.flatMap_cons, labelWire]
    simp only [List.append_assoc, List.cons_append]

/-! ## Records -/

/-- The records that there can be: those that can be made, and those that any reader reads. -/
inductive Record.Obtained (record : Record) : Prop where
  | made : record.Made → Obtained record
  | read {reader behind : Reader} :
      Decoder.record reader = .ok record behind → Obtained record

theorem Record.Obtained.fits {record : Record} (h : record.Obtained) : record.data.Fits := by
  cases h with
  | made hmade => exact hmade.fits
  | read hread => exact (Decoder.canonical_and_fits_of_record_eq_ok hread).2

/-- The length field tells the length of the data exactly if the data fits. -/
theorem RecordData.toNat_lengthField_eq_iff {data : RecordData} :
    (UInt16.ofNat data.wireLength).toNat = data.wire.length ↔ data.Fits := by
  rw [UInt16.toNat_ofNat', ← wireLength_eq, Fits, maxDataLength]
  constructor
  · intro h
    omega
  · intro h
    exact Nat.mod_eq_of_lt (Nat.lt_succ_of_le h)

/-- The lengths that go with a record are those of its wire form. -/
structure Record.Measured (record : Record) : Prop where
  announced : record.wireLength = record.wire.length
  dataAnnounced : record.data.wireLength = record.data.wire.length
  /-- Eight octets behind the name, two octets hold the length of the data, which ends the record. -/
  field : ∃ front length, record.wire = front ++ (ofWord16 length ++ record.data.wire) ∧
    front.length = record.name.wire.length + 8 ∧ length.toNat = record.data.wire.length

theorem Record.measured_of_fits {record : Record} (h : record.data.Fits) : record.Measured where
  announced := record.wireLength_eq
  dataAnnounced := record.data.wireLength_eq
  field := by
    refine ⟨record.name.wire ++ ofWord16 record.type.code ++ ofWord16 record.recordClass.code ++
      ofWord32 record.ttl, UInt16.ofNat record.data.wireLength, ?_, ?_,
      RecordData.toNat_lengthField_eq_iff.mpr h⟩
    · rw [wire]
      simp only [List.append_assoc]
    · simp only [List.length_append, Octets.length_ofWord16, Octets.length_ofWord32]

/-! ## Entries in a written packet -/

section Entries

variable {message : Octets} {position : Nat}

/-- Where the wire form of a name stands, the lengths of its labels lead to its end. -/
theorem Name.runsTo_of_standsAt {name : Name} (h : StandsAt message position name.wire) :
    RunsTo message position (position + name.wire.length) :=
  ((WireForm.plain).spells h (Nat.le_refl _)).runsTo.1

/-- From `position` to `next` stands the question, in its announced length, and the lengths of its
labels lead there. -/
structure Question.Spans (message : Octets) (question : Question) (position next : Nat) : Prop where
  stands : StandsAt message position question.wire
  announced : next = position + question.wireLength
  written : ∃ behindName, Name.RunsTo message position behindName ∧ next = behindName + 4

/-- From `position` to `next` stands the record, in its announced length, and the lengths of its
labels and of its data lead there. -/
structure Record.Spans (message : Octets) (record : Record) (position next : Nat) : Prop where
  stands : StandsAt message position record.wire
  announced : next = position + record.wireLength
  written : ∃ behindName length, Name.RunsTo message position behindName ∧
    StandsAt message (behindName + 8) (ofWord16 length) ∧ next = behindName + 10 + length.toNat

theorem Question.spans_of_standsAt {question : Question}
    (h : StandsAt message position question.wire) :
    question.Spans message position (position + question.wire.length) := by
  refine ⟨h, by rw [question.wireLength_eq], position + question.name.wire.length, ?_, ?_⟩
  · rw [wire, List.append_assoc] at h
    exact Name.runsTo_of_standsAt (Octets.standsAt_append_iff.mp h).1
  · simp only [wire, List.length_append, Octets.length_ofWord16, Nat.add_assoc]

theorem Record.spans_of_standsAt {record : Record} (hfits : record.data.Fits)
    (h : StandsAt message position record.wire) :
    record.Spans message position (position + record.wire.length) := by
  obtain ⟨hannounced, hdata, front, length, hwire, hfront, hlength⟩ := measured_of_fits hfits
  refine ⟨h, by rw [hannounced], position + record.name.wire.length, length, ?_, ?_, ?_⟩
  · rw [wire] at h
    simp only [List.append_assoc] at h
    exact Name.runsTo_of_standsAt (Octets.standsAt_append_iff.mp h).1
  · rw [hwire, Octets.standsAt_append_iff, Octets.standsAt_append_iff, hfront] at h
    rw [Nat.add_assoc]
    exact h.2.1
  · rw [hwire, hlength]
    simp only [List.length_append, Octets.length_ofWord16, hfront]
    omega

/-- Entries whose wire forms stand one behind the other fill the octets up to the end of the last. -/
theorem Consecutive.of_standsAt {α : Type} {wire : α → Octets} {heldIn : α → Nat → Nat → Prop}
    {as : List α}
    (hheld : ∀ a ∈ as, ∀ {position}, StandsAt message position (wire a) →
      heldIn a position (position + (wire a).length))
    (h : StandsAt message position (as.flatMap wire)) :
    Consecutive heldIn as position (position + (as.flatMap wire).length) := by
  induction as generalizing position with
  | nil => exact .nil position
  | cons a as ih =>
    obtain ⟨hhead, htail⟩ := List.forall_mem_cons.mp hheld
    rw [List.flatMap_cons, Octets.standsAt_append_iff] at h
    rw [List.flatMap_cons, List.length_append, ← Nat.add_assoc]
    exact .cons (hhead h.1) (ih htail h.2)

end Entries

/-! ## Packets -/

/-- The lengths that go with a packet are those of its wire form, and lead through it. -/
structure Packet.Measured (packet : Packet) : Prop where
  announced : packet.wireLength = packet.wire.length
  entries : ∃ atRecords,
    Consecutive (Question.Spans packet.wire) packet.questions Header.wireLength atRecords ∧
      Consecutive (Record.Spans packet.wire) packet.records atRecords packet.wireLength

/-- Wherever the wire form of a packet stands, its entries stand behind its header. -/
theorem Packet.exists_consecutive_of_standsAt {packet : Packet} {message : Octets} {position : Nat}
    (hfits : ∀ record ∈ packet.records, record.data.Fits)
    (h : StandsAt message position packet.wire) :
    ∃ atRecords,
      Consecutive (Question.Spans message) packet.questions (position + Header.wireLength)
        atRecords ∧
      Consecutive (Record.Spans message) packet.records atRecords
        (position + packet.wire.length) := by
  have hheader : packet.header.wire.length = Header.wireLength := rfl
  rw [wire, Octets.standsAt_append_iff, Octets.standsAt_append_iff, List.length_append,
    hheader, ← Nat.add_assoc] at h
  obtain ⟨⟨-, hquestions⟩, hrecords⟩ := h
  have hend : position + packet.wire.length = position + Header.wireLength +
      (packet.questions.flatMap Question.wire).length +
        (packet.records.flatMap Record.wire).length := by
    simp only [wire, List.length_append, hheader, Nat.add_assoc]
  rw [hend]
  refine ⟨_, .of_standsAt ?_ hquestions, .of_standsAt ?_ hrecords⟩
  · intro question _ position hstands
    exact Question.spans_of_standsAt hstands
  · intro record hrecord position hstands
    exact Record.spans_of_standsAt (hfits record hrecord) hstands

theorem Packet.measured_of_fits {packet : Packet}
    (h : ∀ record ∈ packet.records, record.data.Fits) :
    packet.Measured where
  announced := packet.wireLength_eq
  entries := by
    have hwire : StandsAt packet.wire 0 packet.wire := List.prefix_refl _
    obtain ⟨atRecords, hquestions, hrecords⟩ := exists_consecutive_of_standsAt h hwire
    rw [Nat.zero_add] at hquestions hrecords
    rw [packet.wireLength_eq]
    exact ⟨atRecords, hquestions, hrecords⟩

/-! ## The main result -/

/-- Every name, every question, every record that can be made or read, and every packet of such
records takes as many octets as announced, and no length that is written is cut off. -/
theorem lengths_are_announced :
    (∀ name : Name, name.Measured) ∧
      (∀ question : Question, question.wireLength = question.wire.length) ∧
      (∀ record : Record, record.Obtained → record.Measured) ∧
      ∀ packet : Packet, (∀ record ∈ packet.records, record.Obtained) → packet.Measured := by
  refine ⟨Name.measured, Question.wireLength_eq, ?_, ?_⟩
  · intro record hrecord
    exact Record.measured_of_fits hrecord.fits
  · intro packet hrecords
    exact Packet.measured_of_fits fun record hrecord => (hrecords record hrecord).fits

/-- The answer of the packet tells the length of its data, and the packet its own length. -/
theorem lengths_are_announced_aliasQuery :
    (∃ front length, (Record.ofData Packet.aliasName 60 (.cname Packet.hostName)).wire =
        front ++ (ofWord16 length ++ Packet.hostName.wire) ∧ front.length = 13 ∧ length = 5) ∧
      Packet.aliasQuery.wire.length = 41 := by
  obtain ⟨-, -, hrecord, hpacket⟩ := lengths_are_announced
  have hmade : (Record.ofData Packet.aliasName 60 (.cname Packet.hostName)).Obtained :=
    .made (.cname _ _ _)
  constructor
  · obtain ⟨front, length, hwire, hfront, hlength⟩ := (hrecord _ hmade).field
    exact ⟨front, length, hwire, hfront, UInt16.toNat_inj.mp hlength⟩
  · have hannounced := (hpacket Packet.aliasQuery (List.forall_mem_singleton.mpr hmade)).announced
    exact hannounced.symm

end DnsResolver
