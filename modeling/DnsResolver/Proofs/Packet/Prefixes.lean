import DnsResolver.Proofs.Packet.Grammar
import DnsResolver.Proofs.Packet.RoundTrip

/-!
# Longer and shorter messages

A message with more octets behind it holds what it held before, for no pointer and no window has
depended on where it ended.  A message that ends inside the wire form of a packet is reported as cut
short, wherever it ends: every step of reading finds that the octets it needs are not there.
-/

namespace DnsResolver

open Octets (StandsAt)
open Name (labelWire)

/-! ## More octets behind a message -/

theorem Octets.StandsAt.extend {message : Octets} {position : Nat} {part : Octets}
    (h : StandsAt message position part) (more : Octets) :
    StandsAt (message ++ more) position part := by
  rw [StandsAt, List.drop_append]
  exact List.IsPrefix.trans h (List.prefix_append _ _)

section Extend

variable {message : Octets} {limit wider position next : Nat}

/-- A pointer leads to the same labels, whether the message ends behind them or goes on. -/
theorem Spells.extend {pointers : Nat} {labels : List Octets}
    (h : Spells message pointers position limit labels next) (more : Octets)
    (hwider : limit ≤ wider) :
    Spells (message ++ more) pointers position wider labels next := by
  induction h generalizing wider with
  | zero hinside hzero =>
    refine .zero (Nat.lt_of_lt_of_le hinside hwider) ?_
    rwa [List.getElem?_append_left (List.getElem?_eq_some_iff.mp hzero).1]
  | label hlegal hstands hfits _ ih =>
    exact .label hlegal (hstands.extend more) (Nat.le_trans hfits hwider) (ih hwider)
  | pointer hoffset hstands hfits _ ih =>
    refine .pointer hoffset (hstands.extend more) (Nat.le_trans hfits hwider) (ih ?_)
    rw [List.length_append]
    exact Nat.le_add_right _ _

theorem Question.HeldIn.extend {question : Question}
    (h : question.HeldIn message limit position next) (more : Octets) (hwider : limit ≤ wider) :
    question.HeldIn (message ++ more) wider position next := by
  obtain ⟨hspells, hstands, hfits⟩ := h
  exact .intro (hspells.extend more hwider) (hstands.extend more) (Nat.le_trans hfits hwider)

/-- The octets that data is given are announced, and do not depend on what stands behind them. -/
theorem RecordData.HeldIn.extend {data : RecordData} {start stop : Nat}
    (h : data.HeldIn message start stop) (more : Octets) :
    data.HeldIn (message ++ more) start stop := by
  cases h with
  | a hstands hfits => exact .a (hstands.extend more) hfits
  | ns hspells => exact .ns (hspells.extend more (Nat.le_refl _))
  | cname hspells => exact .cname (hspells.extend more (Nat.le_refl _))
  | ptr hspells => exact .ptr (hspells.extend more (Nat.le_refl _))
  | mx hstands hfits hspells =>
    exact .mx (hstands.extend more) hfits (hspells.extend more (Nat.le_refl _))
  | raw hraw hstands => exact .raw hraw (hstands.extend more)

theorem Record.HeldIn.extend {record : Record}
    (h : record.HeldIn message limit position next) (more : Octets) (hwider : limit ≤ wider) :
    record.HeldIn (message ++ more) wider position next := by
  obtain ⟨⟨hname, hfixed, hfits⟩, htype, hinside, hdata⟩ := h
  have hhead : RecordHead.HeldIn (message ++ more) wider _ position _ :=
    ⟨hname.extend more hwider, hfixed.extend more, Nat.le_trans hfits hwider⟩
  exact .intro hhead htype (Nat.le_trans hinside hwider) (hdata.extend more)

theorem Consecutive.imp {α : Type} {heldIn heldInOther : α → Nat → Nat → Prop} {as : List α}
    (himp : ∀ {a position next}, heldIn a position next → heldInOther a position next)
    (h : Consecutive heldIn as position next) :
    Consecutive heldInOther as position next := by
  induction h with
  | nil position => exact .nil position
  | cons hheld _ ih => exact .cons (himp hheld) ih

theorem Packet.HeldIn.extend {packet : Packet} (h : packet.HeldIn message) (more : Octets) :
    packet.HeldIn (message ++ more) := by
  obtain ⟨hheader, hquestions, hanswers, hauthority, hadditional⟩ := h
  have hwider : message.length ≤ (message ++ more).length := by
    rw [List.length_append]
    exact Nat.le_add_right _ _
  refine .intro (hheader.extend more) (hquestions.imp ?_) (hanswers.imp ?_) (hauthority.imp ?_)
    (hadditional.imp ?_)
  · exact fun hquestion => hquestion.extend more hwider
  all_goals exact fun hrecord => hrecord.extend more hwider

end Extend

/-! ## Messages that end early -/

/-- From `position` on the message holds a part of the octets, and ends before they do. -/
structure Octets.CutAt (message : Octets) (position : Nat) (octets : Octets) : Prop where
  inside : position ≤ message.length
  leading : message.drop position <+: octets
  short : message.length < position + octets.length

namespace Octets.CutAt

variable {message : Octets} {position : Nat} {xs ys : Octets}

theorem of_leading (h : message <+: xs) (hne : message ≠ xs) : CutAt message 0 xs := by
  refine ⟨Nat.zero_le _, h, ?_⟩
  rw [Nat.zero_add]
  exact Nat.lt_of_le_of_ne h.length_le fun hlength => hne (h.eq_of_length hlength)

/-- What the message has left is less than the octets. -/
theorem left_lt (h : CutAt message position xs) : message.length - position < xs.length :=
  Nat.sub_lt_left_of_lt_add h.inside h.short

theorem not_nil : ¬CutAt message position [] := by
  rintro ⟨hinside, -, hshort⟩
  exact Nat.not_lt.mpr hinside hshort

/-- A message that ends inside two parts ends inside the first one, or holds it and ends inside the
second one. -/
theorem append_cases (h : CutAt message position (xs ++ ys)) :
    CutAt message position xs ∨
      StandsAt message position xs ∧ CutAt message (position + xs.length) ys := by
  obtain ⟨hinside, hleading, hshort⟩ := h
  have hxs : xs <+: xs ++ ys := List.prefix_append xs ys
  -- What is left and the first part both begin `xs ++ ys`, so the shorter one begins the other.
  rcases Nat.lt_or_ge message.length (position + xs.length) with hlt | hge
  · left
    refine ⟨hinside, List.prefix_of_prefix_length_le hleading hxs ?_, hlt⟩
    rw [List.length_drop]
    omega
  · right
    have hstands : xs <+: message.drop position := by
      refine List.prefix_of_prefix_length_le hxs hleading ?_
      rw [List.length_drop]
      omega
    refine ⟨hstands, hge, ?_, ?_⟩
    · obtain ⟨tail, htail⟩ := hstands
      rw [← htail, List.prefix_append_right_inj] at hleading
      rwa [← List.drop_drop, ← htail, List.drop_left]
    · rwa [List.length_append, ← Nat.add_assoc] at hshort

/-- Inside a single octet a message ends only in front of it. -/
theorem eq_length_of_singleton {c : UInt8} (h : CutAt message position [c]) :
    position = message.length :=
  Nat.le_antisymm h.inside (Nat.le_of_lt_succ h.short)

end Octets.CutAt

open Octets (CutAt)

/-- On a reader of the whole message, the step reports that octets are missing: more are needed at
some place than the message has behind it. -/
def Decoder.ReportsCut {α : Type} (step : Decoder α) (message : Octets) (position : Nat) : Prop :=
  ∃ place needed behind, message.length < place + needed ∧
    step (.placed message position message.length) =
      .error (.truncated place needed (message.length - place)) behind

/-- The step needs all of the octets for the value: it decodes them wherever they stand, and wherever
a message ends inside them it reports it. -/
structure Decoder.Needs {α : Type} (step : Decoder α) (octets : Octets) (a : α) : Prop where
  decodes : ∀ message, Decodes message step octets a
  cut : ∀ message position, CutAt message position octets → step.ReportsCut message position

namespace Decoder

variable {α β : Type} {xs ys : Octets} {a : α} {b : β}

theorem ReportsCut.bind {step : Decoder α} {message : Octets} {position : Nat}
    (h : step.ReportsCut message position) (next : α → Decoder β) :
    (step >>= next).ReportsCut message position := by
  obtain ⟨place, needed, behind, hshort, hstep⟩ := h
  exact ⟨place, needed, behind, hshort, bind_of_error hstep⟩

theorem needs_pure (a : α) : Needs (pure a) [] a where
  decodes := fun _ => decodes_pure a
  cut := fun _ _ hcut => absurd hcut CutAt.not_nil

/-- A message that ends behind what the first step decodes is left to the next one. -/
theorem Needs.bind {step : Decoder α} {next : α → Decoder β} (hstep : step.Needs xs a)
    (hnext : (next a).Needs ys b) :
    (step >>= next).Needs (xs ++ ys) b where
  decodes := fun message => (hstep.decodes message).bind (hnext.decodes message)
  cut := by
    intro message position hcut
    rcases hcut.append_cases with hcutFirst | ⟨hstands, hcutNext⟩
    · exact (hstep.cut message position hcutFirst).bind next
    · have hfirst := hstep.decodes message position _ hstands hcutNext.inside (Nat.le_refl _)
      obtain ⟨place, needed, behind, hshort, hfails⟩ := hnext.cut message _ hcutNext
      exact ⟨place, needed, behind, hshort, (bind_of_ok hfirst).trans hfails⟩

theorem Needs.map {step : Decoder α} (h : step.Needs xs a) (f : α → β) :
    Needs (do return f (← step)) xs (f a) where
  decodes := fun message => (h.decodes message).map f
  cut := fun message position hcut => (h.cut message position hcut).bind fun a => pure (f a)

/-! ### The primitive steps -/

theorem needs_octets (part : Octets) : (octets part.length).Needs part part where
  decodes := fun _ => decodes_octets part
  cut := fun _ position hcut =>
    ⟨position, part.length, _, hcut.short, if_neg (Nat.not_le.mpr hcut.left_lt)⟩

theorem needs_word16 (w : UInt16) : word16.Needs (Octets.ofWord16 w) w where
  decodes := fun _ => decodes_word16 w
  cut := ((needs_octets (Octets.ofWord16 w)).map _).cut

theorem needs_word32 (w : UInt32) : word32.Needs (Octets.ofWord32 w) w where
  decodes := fun _ => decodes_word32 w
  cut := ((needs_octets (Octets.ofWord32 w)).map _).cut

/-- A confined step is not begun before all of its octets are there. -/
theorem needs_within {step : Decoder α} {part : Octets}
    (h : ∀ message, DecodesWhole message step part a) :
    (within part.length step).Needs part a where
  decodes := fun message => (h message).within
  cut := fun _ position hcut =>
    ⟨position, part.length, _, hcut.short, within_of_lt hcut.left_lt⟩

/-- Of entries one behind the other, the first one that is not all there is reported. -/
theorem needs_section {step : Decoder α} {wire : α → Octets} {as : List α} {count : UInt16}
    (hcount : count.toNat = as.length) (h : ∀ a ∈ as, step.Needs (wire a) a) :
    (replicate count.toNat step).Needs (as.flatMap wire) as := by
  rw [hcount]
  clear hcount
  induction as with
  | nil => exact needs_pure []
  | cons a as ih =>
    obtain ⟨hhead, htail⟩ := List.forall_mem_cons.mp h
    rw [List.length_cons, List.flatMap_cons, replicate]
    exact hhead.bind ((ih htail).map (a :: ·))

end Decoder

/-! ### Names -/

namespace Reader

variable {message : Octets} {cursor window pointers position : Nat}

/-- Without a length octet, a walk reports that this octet is missing. -/
theorem nameLabels_at_end :
    (placed message cursor window).nameLabels pointers message.length message.length =
      .error (.truncated message.length 1 (message.length - message.length), message.length) := by
  rw [nameLabels, dif_neg (Nat.lt_irrefl _)]

/-- With a length octet but not all of its label, a walk reports that the label is missing. -/
theorem nameLabels_of_label_short {label : Octets} (hlegal : Labels.Legal label)
    (hlength : message[position]? = some (UInt8.ofNat label.length))
    (hshort : message.length < position + 1 + label.length) :
    (placed message cursor window).nameLabels pointers position message.length =
      .error (.truncated (position + 1) label.length (message.length - (position + 1)),
        position + 1) := by
  have hinside : position < message.length := (List.getElem?_eq_some_iff.mp hlength).1
  rw [nameLabels, dif_pos hinside, octetAt_placed hlength]
  simp only [if_neg hlegal.lengthOctet_ne_zero, if_pos hlegal.lengthOctet_lt,
    hlegal.toNat_lengthOctet, if_neg (Nat.not_le.mpr hshort)]

/-- A walk along labels that are cut short reports it. -/
theorem exists_nameLabels_of_cutAt {labels : List Octets}
    (hlegal : ∀ label ∈ labels, Labels.Legal label)
    (hcut : CutAt message position (labels.flatMap labelWire ++ [0])) :
    ∃ place needed stop, message.length < place + needed ∧
      (placed message cursor window).nameLabels pointers position message.length =
        .error (.truncated place needed (message.length - place), stop) := by
  induction labels generalizing position with
  | nil =>
    obtain rfl := hcut.eq_length_of_singleton
    exact ⟨_, _, _, Nat.lt_succ_self _, nameLabels_at_end⟩
  | cons label labels ih =>
    obtain ⟨hlegalLabel, hlegalRest⟩ := List.forall_mem_cons.mp hlegal
    rw [List.flatMap_cons, List.append_assoc] at hcut
    rcases hcut.append_cases with hcutLabel | ⟨hstands, hcutRest⟩
    · -- Either the length octet is missing, or a part of the label that it announces.
      have hcutOctets : CutAt message position ([UInt8.ofNat label.length] ++ label) := hcutLabel
      rcases hcutOctets.append_cases with hcutLength | ⟨hlength, hcutLabel⟩
      · obtain rfl := hcutLength.eq_length_of_singleton
        exact ⟨_, _, _, Nat.lt_succ_self _, nameLabels_at_end⟩
      · obtain ⟨hlength, -⟩ := Octets.standsAt_cons_iff.mp hlength
        exact ⟨_, _, _, hcutLabel.short,
          nameLabels_of_label_short hlegalLabel hlength hcutLabel.short⟩
    · obtain ⟨place, needed, stop, hshort, hrest⟩ := ih hlegalRest hcutRest
      refine ⟨place, needed, stop, hshort, ?_⟩
      rw [nameLabels_label hlegalLabel hstands hcutRest.inside, hrest]
      rfl

end Reader

namespace Decoder

theorem needs_name (name : Name) : Decoder.name.Needs name.wire name where
  decodes := fun _ => decodes_name .plain
  cut := by
    intro message position hcut
    have hwalk : ∃ place needed stop, message.length < place + needed ∧
        (Reader.placed message position message.length).nameLabels maxPointers
          (Reader.placed message position message.length).position
          (Reader.placed message position message.length).limit =
            .error (.truncated place needed (message.length - place), stop) :=
      Reader.exists_nameLabels_of_cutAt name.labels_legal hcut
    obtain ⟨place, needed, stop, hshort, hlabels⟩ := hwalk
    have htext : nameText (.placed message position message.length) =
        .error (.truncated place needed (message.length - place))
          (.placed message stop message.length) := by
      rw [nameText, hlabels]
      rfl
    exact ⟨place, needed, _, hshort, bind_of_error htext⟩

/-! ### Entries and packets -/

theorem needs_question (question : Question) : Decoder.question.Needs question.wire question := by
  rw [Question.wire, List.append_assoc]
  refine (needs_name question.name).bind ?_
  refine (needs_word16 question.type.code).bind ?_
  exact (needs_word16 question.recordClass.code).map fun code =>
    ({ question with recordClass := ⟨code⟩ } : Question)

theorem needs_record {record : Record} (hcanonical : record.data.Canonical)
    (hfits : record.data.Fits) :
    Decoder.record.Needs record.wire record := by
  have hdata : ∀ message, DecodesWhole message (recordData record.type) record.data.wire
      record.data :=
    fun message => decodesWhole_recordData hcanonical (record.data.wireForm_wire message)
  have hwithin := needs_within hdata
  have hlength : (UInt16.ofNat record.data.wireLength).toNat = record.data.wire.length := by
    rw [UInt16.toNat_ofNat_of_lt' (Nat.lt_succ_of_le hfits), RecordData.wireLength_eq]
  rw [← hlength] at hwithin
  rw [Record.wire]
  simp only [List.append_assoc]
  refine (needs_name record.name).bind ?_
  refine (needs_word16 record.type.code).bind ?_
  refine (needs_word16 record.recordClass.code).bind ?_
  refine (needs_word32 record.ttl).bind ?_
  refine (needs_word16 (UInt16.ofNat record.data.wireLength)).bind ?_
  exact hwithin.map fun data => ({ record with data } : Record)

theorem needs_header (header : Header) : Decoder.header.Needs header.wire header := by
  have hcontrol : Control.ofWord header.word = header.control :=
    Control.ofWord_word header.control
  rw [Header.wire]
  simp only [List.append_assoc]
  refine (needs_word16 header.id).bind ?_
  refine (needs_word16 header.word).bind ?_
  refine (needs_word16 header.questionCount).bind ?_
  refine (needs_word16 header.answerCount).bind ?_
  refine (needs_word16 header.authorityCount).bind ?_
  rw [hcontrol]
  exact (needs_word16 header.additionalCount).map fun count =>
    ({ header with additionalCount := count } : Header)

theorem needs_packet {packet : Packet} (h : packet.Encodable) :
    Decoder.packet.Needs packet.wire packet := by
  have hrecord {record : Record} (hmem : record ∈ packet.records) :
      Decoder.record.Needs record.wire record :=
    needs_record (h.canonical record hmem) (h.fits record hmem)
  have hcounted := h.counted
  rw [Packet.wire, Packet.records]
  simp only [List.flatMap_append, List.append_assoc]
  refine (needs_header packet.header).bind ?_
  refine (needs_section hcounted.questions fun question _ => needs_question question).bind ?_
  refine (needs_section hcounted.answers fun record hmem =>
    hrecord (Packet.mem_records_iff.mpr (.inl hmem))).bind ?_
  refine (needs_section hcounted.authority fun record hmem =>
    hrecord (Packet.mem_records_iff.mpr (.inr (.inl hmem)))).bind ?_
  exact (needs_section hcounted.additional fun record hmem =>
    hrecord (Packet.mem_records_iff.mpr (.inr (.inr hmem)))).map fun additional =>
      ({ packet with additional } : Packet)

end Decoder

/-! ## The main result -/

namespace Packet

/-- No message that ends inside the wire form of a packet is read. -/
theorem Encodable.exists_ofOctets_eq_truncated {packet : Packet} (h : packet.Encodable)
    {cut : Octets} (hcut : cut <+: packet.wire) (hne : cut ≠ packet.wire) :
    ∃ position needed, cut.length < position + needed ∧
      ofOctets cut = .error (.truncated position needed (cut.length - position)) := by
  obtain ⟨position, needed, behind, hshort, hread⟩ :=
    (Decoder.needs_packet h).cut cut 0 (.of_leading hcut hne)
  refine ⟨position, needed, hshort, ?_⟩
  rw [ofOctets, Reader.ofOctets_eq_placed, hread]

/-- A message that is read is read as the same packet from in front of any octets.  What was read is
written as a message of which no proper beginning is read: some octets are needed that are not there
any more, and this is what is reported. -/
theorem ofOctets_append_and_truncated {octets : Octets} {packet : Packet}
    (h : ofOctets octets = .ok packet) :
    (∀ trailing, ofOctets (octets ++ trailing) = .ok packet) ∧
      ∀ cut, cut <+: packet.wire → cut ≠ packet.wire →
        ∃ position needed, cut.length < position + needed ∧
          ofOctets cut = .error (.truncated position needed (cut.length - position)) := by
  obtain ⟨hcounted, hheld⟩ := ofOctets_eq_ok_iff.mp h
  constructor
  · intro trailing
    exact ofOctets_eq_ok_iff.mpr ⟨hcounted, hheld.extend trailing⟩
  · intro cut hcut hne
    exact (encodable_of_ofOctets_eq_ok h).exists_ofOctets_eq_truncated hcut hne

/-- A message with pointers is still read in front of two more octets, and the same packet, written
without pointers, is not read when its last octet is missing. -/
theorem ofOctets_append_and_truncated_aliasQuery :
    ofOctets (compressedAliasQuery ++ [77] ++ [9, 9]) = .ok aliasQuery ∧
      ∃ position needed available,
        ofOctets aliasQuery.wire.dropLast = .error (.truncated position needed available) := by
  have hencodable := aliasQuery_made.encodable aliasQuery_sectionsFit aliasQuery_canonical
  have hread := ofOctets_of_wireForm hencodable (aliasQuery_wireForm [77])
  obtain ⟨happend, htruncated⟩ := ofOctets_append_and_truncated hread
  refine ⟨happend [9, 9], ?_⟩
  obtain ⟨position, needed, -, hcut⟩ :=
    htruncated aliasQuery.wire.dropLast (List.dropLast_prefix _) (by decide)
  exact ⟨position, needed, _, hcut⟩

end Packet
end DnsResolver
