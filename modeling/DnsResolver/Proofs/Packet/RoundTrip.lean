import DnsResolver.Proofs.Packet.Compression

/-!
# Writing and reading packets

The wire form of a packet is one of its forms, so a packet that can be written without loss is read
back as it was, whatever stands behind it.  A packet made step by step comes back as it was exactly
if its data is canonical; otherwise no packet that agrees with it can come back.  A packet that was
read always comes back, so writing what was read is a normal form.
-/

namespace DnsResolver

/-! ## The wire form is a form -/

theorem Question.wireForm_wire (message : Octets) (question : Question) :
    question.WireForm message question.wire := by
  rw [Question.wire, List.append_assoc]
  exact .intro .plain

theorem RecordData.wireForm_wire (message : Octets) (data : RecordData) :
    data.WireForm message data.wire := by
  cases data with
  | a address => exact .a address
  | ns host => exact .ns .plain
  | cname target => exact .cname .plain
  | ptr target => exact .ptr .plain
  | mx preference exchange => exact .mx .plain
  | raw type data => exact .raw type data

theorem Record.wireForm_wire (message : Octets) (record : Record) :
    record.WireForm message record.wire := by
  rw [Record.wire, record.data.wireLength_eq]
  simp only [List.append_assoc]
  exact .intro .plain (record.data.wireForm_wire message)

theorem Packet.wireForm_wire (message : Octets) (packet : Packet) :
    packet.WireForm message packet.wire := by
  have hsection {α : Type} {form : α → Octets → Prop} {wire : α → Octets}
      (hwire : ∀ entry, form entry (wire entry)) (entries : List α) :
      List.Forall₂ form entries (entries.map wire) := by
    rw [List.forall₂_map_right_iff, List.forall₂_same]
    intro entry _
    exact hwire entry
  have h : packet.WireForm message _ :=
    .intro (hsection (Question.wireForm_wire message) packet.questions)
      (hsection (Record.wireForm_wire message) packet.answers)
      (hsection (Record.wireForm_wire message) packet.authority)
      (hsection (Record.wireForm_wire message) packet.additional)
  simpa only [Packet.wire, Packet.records, List.flatMap_def, List.map_append, List.flatten_append,
    List.append_assoc] using h

/-! ## Lengths -/

theorem Question.wireLength_eq (question : Question) :
    question.wireLength = question.wire.length := by
  rw [Question.wireLength, Question.wire, question.name.wireLength_eq]
  simp only [List.length_append, Octets.length_ofWord16]

theorem Record.wireLength_eq (record : Record) : record.wireLength = record.wire.length := by
  rw [Record.wireLength, Record.wire, record.name.wireLength_eq, record.data.wireLength_eq]
  simp only [List.length_append, Octets.length_ofWord16, Octets.length_ofWord32]

/-- The announced length of a packet is the length of its wire form. -/
theorem Packet.wireLength_eq (packet : Packet) : packet.wireLength = packet.wire.length := by
  have hsection {α : Type} {length : α → Nat} {wire : α → Octets}
      (hlength : ∀ entry, length entry = (wire entry).length) (entries : List α) :
      entries.foldr (length · + ·) 0 = (entries.flatMap wire).length := by
    induction entries with
    | nil => rfl
    | cons entry entries ih =>
      rw [List.foldr_cons, List.flatMap_cons, List.length_append, ih, hlength]
  rw [Packet.wireLength, Packet.wire, hsection Question.wireLength_eq,
    hsection Record.wireLength_eq]
  simp only [List.length_append]
  rfl

namespace Packet

/-! ## Coming back as it was -/

theorem Encodable.ofOctets_wire_append {packet : Packet} (h : packet.Encodable)
    (trailing : Octets) :
    ofOctets (packet.wire ++ trailing) = .ok packet :=
  ofOctets_of_wireForm h (packet.wireForm_wire _)

theorem Encodable.ofOctets_wire {packet : Packet} (h : packet.Encodable) :
    ofOctets packet.wire = .ok packet := by
  rw [← List.append_nil packet.wire]
  exact h.ofOctets_wire_append []

/-- A packet with one answer comes back, whatever its identifier is. -/
theorem ofOctets_wire_addAnswer {record : Record} (hmade : record.Made)
    (hcanonical : record.data.Canonical) (id : UInt16) :
    ofOctets ((empty id).addAnswer record).wire = .ok ((empty id).addAnswer record) := by
  have hpacket : ((empty id).addAnswer record).Made :=
    .step (.answer record) (.empty id) (List.forall_mem_singleton.mpr hmade)
  have hfit : ((empty id).addAnswer record).SectionsFit :=
    ⟨Nat.zero_le _, Nat.le_add_left 1 65534, Nat.zero_le _, Nat.zero_le _⟩
  exact (hpacket.encodable hfit (List.forall_mem_singleton.mpr hcanonical)).ofOctets_wire

/-! ## Not coming back -/

theorem exists_mem_of_sameAll {α : Type} {same : α → α → Bool} {xs ys : List α}
    (h : sameAll same xs ys = true) :
    ∀ y ∈ ys, ∃ x ∈ xs, same x y = true := by
  induction xs generalizing ys with
  | nil => cases ys <;> simp_all [sameAll]
  | cons x xs ih =>
    cases ys with
    | nil => simp
    | cons y ys =>
      simp only [sameAll, Bool.and_eq_true] at h
      intro z hz
      rcases List.mem_cons.mp hz with rfl | hz
      · exact ⟨x, List.mem_cons_self, h.1⟩
      · obtain ⟨w, hw, hsame⟩ := ih h.2 z hz
        exact ⟨w, List.mem_cons_of_mem x hw, hsame⟩

theorem exists_mem_records_of_same {a b : Packet} (h : a.same b = true) :
    ∀ record ∈ b.records, ∃ other ∈ a.records, other.same record = true := by
  simp only [same, Bool.and_eq_true] at h
  obtain ⟨⟨⟨-, hanswers⟩, hauthority⟩, hadditional⟩ := h
  intro record hrecord
  rcases mem_records_iff.mp hrecord with hmem | hmem | hmem
  · obtain ⟨other, hother, hsame⟩ := exists_mem_of_sameAll hanswers record hmem
    exact ⟨other, mem_records_iff.mpr (.inl hother), hsame⟩
  · obtain ⟨other, hother, hsame⟩ := exists_mem_of_sameAll hauthority record hmem
    exact ⟨other, mem_records_iff.mpr (.inr (.inl hother)), hsame⟩
  · obtain ⟨other, hother, hsame⟩ := exists_mem_of_sameAll hadditional record hmem
    exact ⟨other, mem_records_iff.mpr (.inr (.inr hother)), hsame⟩

/-- Data agrees with canonical data only if it is canonical itself. -/
theorem canonical_of_same {a b : RecordData} (h : a.same b = true) (ha : a.Canonical) :
    b.Canonical := by
  cases b with
  | raw type data =>
    cases a with
    | raw other octets =>
      simp only [RecordData.same, Bool.and_eq_true, beq_iff_eq] at h
      rw [← h.1]
      exact ha
    | _ => simp [RecordData.same] at h
  | _ => trivial

/-- No packet that was read agrees with a packet that has data in another form than readers give. -/
theorem same_eq_false_of_not_canonical {octets : Octets} {read packet : Packet}
    (hread : ofOctets octets = .ok read)
    (h : ∃ record ∈ packet.records, ¬record.data.Canonical) :
    read.same packet = false := by
  obtain ⟨record, hrecord, hnot⟩ := h
  by_contra hsame
  rw [Bool.not_eq_false] at hsame
  obtain ⟨other, hother, hagree⟩ := exists_mem_records_of_same hsame record hrecord
  have hcanonical := (encodable_of_ofOctets_eq_ok hread).canonical other hother
  rw [Record.same, Bool.and_eq_true] at hagree
  exact hnot (canonical_of_same hagree.2 hcanonical)

/-! ## The main results -/

/-- A packet made step by step counts its entries.  Written in front of any octets it is read back
as it was, every name in its own spelling, exactly if its data is canonical; otherwise whatever is
read does not even agree with it up to the case of letters. -/
theorem ofOctets_wire_append_iff {packet : Packet} (hmade : packet.Made)
    (hfit : packet.SectionsFit) (trailing : Octets) :
    packet.Counted ∧
      (ofOctets (packet.wire ++ trailing) = .ok packet ↔
        ∀ record ∈ packet.records, record.data.Canonical) ∧
      ((∃ record ∈ packet.records, ¬record.data.Canonical) →
        ∀ read, ofOctets (packet.wire ++ trailing) = .ok read → read.same packet = false) := by
  refine ⟨hmade.countedModulo.counted hfit, ⟨?_, ?_⟩, ?_⟩
  · intro hread
    exact (encodable_of_ofOctets_eq_ok hread).canonical
  · intro hcanonical
    exact (hmade.encodable hfit hcanonical).ofOctets_wire_append trailing
  · intro hnot read hread
    exact same_eq_false_of_not_canonical hread hnot

/-- An answer whose data is raw although its type is taken apart. -/
def rawAddress : Packet :=
  (empty 7).step (.answer (.ofData hostName 60 (.raw .a [192, 0, 2, 1])))

theorem rawAddress_made : rawAddress.Made := by
  have hraw : Record.ofRaw hostName 60 .a [192, 0, 2, 1] =
      .ok (.ofData hostName 60 (.raw .a [192, 0, 2, 1])) :=
    if_neg (by decide)
  exact .step _ (.empty 7) (List.forall_mem_singleton.mpr (.raw hraw))

/-- The first packet comes back from in front of two octets, and the second one does not. -/
theorem ofOctets_wire_append_aliasQuery_rawAddress :
    ofOctets (aliasQuery.wire ++ [9, 9]) = .ok aliasQuery ∧
      ofOctets (rawAddress.wire ++ [9, 9]) ≠ .ok rawAddress := by
  constructor
  · have h := ofOctets_wire_append_iff aliasQuery_made aliasQuery_sectionsFit [9, 9]
    exact h.2.1.mpr aliasQuery_canonical
  · have hfit : rawAddress.SectionsFit := by constructor <;> decide
    have h := ofOctets_wire_append_iff rawAddress_made hfit [9, 9]
    exact mt h.2.1.mp (by decide)

/-- Writing what was read is a normal form: it is read as the same packet, has the announced length,
and is written again as the same octets. -/
theorem normal_form_of_ofOctets {octets : Octets} {packet : Packet}
    (h : ofOctets octets = .ok packet) :
    ofOctets packet.wire = .ok packet ∧ packet.wire.length = packet.wireLength ∧
      (ofOctets packet.wire).map wire = .ok packet.wire := by
  have hagain := (encodable_of_ofOctets_eq_ok h).ofOctets_wire
  refine ⟨hagain, packet.wireLength_eq.symm, ?_⟩
  rw [hagain]
  rfl

/-- A message with pointers and an octet behind the packet is written in another way. -/
theorem normal_form_of_compressedAliasQuery :
    ofOctets (compressedAliasQuery ++ [77]) = .ok aliasQuery ∧
      ofOctets aliasQuery.wire = .ok aliasQuery ∧ aliasQuery.wire ≠ compressedAliasQuery := by
  have hencodable :=
    aliasQuery_made.encodable aliasQuery_sectionsFit aliasQuery_canonical
  have hread : ofOctets (compressedAliasQuery ++ [77]) = .ok aliasQuery :=
    ofOctets_of_wireForm hencodable (aliasQuery_wireForm [77])
  obtain ⟨hagain, -, -⟩ := normal_form_of_ofOctets hread
  exact ⟨hread, hagain, by decide⟩

end Packet
end DnsResolver
