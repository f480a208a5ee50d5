import DnsResolver.Proofs.Packet.Encodable
import DnsResolver.Proofs.Reader.Spelling

/-!
# Compressed messages

A message may write any of its names in any form, and still stands for the same packet.  A form of a
question, of a record or of a packet is its wire form with the names in it replaced by forms of
them, where the length field of a record counts the octets that its data takes in this form.  Every
form of a packet that can be written without loss is read as that packet.
-/

namespace DnsResolver

open Octets (StandsAt)

/-! ## Forms of entries -/

/-- The forms of a question in a message. -/
inductive Question.WireForm (message : Octets) (question : Question) : Octets → Prop where
  | intro {name : Octets} :
      question.name.WireForm message name →
      WireForm message question
        (name ++ (Octets.ofWord16 question.type.code ++
          Octets.ofWord16 question.recordClass.code))

/-- The forms of the data of a record in a message. -/
inductive RecordData.WireForm (message : Octets) : RecordData → Octets → Prop where
  | a (address : IPv4) : WireForm message (.a address) address.octets
  | ns {host : Name} {octets : Octets} :
      host.WireForm message octets → WireForm message (.ns host) octets
  | cname {target : Name} {octets : Octets} :
      target.WireForm message octets → WireForm message (.cname target) octets
  | ptr {target : Name} {octets : Octets} :
      target.WireForm message octets → WireForm message (.ptr target) octets
  | mx {preference : UInt16} {exchange : Name} {octets : Octets} :
      exchange.WireForm message octets →
      WireForm message (.mx preference exchange) (Octets.ofWord16 preference ++ octets)
  | raw (type : RecordType) (data : Octets) : WireForm message (.raw type data) data

/-- The forms of a record in a message; the length field counts the octets of the data. -/
inductive Record.WireForm (message : Octets) (record : Record) : Octets → Prop where
  | intro {name data : Octets} :
      record.name.WireForm message name → record.data.WireForm message data →
      WireForm message record
        (name ++ (Octets.ofWord16 record.type.code ++ (Octets.ofWord16 record.recordClass.code ++
          (Octets.ofWord32 record.ttl ++ (Octets.ofWord16 (UInt16.ofNat data.length) ++ data)))))

/-- The forms of a packet in a message: its header and forms of its entries in order. -/
inductive Packet.WireForm (message : Octets) (packet : Packet) : Octets → Prop where
  | intro {questions answers authority additional : List Octets} :
      List.Forall₂ (Question.WireForm message) packet.questions questions →
      List.Forall₂ (Record.WireForm message) packet.answers answers →
      List.Forall₂ (Record.WireForm message) packet.authority authority →
      List.Forall₂ (Record.WireForm message) packet.additional additional →
      WireForm message packet
        (packet.header.wire ++ (questions.flatten ++ (answers.flatten ++
          (authority.flatten ++ additional.flatten))))

/-! ## The data of every form fits its length field -/

theorem Name.WireForm.length_le {message octets : Octets} {name : Name}
    (h : name.WireForm message octets) :
    octets.length ≤ name.wire.length + 1 := by
  cases h with
  | plain => exact Nat.le_succ _
  | compressed hlabels =>
    rw [Name.wire, hlabels, List.flatMap_append]
    simp only [List.length_append, Name.length_pointerWire, List.length_singleton]
    omega

theorem RecordData.WireForm.length_le {message octets : Octets} {data : RecordData}
    (h : data.WireForm message octets) (hfits : data.Fits) :
    octets.length ≤ maxDataLength := by
  rw [maxDataLength]
  have hname {name : Name} {octets : Octets} (hform : name.WireForm message octets) :
      octets.length ≤ 256 :=
    Nat.le_trans hform.length_le (Nat.succ_le_succ name.length_wire_le)
  cases h with
  | a address => exact (by decide : 4 ≤ 65535)
  | ns hhost => exact Nat.le_trans (hname hhost) (by decide)
  | cname htarget => exact Nat.le_trans (hname htarget) (by decide)
  | ptr htarget => exact Nat.le_trans (hname htarget) (by decide)
  | mx hexchange =>
    have hlength := hname hexchange
    rw [List.length_append, Octets.length_ofWord16]
    omega
  | raw type data => exact hfits

/-! ## Reading a form -/

namespace IPv4

theorem octets_ofWord32 (w : UInt32) : (ofWord32 w).octets = Octets.ofWord32 w := by
  have hw : w.toNat < 4294967296 := w.toNat_lt
  simp only [octets, ofWord32, Octets.ofWord32, List.cons.injEq, and_true, true_and]
  refine ⟨?_, ?_, ?_⟩ <;> apply UInt8.toNat_inj.mp <;> simp only [UInt8.toNat_ofNat'] <;> omega

/-- An address is the address with the value that its octets spell. -/
theorem ofWord32_value (address : IPv4) :
    ofWord32 (UInt32.ofNat (Octets.value address.octets)) = address := by
  have hoctets :
      (ofWord32 (UInt32.ofNat (Octets.value address.octets))).octets = address.octets := by
    rw [octets_ofWord32]
    exact Octets.ofWord32_value address.a address.b address.c address.d
  cases hread : ofWord32 (UInt32.ofNat (Octets.value address.octets))
  rw [hread] at hoctets
  simp only [octets, List.cons.injEq, and_true] at hoctets
  obtain ⟨rfl, rfl, rfl, rfl⟩ := hoctets
  rfl

end IPv4

namespace Decoder

variable {message : Octets}

theorem decodes_question {question : Question} {octets : Octets}
    (h : question.WireForm message octets) :
    Decodes message Decoder.question octets question := by
  cases h with
  | intro hname =>
    refine (decodes_name hname).bind ?_
    refine (decodes_word16 question.type.code).bind ?_
    exact (decodes_word16 question.recordClass.code).map fun code =>
      ({ question with recordClass := ⟨code⟩ } : Question)

theorem decodes_address (address : IPv4) :
    Decodes message (do return .a (IPv4.ofWord32 (← word32))) address.octets
      (RecordData.a address) := by
  have hword : Decodes message word32
      (Octets.ofWord32 (UInt32.ofNat (Octets.value address.octets)))
      (UInt32.ofNat (Octets.value address.octets)) :=
    decodes_word32 _
  have h := hword.map fun w => RecordData.a (IPv4.ofWord32 w)
  rw [IPv4.ofWord32_value] at h
  rwa [← IPv4.octets_ofWord32, IPv4.ofWord32_value] at h

/-- In a window of its own, a form of canonical data decodes to the data. -/
theorem decodesWhole_recordData {data : RecordData} {octets : Octets}
    (hcanonical : data.Canonical) (h : data.WireForm message octets) :
    DecodesWhole message (recordData data.type) octets data := by
  cases h with
  | a address => exact (decodes_address address).whole
  | ns hhost => exact ((decodes_name hhost).map RecordData.ns).whole
  | cname htarget => exact ((decodes_name htarget).map RecordData.cname).whole
  | ptr htarget => exact ((decodes_name htarget).map RecordData.ptr).whole
  | mx hexchange =>
    exact ((decodes_word16 _).bind ((decodes_name hexchange).map (RecordData.mx _))).whole
  | raw type =>
    simp only [RecordData.Canonical, RecordType.interpreted, List.mem_cons, List.not_mem_nil,
      or_false, not_or] at hcanonical
    obtain ⟨ha, hns, hcname, hptr, hmx⟩ := hcanonical
    rw [RecordData.type, recordData, if_neg ha, if_neg hns, if_neg hcname, if_neg hptr, if_neg hmx]
    exact (decodesWhole_rest octets).map (RecordData.raw type)

theorem decodes_record {record : Record} {octets : Octets} (hcanonical : record.data.Canonical)
    (hfits : record.data.Fits) (h : record.WireForm message octets) :
    Decodes message Decoder.record octets record := by
  cases h with
  | @intro name data hname hdata =>
    -- The length field counts the octets of this form, which need not be those of the wire form.
    have hlength : (UInt16.ofNat data.length).toNat = data.length := by
      have hle : data.length ≤ 65535 := hdata.length_le hfits
      rw [UInt16.toNat_ofNat', Nat.mod_eq_of_lt (Nat.lt_succ_of_le hle)]
    have hwithin := (decodesWhole_recordData hcanonical hdata).within
    rw [← hlength] at hwithin
    refine (decodes_name hname).bind ?_
    refine (decodes_word16 record.type.code).bind ?_
    refine (decodes_word16 record.recordClass.code).bind ?_
    refine (decodes_word32 record.ttl).bind ?_
    refine (decodes_word16 (UInt16.ofNat data.length)).bind ?_
    exact hwithin.map fun data => ({ record with data } : Record)

theorem decodes_header (header : Header) :
    Decodes message Decoder.header header.wire header := by
  have hcontrol : Control.ofWord header.word = header.control :=
    Control.ofWord_word header.control
  rw [Header.wire]
  simp only [List.append_assoc]
  refine (decodes_word16 header.id).bind ?_
  refine (decodes_word16 header.word).bind ?_
  refine (decodes_word16 header.questionCount).bind ?_
  refine (decodes_word16 header.answerCount).bind ?_
  refine (decodes_word16 header.authorityCount).bind ?_
  rw [hcontrol]
  exact (decodes_word16 header.additionalCount).map fun count =>
    ({ header with additionalCount := count } : Header)

/-- A section of as many entries as its count decodes entry by entry. -/
theorem decodes_section {α : Type} {step : Decoder α} {form : α → Octets → Prop} {count : UInt16}
    {entries : List α} {parts : List Octets} (hcount : count.toNat = entries.length)
    (hstep : ∀ entry ∈ entries, ∀ part, form entry part → Decodes message step part entry)
    (h : List.Forall₂ form entries parts) :
    Decodes message (replicate count.toNat step) parts.flatten entries := by
  rw [hcount]
  apply decodes_replicate
  rw [List.forall₂_iff_zip] at h ⊢
  refine ⟨h.1, fun {entry part} hzip => ?_⟩
  exact hstep entry (List.of_mem_zip hzip).1 part (h.2 hzip)

theorem decodes_packet {packet : Packet} {octets : Octets} (hencodable : packet.Encodable)
    (h : packet.WireForm message octets) :
    Decodes message Decoder.packet octets packet := by
  have hrecord : ∀ record ∈ packet.records, ∀ part, record.WireForm message part →
      Decodes message Decoder.record part record := by
    intro record hrecord part hpart
    have hcanonical := hencodable.canonical record hrecord
    exact decodes_record hcanonical (hencodable.fits record hrecord) hpart
  have hcounted := hencodable.counted
  cases h with
  | intro hquestions hanswers hauthority hadditional =>
    refine (decodes_header packet.header).bind ?_
    refine (decodes_section hcounted.questions
      (fun question _ part hpart => decodes_question hpart) hquestions).bind ?_
    refine (decodes_section hcounted.answers (fun record hmem =>
      hrecord record (Packet.mem_records_iff.mpr (.inl hmem))) hanswers).bind ?_
    refine (decodes_section hcounted.authority (fun record hmem =>
      hrecord record (Packet.mem_records_iff.mpr (.inr (.inl hmem)))) hauthority).bind ?_
    exact (decodes_section hcounted.additional (fun record hmem =>
      hrecord record (Packet.mem_records_iff.mpr (.inr (.inr hmem)))) hadditional).map
        fun additional => ({ packet with additional } : Packet)

end Decoder

namespace Packet

/-- A form of a packet in front of a message is read as the packet. -/
theorem ofOctets_of_wireForm {packet : Packet} {octets trailing : Octets}
    (hencodable : packet.Encodable) (h : packet.WireForm (octets ++ trailing) octets) :
    ofOctets (octets ++ trailing) = .ok packet := by
  have hlength : octets.length ≤ (octets ++ trailing).length := by
    rw [List.length_append]
    exact Nat.le_add_right _ _
  have hread := Decoder.decodes_packet hencodable h 0 (octets ++ trailing).length
    (Octets.standsAt_zero octets trailing) (by rwa [Nat.zero_add]) (Nat.le_refl _)
  rw [ofOctets, Reader.ofOctets_eq_placed, hread]

/-- Compression does not change what a message stands for: wherever the names of a packet are cut
and wherever their pointers lead, the message is read as that packet. -/
theorem ofOctets_of_compressed {packet : Packet} {message : Octets} (hmade : packet.Made)
    (hfit : packet.SectionsFit) (hcanonical : ∀ record ∈ packet.records, record.data.Canonical)
    (hform : packet.WireForm message message) :
    ofOctets message = .ok packet := by
  have hencodable := hmade.encodable hfit hcanonical
  have hform' : packet.WireForm (message ++ []) message := by rwa [List.append_nil]
  have hread := ofOctets_of_wireForm hencodable hform'
  rwa [List.append_nil] at hread

/-- The name `w.x`. -/
def aliasName : Name :=
  ⟨[119, 46, 120], by decide⟩

/-- The name `y.x`. -/
def hostName : Name :=
  ⟨[121, 46, 120], by decide⟩

/-- A question about `w.x`, with an answer that makes it an alias of `y.x`. -/
def aliasQuery : Packet :=
  ((query 7).step (.question ⟨aliasName, .a, .internet⟩)).step
    (.answer (.ofData aliasName 60 (.cname hostName)))

/-- The same packet, with pointers to where `w.x` and `x` stand in the question. -/
def compressedAliasQuery : Octets :=
  [0, 7, 1, 0, 0, 1, 0, 1, 0, 0, 0, 0, 1, 119, 1, 120, 0, 0, 1, 0, 1, 192, 12, 0, 5, 0, 1, 0, 0, 0,
    60, 0, 4, 1, 121, 192, 14]

theorem aliasQuery_made : aliasQuery.Made := by
  refine .step _ (.step _ (.query 7) ?_) ?_
  · exact List.forall_mem_nil _
  · exact List.forall_mem_singleton.mpr (.cname aliasName 60 hostName)

theorem aliasQuery_sectionsFit : aliasQuery.SectionsFit := by
  constructor <;> decide

theorem aliasQuery_canonical : ∀ record ∈ aliasQuery.records, record.data.Canonical := by
  decide

theorem aliasQuery_wireForm (trailing : Octets) :
    aliasQuery.WireForm (compressedAliasQuery ++ trailing) compressedAliasQuery := by
  have hlength {n : Nat} (hn : n ≤ 37) : n ≤ (compressedAliasQuery ++ trailing).length := by
    rw [List.length_append]
    exact Nat.le_trans hn (Nat.le_add_right 37 trailing.length)
  have hx : Spells (compressedAliasQuery ++ trailing) (maxPointers - 1) 14
      (compressedAliasQuery ++ trailing).length [[120]] 17 := by
    refine .label ⟨by decide, by decide, List.forall_mem_singleton.mpr rfl⟩ ⟨_, rfl⟩ ?_ ?_
    · exact hlength (by decide)
    · exact .zero (hlength (by decide)) rfl
  have hwx : Spells (compressedAliasQuery ++ trailing) (maxPointers - 1) 12
      (compressedAliasQuery ++ trailing).length [[119], [120]] 17 := by
    refine .label ⟨by decide, by decide, List.forall_mem_singleton.mpr rfl⟩ ⟨_, rfl⟩ ?_ hx
    exact hlength (by decide)
  have halias : aliasName.labels = [] ++ [[119], [120]] := by decide
  have hhost : hostName.labels = [[121]] ++ [[120]] := by decide
  have howner : aliasName.WireForm (compressedAliasQuery ++ trailing) _ :=
    .compressed halias (by decide) hwx
  have htarget : hostName.WireForm (compressedAliasQuery ++ trailing) _ :=
    .compressed hhost (by decide) hx
  have h : aliasQuery.WireForm (compressedAliasQuery ++ trailing) _ :=
    .intro (.cons (.intro .plain) .nil) (.cons (.intro howner (.cname htarget)) .nil) .nil .nil
  exact h

theorem ofOctets_compressedAliasQuery : ofOctets compressedAliasQuery = .ok aliasQuery := by
  have hform := aliasQuery_wireForm []
  rw [List.append_nil] at hform
  exact ofOctets_of_compressed aliasQuery_made aliasQuery_sectionsFit aliasQuery_canonical hform

end Packet
end DnsResolver
