import Mathlib.Tactic.SplitIfs
import DnsResolver.Packet.Basic
import DnsResolver.Proofs.Name.Labels
import DnsResolver.Proofs.Reader.Decoding

/-!
# Packets that can be written without loss

A packet can be written without loss if its header counts its entries, and the data of every record
fits its length field and is taken apart whenever its type says so.  Every packet that was read is
of this kind.  A packet made step by step counts its entries and has data that fits, but may hold
raw data under a type whose data is taken apart.
-/

namespace DnsResolver

namespace RecordType

/-- The types whose data is taken apart. -/
def interpreted : List RecordType :=
  [.a, .ns, .cname, .ptr, .mx]

end RecordType

namespace RecordData

/-- Whether the data is held in the only form that a reader gives to data of its type. -/
def Canonical : RecordData → Prop
  | raw type _ => type ∉ RecordType.interpreted
  | _ => True

instance : DecidablePred Canonical := fun data => by
  cases data <;> unfold Canonical <;> infer_instance

/-- Whether the length field of a record can hold the length of the data. -/
def Fits (data : RecordData) : Prop :=
  data.wireLength ≤ maxDataLength

/-- The announced length of data is the length of its wire form. -/
theorem wireLength_eq (data : RecordData) : data.wireLength = data.wire.length := by
  cases data with
  | a address => rfl
  | ns host => exact host.wireLength_eq
  | cname target => exact target.wireLength_eq
  | ptr target => exact target.wireLength_eq
  | mx preference exchange =>
    rw [wireLength, wire, List.length_append, Octets.length_ofWord16, exchange.wireLength_eq]
  | raw type data => rfl

/-- Data fits unless it is raw and too long. -/
theorem fits_of_forall_raw {data : RecordData}
    (h : ∀ type octets, data = raw type octets → octets.length ≤ maxDataLength) :
    data.Fits := by
  rw [Fits, wireLength_eq, maxDataLength]
  have hname (name : Name) : name.wire.length ≤ 255 := name.length_wire_le
  cases data with
  | a address => exact (by decide : 4 ≤ 65535)
  | ns host => exact Nat.le_trans (hname host) (by decide)
  | cname target => exact Nat.le_trans (hname target) (by decide)
  | ptr target => exact Nat.le_trans (hname target) (by decide)
  | mx preference exchange =>
    have hexchange := hname exchange
    rw [wire, List.length_append, Octets.length_ofWord16]
    omega
  | raw type octets => exact h type octets rfl

end RecordData

namespace Packet

/-- The header counts the entries of each section. -/
structure Counted (packet : Packet) : Prop where
  questions : packet.header.questionCount.toNat = packet.questions.length
  answers : packet.header.answerCount.toNat = packet.answers.length
  authority : packet.header.authorityCount.toNat = packet.authority.length
  additional : packet.header.additionalCount.toNat = packet.additional.length

/-- No section has more entries than its count can hold. -/
structure SectionsFit (packet : Packet) : Prop where
  questions : packet.questions.length ≤ 65535
  answers : packet.answers.length ≤ 65535
  authority : packet.authority.length ≤ 65535
  additional : packet.additional.length ≤ 65535

/-- A packet that the wire holds without loss. -/
structure Encodable (packet : Packet) : Prop where
  counted : packet.Counted
  canonical : ∀ record ∈ packet.records, record.data.Canonical
  fits : ∀ record ∈ packet.records, record.data.Fits

theorem mem_records_iff {packet : Packet} {record : Record} :
    record ∈ packet.records ↔
      record ∈ packet.answers ∨ record ∈ packet.authority ∨ record ∈ packet.additional := by
  simp [records]

end Packet

/-! ## Packets made step by step -/

namespace Record

/-- The records that can be made: those of the Internet class with data of an interpreted type, or
with raw data that fits. -/
inductive Made : Record → Prop where
  | a (name : Name) (ttl : UInt32) (address : IPv4) : Made (ofData name ttl (.a address))
  | ns (name : Name) (ttl : UInt32) (host : Name) : Made (ofData name ttl (.ns host))
  | cname (name : Name) (ttl : UInt32) (target : Name) : Made (ofData name ttl (.cname target))
  | ptr (name : Name) (ttl : UInt32) (target : Name) : Made (ofData name ttl (.ptr target))
  | mx (name : Name) (ttl : UInt32) (preference : UInt16) (exchange : Name) :
      Made (ofData name ttl (.mx preference exchange))
  | raw {name : Name} {ttl : UInt32} {type : RecordType} {data : Octets} {record : Record} :
      ofRaw name ttl type data = .ok record → Made record

theorem Made.fits {record : Record} (h : record.Made) : record.data.Fits := by
  apply RecordData.fits_of_forall_raw
  intro type octets hraw
  cases h with
  | @raw name ttl type' data record hmade =>
    rw [ofRaw] at hmade
    split at hmade
    · cases hmade
    next hlength =>
      cases hmade
      cases hraw
      exact Nat.le_of_not_lt hlength
  | _ => cases hraw

end Record

namespace Packet

/-- The records that a step adds. -/
def Step.records : Step → List Record
  | .answer record | .authority record | .additional record => [record]
  | .answers records => records
  | _ => []

/-- The packets that can be made: from an empty packet, a query, or a reply to any packet, by steps
that add records which can be made. -/
inductive Made : Packet → Prop where
  | empty (id : UInt16) : Made (empty id)
  | query (id : UInt16) : Made (query id)
  | respond (request : Packet) (code : ResponseCode) : Made (request.respond code)
  | step {packet : Packet} (step : Step) :
      Made packet → (∀ record ∈ step.records, record.Made) → Made (packet.step step)

/-- The counts of a packet that is being made are right as far as 16 bits can be. -/
structure CountedModulo (packet : Packet) : Prop where
  questions : packet.header.questionCount = UInt16.ofNat packet.questions.length
  answers : packet.header.answerCount = UInt16.ofNat packet.answers.length
  authority : packet.header.authorityCount = UInt16.ofNat packet.authority.length
  additional : packet.header.additionalCount = UInt16.ofNat packet.additional.length

/-- No step leaves the counts behind. -/
theorem CountedModulo.step {packet : Packet} (h : packet.CountedModulo) (step : Step) :
    (packet.step step).CountedModulo := by
  obtain ⟨hquestions, hanswers, hauthority, hadditional⟩ := h
  have hsucc (n : Nat) : UInt16.ofNat n + 1 = UInt16.ofNat (n + 1) := by
    rw [UInt16.ofNat_add]
    rfl
  cases step with
  | question question =>
    refine ⟨?_, hanswers, hauthority, hadditional⟩
    simp only [Packet.step, addQuestion, List.length_append, List.length_singleton, hquestions,
      hsucc]
  | answer record =>
    refine ⟨hquestions, ?_, hauthority, hadditional⟩
    simp only [Packet.step, addAnswer, List.length_append, List.length_singleton, hanswers, hsucc]
  | answers records =>
    refine ⟨hquestions, ?_, hauthority, hadditional⟩
    simp only [Packet.step, addAnswers, List.length_append, hanswers, UInt16.ofNat_add]
  | authority record =>
    refine ⟨hquestions, hanswers, ?_, hadditional⟩
    simp only [Packet.step, addAuthority, List.length_append, List.length_singleton, hauthority,
      hsucc]
  | additional record =>
    refine ⟨hquestions, hanswers, hauthority, ?_⟩
    simp only [Packet.step, addAdditional, List.length_append, List.length_singleton, hadditional,
      hsucc]
  | _ => exact ⟨hquestions, hanswers, hauthority, hadditional⟩

theorem Made.countedModulo {packet : Packet} (h : packet.Made) : packet.CountedModulo := by
  induction h with
  | empty id => exact ⟨rfl, rfl, rfl, rfl⟩
  | query id => exact ⟨rfl, rfl, rfl, rfl⟩
  | respond request code => exact ⟨rfl, rfl, rfl, rfl⟩
  | step step _ _ ih => exact ih.step step

/-- Counts are exact while they can be. -/
theorem CountedModulo.counted {packet : Packet} (h : packet.CountedModulo)
    (hfit : packet.SectionsFit) :
    packet.Counted := by
  have hexact {n : Nat} {count : UInt16} (hcount : count = UInt16.ofNat n) (hn : n ≤ 65535) :
      count.toNat = n := by
    rw [hcount, UInt16.toNat_ofNat', Nat.mod_eq_of_lt (Nat.lt_succ_of_le hn)]
  exact ⟨hexact h.questions hfit.questions, hexact h.answers hfit.answers,
    hexact h.authority hfit.authority, hexact h.additional hfit.additional⟩

theorem mem_records_step {packet : Packet} {step : Step} {record : Record}
    (h : record ∈ (packet.step step).records) :
    record ∈ packet.records ∨ record ∈ step.records := by
  cases step <;>
    simp only [Packet.step, addQuestion, addAnswer, addAnswers, addAuthority, addAdditional,
      Step.records, mem_records_iff, List.mem_append, List.mem_singleton,
      List.not_mem_nil] at h ⊢ <;>
    tauto

theorem Made.forall_mem_records {packet : Packet} (h : packet.Made) :
    ∀ record ∈ packet.records, record.Made := by
  induction h with
  | empty id => simp [records, Packet.empty]
  | query id => simp [records, Packet.query]
  | respond request code => simp [records, Packet.respond]
  | step step _ hrecords ih =>
    intro record hrecord
    rcases mem_records_step hrecord with hold | hnew
    · exact ih record hold
    · exact hrecords record hnew

theorem Made.encodable {packet : Packet} (h : packet.Made) (hfit : packet.SectionsFit)
    (hcanonical : ∀ record ∈ packet.records, record.data.Canonical) :
    packet.Encodable where
  counted := h.countedModulo.counted hfit
  canonical := hcanonical
  fits := fun record hrecord => (h.forall_mem_records record hrecord).fits

end Packet

/-! ## Packets that were read -/

namespace Decoder

theorem canonical_and_fits_of_recordData_eq_ok {type : RecordType} {window behind : Reader}
    {data : RecordData} (h : recordData type window = .ok data behind)
    (hwindow : window.remaining ≤ maxDataLength) :
    data.Canonical ∧ data.Fits := by
  have hinterpreted {other : RecordData} (hother : ∀ type octets, other ≠ .raw type octets) :
      other.Canonical ∧ other.Fits := by
    constructor
    · cases other with
      | raw type octets => exact absurd rfl (hother type octets)
      | _ => trivial
    · exact RecordData.fits_of_forall_raw fun type octets heq => absurd heq (hother type octets)
  unfold recordData at h
  split_ifs at h with ha hns hcname hptr hmx
  · obtain ⟨address, rfl⟩ := exists_of_map_eq_ok h
    exact hinterpreted (by simp)
  · obtain ⟨host, rfl⟩ := exists_of_map_eq_ok h
    exact hinterpreted (by simp)
  · obtain ⟨target, rfl⟩ := exists_of_map_eq_ok h
    exact hinterpreted (by simp)
  · obtain ⟨target, rfl⟩ := exists_of_map_eq_ok h
    exact hinterpreted (by simp)
  · obtain ⟨preference, _, _, hexchange⟩ := bind_eq_ok_iff.mp h
    obtain ⟨exchange, rfl⟩ := exists_of_map_eq_ok hexchange
    exact hinterpreted (by simp)
  · obtain ⟨octets, _, hrest, hpure⟩ := bind_eq_ok_iff.mp h
    obtain ⟨rfl, -⟩ := pure_eq_ok_iff.mp hpure
    constructor
    · simp [RecordData.Canonical, RecordType.interpreted, ha, hns, hcname, hptr, hmx]
    · exact Nat.le_trans (length_of_rest_eq_ok hrest) hwindow

theorem canonical_and_fits_of_record_eq_ok {reader behind : Reader} {record : Record}
    (h : Decoder.record reader = .ok record behind) :
    record.data.Canonical ∧ record.data.Fits := by
  obtain ⟨name, _, _, h⟩ := bind_eq_ok_iff.mp h
  obtain ⟨type, _, _, h⟩ := bind_eq_ok_iff.mp h
  obtain ⟨recordClass, _, _, h⟩ := bind_eq_ok_iff.mp h
  obtain ⟨ttl, _, _, h⟩ := bind_eq_ok_iff.mp h
  obtain ⟨length, _, _, h⟩ := bind_eq_ok_iff.mp h
  obtain ⟨data, _, hdata, hpure⟩ := bind_eq_ok_iff.mp h
  obtain ⟨rfl, -⟩ := pure_eq_ok_iff.mp hpure
  obtain ⟨window, _, hwindow, hstep⟩ := exists_of_within_eq_ok hdata
  refine canonical_and_fits_of_recordData_eq_ok hstep ?_
  rw [hwindow]
  exact Nat.le_of_lt_succ length.toNat_lt

/-- A packet is read only by reading its header and its sections one behind the other. -/
theorem exists_of_packet_eq_ok {reader behind : Reader} {packet : Packet}
    (h : Decoder.packet reader = .ok packet behind) :
    ∃ atQuestions atAnswers atAuthority atAdditional,
      Decoder.header reader = .ok packet.header atQuestions ∧
        replicate packet.header.questionCount.toNat question atQuestions =
          .ok packet.questions atAnswers ∧
        replicate packet.header.answerCount.toNat record atAnswers =
          .ok packet.answers atAuthority ∧
        replicate packet.header.authorityCount.toNat record atAuthority =
          .ok packet.authority atAdditional ∧
        replicate packet.header.additionalCount.toNat record atAdditional =
          .ok packet.additional behind := by
  obtain ⟨header, atQuestions, hheader, h⟩ := bind_eq_ok_iff.mp h
  obtain ⟨questions, atAnswers, hquestions, h⟩ := bind_eq_ok_iff.mp h
  obtain ⟨answers, atAuthority, hanswers, h⟩ := bind_eq_ok_iff.mp h
  obtain ⟨authority, atAdditional, hauthority, h⟩ := bind_eq_ok_iff.mp h
  obtain ⟨additional, _, hadditional, hpure⟩ := bind_eq_ok_iff.mp h
  obtain ⟨rfl, rfl⟩ := pure_eq_ok_iff.mp hpure
  exact ⟨atQuestions, atAnswers, atAuthority, atAdditional, hheader, hquestions, hanswers,
    hauthority, hadditional⟩

theorem encodable_of_packet_eq_ok {reader behind : Reader} {packet : Packet}
    (h : Decoder.packet reader = .ok packet behind) :
    packet.Encodable := by
  obtain ⟨_, _, _, _, -, hquestions, hanswers, hauthority, hadditional⟩ :=
    exists_of_packet_eq_ok h
  have hrecords : ∀ record ∈ packet.records, record.data.Canonical ∧ record.data.Fits := by
    intro record hrecord
    rcases Packet.mem_records_iff.mp hrecord with hmem | hmem | hmem
    · exact forall_mem_of_replicate_eq_ok canonical_and_fits_of_record_eq_ok hanswers record hmem
    · exact forall_mem_of_replicate_eq_ok canonical_and_fits_of_record_eq_ok hauthority record hmem
    · exact forall_mem_of_replicate_eq_ok canonical_and_fits_of_record_eq_ok hadditional record hmem
  have hcounted : packet.Counted := by
    constructor
    · exact (length_of_replicate_eq_ok hquestions).symm
    · exact (length_of_replicate_eq_ok hanswers).symm
    · exact (length_of_replicate_eq_ok hauthority).symm
    · exact (length_of_replicate_eq_ok hadditional).symm
  refine ⟨hcounted, ?_, ?_⟩
  · intro record hrecord
    exact (hrecords record hrecord).1
  · intro record hrecord
    exact (hrecords record hrecord).2

end Decoder

namespace Packet

theorem exists_of_ofOctets_eq_ok {octets : Octets} {packet : Packet}
    (h : ofOctets octets = .ok packet) :
    ∃ behind, Decoder.packet (.ofOctets octets) = .ok packet behind := by
  rw [ofOctets] at h
  split at h
  next read behind hread =>
    cases h
    exact ⟨behind, hread⟩
  next => cases h

/-- Every packet that was read can be written without loss. -/
theorem encodable_of_ofOctets_eq_ok {octets : Octets} {packet : Packet}
    (h : ofOctets octets = .ok packet) :
    packet.Encodable := by
  obtain ⟨behind, hread⟩ := exists_of_ofOctets_eq_ok h
  exact Decoder.encodable_of_packet_eq_ok hread

end Packet
end DnsResolver
