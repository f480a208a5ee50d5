import DnsResolver.Proofs.Name.Subdomains
import DnsResolver.Proofs.Packet.Compression
import DnsResolver.Proofs.Reader.Grammar

/-!
# The grammar of messages

A message is read as a packet exactly where it holds the packet: its header, and then its entries one
behind the other, as many as the header counts.  A question is a spelled name and two codes.  A
record is a spelled name, ten octets of which the last two announce a length, and as many octets of
data, which may leave some of them unused.
-/

namespace DnsResolver

open Octets (StandsAt ofWord16 ofWord32)

/-! ## Names and words -/

theorem Spells.legal {message : Octets} {pointers position limit behind : Nat}
    {labels : List Octets} (h : Spells message pointers position limit labels behind) :
    ∀ label ∈ labels, Labels.Legal label := by
  induction h with
  | zero => exact List.forall_mem_nil _
  | label hlegal _ _ _ ih => exact List.forall_mem_cons.mpr ⟨hlegal, ih⟩
  | pointer _ _ _ _ ih => exact ih

/-- Legal labels are the labels of the name that they make. -/
theorem Name.labels_of_ofOctets_join {labels : List Octets} {name : Name}
    (hlegal : ∀ label ∈ labels, Labels.Legal label)
    (h : ofOctets (Labels.join labels) = .ok name) :
    name.labels = labels := by
  by_cases hempty : labels = []
  · subst hempty
    exact labels_of_text_eq_nil (ofOctets_eq_ok_iff.mp h)
  · have hsplit : Labels.split (Labels.join labels) = labels :=
      Labels.split_join hempty fun label hlabel => (hlegal label hlabel).dot_not_mem
    have hpieces : [] ∉ labels := fun hmem => Nat.lt_irrefl 0 (hlegal [] hmem).length_pos
    -- A final full stop, or no text at all, would make an empty label.
    have hlast : (Labels.join labels).getLast? ≠ some Octets.dot := by
      intro hlast
      obtain ⟨front, hfront⟩ := List.getLast?_eq_some_iff.mp hlast
      rw [← hsplit, hfront, Labels.split_append_dot] at hpieces
      exact hpieces (List.mem_append_right _ List.mem_cons_self)
    have hne : Labels.join labels ≠ [] := by
      intro hnil
      rw [← hsplit, hnil] at hpieces
      exact hpieces List.mem_cons_self
    have htext : name.text = Labels.join labels :=
      (ofOctets_eq_ok_iff.mp h).trans (if_neg hlast)
    rw [labels_of_text_ne_nil (htext ▸ hne), htext, hsplit]

namespace Decoder

variable {message : Octets} {position limit : Nat} {behind : Reader}

/-- A name is read exactly where its labels are spelled. -/
theorem name_eq_ok_iff (hlimit : limit ≤ message.length) {name : Name} :
    Decoder.name (.placed message position limit) = .ok name behind ↔
      ∃ next, Spells message maxPointers position limit name.labels next ∧
        behind = .placed message next limit := by
  constructor
  · intro h
    obtain ⟨text, between, htext, hname⟩ := bind_eq_ok_iff.mp h
    obtain ⟨labels, next, hspells, rfl, rfl⟩ := (nameText_eq_ok_iff hlimit).mp htext
    cases hmade : Name.ofOctets (Labels.join labels) with
    | error fault =>
      rw [hmade] at hname
      cases hname
    | ok made =>
      rw [hmade] at hname
      obtain ⟨rfl, rfl⟩ := pure_eq_ok_iff.mp hname
      rw [Name.labels_of_ofOctets_join hspells.legal hmade]
      exact ⟨next, hspells, rfl⟩
  · rintro ⟨next, hspells, rfl⟩
    have htext : nameText (.placed message position limit) =
        .ok name.text (.placed message next limit) :=
      (nameText_eq_ok_iff hlimit).mpr ⟨name.labels, next, hspells, name.join_labels.symm, rfl⟩
    rw [Decoder.name, bind_of_ok htext, Name.ofOctets_text]
    rfl

theorem octets_placed_eq_ok_iff (hlimit : limit ≤ message.length) {count : Nat} (hcount : 0 < count)
    {part : Octets} :
    octets count (.placed message position limit) = .ok part behind ↔
      part.length = count ∧ StandsAt message position part ∧ position + count ≤ limit ∧
        behind = .placed message (position + count) limit := by
  constructor
  · intro h
    obtain ⟨hfits, rfl, rfl⟩ := octets_eq_ok_iff.mp h
    rw [Reader.remaining_placed] at hfits
    have hinside : position + count ≤ limit := by omega
    refine ⟨?_, Reader.slice_standsAt _ _, hinside, rfl⟩
    exact Reader.length_slice_placed (Nat.le_trans hinside hlimit)
  · rintro ⟨rfl, hstands, hfits, rfl⟩
    exact decodes_octets part position limit hstands hfits hlimit

theorem word16_eq_ok_iff (hlimit : limit ≤ message.length) {w : UInt16} :
    word16 (.placed message position limit) = .ok w behind ↔
      StandsAt message position (ofWord16 w) ∧ position + 2 ≤ limit ∧
        behind = .placed message (position + 2) limit := by
  constructor
  · intro h
    obtain ⟨part, between, hpart, hpure⟩ := bind_eq_ok_iff.mp h
    obtain ⟨rfl, rfl⟩ := pure_eq_ok_iff.mp hpure
    obtain ⟨hlength, hstands, hfits, hbehind⟩ :=
      (octets_placed_eq_ok_iff hlimit Nat.two_pos).mp hpart
    match part, hlength with
    | [high, low], _ =>
      rw [Octets.ofWord16_value]
      exact ⟨hstands, hfits, hbehind⟩
  · rintro ⟨hstands, hfits, rfl⟩
    exact decodes_word16 w position limit hstands hfits hlimit

theorem word32_eq_ok_iff (hlimit : limit ≤ message.length) {w : UInt32} :
    word32 (.placed message position limit) = .ok w behind ↔
      StandsAt message position (ofWord32 w) ∧ position + 4 ≤ limit ∧
        behind = .placed message (position + 4) limit := by
  constructor
  · intro h
    obtain ⟨part, between, hpart, hpure⟩ := bind_eq_ok_iff.mp h
    obtain ⟨rfl, rfl⟩ := pure_eq_ok_iff.mp hpure
    obtain ⟨hlength, hstands, hfits, hbehind⟩ :=
      (octets_placed_eq_ok_iff hlimit (Nat.succ_pos 3)).mp hpart
    match part, hlength with
    | [a, b, c, d], _ =>
      rw [Octets.ofWord32_value]
      exact ⟨hstands, hfits, hbehind⟩
  · rintro ⟨hstands, hfits, rfl⟩
    exact decodes_word32 w position limit hstands hfits hlimit

end Decoder

/-! ## What a message holds -/

/-- From `position` to `next`, in front of `limit`, the message holds the question. -/
inductive Question.HeldIn (message : Octets) (limit : Nat) (question : Question) :
    (position next : Nat) → Prop where
  | intro {position behindName : Nat} :
      Spells message maxPointers position limit question.name.labels behindName →
      StandsAt message behindName
        (ofWord16 question.type.code ++ ofWord16 question.recordClass.code) →
      behindName + 4 ≤ limit → HeldIn message limit question position (behindName + 4)

/-- The octets from `start` to `stop` are data that decodes to the given one.  All but raw data may
leave some of the octets unused, and the pointers of names lead anywhere in the message. -/
inductive RecordData.HeldIn (message : Octets) : RecordData → (start stop : Nat) → Prop where
  | a {address : IPv4} {start stop : Nat} :
      StandsAt message start address.octets → start + 4 ≤ stop →
      HeldIn message (.a address) start stop
  | ns {host : Name} {start stop behind : Nat} :
      Spells message maxPointers start stop host.labels behind → HeldIn message (.ns host) start stop
  | cname {target : Name} {start stop behind : Nat} :
      Spells message maxPointers start stop target.labels behind →
      HeldIn message (.cname target) start stop
  | ptr {target : Name} {start stop behind : Nat} :
      Spells message maxPointers start stop target.labels behind →
      HeldIn message (.ptr target) start stop
  | mx {preference : UInt16} {exchange : Name} {start stop behind : Nat} :
      StandsAt message start (ofWord16 preference) → start + 2 ≤ stop →
      Spells message maxPointers (start + 2) stop exchange.labels behind →
      HeldIn message (.mx preference exchange) start stop
  | raw {type : RecordType} {data : Octets} {start : Nat} :
      type ∉ RecordType.interpreted → StandsAt message start data →
      HeldIn message (.raw type data) start (start + data.length)

/-- What stands in front of the data of a record. -/
structure RecordHead where
  name : Name
  type : RecordType
  recordClass : RecordClass
  ttl : UInt32
  /-- The announced number of octets of the data. -/
  length : UInt16

namespace RecordHead

/-- The ten octets between the name and the data. -/
def fixedWire (head : RecordHead) : Octets :=
  ofWord16 head.type.code ++ (ofWord16 head.recordClass.code ++
    (ofWord32 head.ttl ++ ofWord16 head.length))

/-- The record with this head and some data. -/
def withData (head : RecordHead) (data : RecordData) : Record where
  name := head.name
  recordClass := head.recordClass
  ttl := head.ttl
  data := data

/-- From `position` on, in front of `limit`, the message holds the head: a name that ends at
`behindName`, and the ten octets behind it. -/
structure HeldIn (message : Octets) (limit : Nat) (head : RecordHead) (position behindName : Nat) :
    Prop where
  name : Spells message maxPointers position limit head.name.labels behindName
  fixed : StandsAt message behindName head.fixedWire
  fits : behindName + 10 ≤ limit

end RecordHead

/-- From `position` to `next`, in front of `limit`, the message holds the record: a head, and behind
it as many octets of data as announced. -/
inductive Record.HeldIn (message : Octets) (limit : Nat) : Record → (position next : Nat) → Prop where
  | intro {head : RecordHead} {data : RecordData} {position behindName : Nat} :
      head.HeldIn message limit position behindName → head.type = data.type →
      behindName + 10 + head.length.toNat ≤ limit →
      data.HeldIn message (behindName + 10) (behindName + 10 + head.length.toNat) →
      HeldIn message limit (head.withData data) position (behindName + 10 + head.length.toNat)

/-- The entries fill the octets from one place to another, each one beginning where the one before it
ends. -/
inductive Consecutive {α : Type} (heldIn : α → Nat → Nat → Prop) :
    List α → (position next : Nat) → Prop where
  | nil (position : Nat) : Consecutive heldIn [] position position
  | cons {a : α} {as : List α} {position between next : Nat} :
      heldIn a position between → Consecutive heldIn as between next →
      Consecutive heldIn (a :: as) position next

/-- The message holds the header of the packet, and behind its twelve octets the entries of the four
sections one behind the other. -/
inductive Packet.HeldIn (message : Octets) (packet : Packet) : Prop where
  | intro {atAnswers atAuthority atAdditional next : Nat} :
      StandsAt message 0 packet.header.wire →
      Consecutive (Question.HeldIn message message.length) packet.questions 12 atAnswers →
      Consecutive (Record.HeldIn message message.length) packet.answers atAnswers atAuthority →
      Consecutive (Record.HeldIn message message.length) packet.authority atAuthority
        atAdditional →
      Consecutive (Record.HeldIn message message.length) packet.additional atAdditional next →
      HeldIn message packet

/-! ## Reading what a message holds -/

namespace Decoder

variable {message : Octets} {position limit : Nat} {behind : Reader}

theorem question_eq_ok_iff (hlimit : limit ≤ message.length) {question : Question} :
    Decoder.question (.placed message position limit) = .ok question behind ↔
      ∃ next, question.HeldIn message limit position next ∧
        behind = .placed message next limit := by
  constructor
  · intro h
    obtain ⟨name, _, hname, h⟩ := bind_eq_ok_iff.mp h
    obtain ⟨behindName, hspells, rfl⟩ := (name_eq_ok_iff hlimit).mp hname
    obtain ⟨type, _, htype, h⟩ := bind_eq_ok_iff.mp h
    obtain ⟨hstype, -, rfl⟩ := (word16_eq_ok_iff hlimit).mp htype
    obtain ⟨recordClass, _, hclass, hpure⟩ := bind_eq_ok_iff.mp h
    obtain ⟨hsclass, hfits, rfl⟩ := (word16_eq_ok_iff hlimit).mp hclass
    obtain ⟨rfl, rfl⟩ := pure_eq_ok_iff.mp hpure
    exact ⟨behindName + 4, .intro hspells (Octets.standsAt_append_iff.mpr ⟨hstype, hsclass⟩) hfits,
      rfl⟩
  · rintro ⟨_, ⟨hspells, hstands, hfits⟩, rfl⟩
    rw [Octets.standsAt_append_iff, Octets.length_ofWord16] at hstands
    rw [Decoder.question, bind_of_ok ((name_eq_ok_iff hlimit).mpr ⟨_, hspells, rfl⟩),
      bind_of_ok ((word16_eq_ok_iff hlimit).mpr ⟨hstands.1, by omega, rfl⟩),
      bind_of_ok ((word16_eq_ok_iff hlimit).mpr ⟨hstands.2, hfits, rfl⟩)]
    rfl

/-- The rest of a window is all that stands in it. -/
theorem standsAt_of_rest_eq_ok {start stop : Nat} (hstart : start ≤ stop)
    (hstop : stop ≤ message.length) {part : Octets}
    (h : rest (.placed message start stop) = .ok part behind) :
    StandsAt message start part ∧ start + part.length = stop := by
  rw [rest, Reader.remaining_placed] at h
  obtain ⟨-, rfl, -⟩ := octets_eq_ok_iff.mp h
  have hend : start + (stop - start) = stop := Nat.add_sub_cancel' hstart
  refine ⟨Reader.slice_standsAt _ _, ?_⟩
  change start + ((Reader.placed message start stop).slice start (stop - start)).length = stop
  rw [Reader.length_slice_placed (by rwa [hend]), hend]

/-- In a window of its own, data is read exactly where it is held. -/
theorem recordData_eq_ok_iff {start stop : Nat} (hstart : start ≤ stop)
    (hstop : stop ≤ message.length) {type : RecordType} {data : RecordData} :
    (∃ inside, recordData type (.placed message start stop) = .ok data inside) ↔
      type = data.type ∧ data.HeldIn message start stop := by
  have hread {position next : Nat} {name : Name}
      (h : Spells message maxPointers position stop name.labels next) :
      Decoder.name (.placed message position stop) = .ok name (.placed message next stop) :=
    (name_eq_ok_iff hstop).mpr ⟨next, h, rfl⟩
  have hname {position : Nat} {inside : Reader} {f : Name → RecordData} {data : RecordData}
      (h : (do return f (← name)) (.placed message position stop) = .ok data inside) :
      ∃ other next, Spells message maxPointers position stop other.labels next ∧ data = f other := by
    obtain ⟨other, _, hother, hpure⟩ := bind_eq_ok_iff.mp h
    obtain ⟨next, hspells, -⟩ := (name_eq_ok_iff hstop).mp hother
    exact ⟨other, next, hspells, (pure_eq_ok_iff.mp hpure).1.symm⟩
  constructor
  · rintro ⟨inside, h⟩
    unfold recordData at h
    split_ifs at h with ha hns hcname hptr hmx
    · obtain ⟨w, _, hw, hpure⟩ := bind_eq_ok_iff.mp h
      obtain ⟨rfl, -⟩ := pure_eq_ok_iff.mp hpure
      obtain ⟨hstands, hfits, -⟩ := (word32_eq_ok_iff hstop).mp hw
      rw [← IPv4.octets_ofWord32] at hstands
      exact ⟨ha, .a hstands hfits⟩
    · obtain ⟨_, _, hspells, rfl⟩ := hname h
      exact ⟨hns, .ns hspells⟩
    · obtain ⟨_, _, hspells, rfl⟩ := hname h
      exact ⟨hcname, .cname hspells⟩
    · obtain ⟨_, _, hspells, rfl⟩ := hname h
      exact ⟨hptr, .ptr hspells⟩
    · obtain ⟨preference, _, hpreference, h⟩ := bind_eq_ok_iff.mp h
      obtain ⟨hstands, hfits, rfl⟩ := (word16_eq_ok_iff hstop).mp hpreference
      obtain ⟨_, _, hspells, rfl⟩ := hname h
      exact ⟨hmx, .mx hstands hfits hspells⟩
    · obtain ⟨octets, _, hrest, hpure⟩ := bind_eq_ok_iff.mp h
      obtain ⟨rfl, -⟩ := pure_eq_ok_iff.mp hpure
      obtain ⟨hstands, hlength⟩ := standsAt_of_rest_eq_ok hstart hstop hrest
      rw [← hlength]
      refine ⟨rfl, .raw ?_ hstands⟩
      simp [RecordType.interpreted, ha, hns, hcname, hptr, hmx]
  · rintro ⟨rfl, h⟩
    cases h with
    | a hstands hfits => exact ⟨_, decodes_address _ start stop hstands hfits hstop⟩
    | ns hspells => exact ⟨_, bind_of_ok (hread hspells)⟩
    | cname hspells => exact ⟨_, bind_of_ok (hread hspells)⟩
    | ptr hspells => exact ⟨_, bind_of_ok (hread hspells)⟩
    | mx hstands hfits hspells =>
      have hpreference := (word16_eq_ok_iff hstop).mpr ⟨hstands, hfits, rfl⟩
      exact ⟨_, (bind_of_ok hpreference).trans (bind_of_ok (hread hspells))⟩
    | raw hraw hstands =>
      obtain ⟨inside, hrest⟩ := decodesWhole_rest _ start hstands hstop
      simp only [RecordType.interpreted, List.mem_cons, List.not_mem_nil, or_false, not_or] at hraw
      obtain ⟨ha, hns, hcname, hptr, hmx⟩ := hraw
      rw [RecordData.type, recordData, if_neg ha, if_neg hns, if_neg hcname, if_neg hptr,
        if_neg hmx]
      exact ⟨inside, bind_of_ok hrest⟩

/-- A confined step that succeeds has its octets in the window, and succeeds on them alone. -/
theorem exists_of_within_placed_eq_ok {α : Type} {step : Decoder α} {count : Nat} {a : α}
    (hlimit : limit ≤ message.length) (hposition : position ≤ limit)
    (h : within count step (.placed message position limit) = .ok a behind) :
    position + count ≤ limit ∧ behind = .placed message (position + count) limit ∧
      ∃ inside, step (.placed message position (position + count)) = .ok a inside := by
  by_cases hcount : count ≤ limit - position
  · have hfits : position + count ≤ limit := by omega
    rw [within_placed hcount (Nat.le_trans hfits hlimit)] at h
    cases hstep : step (.placed message position (position + count)) with
    | ok found inside =>
      rw [hstep] at h
      cases h
      exact ⟨hfits, rfl, inside, rfl⟩
    | error e inside =>
      rw [hstep] at h
      cases h
  · rw [within_of_lt (Nat.lt_of_not_le hcount)] at h
    cases h

/-- Behind the head of a record, only the data is left to read. -/
theorem record_of_head (hlimit : limit ≤ message.length) {head : RecordHead} {behindName : Nat}
    (h : head.HeldIn message limit position behindName) :
    Decoder.record (.placed message position limit) =
      (do return head.withData (← within head.length.toNat (recordData head.type)))
        (.placed message (behindName + 10) limit) := by
  obtain ⟨hspells, hfixed, hfits⟩ := h
  simp only [RecordHead.fixedWire, Octets.standsAt_append_iff, Octets.length_ofWord16,
    Octets.length_ofWord32] at hfixed
  obtain ⟨htype, hclass, httl, hlength⟩ := hfixed
  rw [Decoder.record, bind_of_ok ((name_eq_ok_iff hlimit).mpr ⟨_, hspells, rfl⟩),
    bind_of_ok ((word16_eq_ok_iff hlimit).mpr ⟨htype, by omega, rfl⟩),
    bind_of_ok ((word16_eq_ok_iff hlimit).mpr ⟨hclass, by omega, rfl⟩),
    bind_of_ok ((word32_eq_ok_iff hlimit).mpr ⟨httl, by omega, rfl⟩),
    bind_of_ok ((word16_eq_ok_iff hlimit).mpr ⟨hlength, hfits, rfl⟩)]
  rfl

/-- A record is read only behind its head. -/
theorem exists_head_of_record_eq_ok (hlimit : limit ≤ message.length) {record : Record}
    (h : Decoder.record (.placed message position limit) = .ok record behind) :
    ∃ head behindName, RecordHead.HeldIn message limit head position behindName := by
  obtain ⟨name, _, hname, h⟩ := bind_eq_ok_iff.mp h
  obtain ⟨behindName, hspells, rfl⟩ := (name_eq_ok_iff hlimit).mp hname
  obtain ⟨type, _, htype, h⟩ := bind_eq_ok_iff.mp h
  obtain ⟨hstype, -, rfl⟩ := (word16_eq_ok_iff hlimit).mp htype
  obtain ⟨recordClass, _, hclass, h⟩ := bind_eq_ok_iff.mp h
  obtain ⟨hsclass, -, rfl⟩ := (word16_eq_ok_iff hlimit).mp hclass
  obtain ⟨ttl, _, httl, h⟩ := bind_eq_ok_iff.mp h
  obtain ⟨hsttl, -, rfl⟩ := (word32_eq_ok_iff hlimit).mp httl
  obtain ⟨length, _, hlength, h⟩ := bind_eq_ok_iff.mp h
  obtain ⟨hslength, hfits, rfl⟩ := (word16_eq_ok_iff hlimit).mp hlength
  refine ⟨⟨name, ⟨type⟩, ⟨recordClass⟩, ttl, length⟩, behindName, hspells, ?_, hfits⟩
  simp only [RecordHead.fixedWire, Octets.standsAt_append_iff, Octets.length_ofWord16,
    Octets.length_ofWord32]
  exact ⟨hstype, hsclass, hsttl, hslength⟩

/-- A record is read exactly where it is held. -/
theorem record_eq_ok_iff (hlimit : limit ≤ message.length) {record : Record} :
    Decoder.record (.placed message position limit) = .ok record behind ↔
      ∃ next, record.HeldIn message limit position next ∧ behind = .placed message next limit := by
  constructor
  · intro h
    obtain ⟨head, behindName, hhead⟩ := exists_head_of_record_eq_ok hlimit h
    rw [record_of_head hlimit hhead] at h
    obtain ⟨data, _, hwithin, hpure⟩ := bind_eq_ok_iff.mp h
    obtain ⟨rfl, rfl⟩ := pure_eq_ok_iff.mp hpure
    obtain ⟨hfits, hbehind, hdata⟩ := exists_of_within_placed_eq_ok hlimit hhead.fits hwithin
    obtain ⟨htype, hheld⟩ :=
      (recordData_eq_ok_iff (Nat.le_add_right _ _) (Nat.le_trans hfits hlimit)).mp hdata
    exact ⟨_, .intro hhead htype hfits hheld, hbehind⟩
  · rintro ⟨_, ⟨hhead, htype, hfits, hdata⟩, rfl⟩
    have hinside := Nat.le_trans hfits hlimit
    obtain ⟨inside, hread⟩ :=
      (recordData_eq_ok_iff (Nat.le_add_right _ _) hinside).mpr ⟨htype, hdata⟩
    have hcount := (Nat.le_sub_iff_add_le' hhead.fits).mpr hfits
    rw [record_of_head hlimit hhead]
    refine bind_of_ok ((within_placed hcount hinside).trans ?_)
    rw [hread]

/-- A header is read exactly where its octets stand. -/
theorem header_eq_ok_iff (hlimit : limit ≤ message.length) {header : Header} :
    Decoder.header (.placed message position limit) = .ok header behind ↔
      StandsAt message position header.wire ∧ position + 12 ≤ limit ∧
        behind = .placed message (position + 12) limit := by
  constructor
  · intro h
    obtain ⟨id, _, hid, h⟩ := bind_eq_ok_iff.mp h
    obtain ⟨hsid, -, rfl⟩ := (word16_eq_ok_iff hlimit).mp hid
    obtain ⟨word, _, hword, h⟩ := bind_eq_ok_iff.mp h
    obtain ⟨hsword, -, rfl⟩ := (word16_eq_ok_iff hlimit).mp hword
    obtain ⟨questions, _, hquestions, h⟩ := bind_eq_ok_iff.mp h
    obtain ⟨hsquestions, -, rfl⟩ := (word16_eq_ok_iff hlimit).mp hquestions
    obtain ⟨answers, _, hanswers, h⟩ := bind_eq_ok_iff.mp h
    obtain ⟨hsanswers, -, rfl⟩ := (word16_eq_ok_iff hlimit).mp hanswers
    obtain ⟨authority, _, hauthority, h⟩ := bind_eq_ok_iff.mp h
    obtain ⟨hsauthority, -, rfl⟩ := (word16_eq_ok_iff hlimit).mp hauthority
    obtain ⟨additional, _, hadditional, hpure⟩ := bind_eq_ok_iff.mp h
    obtain ⟨hsadditional, hfits, rfl⟩ := (word16_eq_ok_iff hlimit).mp hadditional
    obtain ⟨rfl, rfl⟩ := pure_eq_ok_iff.mp hpure
    refine ⟨?_, hfits, rfl⟩
    rw [Header.wire, Header.word, Control.word_ofWord]
    simp only [List.append_assoc, Octets.standsAt_append_iff, Octets.length_ofWord16]
    exact ⟨hsid, hsword, hsquestions, hsanswers, hsauthority, hsadditional⟩
  · rintro ⟨hstands, hfits, rfl⟩
    exact decodes_header header position limit hstands hfits hlimit

/-- Repeating a step reads entries that are held one behind the other. -/
theorem replicate_eq_ok_iff {α : Type} {step : Decoder α} {heldIn : α → Nat → Nat → Prop}
    (hstep : ∀ {a position behind}, step (.placed message position limit) = .ok a behind ↔
      ∃ next, heldIn a position next ∧ behind = .placed message next limit)
    {count : Nat} {as : List α} :
    replicate count step (.placed message position limit) = .ok as behind ↔
      as.length = count ∧ ∃ next, Consecutive heldIn as position next ∧
        behind = .placed message next limit := by
  induction count generalizing position behind as with
  | zero =>
    rw [replicate, pure_eq_ok_iff, List.length_eq_zero_iff]
    constructor
    · rintro ⟨rfl, rfl⟩
      exact ⟨rfl, position, .nil position, rfl⟩
    · rintro ⟨rfl, next, ⟨⟩, rfl⟩
      exact ⟨rfl, rfl⟩
  | succ count ih =>
    constructor
    · intro h
      obtain ⟨a, _, ha, h⟩ := bind_eq_ok_iff.mp h
      obtain ⟨between, hheld, rfl⟩ := hstep.mp ha
      obtain ⟨rest, _, hrest, hpure⟩ := bind_eq_ok_iff.mp h
      obtain ⟨rfl, next, hconsecutive, rfl⟩ := ih.mp hrest
      obtain ⟨rfl, rfl⟩ := pure_eq_ok_iff.mp hpure
      exact ⟨rfl, next, .cons hheld hconsecutive, rfl⟩
    · rintro ⟨hlength, next, hconsecutive, rfl⟩
      cases hconsecutive with
      | nil => cases hlength
      | @cons a rest _ between _ hheld hrest =>
        have hfirst := hstep.mpr ⟨between, hheld, rfl⟩
        have hothers := ih.mpr ⟨Nat.succ.inj hlength, next, hrest, rfl⟩
        exact (bind_of_ok hfirst).trans (bind_of_ok hothers)

end Decoder

namespace Packet

/-- A message is read as a packet exactly if it holds the packet, with as many entries in each
section as the header counts. -/
theorem ofOctets_eq_ok_iff {message : Octets} {packet : Packet} :
    ofOctets message = .ok packet ↔ packet.Counted ∧ packet.HeldIn message := by
  have hlimit := Nat.le_refl message.length
  constructor
  · intro h
    have hcounted := (encodable_of_ofOctets_eq_ok h).counted
    obtain ⟨behind, hread⟩ := exists_of_ofOctets_eq_ok h
    obtain ⟨_, _, _, _, hheader, hquestions, hanswers, hauthority, hadditional⟩ :=
      Decoder.exists_of_packet_eq_ok hread
    obtain ⟨hstands, -, rfl⟩ := (Decoder.header_eq_ok_iff hlimit).mp hheader
    obtain ⟨-, _, heldQuestions, rfl⟩ :=
      (Decoder.replicate_eq_ok_iff (Decoder.question_eq_ok_iff hlimit)).mp hquestions
    obtain ⟨-, _, heldAnswers, rfl⟩ :=
      (Decoder.replicate_eq_ok_iff (Decoder.record_eq_ok_iff hlimit)).mp hanswers
    obtain ⟨-, _, heldAuthority, rfl⟩ :=
      (Decoder.replicate_eq_ok_iff (Decoder.record_eq_ok_iff hlimit)).mp hauthority
    obtain ⟨-, _, heldAdditional, -⟩ :=
      (Decoder.replicate_eq_ok_iff (Decoder.record_eq_ok_iff hlimit)).mp hadditional
    exact ⟨hcounted, .intro hstands heldQuestions heldAnswers heldAuthority heldAdditional⟩
  · rintro ⟨hcounted, hstands, heldQuestions, heldAnswers, heldAuthority, heldAdditional⟩
    have hheader := (Decoder.header_eq_ok_iff hlimit).mpr ⟨hstands, hstands.length_le, rfl⟩
    have hquestions := (Decoder.replicate_eq_ok_iff (Decoder.question_eq_ok_iff hlimit)).mpr
      ⟨hcounted.questions.symm, _, heldQuestions, rfl⟩
    have hanswers := (Decoder.replicate_eq_ok_iff (Decoder.record_eq_ok_iff hlimit)).mpr
      ⟨hcounted.answers.symm, _, heldAnswers, rfl⟩
    have hauthority := (Decoder.replicate_eq_ok_iff (Decoder.record_eq_ok_iff hlimit)).mpr
      ⟨hcounted.authority.symm, _, heldAuthority, rfl⟩
    have hadditional := (Decoder.replicate_eq_ok_iff (Decoder.record_eq_ok_iff hlimit)).mpr
      ⟨hcounted.additional.symm, _, heldAdditional, rfl⟩
    rw [ofOctets, Reader.ofOctets_eq_placed, Decoder.packet, Decoder.bind_of_ok hheader,
      Decoder.bind_of_ok hquestions, Decoder.bind_of_ok hanswers, Decoder.bind_of_ok hauthority,
      Decoder.bind_of_ok hadditional]
    rfl

end Packet
end DnsResolver
