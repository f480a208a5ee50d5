import DnsResolver.Proofs.Packet.Grammar
import DnsResolver.Proofs.Packet.RoundTrip
import DnsResolver.Proofs.Reader.Bounds

/-!
# Records stay in their frame

A record announces the length of its data, and behind this length reading goes on, whatever the data
was and however much of it was used.  Data that itself runs on behind the announced length is
rejected, and so is data that cannot be decoded; the cursor then stays in front of the data.  Hence
no record of a message shifts those behind it.
-/

namespace DnsResolver

/-! ## Where a name ends by itself -/

/-- The octets of a name that follow each other from `position` on, up to the zero octet or the first
pointer, end at `stop`.  Nothing is said about the octets of its labels and the place that the
pointer leads to. -/
inductive Name.RunsTo (message : Octets) : (position stop : Nat) → Prop where
  | zero {position : Nat} :
      message[position]? = some 0 → RunsTo message position (position + 1)
  | label {position stop : Nat} {c : UInt8} :
      message[position]? = some c → c ≠ 0 → c < 64 →
      RunsTo message (position + 1 + c.toNat) stop → RunsTo message position stop
  | pointer {position : Nat} {c : UInt8} :
      message[position]? = some c → 192 ≤ c → RunsTo message position (position + 2)

namespace Name.RunsTo

variable {message : Octets} {position stop : Nat}

theorem unique (h : RunsTo message position stop) {other : Nat}
    (hother : RunsTo message position other) :
    stop = other := by
  -- The first octet decides in which way the name goes on.
  induction h with
  | zero hzero => cases hother <;> grind
  | label hc hne hplain _ ih => cases hother <;> grind
  | pointer hc hpointer => cases hother <;> grind

end Name.RunsTo

/-- Where labels are spelled, a name runs to their end in sequence, which is inside. -/
theorem Spells.runsTo {message : Octets} {pointers position limit behind : Nat}
    {labels : List Octets} (h : Spells message pointers position limit labels behind) :
    Name.RunsTo message position behind ∧ behind ≤ limit := by
  induction h with
  | zero hinside hzero => exact ⟨.zero hzero, hinside⟩
  | @label _ position _ _ label _ hlegal hstands _ _ ih =>
    obtain ⟨hlength, -⟩ := Octets.standsAt_cons_iff.mp hstands
    refine ⟨.label hlength hlegal.lengthOctet_ne_zero hlegal.lengthOctet_lt ?_, ih.2⟩
    rw [hlegal.toNat_lengthOctet, Nat.add_assoc, Nat.add_comm 1]
    exact ih.1
  | @pointer _ position _ offset _ _ hoffset hstands hfits =>
    obtain ⟨hhigh, -⟩ := Octets.standsAt_cons_iff.mp hstands
    refine ⟨.pointer hhigh ?_, hfits⟩
    have hbound : (192 : UInt8).toNat = 192 := rfl
    rw [UInt8.le_iff_toNat_le, UInt8.toNat_ofNat', hbound]
    omega

/-! ## Where data ends by itself -/

namespace RecordData

/-- The octets that data of an interpreted type takes in sequence from `start` on end at `stop`: the
four of an address, or those of a name up to its first pointer, behind a preference or not. -/
def RunsTo (message : Octets) (type : RecordType) (start stop : Nat) : Prop :=
  type = .a ∧ stop = start + 4 ∨
    type ∈ [.ns, .cname, .ptr] ∧ Name.RunsTo message start stop ∨
    type = .mx ∧ Name.RunsTo message (start + 2) stop

variable {message : Octets} {type : RecordType} {data : RecordData} {start stop : Nat}

theorem RunsTo.interpreted (h : RunsTo message type start stop) :
    type ∈ RecordType.interpreted := by
  obtain ⟨rfl, -⟩ | ⟨hmem, -⟩ | ⟨rfl, -⟩ := h
  · decide
  · exact List.mem_cons_of_mem _ (List.mem_append_left [RecordType.mx] hmem)
  · decide

theorem RunsTo.unique (h : RunsTo message type start stop) {other : Nat}
    (hother : RunsTo message type start other) :
    stop = other := by
  obtain ⟨rfl, rfl⟩ | ⟨hmem, h⟩ | ⟨rfl, h⟩ := h
  · obtain ⟨-, rfl⟩ | ⟨hmem, -⟩ | ⟨htype, -⟩ := hother
    · rfl
    · exact absurd hmem (by decide)
    · exact absurd htype (by decide)
  · obtain ⟨rfl, -⟩ | ⟨-, hother⟩ | ⟨rfl, -⟩ := hother
    · exact absurd hmem (by decide)
    · exact h.unique hother
    · exact absurd hmem (by decide)
  · obtain ⟨htype, -⟩ | ⟨hmem, -⟩ | ⟨-, hother⟩ := hother
    · exact absurd htype (by decide)
    · exact absurd hmem (by decide)
    · exact h.unique hother

/-- Data that a message holds runs to an end inside the octets that it is given. -/
theorem HeldIn.exists_runsTo (h : data.HeldIn message start stop)
    (hinterpreted : data.type ∈ RecordType.interpreted) :
    ∃ last, RunsTo message data.type start last ∧ last ≤ stop := by
  have hns : RecordType.ns ∈ [RecordType.ns, .cname, .ptr] := by decide
  have hcname : RecordType.cname ∈ [RecordType.ns, .cname, .ptr] := by decide
  have hptr : RecordType.ptr ∈ [RecordType.ns, .cname, .ptr] := by decide
  cases h with
  | a _ hfits => exact ⟨_, .inl ⟨rfl, rfl⟩, hfits⟩
  | ns hspells => exact ⟨_, .inr (.inl ⟨hns, hspells.runsTo.1⟩), hspells.runsTo.2⟩
  | cname hspells => exact ⟨_, .inr (.inl ⟨hcname, hspells.runsTo.1⟩), hspells.runsTo.2⟩
  | ptr hspells => exact ⟨_, .inr (.inl ⟨hptr, hspells.runsTo.1⟩), hspells.runsTo.2⟩
  | mx _ _ hspells => exact ⟨_, .inr (.inr ⟨rfl, hspells.runsTo.1⟩), hspells.runsTo.2⟩
  | raw hraw => exact absurd hinterpreted hraw

end RecordData

/-! ## Reading a record -/

namespace Decoder

variable {message : Octets} {position limit : Nat} {behind : Reader}

/-- A confined step that fails leaves the cursor in front of its octets. -/
theorem eq_placed_of_within_eq_error {α : Type} {step : Decoder α} {count : Nat}
    {error : DecodeError} (hlimit : limit ≤ message.length) (hposition : position ≤ limit)
    (h : within count step (.placed message position limit) = .error error behind) :
    behind = .placed message position limit := by
  by_cases hcount : count ≤ limit - position
  · rw [within_placed hcount (by omega)] at h
    cases hstep : step (.placed message position (position + count)) with
    | ok a inside =>
      rw [hstep] at h
      cases h
    | error e inside =>
      rw [hstep] at h
      cases h
      rfl
  · rw [within_of_lt (Nat.lt_of_not_le hcount)] at h
    cases h
    rfl

/-- Data that runs on behind its announced length is rejected. -/
theorem exists_record_eq_error (hlimit : limit ≤ message.length) {head : RecordHead}
    {behindName stop : Nat} (hhead : head.HeldIn message limit position behindName)
    (hruns : RecordData.RunsTo message head.type (behindName + 10) stop)
    (hstop : behindName + 10 + head.length.toNat < stop) :
    ∃ error behind, Decoder.record (.placed message position limit) = .error error behind := by
  cases hread : Decoder.record (.placed message position limit) with
  | error error behind => exact ⟨error, behind, rfl⟩
  | ok record behind =>
    rw [record_of_head hlimit hhead] at hread
    obtain ⟨data, _, hwithin, -⟩ := bind_eq_ok_iff.mp hread
    obtain ⟨hfits, -, hdata⟩ := exists_of_within_placed_eq_ok hlimit hhead.fits hwithin
    obtain ⟨htype, hheld⟩ :=
      (recordData_eq_ok_iff (Nat.le_add_right _ _) (Nat.le_trans hfits hlimit)).mp hdata
    have hinterpreted := hruns.interpreted
    rw [htype] at hruns hinterpreted
    obtain ⟨last, hlast, hle⟩ := hheld.exists_runsTo hinterpreted
    rw [hruns.unique hlast] at hstop
    exact absurd hle (Nat.not_le.mpr hstop)

/-- If a record fails behind its head, the cursor is left in front of its data. -/
theorem eq_placed_of_record_eq_error (hlimit : limit ≤ message.length) {head : RecordHead}
    {behindName : Nat} {error : DecodeError}
    (hhead : head.HeldIn message limit position behindName)
    (h : Decoder.record (.placed message position limit) = .error error behind) :
    behind = .placed message (behindName + 10) limit := by
  rw [record_of_head hlimit hhead] at h
  cases hwithin : within head.length.toNat (recordData head.type)
      (.placed message (behindName + 10) limit) with
  | ok data between =>
    rw [bind_of_ok hwithin] at h
    cases h
  | error fault between =>
    rw [bind_of_error hwithin] at h
    cases h
    exact eq_placed_of_within_eq_error hlimit hhead.fits hwithin

end Decoder

/-! ## The frame of a record -/

/-- What a reader makes of records. -/
structure Reader.KeepsFrames (message : Octets) (reader : Reader) : Prop where
  /-- A record is read exactly where it is held, and the cursor moves behind its announced length. -/
  record_eq_ok_iff : ∀ record behind, Decoder.record reader = .ok record behind ↔
    ∃ next, record.HeldIn message reader.limit reader.position next ∧ behind = reader.moveTo next
  /-- Data that runs on behind its announced length is rejected. -/
  overrun : ∀ head behindName stop, RecordHead.HeldIn message reader.limit head reader.position
      behindName →
    RecordData.RunsTo message head.type (behindName + 10) stop →
    behindName + 10 + head.length.toNat < stop →
    ∃ error behind, Decoder.record reader = .error error behind
  /-- If a record fails behind its head, the cursor is left in front of its data. -/
  failure : ∀ head behindName error behind, RecordHead.HeldIn message reader.limit head
      reader.position behindName →
    Decoder.record reader = .error error behind → behind = reader.moveTo (behindName + 10)

theorem Reader.Inside.keepsFrames {message : Octets} {reader : Reader}
    (h : reader.Inside message) :
    reader.KeepsFrames message := by
  obtain ⟨position, limit, -, hlimit, rfl⟩ := h
  constructor
  · intro record behind
    exact Decoder.record_eq_ok_iff hlimit
  · intro head behindName stop hhead hruns hstop
    exact Decoder.exists_record_eq_error hlimit hhead hruns hstop
  · intro head behindName error behind hhead hread
    exact Decoder.eq_placed_of_record_eq_error hlimit hhead hread

/-- All readers that come up for a message keep records in their frame: a record that is read ends
where its announced length does.  A message is read as a packet exactly if the header counts the
entries of the packet and these stand one behind the other, from the end of the header on. -/
theorem records_stay_in_frame (message : Octets) :
    (∀ stack, ReaderStack.Reachable message stack → ∀ reader ∈ stack.readers,
      reader.KeepsFrames message) ∧
    ∀ packet, Packet.ofOctets message = .ok packet ↔ packet.Counted ∧ packet.HeldIn message := by
  refine ⟨?_, fun packet => Packet.ofOctets_eq_ok_iff⟩
  intro stack hstack reader hreader
  exact (hstack.inside reader hreader).keepsFrames

/-- An address of the root with two octets of data to spare, and one octet behind the record. -/
def spareAddress : Octets :=
  [0, 0, 1, 0, 1, 0, 0, 0, 9, 0, 6, 192, 0, 2, 1, 77, 77, 5]

/-- A name server of the root whose name takes two octets more than announced. -/
def overrunHost : Octets :=
  [0, 0, 2, 0, 1, 0, 0, 0, 9, 0, 1, 1, 120, 0]

/-- The first record is read up to its announced length, from a window that ends there, and the
second one is rejected in front of its data. -/
theorem records_stay_in_frame_spareAddress :
    Decoder.record (.placed spareAddress 0 17) =
        .ok (.ofData .root 9 (.a ⟨192, 0, 2, 1⟩)) (.placed spareAddress 17 17) ∧
      (∃ error, Decoder.record (.placed overrunHost 0 14) =
        .error error (.placed overrunHost 11 14)) ∧
      Packet.aliasQuery.HeldIn Packet.aliasQuery.wire := by
  refine ⟨?_, ?_, ?_⟩
  · have hstack : ReaderStack.Reachable spareAddress
        ((ReaderStack.ofOctets spareAddress).apply (.narrow 17)).2 :=
      .step (.narrow 17) .start
    have hkeeps : (Reader.placed spareAddress 0 17).KeepsFrames spareAddress :=
      (records_stay_in_frame spareAddress).1 _ hstack _ List.mem_cons_self
    have hhead : RecordHead.HeldIn spareAddress 17 ⟨.root, .a, .internet, 9, 6⟩ 0 1 :=
      ⟨.zero (by decide) rfl, by decide, by decide⟩
    have hdata : RecordData.HeldIn spareAddress (.a ⟨192, 0, 2, 1⟩) 11 17 :=
      .a (by decide) (by decide)
    exact (hkeeps.record_eq_ok_iff _ _).mpr ⟨17, .intro hhead rfl (by decide) hdata, rfl⟩
  · have hkeeps : (Reader.placed overrunHost 0 14).KeepsFrames overrunHost :=
      (records_stay_in_frame overrunHost).1 _ .start _ List.mem_cons_self
    have hhead : RecordHead.HeldIn overrunHost 14 ⟨.root, .ns, .internet, 9, 1⟩ 0 1 :=
      ⟨.zero (by decide) rfl, by decide, by decide⟩
    have hruns : RecordData.RunsTo overrunHost .ns 11 14 :=
      .inr (.inl ⟨by decide, .label rfl (by decide) (by decide) (.zero rfl)⟩)
    obtain ⟨error, behind, hread⟩ := hkeeps.overrun _ _ _ hhead hruns (by decide)
    rw [hread, hkeeps.failure _ _ _ _ hhead hread]
    exact ⟨error, rfl⟩
  · have hencodable := Packet.aliasQuery_made.encodable Packet.aliasQuery_sectionsFit
      Packet.aliasQuery_canonical
    exact (((records_stay_in_frame _).2 _).mp hencodable.ofOctets_wire).2

end DnsResolver
