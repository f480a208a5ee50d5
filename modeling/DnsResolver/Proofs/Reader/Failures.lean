import DnsResolver.Packet.Basic
import DnsResolver.Proofs.Name.Subdomains
import DnsResolver.Proofs.Reader.Decoding

/-!
# How reading fails

An error of reading tells numbers and single octets, but for one: that a label is too long, which
quotes the label.  A reader never runs into it, since a label on the wire has at most 63 octets and
none of them is a full stop.  So no octets of a message get into what is reported about it.
-/

namespace DnsResolver

open Octets (dot)

/-! ## Faults of joined labels -/

namespace Labels

theorem mem_split_of_mem_split_withoutFinalDot {text label : Octets}
    (h : label ∈ split (Octets.withoutFinalDot text)) :
    label ∈ split text := by
  rw [Octets.withoutFinalDot] at h
  split at h
  next hlast =>
    obtain ⟨front, rfl⟩ := List.getLast?_eq_some_iff.mp hlast
    rw [List.dropLast_concat] at h
    rw [split_append_dot]
    exact List.mem_append_left [[]] h
  next => exact h

theorem lt_length_of_fault?_eq_labelTooLong {piece label : Octets}
    (h : fault? piece = some (.labelTooLong label)) :
    piece = label ∧ maxLabelLength < label.length := by
  unfold fault? at h
  split at h
  · cases h
  · split at h
    next hlong =>
      cases h
      exact ⟨rfl, hlong⟩
    next =>
      obtain ⟨octet, -, hfault⟩ := Option.map_eq_some_iff.mp h
      cases hfault

/-- A text is reported to have a label that is too long only if it has one. -/
theorem mem_split_of_textFault?_eq_labelTooLong {text label : Octets}
    (h : textFault? text = some (.labelTooLong label)) :
    label ∈ split text ∧ maxLabelLength < label.length := by
  unfold textFault? at h
  split at h
  · cases h
  · split at h
    · cases h
    · obtain ⟨piece, hpiece, hfault⟩ := List.exists_of_findSome?_eq_some h
      obtain ⟨rfl, hlong⟩ := lt_length_of_fault?_eq_labelTooLong hfault
      exact ⟨hpiece, hlong⟩

end Labels

/-! ## Labels that a reader collects -/

/-- A label as short as the wire makes it, of octets that may stand in a label. -/
def Labels.Short (label : Octets) : Prop :=
  label.length ≤ maxLabelLength ∧ ∀ c ∈ label, Octets.isLabelOctet c = true

theorem Labels.Short.dot_not_mem {label : Octets} (h : Short label) : dot ∉ label := by
  intro hdot
  have hoctet := h.2 dot hdot
  exact absurd hoctet (by decide)

namespace Reader

theorem short_of_nameLabels {reader : Reader} {pointers position limit behind : Nat}
    {labels : List Octets}
    (h : reader.nameLabels pointers position limit = .ok (labels, behind)) :
    ∀ label ∈ labels, Labels.Short label := by
  fun_induction Reader.nameLabels reader pointers position limit generalizing labels behind
  case case1 =>
    cases h
    exact List.forall_mem_nil _
  case case3 _ _ _ _ length start _ hplain _ _ label hoctets _ _ hrest ih =>
    cases h
    have hlt : length.toNat < 64 := UInt8.lt_iff_toNat_lt.mp hplain
    refine List.forall_mem_cons.mpr ⟨⟨?_, ?_⟩, ih hrest⟩
    · change (reader.slice start length.toNat).length ≤ maxLabelLength
      rw [slice_eq, List.length_take, maxLabelLength]
      omega
    · intro c hc
      simpa using List.find?_eq_none.mp hoctets c hc
  case case8 hrest ih =>
    cases h
    exact ih hrest
  -- In all other cases the walk fails.
  all_goals cases h

theorem ne_name_of_nameLabels {reader : Reader} {pointers position limit : Nat}
    {fault : DecodeError × Nat} (h : reader.nameLabels pointers position limit = .error fault)
    (error : NameError) :
    fault.1 ≠ .name error := by
  fun_induction Reader.nameLabels reader pointers position limit generalizing fault
  case case4 hrest ih =>
    cases h
    exact ih hrest
  case case9 hrest ih =>
    cases h
    exact ih hrest
  all_goals
    cases h
    try exact DecodeError.noConfusion

end Reader

/-! ## Errors of decoding -/

/-- The error does not quote octets of a message at length. -/
def DecodeError.QuotesNoLabel (error : DecodeError) : Prop :=
  ∀ label, error ≠ .name (.labelTooLong label)

namespace Decoder

variable {α β : Type}

/-- Whatever error the step fails with, it quotes no label. -/
def QuotesNoLabel (step : Decoder α) : Prop :=
  ∀ reader error behind, step reader = .error error behind → error.QuotesNoLabel

theorem quotesNoLabel_pure (a : α) : QuotesNoLabel (pure a) := by
  intro reader error behind h
  cases h

theorem QuotesNoLabel.bind {step : Decoder α} {next : α → Decoder β} (hstep : QuotesNoLabel step)
    (hnext : ∀ a, QuotesNoLabel (next a)) :
    QuotesNoLabel (step >>= next) := by
  intro reader error behind h
  change EStateM.bind step next reader = _ at h
  rw [EStateM.bind] at h
  cases hresult : step reader with
  | ok a between =>
    rw [hresult] at h
    exact hnext a between error behind h
  | error fault between =>
    rw [hresult] at h
    cases h
    exact hstep reader error behind hresult

theorem QuotesNoLabel.map {step : Decoder α} (hstep : QuotesNoLabel step) (f : α → β) :
    QuotesNoLabel (do return f (← step)) :=
  hstep.bind fun a => quotesNoLabel_pure (f a)

theorem quotesNoLabel_octets (count : Nat) : QuotesNoLabel (octets count) := by
  intro reader error behind h label
  rw [octets] at h
  split at h
  · cases h
  · cases h
    exact DecodeError.noConfusion

theorem quotesNoLabel_word16 : QuotesNoLabel word16 :=
  (quotesNoLabel_octets 2).map _

theorem quotesNoLabel_word32 : QuotesNoLabel word32 :=
  (quotesNoLabel_octets 4).map _

theorem quotesNoLabel_rest : QuotesNoLabel rest :=
  fun reader => quotesNoLabel_octets reader.remaining reader

theorem quotesNoLabel_seek (position : Nat) : QuotesNoLabel (seek position) := by
  intro reader error behind h label
  rw [seek] at h
  split at h
  · cases h
  · cases h
    exact DecodeError.noConfusion

theorem quotesNoLabel_narrow (count : Nat) : QuotesNoLabel (narrow count) := by
  intro reader error behind h label
  rw [narrow] at h
  split at h
  · cases h
  · cases h
    exact DecodeError.noConfusion

theorem QuotesNoLabel.within {step : Decoder α} (hstep : QuotesNoLabel step) (count : Nat) :
    QuotesNoLabel (within count step) := by
  rw [Decoder.within]
  refine (quotesNoLabel_narrow count).bind fun window => ?_
  cases hresult : step window with
  | ok a inside =>
    simp only
    exact (quotesNoLabel_seek _).bind fun _ => quotesNoLabel_pure a
  | error fault inside =>
    simp only
    intro reader error behind h
    cases h
    exact hstep window fault inside hresult

theorem QuotesNoLabel.replicate {step : Decoder α} (hstep : QuotesNoLabel step) (count : Nat) :
    QuotesNoLabel (replicate count step) := by
  induction count with
  | zero => exact quotesNoLabel_pure []
  | succ count ih => exact hstep.bind fun a => ih.map (a :: ·)

/-- The text of a name is rejected for other faults than a label that is too long. -/
theorem quotesNoLabel_name : QuotesNoLabel name := by
  intro reader error behind h label
  change EStateM.bind nameText _ reader = _ at h
  rw [EStateM.bind, nameText] at h
  cases hwalk : reader.nameLabels maxPointers reader.position reader.limit with
  | error fault =>
    rw [hwalk] at h
    cases h
    exact Reader.ne_name_of_nameLabels hwalk (.labelTooLong label)
  | ok found =>
    obtain ⟨labels, next⟩ := found
    rw [hwalk] at h
    dsimp only at h
    cases hname : Name.ofOctets (Labels.join labels) with
    | ok name =>
      rw [hname] at h
      cases h
    | error fault =>
      rw [hname] at h
      cases h
      rintro ⟨rfl⟩
      have hfault := Name.ofOctets_eq_error_iff.mp hname
      obtain ⟨hpiece, hlong⟩ := Labels.mem_split_of_textFault?_eq_labelTooLong hfault
      have hmem := Labels.mem_split_of_mem_split_withoutFinalDot hpiece
      have hshort := Reader.short_of_nameLabels hwalk
      by_cases hlabels : labels = []
      · subst hlabels
        rw [List.mem_singleton.mp hmem] at hlong
        exact absurd hlong (by decide)
      · rw [Labels.split_join hlabels fun other hother => (hshort other hother).dot_not_mem] at hmem
        exact absurd hlong (Nat.not_lt.mpr (hshort label hmem).1)

theorem quotesNoLabel_question : QuotesNoLabel question :=
  quotesNoLabel_name.bind fun _ => quotesNoLabel_word16.bind fun _ => quotesNoLabel_word16.map _

theorem quotesNoLabel_recordData (type : RecordType) : QuotesNoLabel (recordData type) := by
  unfold recordData
  split
  · exact quotesNoLabel_word32.map _
  split
  · exact quotesNoLabel_name.map _
  split
  · exact quotesNoLabel_name.map _
  split
  · exact quotesNoLabel_name.map _
  split
  · exact quotesNoLabel_word16.bind fun _ => quotesNoLabel_name.map _
  · exact quotesNoLabel_rest.map _

theorem quotesNoLabel_record : QuotesNoLabel record := by
  refine quotesNoLabel_name.bind fun _ => quotesNoLabel_word16.bind fun type => ?_
  refine quotesNoLabel_word16.bind fun _ => quotesNoLabel_word32.bind fun _ => ?_
  refine quotesNoLabel_word16.bind fun length => ?_
  exact ((quotesNoLabel_recordData ⟨type⟩).within length.toNat).map _

theorem quotesNoLabel_header : QuotesNoLabel header := by
  refine quotesNoLabel_word16.bind fun _ => quotesNoLabel_word16.bind fun _ => ?_
  refine quotesNoLabel_word16.bind fun _ => quotesNoLabel_word16.bind fun _ => ?_
  exact quotesNoLabel_word16.bind fun _ => quotesNoLabel_word16.map _

theorem quotesNoLabel_packet : QuotesNoLabel packet := by
  refine quotesNoLabel_header.bind fun _ => ?_
  refine (quotesNoLabel_question.replicate _).bind fun _ => ?_
  refine (quotesNoLabel_record.replicate _).bind fun _ => ?_
  exact (quotesNoLabel_record.replicate _).bind fun _ => (quotesNoLabel_record.replicate _).map _

end Decoder

/-- What makes a message no packet is reported without quoting it. -/
theorem Packet.quotesNoLabel_of_ofOctets_eq_error {octets : Octets} {error : DecodeError}
    (h : ofOctets octets = .error error) :
    error.QuotesNoLabel := by
  unfold ofOctets at h
  split at h
  next => cases h
  next fault behind hread =>
    cases h
    exact Decoder.quotesNoLabel_packet _ _ _ hread

end DnsResolver
