import DnsResolver.Name.Basic

/-!
# Labels of a name

The labels of a name are legal, and joined with full stops they are its text again.  Hence the
text of a name always makes that name, and the length of its wire form follows from the length of
its text.
-/

namespace DnsResolver

namespace Octets

theorem isLabelOctet_of_isWordOctet {c : UInt8} (h : isWordOctet c = true) :
    isLabelOctet c = true := by
  simp [isLabelOctet, h]

theorem lt_of_isLabelOctet : ∀ c : UInt8, isLabelOctet c = true → c < 128 :=
  forall_octet (by decide +kernel)

end Octets

namespace Labels

open Octets (dot hyphen isWordOctet isLabelOctet)

/-- A label that the wire can hold and a reader accepts.  Where hyphens stand is checked when the
labels are made a name. -/
structure Legal (label : Octets) : Prop where
  length_pos : 0 < label.length
  length_le : label.length ≤ maxLabelLength
  octets : ∀ c ∈ label, isLabelOctet c = true

theorem Legal.dot_not_mem {label : Octets} (h : Legal label) : dot ∉ label := by
  intro hdot
  have hoctet := h.octets dot hdot
  exact absurd hoctet (by decide)

/-- A legal label is no longer than its length octet can tell. -/
theorem Legal.toNat_lengthOctet {label : Octets} (h : Legal label) :
    (UInt8.ofNat label.length).toNat = label.length := by
  have hle : label.length ≤ 63 := h.length_le
  rw [UInt8.toNat_ofNat']
  omega

theorem Legal.lengthOctet_ne_zero {label : Octets} (h : Legal label) :
    UInt8.ofNat label.length ≠ 0 := by
  rw [Ne, ← UInt8.toNat_inj, h.toNat_lengthOctet]
  exact Nat.ne_of_gt h.length_pos

theorem Legal.lengthOctet_lt {label : Octets} (h : Legal label) :
    UInt8.ofNat label.length < 64 := by
  rw [UInt8.lt_iff_toNat_lt, h.toNat_lengthOctet]
  exact Nat.lt_succ_of_le h.length_le

/-! ## Splitting and joining -/

theorem split_ne_nil (text : Octets) : split text ≠ [] := by
  cases text with
  | nil => simp [split]
  | cons c rest =>
    by_cases hc : c = dot
    · simp [split, hc]
    · rw [split, if_neg hc]
      split <;> simp

theorem split_cons_of_ne_dot {c : UInt8} {rest label : Octets} {labels : List Octets}
    (hc : c ≠ dot) (hrest : split rest = label :: labels) :
    split (c :: rest) = (c :: label) :: labels := by
  rw [split, if_neg hc, hrest]

/-- Joining undoes splitting. -/
theorem join_split (text : Octets) : join (split text) = text := by
  induction text with
  | nil => rfl
  | cons c rest ih =>
    obtain ⟨label, labels, hrest⟩ := List.exists_cons_of_ne_nil (split_ne_nil rest)
    rw [hrest] at ih
    by_cases hc : c = dot
    · rw [split, if_pos hc, hrest, join, ih, hc]
      · rfl
      · simp
    · rw [split_cons_of_ne_dot hc hrest, ← ih]
      cases labels <;> rfl

theorem split_append_dot (text : Octets) : split (text ++ [dot]) = split text ++ [[]] := by
  induction text with
  | nil => rfl
  | cons c rest ih =>
    obtain ⟨label, labels, hrest⟩ := List.exists_cons_of_ne_nil (split_ne_nil rest)
    rw [hrest, List.cons_append] at ih
    by_cases hc : c = dot
    · simp [split, hc, ih, hrest]
    · rw [List.cons_append, split_cons_of_ne_dot hc ih, split_cons_of_ne_dot hc hrest]
      rfl

/-- A full stop in front of every label and the labels themselves make up the joined text, but for
the first full stop. -/
theorem length_join_add_one {labels : List Octets} (h : labels ≠ []) :
    (join labels).length + 1 = (labels.flatMap Name.labelWire).length := by
  induction labels with
  | nil => exact absurd rfl h
  | cons label labels ih =>
    cases labels with
    | nil => simp [join, Name.labelWire]
    | cons next labels =>
      have hrest := ih (List.cons_ne_nil next labels)
      rw [join, List.flatMap_cons]
      · simp only [List.length_append, List.length_cons, Name.labelWire] at hrest ⊢
        omega
      · simp

theorem mem_of_mem_join {labels : List Octets} {c : UInt8} (h : c ∈ join labels) :
    c = dot ∨ ∃ label ∈ labels, c ∈ label := by
  induction labels with
  | nil => cases h
  | cons label labels ih =>
    cases labels with
    | nil => exact .inr ⟨label, List.mem_cons_self, h⟩
    | cons next labels =>
      rw [join, List.mem_append, List.mem_cons] at h
      · rcases h with hlabel | hdot | hrest
        · exact .inr ⟨label, List.mem_cons_self, hlabel⟩
        · exact .inl hdot
        · refine (ih hrest).imp_right ?_
          rintro ⟨other, hother, hc⟩
          exact ⟨other, List.mem_cons_of_mem label hother, hc⟩
      · simp

/-! ## Faultless labels -/

theorem isLabelOctet_of_illegalOctet?_eq_none {first : Bool} {label : Octets}
    (h : illegalOctet? first label = none) :
    ∀ c ∈ label, isLabelOctet c = true := by
  induction label generalizing first with
  | nil => simp
  | cons c rest ih =>
    rw [illegalOctet?] at h
    split at h
    · next hc =>
      intro d hd
      rcases List.mem_cons.mp hd with rfl | hd
      · simp only [Bool.or_eq_true, Bool.and_eq_true] at hc
        rcases hc with hword | ⟨⟨hhyphen, -⟩, -⟩
        · exact Octets.isLabelOctet_of_isWordOctet hword
        · simp [isLabelOctet, hhyphen]
      · exact ih h d hd
    · simp at h

theorem legal_of_fault?_eq_none {label : Octets} (h : fault? label = none) : Legal label := by
  rw [fault?] at h
  split at h
  · simp at h
  next hempty =>
    split at h
    · simp at h
    next hlong =>
      refine ⟨List.length_pos_iff.mpr hempty, Nat.le_of_not_lt hlong, ?_⟩
      exact isLabelOctet_of_illegalOctet?_eq_none (Option.map_eq_none_iff.mp h)

theorem length_le_of_textFault?_eq_none {text : Octets} (h : textFault? text = none) :
    text.length ≤ maxNameLength := by
  rw [textFault?] at h
  split at h
  · simp at h
  next hlong => exact Nat.le_of_not_lt hlong

theorem fault?_eq_none_of_mem_split {text label : Octets} (h : textFault? text = none)
    (hne : text ≠ []) (hlabel : label ∈ split text) :
    fault? label = none := by
  have hlength := length_le_of_textFault?_eq_none h
  rw [textFault?, if_neg (Nat.not_lt.mpr hlength), if_neg hne] at h
  exact List.findSome?_eq_none_iff.mp h label hlabel

/-- A faultless text does not end in a full stop, for the piece behind it would be empty. -/
theorem getLast?_ne_dot {text : Octets} (h : textFault? text = none) :
    text.getLast? ≠ some dot := by
  intro hlast
  obtain ⟨front, rfl⟩ := List.getLast?_eq_some_iff.mp hlast
  have hempty : fault? [] = none := by
    apply fault?_eq_none_of_mem_split h (by simp)
    rw [split_append_dot]
    simp
  simp [fault?] at hempty

end Labels

namespace Name

open Octets (dot)

theorem labels_of_text_eq_nil {name : Name} (h : name.text = []) : name.labels = [] := by
  simp [labels, isRoot, h]

theorem labels_of_text_ne_nil {name : Name} (h : name.text ≠ []) :
    name.labels = Labels.split name.text := by
  simp [labels, isRoot, h]

/-- The text of a name is its labels joined with full stops. -/
theorem join_labels (name : Name) : Labels.join name.labels = name.text := by
  by_cases h : name.text = []
  · rw [labels_of_text_eq_nil h, h]
    rfl
  · rw [labels_of_text_ne_nil h, Labels.join_split]

theorem labels_legal (name : Name) : ∀ label ∈ name.labels, Labels.Legal label := by
  intro label hlabel
  by_cases h : name.text = []
  · rw [labels_of_text_eq_nil h] at hlabel
    simp at hlabel
  · rw [labels_of_text_ne_nil h] at hlabel
    exact Labels.legal_of_fault?_eq_none
      (Labels.fault?_eq_none_of_mem_split name.faultless h hlabel)

/-- Names are ASCII text. -/
theorem lt_of_mem_text {name : Name} {c : UInt8} (h : c ∈ name.text) : c < 128 := by
  rw [← join_labels] at h
  rcases Labels.mem_of_mem_join h with rfl | ⟨label, hlabel, hc⟩
  · decide
  · exact Octets.lt_of_isLabelOctet c ((labels_legal name label hlabel).octets c hc)

/-- Octets make the name that they are the text of, one final full stop aside. -/
theorem ofOctets_eq_ok_iff {octets : Octets} {name : Name} :
    ofOctets octets = .ok name ↔ name.text = Octets.withoutFinalDot octets := by
  unfold ofOctets
  split
  next h =>
    rw [Except.ok.injEq, Name.mk.injEq]
    exact eq_comm
  next fault hfault =>
    refine iff_of_false (by simp) fun htext => ?_
    rw [← htext, name.faultless] at hfault
    cases hfault

theorem ofOctets_eq_error_iff {octets : Octets} {fault : NameError} :
    ofOctets octets = .error fault ↔
      Labels.textFault? (Octets.withoutFinalDot octets) = some fault := by
  unfold ofOctets
  split
  next h => simp [h]
  next other hother => rw [hother, Except.error.injEq, Option.some.injEq]

/-- The text of a name makes that name. -/
theorem ofOctets_text (name : Name) : ofOctets name.text = .ok name :=
  ofOctets_eq_ok_iff.mpr (if_neg (Labels.getLast?_ne_dot name.faultless)).symm

/-! ## Lengths on the wire -/

/-- The announced length of a name is the length of its wire form. -/
theorem wireLength_eq (name : Name) : name.wireLength = name.wire.length := by
  rw [wireLength, wire, List.length_append, List.length_singleton]
  induction name.labels with
  | nil => rfl
  | cons label labels ih =>
    rw [List.foldr_cons, List.flatMap_cons, List.length_append, ih]
    simp only [labelWire, List.length_cons]
    omega

/-- On the wire a name takes two octets more than its text, and the root takes one. -/
theorem length_wire (name : Name) :
    name.wire.length = if name.text = [] then 1 else name.text.length + 2 := by
  rw [wire, List.length_append, List.length_singleton]
  split
  next h => simp [labels_of_text_eq_nil h]
  next h =>
    have hlabels : name.labels ≠ [] := by
      rw [labels_of_text_ne_nil h]
      exact Labels.split_ne_nil name.text
    rw [← Labels.length_join_add_one hlabels, join_labels]

theorem length_wire_le (name : Name) : name.wire.length ≤ maxNameLength + 2 := by
  have hlength := Labels.length_le_of_textFault?_eq_none name.faultless
  rw [length_wire]
  split <;> omega

end Name
end DnsResolver
