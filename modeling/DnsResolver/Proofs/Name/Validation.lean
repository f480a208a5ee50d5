import Mathlib.Data.List.Basic
import DnsResolver.Proofs.Name.Subdomains

/-!
# Which texts are names

The text of a name is empty, or it has at most 253 octets and is a list of well-formed labels joined
with full stops.  Whatever is written otherwise is rejected: for its length, and else for the fault
of its first label that is not well-formed.  A name may be written with one more full stop behind
it.
-/

namespace DnsResolver

open Octets (dot hyphen isWordOctet isLabelOctet)

/-! ## The octets of a text -/

namespace Octets

theorem ofText_inj {s t : String} : ofText s = ofText t ↔ s = t := by
  rw [ofText, ofText, Array.toList_inj, ← ByteArray.ext_iff, String.toByteArray_inj]

theorem ofText_append (s t : String) : ofText (s ++ t) = ofText s ++ ofText t := by
  simp [ofText]

theorem ofText_ofList (chars : List Char) :
    ofText (String.ofList chars) = chars.flatMap String.utf8EncodeChar := by
  simp [ofText, List.utf8Encode]

theorem ne_dot_of_continuation : ∀ c : UInt8, c &&& 63 ||| 128 ≠ dot :=
  forall_octet (by decide +kernel)

/-- In UTF-8, only a full stop is written with the octet of a full stop. -/
theorem getLast?_utf8EncodeChar_eq_dot_iff (c : Char) :
    (String.utf8EncodeChar c).getLast? = some dot ↔ c = '.' := by
  constructor
  · intro h
    rcases Char.utf8Size_eq c with hsize | hsize | hsize | hsize
    · rw [String.utf8EncodeChar_eq_singleton hsize, List.getLast?_singleton,
        Option.some.injEq] at h
      have hsmall : c.val.toNat ≤ 127 :=
        UInt32.le_iff_toNat_le.mp (Char.utf8Size_eq_one_iff.mp hsize)
      have hvalue : c.val.toNat % 256 = 46 := by
        rw [← UInt32.toNat_toUInt8, h]
        rfl
      rw [Nat.mod_eq_of_lt (by omega)] at hvalue
      exact Char.ext (UInt32.toNat_inj.mp hvalue)
    · rw [String.utf8EncodeChar_eq_cons_cons hsize] at h
      exact absurd (Option.some.inj h) (ne_dot_of_continuation _)
    · rw [String.utf8EncodeChar_eq_cons_cons_cons hsize] at h
      exact absurd (Option.some.inj h) (ne_dot_of_continuation _)
    · rw [String.utf8EncodeChar_eq_cons_cons_cons_cons hsize] at h
      exact absurd (Option.some.inj h) (ne_dot_of_continuation _)
  · rintro rfl
    decide

theorem getLast?_ofText_eq_dot_iff (s : String) :
    (ofText s).getLast? = some dot ↔ s.toList.getLast? = some '.' := by
  rw [← String.ofList_toList (s := s), ofText_ofList, String.toList_ofList]
  rcases List.eq_nil_or_concat' s.toList with hnil | ⟨front, c, hlast⟩
  · rw [hnil]
    simp
  · have hne : String.utf8EncodeChar c ≠ [] := by
      rw [← List.length_pos_iff, String.length_utf8EncodeChar]
      exact Char.utf8Size_pos c
    rw [hlast, List.flatMap_append, List.flatMap_singleton, List.getLast?_append_of_ne_nil _ hne,
      getLast?_utf8EncodeChar_eq_dot_iff, List.getLast?_concat, Option.some.injEq]

theorem withoutFinalDot_ofText {s u : String}
    (hu : s = u ++ "." ∨ s = u ∧ s.toList.getLast? ≠ some '.') :
    withoutFinalDot (ofText s) = ofText u := by
  have hdot : ofText "." = [dot] := by decide
  rw [withoutFinalDot]
  rcases hu with rfl | ⟨rfl, hlast⟩
  · rw [ofText_append, hdot, if_pos List.getLast?_concat, List.dropLast_concat]
  · rw [if_neg (mt (getLast?_ofText_eq_dot_iff s).mp hlast)]

/-- A text of ASCII characters is its octets. -/
theorem ofText_text {octets : Octets} (hascii : ∀ c ∈ octets, c < 128) :
    ofText (text octets) = octets := by
  rw [text, ofText_ofList]
  induction octets with
  | nil => rfl
  | cons c rest ih =>
    obtain ⟨hc, hrest⟩ := List.forall_mem_cons.mp hascii
    have hencode : ∀ c : UInt8, c < 128 → String.utf8EncodeChar (Char.ofNat c.toNat) = [c] :=
      forall_octet (by decide +kernel)
    rw [List.map_cons, List.flatMap_cons, hencode c hc, ih hrest]
    rfl

end Octets

/-! ## Labels -/

namespace Labels

/-- A label that may stand in a name. -/
structure WellFormed (label : Octets) : Prop extends Legal label where
  head : label.head? ≠ some hyphen
  getLast : label.getLast? ≠ some hyphen

/-- An octet is illegal in a label, given what stands before and behind it there. -/
def Illegal (before : Octets) (c : UInt8) (behind : Octets) : Prop :=
  isLabelOctet c = false ∨ c = hyphen ∧ (before = [] ∨ behind = [])

instance (before : Octets) (c : UInt8) (behind : Octets) : Decidable (Illegal before c behind) :=
  inferInstanceAs (Decidable (_ ∨ _))

/-- A part of a label holds no illegal octet, given what stands before and behind the part. -/
def LegalPart (before part behind : Octets) : Prop :=
  ∀ front c rest, part = front ++ c :: rest → ¬Illegal (before ++ front) c (rest ++ behind)

/-- The fault of a label that is not well-formed: it is empty, or else too long, or else holds an
illegal octet, of which the first one counts. -/
inductive Faulty : Octets → NameError → Prop where
  | empty : Faulty [] .emptyLabel
  | tooLong {label : Octets} :
      maxLabelLength < label.length → Faulty label (.labelTooLong label)
  | illegal {before behind : Octets} {c : UInt8} :
      (before ++ c :: behind).length ≤ maxLabelLength → LegalPart [] before (c :: behind) →
      Illegal before c behind → Faulty (before ++ c :: behind) (.illegalOctet c)

theorem legalPart_nil (before behind : Octets) : LegalPart before [] behind := by
  intro front c rest h
  exact absurd h.symm (List.append_ne_nil_of_right_ne_nil front (List.cons_ne_nil c rest))

theorem legalPart_cons_iff {before part behind : Octets} {c : UInt8} :
    LegalPart before (c :: part) behind ↔
      ¬Illegal before c (part ++ behind) ∧ LegalPart (before ++ [c]) part behind := by
  constructor
  · intro h
    refine ⟨?_, ?_⟩
    · have hfirst := h [] c part rfl
      rw [List.append_nil] at hfirst
      exact hfirst
    · rintro front d rest rfl
      rw [List.append_assoc]
      exact h (c :: front) d rest rfl
  · rintro ⟨hfirst, hpart⟩ front d rest hsplit
    rcases List.cons_eq_append_iff.mp hsplit with ⟨rfl, hcons⟩ | ⟨front, rfl, rfl⟩
    · obtain ⟨rfl, rfl⟩ := List.cons.inj hcons
      rw [List.append_nil]
      exact hfirst
    · have hlater := hpart front d rest rfl
      rw [List.append_assoc] at hlater
      exact hlater

theorem not_illegal_iff {before behind : Octets} {c : UInt8} :
    ¬Illegal before c behind ↔
      (isWordOctet c || (c == hyphen && !before.isEmpty && !behind.isEmpty)) = true := by
  have hhyphen : isWordOctet hyphen = false := by decide
  by_cases hc : c = hyphen
  · subst hc
    simp [Illegal, isLabelOctet, hhyphen]
  · simp [Illegal, isLabelOctet, hc]

/-- The search for an illegal octet goes on with what stands before the rest of the label. -/
theorem illegalOctet?_cons (before : Octets) (c : UInt8) (rest : Octets) :
    illegalOctet? before.isEmpty (c :: rest) =
      if Illegal before c rest then some c else illegalOctet? (before ++ [c]).isEmpty rest := by
  have hnext : (before ++ [c]).isEmpty = false := by simp
  rw [illegalOctet?, hnext]
  by_cases h : Illegal before c rest
  · rw [if_pos h, if_neg (mt not_illegal_iff.mpr (not_not_intro h))]
  · rw [if_neg h, if_pos (not_illegal_iff.mp h)]

theorem illegalOctet?_eq_none_iff {before rest : Octets} :
    illegalOctet? before.isEmpty rest = none ↔ LegalPart before rest [] := by
  induction rest generalizing before with
  | nil => exact iff_of_true rfl (legalPart_nil before [])
  | cons c rest ih =>
    rw [illegalOctet?_cons, legalPart_cons_iff, List.append_nil, ← ih]
    by_cases h : Illegal before c rest
    · rw [if_pos h]
      exact iff_of_false (Option.some_ne_none c) fun hlegal => hlegal.1 h
    · rw [if_neg h, and_iff_right h]

theorem illegalOctet?_eq_some_iff {before rest : Octets} {c : UInt8} :
    illegalOctet? before.isEmpty rest = some c ↔
      ∃ front behind, rest = front ++ c :: behind ∧ LegalPart before front (c :: behind) ∧
        Illegal (before ++ front) c behind := by
  induction rest generalizing before with
  | nil =>
    refine iff_of_false (by simp [illegalOctet?]) ?_
    rintro ⟨front, behind, hsplit, -⟩
    exact absurd hsplit.symm (List.append_ne_nil_of_right_ne_nil front (List.cons_ne_nil c behind))
  | cons d rest ih =>
    rw [illegalOctet?_cons]
    constructor
    · intro h
      split at h
      next hillegal =>
        cases h
        refine ⟨[], rest, rfl, legalPart_nil _ _, ?_⟩
        rw [List.append_nil]
        exact hillegal
      next hlegal =>
        obtain ⟨front, behind, rfl, hfront, hillegal⟩ := ih.mp h
        rw [List.append_assoc] at hillegal
        exact ⟨d :: front, behind, rfl, legalPart_cons_iff.mpr ⟨hlegal, hfront⟩, hillegal⟩
    · rintro ⟨front, behind, hsplit, hfront, hillegal⟩
      rcases List.cons_eq_append_iff.mp hsplit with ⟨rfl, hcons⟩ | ⟨front, rfl, rfl⟩
      · obtain ⟨rfl, rfl⟩ := List.cons.inj hcons
        rw [List.append_nil] at hillegal
        exact if_pos hillegal
      · obtain ⟨hlegal, hrest⟩ := legalPart_cons_iff.mp hfront
        rw [if_neg hlegal]
        refine ih.mpr ⟨front, behind, rfl, hrest, ?_⟩
        rw [List.append_assoc]
        exact hillegal

theorem wellFormed_iff {label : Octets} :
    WellFormed label ↔
      label ≠ [] ∧ label.length ≤ maxLabelLength ∧ LegalPart [] label [] := by
  constructor
  · intro h
    refine ⟨List.ne_nil_of_length_pos h.length_pos, h.length_le, ?_⟩
    rintro front c rest rfl (hoctet | ⟨rfl, rfl | hrest⟩)
    · rw [h.octets c List.mem_append_cons_self] at hoctet
      cases hoctet
    · exact h.head rfl
    · rw [List.append_nil] at hrest
      subst hrest
      exact h.getLast List.getLast?_concat
  · rintro ⟨hne, hlength, hlegal⟩
    refine ⟨⟨List.length_pos_iff.mpr hne, hlength, ?_⟩, ?_, ?_⟩
    · intro c hc
      obtain ⟨front, rest, rfl⟩ := List.append_of_mem hc
      by_contra hoctet
      exact hlegal front c rest rfl (.inl (Bool.eq_false_iff.mpr hoctet))
    · intro hhead
      obtain ⟨rest, rfl⟩ := List.head?_eq_some_iff.mp hhead
      exact hlegal [] hyphen rest rfl (.inr ⟨rfl, .inl rfl⟩)
    · intro hlast
      obtain ⟨front, rfl⟩ := List.getLast?_eq_some_iff.mp hlast
      exact hlegal front hyphen [] rfl (.inr ⟨rfl, .inr rfl⟩)

/-- A letter, a digit or an underscore makes a label. -/
theorem wellFormed_singleton {c : UInt8} (hword : isWordOctet c = true) : WellFormed [c] := by
  have hne : some c ≠ some hyphen := by
    rintro ⟨⟩
    exact absurd hword (by decide)
  have hoctets : ∀ d ∈ [c], isLabelOctet d = true :=
    List.forall_mem_singleton.mpr (Octets.isLabelOctet_of_isWordOctet hword)
  have hlength : 1 ≤ maxLabelLength := by decide
  exact ⟨⟨Nat.one_pos, hlength, hoctets⟩, hne, hne⟩

theorem fault?_eq_none_iff {label : Octets} : fault? label = none ↔ WellFormed label := by
  have hlegal : illegalOctet? true label = none ↔ LegalPart [] label [] :=
    @illegalOctet?_eq_none_iff [] label
  rw [wellFormed_iff, fault?, ← hlegal]
  by_cases hempty : label = []
  · simp [hempty]
  · by_cases hlong : maxLabelLength < label.length
    · simp [hempty, hlong, Nat.not_le.mpr hlong]
    · simp [hempty, hlong, Nat.le_of_not_lt hlong]

theorem fault?_eq_some_iff {label : Octets} {error : NameError} :
    fault? label = some error ↔ Faulty label error := by
  have hillegal (c : UInt8) := @illegalOctet?_eq_some_iff [] label c
  simp only [List.isEmpty_nil, List.nil_append] at hillegal
  constructor
  · intro h
    unfold fault? at h
    split at h
    next hempty =>
      cases h
      rw [hempty]
      exact .empty
    next =>
      split at h
      next hlong =>
        cases h
        exact .tooLong hlong
      next hshort =>
        obtain ⟨c, hc, rfl⟩ := Option.map_eq_some_iff.mp h
        obtain ⟨before, behind, rfl, hbefore, hfirst⟩ := (hillegal c).mp hc
        exact .illegal (Nat.le_of_not_lt hshort) hbefore hfirst
  · intro h
    cases h with
    | empty => rfl
    | tooLong hlong =>
      have hne : label ≠ [] := List.ne_nil_of_length_pos (Nat.zero_lt_of_lt hlong)
      rw [fault?, if_neg hne, if_pos hlong]
    | @illegal before behind c hshort hbefore hfirst =>
      have hne : before ++ c :: behind ≠ [] :=
        List.append_ne_nil_of_right_ne_nil before (List.cons_ne_nil c behind)
      have hc := (hillegal c).mpr ⟨before, behind, rfl, hbefore, hfirst⟩
      rw [fault?, if_neg hne, if_neg (Nat.not_lt.mpr hshort), hc]
      rfl

/-! ## Texts -/

/-- The text of a name: it is empty, or not too long and made up of well-formed labels. -/
def WellFormedText (text : Octets) : Prop :=
  text = [] ∨ text.length ≤ maxNameLength ∧
    ∃ labels, text = join labels ∧ ∀ label ∈ labels, WellFormed label

/-- The fault of a text that is not the text of a name: it is too long, or else has the fault of its
first label that is not well-formed. -/
inductive FaultyText : Octets → NameError → Prop where
  | tooLong {text : Octets} :
      maxNameLength < text.length → FaultyText text (.nameTooLong text.length)
  | label {before after : List Octets} {text label : Octets} {error : NameError} :
      text.length ≤ maxNameLength → text ≠ [] → text = join (before ++ label :: after) →
      (∀ other ∈ before ++ label :: after, dot ∉ other) → (∀ other ∈ before, WellFormed other) →
      Faulty label error → FaultyText text error

theorem dot_not_mem_of_mem_split {text label : Octets} (h : label ∈ split text) :
    dot ∉ label := by
  induction text generalizing label with
  | nil =>
    rw [List.mem_singleton.mp h]
    exact List.not_mem_nil
  | cons c rest ih =>
    obtain ⟨first, others, hrest⟩ := List.exists_cons_of_ne_nil (split_ne_nil rest)
    by_cases hc : c = dot
    · rw [split, if_pos hc] at h
      rcases List.mem_cons.mp h with rfl | hlabel
      · exact List.not_mem_nil
      · exact ih hlabel
    · rw [split_cons_of_ne_dot hc hrest] at h
      rw [hrest] at ih
      rcases List.mem_cons.mp h with rfl | hlabel
      · rw [List.mem_cons, not_or]
        exact ⟨Ne.symm hc, ih List.mem_cons_self⟩
      · exact ih (List.mem_cons_of_mem first hlabel)

theorem textFault?_eq_none_iff {text : Octets} : textFault? text = none ↔ WellFormedText text := by
  unfold WellFormedText
  constructor
  · intro h
    by_cases hempty : text = []
    · exact .inl hempty
    · refine .inr ⟨length_le_of_textFault?_eq_none h, split text, (join_split text).symm, ?_⟩
      intro label hlabel
      exact fault?_eq_none_iff.mp (fault?_eq_none_of_mem_split h hempty hlabel)
  · rintro (rfl | ⟨hlength, labels, rfl, hlabels⟩)
    · rfl
    · by_cases hempty : join labels = []
      · rw [hempty]
        rfl
      · have hne : labels ≠ [] := by
          rintro rfl
          exact hempty rfl
        have hdots : ∀ label ∈ labels, dot ∉ label := fun label hlabel =>
          (hlabels label hlabel).dot_not_mem
        rw [textFault?, if_neg (Nat.not_lt.mpr hlength), if_neg hempty, split_join hne hdots,
          List.findSome?_eq_none_iff]
        exact fun label hlabel => fault?_eq_none_iff.mpr (hlabels label hlabel)

theorem textFault?_eq_some_iff {text : Octets} {error : NameError} :
    textFault? text = some error ↔ FaultyText text error := by
  constructor
  · intro h
    unfold textFault? at h
    split at h
    next hlong =>
      cases h
      exact .tooLong hlong
    next hshort =>
      split at h
      next => cases h
      next hne =>
        obtain ⟨before, label, after, hsplit, hfault, hbefore⟩ := List.findSome?_eq_some_iff.mp h
        have htext : text = join (before ++ label :: after) := by rw [← hsplit, join_split]
        have hdots : ∀ other ∈ before ++ label :: after, dot ∉ other := by
          rw [← hsplit]
          exact fun other => dot_not_mem_of_mem_split
        have hwell : ∀ other ∈ before, WellFormed other := fun other hother =>
          fault?_eq_none_iff.mp (hbefore other hother)
        exact .label (Nat.le_of_not_lt hshort) hne htext hdots hwell
          (fault?_eq_some_iff.mp hfault)
  · intro h
    cases h with
    | tooLong hlong => exact if_pos hlong
    | @label before after _ label _ hlength hne htext hdots hbefore hfault =>
      have hlabels : before ++ label :: after ≠ [] :=
        List.append_ne_nil_of_right_ne_nil before (List.cons_ne_nil label after)
      rw [textFault?, if_neg (Nat.not_lt.mpr hlength), if_neg hne, htext,
        split_join hlabels hdots, List.findSome?_eq_some_iff]
      refine ⟨before, label, after, rfl, fault?_eq_some_iff.mpr hfault, ?_⟩
      exact fun other hother => fault?_eq_none_iff.mpr (hbefore other hother)

end Labels

/-! ## Names -/

namespace Name

theorem ofText_toString (name : Name) : Octets.ofText name.toString = name.text :=
  Octets.ofText_text fun _ => lt_of_mem_text

theorem ofString_toString (name : Name) : ofString name.toString = .ok name := by
  rw [ofString, ofText_toString, ofOctets_text]

/-- A text is made a name exactly if it is well-formed, and else is rejected for its fault.  One
final full stop is dropped before.  The name keeps the text, whose labels are its own, and is a name
in lower case, too. -/
theorem ofString_validates {s u : String}
    (hu : s = u ++ "." ∨ s = u ∧ s.toList.getLast? ≠ some '.') :
    ((∃ name, ofString s = .ok name) ↔ Labels.WellFormedText (Octets.ofText u)) ∧
      (∀ name, ofString s = .ok name →
        name.toString = u ∧ Labels.join name.labels = Octets.ofText u ∧
          ofString name.lowerCase.toString = .ok name.lowerCase) ∧
      ∀ error, ofString s = .error error ↔ Labels.FaultyText (Octets.ofText u) error := by
  have htext : Octets.withoutFinalDot (Octets.ofText s) = Octets.ofText u :=
    Octets.withoutFinalDot_ofText hu
  refine ⟨?_, ?_, ?_⟩
  · rw [← Labels.textFault?_eq_none_iff, ← htext]
    constructor
    · rintro ⟨name, hname⟩
      rw [← ofOctets_eq_ok_iff.mp hname]
      exact name.faultless
    · intro hfaultless
      exact ⟨⟨_, hfaultless⟩, ofOctets_eq_ok_iff.mpr rfl⟩
  · intro name hname
    have hsame : name.text = Octets.ofText u := (ofOctets_eq_ok_iff.mp hname).trans htext
    refine ⟨?_, ?_, ofString_toString name.lowerCase⟩
    · rw [← Octets.ofText_inj, ofText_toString, hsame]
    · rw [join_labels, hsame]
  · intro error
    rw [ofString, ofOctets_eq_error_iff, htext, Labels.textFault?_eq_some_iff]

/-- The text `w.X.` makes the name `w.X`, and `w..x-` is rejected for its empty label. -/
theorem ofString_validates_finalDot :
    (∃ name, ofString "w.X." = .ok name ∧ name.toString = "w.X") ∧
      ofString "w..x-" = .error .emptyLabel := by
  constructor
  · obtain ⟨haccepted, hname, -⟩ := ofString_validates (s := "w.X.") (u := "w.X") (.inl rfl)
    have hlabels : ∀ label ∈ [[119], [88]], Labels.WellFormed label :=
      List.forall_mem_cons.mpr ⟨Labels.wellFormed_singleton (by decide),
        List.forall_mem_singleton.mpr (Labels.wellFormed_singleton (by decide))⟩
    obtain ⟨name, hmade⟩ := haccepted.mpr (.inr ⟨by decide, [[119], [88]], by decide, hlabels⟩)
    exact ⟨name, hmade, (hname name hmade).1⟩
  · have hplain : "w..x-".toList.getLast? ≠ some '.' := by decide
    have htext : Octets.ofText "w..x-" = Labels.join ([[119]] ++ [] :: [[120, 45]]) := by decide
    have hfirst : ∀ label ∈ [[119]], Labels.WellFormed label :=
      List.forall_mem_singleton.mpr (Labels.wellFormed_singleton (by decide))
    obtain ⟨-, -, hrejected⟩ := ofString_validates (.inr ⟨rfl, hplain⟩)
    exact (hrejected .emptyLabel).mpr
      (.label (by decide) (by decide) htext (by decide) hfirst .empty)

end Name
end DnsResolver
