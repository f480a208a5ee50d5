import DnsResolver.Proofs.Reader.Spelling

/-!
# The grammar of names on the wire

A reader takes a name exactly where the message spells labels with at most `maxPointers` pointers,
what stands up to the first pointer lying inside the window.  The text is these labels joined, and
the cursor ends behind the zero octet or the first pointer.  Everywhere else reading a name fails.
-/

namespace DnsResolver

open Octets (StandsAt)
open Name (labelWire pointerWire length_labelWire length_pointerWire)

namespace Name

/-- The offset that the two octets of a pointer hold is the one that they are written for. -/
theorem pointerWire_of_octets {high : UInt8} (hhigh : 192 ≤ high.toNat) (low : UInt8) :
    pointerWire ((high.toNat - 192) * 256 + low.toNat) = [high, low] := by
  have hhighLt : high.toNat < 256 := high.toNat_lt
  have hlowLt : low.toNat < 256 := low.toNat_lt
  rw [pointerWire, List.cons.injEq, List.cons.injEq]
  refine ⟨?_, ?_, rfl⟩
  · apply UInt8.toNat_inj.mp
    rw [UInt8.toNat_ofNat']
    omega
  · apply UInt8.toNat_inj.mp
    rw [UInt8.toNat_ofNat']
    omega

end Name

namespace Reader

variable {message : Octets} {cursor window pointers position limit behind : Nat}
  {labels : List Octets} {c : UInt8}

/-! ## What a successful step of the walk tells -/

theorem slice_standsAt (start count : Nat) :
    StandsAt message start ((placed message cursor window).slice start count) := by
  rw [slice_eq]
  exact List.take_prefix count _

theorem length_slice_placed {start count : Nat} (h : start + count ≤ message.length) :
    ((placed message cursor window).slice start count).length = count := by
  have hlength : (placed message cursor window).buffer.toList.length = message.length := rfl
  rw [slice_eq, List.length_take, List.length_drop, hlength]
  omega

/-- Behind the length octet of a label, a walk that succeeds goes on behind the label. -/
theorem exists_of_nameLabels_label (hlimit : limit ≤ message.length) (hinside : position < limit)
    (hc : message[position]? = some c) (hzero : c ≠ 0) (hplain : c < 64)
    (h : (placed message cursor window).nameLabels pointers position limit = .ok (labels, behind)) :
    ∃ label rest, labels = label :: rest ∧ Labels.Legal label ∧
      StandsAt message position (labelWire label) ∧
      position + (labelWire label).length ≤ limit ∧
      (placed message cursor window).nameLabels pointers (position + (labelWire label).length)
        limit = .ok (rest, behind) := by
  have hpos : 0 < c.toNat := by
    apply Nat.pos_of_ne_zero
    intro hnat
    exact hzero (UInt8.toNat_inj.mp hnat)
  have hlt : c.toNat < 64 := UInt8.lt_iff_toNat_lt.mp hplain
  rw [nameLabels, dif_pos hinside, octetAt_placed hc] at h
  simp only [if_neg hzero, if_pos hplain] at h
  by_cases hstop : position + 1 + c.toNat ≤ limit
  · simp only [if_pos hstop] at h
    have hlength : ((placed message cursor window).slice (position + 1) c.toNat).length = c.toNat :=
      length_slice_placed (Nat.le_trans hstop hlimit)
    have hstands : StandsAt message (position + 1)
        ((placed message cursor window).slice (position + 1) c.toNat) :=
      slice_standsAt _ _
    generalize (placed message cursor window).slice (position + 1) c.toNat = label at *
    cases hoctets : label.find? fun c => !Octets.isLabelOctet c with
    | some d =>
      rw [hoctets] at h
      cases h
    | none =>
      simp only [hoctets] at h
      cases hrest : (placed message cursor window).nameLabels pointers (position + 1 + c.toNat)
          limit with
      | error fault =>
        rw [hrest] at h
        cases h
      | ok found =>
        rw [hrest] at h
        cases h
        have hnext : position + (labelWire label).length = position + 1 + c.toNat := by
          rw [length_labelWire, hlength]
          omega
        refine ⟨label, _, rfl, ⟨by omega, ?_, ?_⟩, ?_, ?_, ?_⟩
        · rw [hlength]
          exact Nat.le_of_lt_succ hlt
        · intro d hd
          simpa using List.find?_eq_none.mp hoctets d hd
        · rw [labelWire, hlength, UInt8.ofNat_toNat]
          exact Octets.standsAt_cons_iff.mpr ⟨hc, hstands⟩
        · rwa [hnext]
        · rwa [hnext]
  · simp only [if_neg hstop] at h
    cases h

/-- No walk goes on from a length octet between those of labels and those of pointers. -/
theorem nameLabels_reserved (hinside : position < limit) (hc : message[position]? = some c)
    (hplain : ¬c < 64) (hpointer : c < 192) :
    (placed message cursor window).nameLabels pointers position limit =
      .error (.reservedLabelType c, position + 1) := by
  have hzero : c ≠ 0 := by
    rintro rfl
    exact hplain (by decide)
  rw [nameLabels, dif_pos hinside, octetAt_placed hc]
  simp only [if_neg hzero, if_neg hplain, if_pos hpointer]

/-- A walk that succeeds from a pointer had a pointer left, and succeeds from where it leads. -/
theorem exists_of_nameLabels_pointer (hlimit : limit ≤ message.length) (hinside : position < limit)
    (hc : message[position]? = some c) (hpointer : ¬c < 192)
    (h : (placed message cursor window).nameLabels pointers position limit = .ok (labels, behind)) :
    ∃ fewer offset next, pointers = fewer + 1 ∧ offset < 16384 ∧
      StandsAt message position (pointerWire offset) ∧ position + 2 ≤ limit ∧
      (placed message cursor window).nameLabels fewer offset message.length = .ok (labels, next) ∧
      behind = position + 2 := by
  have hhigh : 192 ≤ c.toNat := by
    rw [UInt8.lt_iff_toNat_lt] at hpointer
    exact Nat.le_of_not_lt hpointer
  have hplain : ¬c < 64 := by
    intro hlt
    have hnat : c.toNat < 64 := UInt8.lt_iff_toNat_lt.mp hlt
    omega
  have hzero : c ≠ 0 := by
    rintro rfl
    exact hplain (by decide)
  have hsize : (placed message cursor window).buffer.size = message.length :=
    size_buffer_placed message cursor window
  rw [nameLabels, dif_pos hinside, octetAt_placed hc] at h
  simp only [if_neg hzero, if_neg hplain, if_neg hpointer, hsize] at h
  cases pointers with
  | zero => cases h
  | succ fewer =>
    by_cases hsecond : position + 1 < limit
    · obtain ⟨d, hd⟩ : ∃ d, message[position + 1]? = some d :=
        ⟨_, List.getElem?_eq_getElem (Nat.lt_of_lt_of_le hsecond hlimit)⟩
      simp only [if_pos hsecond, octetAt_placed hd] at h
      by_cases hoffset : (c.toNat - 192) * 256 + d.toNat < message.length
      · simp only [if_pos hoffset] at h
        cases hrest : (placed message cursor window).nameLabels fewer
            ((c.toNat - 192) * 256 + d.toNat) message.length with
        | error fault =>
          rw [hrest] at h
          cases h
        | ok found =>
          rw [hrest] at h
          cases h
          -- Two octets hold no offset that a pointer could not be written for.
          have hcLt : c.toNat < 256 := c.toNat_lt
          have hdLt : d.toNat < 256 := d.toNat_lt
          refine ⟨fewer, _, _, rfl, by omega, ?_, hsecond, hrest, rfl⟩
          rw [Name.pointerWire_of_octets hhigh]
          apply Octets.standsAt_cons_iff.mpr
          refine ⟨hc, Octets.standsAt_cons_iff.mpr ⟨hd, List.nil_prefix⟩⟩
      · simp only [if_neg hoffset] at h
        cases h
    · simp only [if_neg hsecond] at h
      cases h

/-! ## Walks and spellings -/

/-- What a walk collects is spelled. -/
theorem spells_of_nameLabels {pointers position limit behind : Nat} {labels : List Octets}
    (hlimit : limit ≤ message.length)
    (h : (placed message cursor window).nameLabels pointers position limit = .ok (labels, behind)) :
    Spells message pointers position limit labels behind := by
  by_cases hinside : position < limit
  · obtain ⟨c, hc⟩ : ∃ c, message[position]? = some c :=
      ⟨_, List.getElem?_eq_getElem (Nat.lt_of_lt_of_le hinside hlimit)⟩
    by_cases hzero : c = 0
    · subst c
      rw [nameLabels_zero hinside hc] at h
      cases h
      exact .zero hinside hc
    by_cases hplain : c < 64
    · obtain ⟨label, rest, rfl, hlegal, hstands, hfits, hrest⟩ :=
        exists_of_nameLabels_label hlimit hinside hc hzero hplain h
      exact .label hlegal hstands hfits (spells_of_nameLabels hlimit hrest)
    by_cases hpointer : c < 192
    · rw [nameLabels_reserved hinside hc hplain hpointer] at h
      cases h
    · obtain ⟨fewer, offset, next, hfewer, hoffset, hstands, hfits, hrest, rfl⟩ :=
        exists_of_nameLabels_pointer hlimit hinside hc hpointer h
      have hspells := spells_of_nameLabels (Nat.le_refl _) hrest
      rw [hfewer]
      exact .pointer hoffset hstands hfits hspells
  · rw [nameLabels, dif_neg hinside] at h
    cases h
-- A pointer may lead back, but takes one from the pointers left; a label moves towards the limit.
termination_by (pointers, limit - position)
decreasing_by
  · rw [length_labelWire]
    apply Prod.Lex.right
    omega
  · apply Prod.Lex.left
    omega

theorem nameLabels_eq_ok_iff (hlimit : limit ≤ message.length) :
    (placed message cursor window).nameLabels pointers position limit = .ok (labels, behind) ↔
      Spells message pointers position limit labels behind :=
  ⟨spells_of_nameLabels hlimit, nameLabels_of_spells⟩

end Reader

/-- From a pointer to itself nothing is spelled, however many pointers may be followed. -/
theorem Spells.not_of_pointer_to_itself {message : Octets} {pointers offset behind : Nat}
    {labels : List Octets} (hoffset : offset < 16384)
    (hstands : StandsAt message offset (pointerWire offset)) :
    ¬Spells message pointers offset message.length labels behind := by
  obtain ⟨hhigh, -⟩ := Octets.standsAt_cons_iff.mp hstands
  have hinside : offset < message.length := (List.getElem?_eq_some_iff.mp hhigh).1
  have hlength := hstands.length_le
  rw [length_pointerWire] at hlength
  have hpointer : ¬UInt8.ofNat (192 + offset / 256) < 192 := by
    have hbound : (192 : UInt8).toNat = 192 := rfl
    rw [UInt8.lt_iff_toNat_lt, UInt8.toNat_ofNat', hbound]
    omega
  intro h
  induction pointers generalizing labels behind with
  | zero =>
    have hwalk : (Reader.placed message 0 0).nameLabels 0 offset message.length =
        .ok (labels, behind) :=
      Reader.nameLabels_of_spells h
    obtain ⟨fewer, -, -, hfewer, -⟩ :=
      Reader.exists_of_nameLabels_pointer (Nat.le_refl _) hinside hhigh hpointer hwalk
    exact absurd hfewer.symm (Nat.succ_ne_zero fewer)
  | succ pointers ih =>
    have hwalk : (Reader.placed message 0 0).nameLabels (pointers + 1) offset message.length =
        .ok (labels, behind) :=
      Reader.nameLabels_of_spells h
    rw [Reader.nameLabels_pointer hoffset hstands (by omega) hinside] at hwalk
    cases hrest : (Reader.placed message 0 0).nameLabels pointers offset message.length with
    | error fault =>
      rw [hrest] at hwalk
      cases hwalk
    | ok found => exact ih (Reader.spells_of_nameLabels (Nat.le_refl _) hrest)

namespace Decoder

/-- The text of a name is read exactly where labels are spelled. -/
theorem nameText_eq_ok_iff {message : Octets} {position limit : Nat}
    (hlimit : limit ≤ message.length) {text : Octets} {behind : Reader} :
    nameText (.placed message position limit) = .ok text behind ↔
      ∃ labels next, Spells message maxPointers position limit labels next ∧
        text = Labels.join labels ∧ behind = .placed message next limit := by
  have hwalk (labels : List Octets) (next : Nat) :
      (Reader.placed message position limit).nameLabels maxPointers
          (Reader.placed message position limit).position
          (Reader.placed message position limit).limit = .ok (labels, next) ↔
        Spells message maxPointers position limit labels next :=
    Reader.nameLabels_eq_ok_iff hlimit
  constructor
  · intro h
    unfold nameText at h
    split at h
    next labels next hfound =>
      cases h
      exact ⟨labels, next, (hwalk labels next).mp hfound, rfl, rfl⟩
    next => cases h
  · rintro ⟨labels, next, hspells, rfl, rfl⟩
    unfold nameText
    rw [(hwalk labels next).mpr hspells]
    rfl

/-- In every window a name is read exactly where labels are spelled, with these labels as its text
and the cursor behind the zero octet or the first pointer; elsewhere reading ends in an error. -/
theorem nameText_eq_ok_iff_spells_and_error {message : Octets} {limit : Nat}
    (hlimit : limit ≤ message.length) (position : Nat) :
    (∀ text behind, nameText (.placed message position limit) = .ok text behind ↔
      ∃ labels next, Spells message maxPointers position limit labels next ∧
        text = Labels.join labels ∧ behind = .placed message next limit) ∧
      ((¬∃ labels next, Spells message maxPointers position limit labels next) →
        ∃ error behind, nameText (.placed message position limit) = .error error behind) := by
  constructor
  · intro text behind
    exact nameText_eq_ok_iff hlimit
  · intro hnone
    cases hread : nameText (.placed message position limit) with
    | error error behind => exact ⟨error, behind, rfl⟩
    | ok text behind =>
      obtain ⟨labels, next, hspells, -, -⟩ := (nameText_eq_ok_iff hlimit).mp hread
      exact absurd ⟨labels, next, hspells⟩ hnone

/-- The name `x`, then `w` with a pointer back to it, and at last a pointer to itself. -/
def pointedNames : Octets :=
  [1, 120, 0, 1, 119, 192, 0, 192, 7]

theorem spells_pointedNames : Spells pointedNames maxPointers 3 7 [[119], [120]] 7 := by
  have hx : Spells pointedNames (maxPointers - 1) 0 pointedNames.length [[120]] 3 := by
    have hlegal : Labels.Legal [120] := ⟨by decide, by decide, List.forall_mem_singleton.mpr rfl⟩
    exact .label hlegal (by decide) (by decide) (.zero (by decide) rfl)
  have hlegal : Labels.Legal [119] := ⟨by decide, by decide, List.forall_mem_singleton.mpr rfl⟩
  have hpointer : Octets.StandsAt pointedNames 5 (Name.pointerWire 0) := by decide
  exact .label hlegal (by decide) (by decide) (.pointer (by decide) hpointer (by decide) hx)

/-- The second name is read across its pointer, and nothing is read where the pointer leads to
itself. -/
theorem nameText_pointedNames :
    nameText (.placed pointedNames 3 7) = .ok [119, 46, 120] (.placed pointedNames 7 7) ∧
      ∃ error behind, nameText (.placed pointedNames 7 9) = .error error behind := by
  constructor
  · have hlimit : 7 ≤ pointedNames.length := by decide
    apply ((nameText_eq_ok_iff_spells_and_error hlimit 3).1 _ _).mpr
    exact ⟨_, _, spells_pointedNames, rfl, rfl⟩
  · have hlimit : 9 ≤ pointedNames.length := by decide
    apply (nameText_eq_ok_iff_spells_and_error hlimit 7).2
    rintro ⟨labels, next, hspells⟩
    have hself : Octets.StandsAt pointedNames 7 (Name.pointerWire 7) := by decide
    exact Spells.not_of_pointer_to_itself (by decide) hself hspells

end Decoder
end DnsResolver
