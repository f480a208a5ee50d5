import DnsResolver.Proofs.Name.Labels
import DnsResolver.Proofs.Reader.Decoding
import DnsResolver.Reader.Name

/-!
# How a message spells a name

The octets at some place of a message spell labels: one label behind the other up to a zero octet,
where a compression pointer may take the place of any rest.  A reader collects exactly the labels
that are spelled, and stops behind the zero octet or the first pointer.  A name may therefore be
written out, or cut at any label and continued anywhere in the message.
-/

namespace DnsResolver

open Octets (StandsAt)

namespace Name

/-- A compression pointer to an offset of 14 bits. -/
def pointerWire (offset : Nat) : Octets :=
  [UInt8.ofNat (192 + offset / 256), UInt8.ofNat (offset % 256)]

theorem length_labelWire (label : Octets) : (labelWire label).length = label.length + 1 :=
  rfl

theorem length_pointerWire (offset : Nat) : (pointerWire offset).length = 2 :=
  rfl

end Name

open Name (labelWire pointerWire length_labelWire length_pointerWire)

/-- From `position` on, the message spells the labels with at most `pointers` pointers.  What stands
there up to the first pointer ends at `limit` at the latest, and `behind` is the place behind it. -/
inductive Spells (message : Octets) :
    (pointers position limit : Nat) → (labels : List Octets) → (behind : Nat) → Prop where
  | zero {pointers position limit : Nat} :
      position < limit → message[position]? = some 0 →
      Spells message pointers position limit [] (position + 1)
  | label {pointers position limit behind : Nat} {label : Octets} {labels : List Octets} :
      Labels.Legal label → StandsAt message position (labelWire label) →
      position + (labelWire label).length ≤ limit →
      Spells message pointers (position + (labelWire label).length) limit labels behind →
      Spells message pointers position limit (label :: labels) behind
  | pointer {pointers position limit offset behind : Nat} {labels : List Octets} :
      offset < 16384 → StandsAt message position (pointerWire offset) → position + 2 ≤ limit →
      Spells message pointers offset message.length labels behind →
      Spells message (pointers + 1) position limit labels (position + 2)

namespace Spells

variable {message : Octets} {pointers position limit behind : Nat}

/-- Whatever spells labels stands in the message. -/
theorem lt_length {labels : List Octets}
    (h : Spells message pointers position limit labels behind) :
    position < message.length := by
  cases h with
  | zero _ hzero => exact (List.getElem?_eq_some_iff.mp hzero).1
  | label _ hstands =>
    have hlength := hstands.length_le
    rw [length_labelWire] at hlength
    omega
  | pointer _ hstands =>
    have hlength := hstands.length_le
    rw [length_pointerWire] at hlength
    omega

/-- Labels may be written out in front of whatever spells the labels behind them. -/
theorem append {leading rest : List Octets} (hlegal : ∀ label ∈ leading, Labels.Legal label)
    (hstands : StandsAt message position (leading.flatMap labelWire))
    (hlimit : position + (leading.flatMap labelWire).length ≤ limit)
    (h : Spells message pointers (position + (leading.flatMap labelWire).length) limit rest
      behind) :
    Spells message pointers position limit (leading ++ rest) behind := by
  induction leading generalizing position with
  | nil => exact h
  | cons label leading ih =>
    rw [List.flatMap_cons] at hstands
    rw [List.flatMap_cons, List.length_append] at hlimit h
    obtain ⟨hlabel, hleading⟩ := Octets.standsAt_append_iff.mp hstands
    obtain ⟨hlegalLabel, hlegalLeading⟩ := List.forall_mem_cons.mp hlegal
    refine .label hlegalLabel hlabel (by omega) (ih hlegalLeading hleading (by omega) ?_)
    rwa [Nat.add_assoc]

end Spells

namespace Reader

variable {message : Octets} {cursor window pointers position limit : Nat}

/-! ## One step of the walk along a name -/

theorem nameLabels_zero (hinside : position < limit) (hzero : message[position]? = some 0) :
    (placed message cursor window).nameLabels pointers position limit = .ok ([], position + 1) := by
  rw [nameLabels, dif_pos hinside, octetAt_placed hzero]
  rfl

theorem nameLabels_label {label : Octets} (hlegal : Labels.Legal label)
    (hstands : StandsAt message position (labelWire label))
    (hlimit : position + (labelWire label).length ≤ limit) :
    (placed message cursor window).nameLabels pointers position limit =
      ((placed message cursor window).nameLabels pointers
        (position + (labelWire label).length) limit).map
          (fun (labels, behind) => (label :: labels, behind)) := by
  obtain ⟨hlength, hlabel⟩ := Octets.standsAt_cons_iff.mp hstands
  have hoctets : label.find? (fun c => !Octets.isLabelOctet c) = none := by
    rw [List.find?_eq_none]
    intro c hc
    simp [hlegal.octets c hc]
  rw [length_labelWire] at hlimit ⊢
  have hstop : position + 1 + label.length ≤ limit := by omega
  rw [nameLabels, dif_pos (by omega), octetAt_placed hlength]
  simp only [if_neg hlegal.lengthOctet_ne_zero, if_pos hlegal.lengthOctet_lt,
    hlegal.toNat_lengthOctet, if_pos hstop, slice_placed hlabel, hoctets]
  rw [show position + (label.length + 1) = position + 1 + label.length by omega]
  cases (placed message cursor window).nameLabels pointers (position + 1 + label.length) limit <;>
    rfl

theorem nameLabels_pointer {offset : Nat} (hoffset : offset < 16384)
    (hstands : StandsAt message position (pointerWire offset)) (hlimit : position + 2 ≤ limit)
    (hinside : offset < message.length) :
    (placed message cursor window).nameLabels (pointers + 1) position limit =
      ((placed message cursor window).nameLabels pointers offset message.length).map
        (fun (labels, _) => (labels, position + 2)) := by
  obtain ⟨hhigh, hrest⟩ := Octets.standsAt_cons_iff.mp hstands
  obtain ⟨hlow, -⟩ := Octets.standsAt_cons_iff.mp hrest
  have hhighNat : (UInt8.ofNat (192 + offset / 256)).toNat = 192 + offset / 256 := by
    rw [UInt8.toNat_ofNat']
    omega
  have hlowNat : (UInt8.ofNat (offset % 256)).toNat = offset % 256 := by
    rw [UInt8.toNat_ofNat']
    omega
  have hnotBelow (bound : UInt8) (hbound : bound.toNat ≤ 192) :
      ¬UInt8.ofNat (192 + offset / 256) < bound := by
    rw [UInt8.lt_iff_toNat_lt, hhighNat]
    omega
  have hnonzero : UInt8.ofNat (192 + offset / 256) ≠ 0 := by
    rw [Ne, ← UInt8.toNat_inj, hhighNat, UInt8.toNat_zero]
    omega
  have hvalue : (192 + offset / 256 - 192) * 256 + offset % 256 = offset := by omega
  have hsize : (placed message cursor window).buffer.size = message.length :=
    size_buffer_placed message cursor window
  have hsecond : position + 1 < limit := by omega
  rw [nameLabels, dif_pos (by omega), octetAt_placed hhigh]
  simp only [if_neg hnonzero, if_neg (hnotBelow 64 (by decide)),
    if_neg (hnotBelow 192 (by decide)), if_pos hsecond, octetAt_placed hlow, hhighNat,
    hlowNat, hvalue, hsize, if_pos hinside]
  cases (placed message cursor window).nameLabels pointers offset message.length <;> rfl

/-- The walk collects the labels that are spelled. -/
theorem nameLabels_of_spells {labels : List Octets} {behind : Nat}
    (h : Spells message pointers position limit labels behind) :
    (placed message cursor window).nameLabels pointers position limit = .ok (labels, behind) := by
  induction h with
  | zero hinside hzero => exact nameLabels_zero hinside hzero
  | label hlegal hstands hlimit _ ih =>
    rw [nameLabels_label hlegal hstands hlimit, ih]
    rfl
  | pointer hoffset hstands hlimit hrest ih =>
    rw [nameLabels_pointer hoffset hstands hlimit hrest.lt_length, ih]
    rfl

end Reader

namespace Name

/-- The octets that may stand for a name in a message: its labels and a zero octet, or some leading
labels and a pointer to a place from which the message spells the others. -/
inductive WireForm (message : Octets) (name : Name) : Octets → Prop where
  | plain : WireForm message name name.wire
  | compressed {leading rest : List Octets} {offset behind : Nat} :
      name.labels = leading ++ rest → offset < 16384 →
      Spells message (maxPointers - 1) offset message.length rest behind →
      WireForm message name (leading.flatMap labelWire ++ pointerWire offset)

/-- Wherever a form of a name stands in a window, it spells the labels of the name. -/
theorem WireForm.spells {message octets : Octets} {name : Name}
    (h : WireForm message name octets) {position limit : Nat}
    (hstands : StandsAt message position octets) (hfits : position + octets.length ≤ limit) :
    Spells message maxPointers position limit name.labels (position + octets.length) := by
  cases h with
  | plain =>
    rw [wire] at hstands
    rw [wire, List.length_append, List.length_singleton] at hfits ⊢
    obtain ⟨hlabels, hzero⟩ := Octets.standsAt_append_iff.mp hstands
    obtain ⟨hzero, -⟩ := Octets.standsAt_cons_iff.mp hzero
    rw [← Nat.add_assoc]
    have hend : Spells message maxPointers (position + (name.labels.flatMap labelWire).length)
        limit [] (position + (name.labels.flatMap labelWire).length + 1) :=
      .zero (by omega) hzero
    have happend := Spells.append name.labels_legal hlabels (by omega) hend
    rwa [List.append_nil] at happend
  | @compressed leading rest offset behind hlabels hoffset hrest =>
    rw [List.length_append, length_pointerWire] at hfits ⊢
    obtain ⟨hleading, hpointer⟩ := Octets.standsAt_append_iff.mp hstands
    have hlegal : ∀ label ∈ leading, Labels.Legal label := by
      intro label hlabel
      apply name.labels_legal
      rw [hlabels]
      exact List.mem_append_left rest hlabel
    rw [hlabels, ← Nat.add_assoc]
    exact Spells.append hlegal hleading (by omega) (.pointer hoffset hpointer (by omega) hrest)

end Name

namespace Decoder

/-- Every form of a name in a message decodes to that name, in its own spelling. -/
theorem decodes_name {message octets : Octets} {name : Name}
    (h : name.WireForm message octets) :
    Decodes message Decoder.name octets name := by
  intro position limit hstands hfits _
  have hlabels : (Reader.placed message position limit).nameLabels maxPointers
      (Reader.placed message position limit).position
      (Reader.placed message position limit).limit = .ok (name.labels, position + octets.length) :=
    Reader.nameLabels_of_spells (h.spells hstands hfits)
  have htext : nameText (.placed message position limit) =
      .ok name.text (.placed message (position + octets.length) limit) := by
    simp only [nameText, hlabels, Name.join_labels]
    rfl
  rw [Decoder.name, bind_of_ok htext, Name.ofOctets_text]
  rfl

end Decoder
end DnsResolver
