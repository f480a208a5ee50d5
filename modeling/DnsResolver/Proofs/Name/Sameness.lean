import Mathlib.Data.List.Forall2
import Mathlib.Data.List.TFAE
import Mathlib.Tactic.TFAE
import DnsResolver.Cache.Records
import DnsResolver.Proofs.Name.Hierarchy
import DnsResolver.Proofs.Name.Validation

/-!
# When names are the same

Names are compared as they are, in lower case, label by label, by what stands for them in a hash, and
as keys of a cache.  All of this is the same comparison.  No name's octets in a hash are the
beginning of another's, so that what is hashed behind a name is kept apart from it.  A text may be
compared with a name as it is: only the texts of names can agree with one.
-/

namespace DnsResolver

open Octets (dot lower sameText)

/-! ## Texts in lower case -/

namespace Labels

/-- Lower case takes no fault from a label. -/
theorem fault?_map_lower_eq_none_iff {label : Octets} :
    fault? (label.map lower) = none ↔ fault? label = none := by
  refine ⟨fun h => ?_, fault?_map_lower⟩
  simp only [fault?, List.map_eq_nil_iff, List.length_map, illegalOctet?_map_lower] at h ⊢
  split at h
  · cases h
  next hempty =>
    rw [if_neg hempty]
    split at h
    · cases h
    next hlong =>
      rw [if_neg hlong]
      simpa only [Option.map_eq_none_iff] using h

/-- Lower case takes no fault from a text. -/
theorem textFault?_map_lower_eq_none_iff {text : Octets} :
    textFault? (text.map lower) = none ↔ textFault? text = none := by
  refine ⟨fun h => ?_, textFault?_map_lower⟩
  simp only [textFault?, List.length_map, List.map_eq_nil_iff, split_map_lower] at h ⊢
  split at h
  · cases h
  next hlong =>
    rw [if_neg hlong]
    split at h
    next hempty => rw [if_pos hempty]
    next hempty =>
      rw [if_neg hempty]
      rw [List.findSome?_eq_none_iff] at h ⊢
      intro label hlabel
      exact fault?_map_lower_eq_none_iff.mp (h _ (List.mem_map_of_mem hlabel))

theorem textFault?_eq_none_of_map_lower_eq {text other : Octets} (hfaultless : textFault? text = none)
    (h : text.map lower = other.map lower) :
    textFault? other = none := by
  rw [← textFault?_map_lower_eq_none_iff, ← h]
  exact textFault?_map_lower hfaultless

end Labels

/-! ## What stands for a name -/

/-- Whether two keys agree, the case of letters in names aside. -/
def CacheKey.same (key other : CacheKey) : Bool :=
  key.name.same other.name && key.type == other.type

namespace Octets

theorem lower_eq_zero : ∀ c : UInt8, lower c = 0 ↔ c = 0 :=
  forall_octet (by decide +kernel)

theorem map_lower_map_lower (octets : Octets) :
    (octets.map lower).map lower = octets.map lower := by
  rw [List.map_map]
  exact List.map_congr_left fun c _ => lower_lower c

end Octets

namespace Name

theorem same_iff {name other : Name} :
    name.same other = true ↔ name.text.map lower = other.text.map lower :=
  Octets.sameText_iff _ _

theorem lowerCase_eq_iff {name other : Name} :
    name.lowerCase = other.lowerCase ↔ name.text.map lower = other.text.map lower := by
  rw [lowerCase, lowerCase, Name.mk.injEq]

theorem toString_inj {name other : Name} : name.toString = other.toString ↔ name = other := by
  rw [← Octets.ofText_inj, ofText_toString, ofText_toString]
  constructor
  · intro h
    rw [Name.mk.injEq]
    exact h
  · rintro rfl
    rfl

theorem hashOctets_eq_iff {name other : Name} :
    name.hashOctets = other.hashOctets ↔ name.text.map lower = other.text.map lower := by
  rw [hashOctets, hashOctets, List.append_left_inj]

theorem cacheKey_eq_iff {name other : Name} {type : RecordType} :
    CacheKey.of name type = .of other type ↔ name.text.map lower = other.text.map lower := by
  rw [CacheKey.of, CacheKey.of, CacheKey.mk.injEq, lowerCase_eq_iff, and_iff_left rfl]

theorem cacheKey_same_iff {name other : Name} {type : RecordType} :
    (CacheKey.of name type).same (.of other type) = true ↔
      name.text.map lower = other.text.map lower := by
  simp only [CacheKey.same, CacheKey.of, Bool.and_eq_true, beq_iff_eq, and_true, same_iff, lowerCase,
    Octets.map_lower_map_lower]

/-- The labels agree one by one exactly if they do in lower case. -/
theorem forall₂_labels_iff {name other : Name} :
    List.Forall₂ (fun label counterpart => sameText label counterpart = true) name.labels
        other.labels ↔
      name.labels.map (List.map lower) = other.labels.map (List.map lower) := by
  have hequal : List.Forall₂ (· = ·) (name.labels.map (List.map lower))
      (other.labels.map (List.map lower)) ↔
      name.labels.map (List.map lower) = other.labels.map (List.map lower) := by
    rw [List.forall₂_eq_eq_eq]
  rw [← hequal, List.forall₂_map_left_iff, List.forall₂_map_right_iff]
  simp only [Octets.sameText_iff]

theorem zero_not_mem_text (name : Name) : 0 ∉ name.text := by
  intro hzero
  rw [← join_labels] at hzero
  rcases Labels.mem_of_mem_join hzero with hdot | ⟨label, hlabel, hc⟩
  · exact absurd hdot (by decide)
  · have hoctet := (labels_legal name label hlabel).octets 0 hc
    exact absurd hoctet (by decide)

/-- What is hashed for a name ends in its only zero octet, hence is no proper beginning of what is
hashed for another one. -/
theorem hashOctets_prefix_iff {name other : Name} :
    name.hashOctets <+: other.hashOctets ↔ name.hashOctets = other.hashOctets := by
  refine ⟨fun h => ?_, fun h => h ▸ List.prefix_refl _⟩
  rcases List.prefix_concat_iff.mp h with heq | hinside
  · exact heq
  · have hzero : 0 ∈ other.text.map lower := hinside.mem (List.mem_append_right _ List.mem_cons_self)
    obtain ⟨c, hc, hlower⟩ := List.mem_map.mp hzero
    rw [(Octets.lower_eq_zero c).mp hlower] at hc
    exact absurd hc (zero_not_mem_text other)

/-! ## Comparing with a text -/

/-- Only what makes a name can agree with a name. -/
theorem sameAsText_iff {name : Name} {octets : Octets} :
    name.sameAsText octets = true ↔ ∃ other, ofOctets octets = .ok other ∧ other.same name = true := by
  rw [sameAsText, Octets.sameText_iff]
  constructor
  · intro h
    have hfaultless := Labels.textFault?_eq_none_of_map_lower_eq name.faultless h
    exact ⟨⟨_, hfaultless⟩, ofOctets_eq_ok_iff.mpr rfl, same_iff.mpr h.symm⟩
  · rintro ⟨other, hother, hsame⟩
    rw [← ofOctets_eq_ok_iff.mp hother]
    exact (same_iff.mp hsame).symm

/-! ## One notion of the same name -/

/-- Names are the same if and only if they are the same text in lower case, their labels agree one
by one, the same octets stand for them in a hash, and they make the same key of a cache.  What stands
for one in a hash is a beginning of what stands for the other only then.  A text agrees with a name
if and only if it makes a name that is the same. -/
theorem same_notions_coincide :
    (∀ (name other : Name) (type : RecordType),
      [name.same other = true,
        name.lowerCase.toString = other.lowerCase.toString,
        List.Forall₂ (fun label counterpart => sameText label counterpart = true) name.labels
          other.labels,
        name.hashOctets = other.hashOctets,
        (CacheKey.of name type).same (.of other type) = true,
        CacheKey.of name type = .of other type].TFAE) ∧
    (∀ name other : Name,
      name.hashOctets <+: other.hashOctets ↔ name.hashOctets = other.hashOctets) ∧
    ∀ (name : Name) (s : String),
      name.sameAsText (Octets.ofText s) = true ↔
        ∃ other, ofString s = .ok other ∧ other.same name = true := by
  refine ⟨?_, fun _ _ => hashOctets_prefix_iff, fun _ _ => sameAsText_iff⟩
  intro name other type
  tfae_have 1 ↔ 2 := by rw [same_iff, toString_inj, lowerCase_eq_iff]
  tfae_have 1 ↔ 3 := by rw [same_iff_labels, forall₂_labels_iff]
  tfae_have 1 ↔ 4 := by rw [same_iff, hashOctets_eq_iff]
  tfae_have 1 ↔ 5 := by rw [same_iff, cacheKey_same_iff]
  tfae_have 1 ↔ 6 := by rw [same_iff, cacheKey_eq_iff]
  tfae_finish

/-- A final full stop may stand behind the text of a name, but not two of them. -/
example : leafName.sameAsText (Octets.ofText "A.aB.c.") = true ∧
    leafName.sameAsText (Octets.ofText "A.aB.c..") = false := by
  decide

end Name
end DnsResolver
