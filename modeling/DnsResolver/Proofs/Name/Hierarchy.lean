import Mathlib.Data.Nat.PSub
import DnsResolver.Proofs.Name.Subdomains

/-!
# The hierarchy of names

With its labels in lower case, a name lies within a zone if its labels end in those of the zone.
Hence the subdomain test is a partial order, as long as spellings of one name are not told apart.
The test reads texts from an index on; it never counts back beyond the beginning of a text, nor
reads behind its end or from within a character.
-/

namespace DnsResolver

open Octets (dot lower)

/-! ## Labels in lower case -/

namespace Labels

theorem join_map_lower (labels : List Octets) :
    join (labels.map (List.map lower)) = (join labels).map lower := by
  induction labels with
  | nil => rfl
  | cons label labels ih =>
    by_cases hlabels : labels = []
    · rw [hlabels]
      rfl
    · have hlower : labels.map (List.map lower) ≠ [] := mt List.map_eq_nil_iff.mp hlabels
      rw [List.map_cons, join, ih, join, List.map_append, List.map_cons,
        (Octets.lower_eq_dot dot).mpr rfl]
      · exact hlabels
      · exact hlower

end Labels

namespace Name

theorem labels_lowerCase (name : Name) :
    name.lowerCase.labels = name.labels.map (List.map lower) := by
  by_cases h : name.text = []
  · have hlower : name.lowerCase.text = [] := List.map_eq_nil_iff.mpr h
    rw [labels_of_text_eq_nil h, labels_of_text_eq_nil hlower]
    rfl
  · rw [map_labels_of_text_ne_nil h]
    exact labels_of_text_ne_nil (mt List.map_eq_nil_iff.mp h)

/-- Two names are the same if their labels agree one by one, the case of letters aside. -/
theorem same_iff_labels (name other : Name) :
    name.same other = true ↔
      name.labels.map (List.map lower) = other.labels.map (List.map lower) := by
  rw [same, Octets.sameText_iff]
  constructor
  · intro h
    have hlower : name.lowerCase = other.lowerCase := by
      rw [Name.mk.injEq]
      exact h
    rw [← labels_lowerCase, ← labels_lowerCase, hlower]
  · intro h
    rw [← join_labels name, ← join_labels other, ← Labels.join_map_lower, h,
      Labels.join_map_lower]

end Name

/-! ## Reading within a text -/

namespace Octets

/-- Whether a text in UTF-8 may be cut at an index: a character begins there, or the text ends. -/
def isBoundary (octets : Octets) (index : Nat) : Bool :=
  match octets[index]? with
  | some c => c < 128 || 192 ≤ c
  | none => index == octets.length

/-- The ending of a text from an index on, if the text may be cut there. -/
def ending? (octets : Octets) (index : Nat) : Option Octets :=
  if octets.isBoundary index then some (octets.drop index) else none

/-- A text of ASCII characters may be cut anywhere. -/
theorem ending?_eq_drop {octets : Octets} (hascii : ∀ c ∈ octets, c < 128) {index : Nat}
    (h : index ≤ octets.length) :
    octets.ending? index = some (octets.drop index) := by
  refine if_pos ?_
  unfold isBoundary
  split
  next c hc => simp [hascii c (List.mem_of_getElem? hc)]
  next hnone =>
    have hend : octets.length ≤ index := List.getElem?_eq_none_iff.mp hnone
    exact beq_iff_eq.mpr (Nat.le_antisymm h hend)

end Octets

namespace Name

/-- The subdomain test with all that could go wrong in it: no difference may fall below zero, no
octet may be read behind the end of the text, and no ending from where the text may not be cut. -/
def isSubdomainOf? (name parent : Name) : Option Bool :=
  if parent.isRoot || name.same parent then some true
  else if parent.text.length < name.text.length then do
    let lead ← Nat.psub name.text.length parent.text.length
    let c ← name.text[← Nat.psub lead 1]?
    if c == dot then
      return Octets.sameText (← name.text.ending? lead) parent.text
    else
      return false
  else some false

/-- Nothing goes wrong in the subdomain test. -/
theorem isSubdomainOf?_eq (name parent : Name) :
    name.isSubdomainOf? parent = some (name.isSubdomainOf parent) := by
  rw [isSubdomainOf?, isSubdomainOf]
  by_cases hat : (parent.isRoot || name.same parent) = true
  · rw [if_pos hat, hat, Bool.true_or]
  · rw [if_neg hat, Bool.eq_false_iff.mpr hat, Bool.false_or]
    by_cases hlonger : parent.text.length < name.text.length
    · have hlead : 1 ≤ name.text.length - parent.text.length := by omega
      have hinside : name.text.length - parent.text.length - 1 < name.text.length := by omega
      have hending := Octets.ending?_eq_drop (fun _ => lt_of_mem_text)
        (Nat.sub_le name.text.length parent.text.length)
      rw [if_pos hlonger, decide_eq_true hlonger, Nat.psub_eq_sub (Nat.le_of_lt hlonger)]
      simp only [Option.bind_eq_bind, Option.bind_some, Nat.psub_eq_sub hlead,
        List.getElem?_eq_getElem hinside, hending, Bool.true_and, Option.some_beq_some]
      split
      next hdot => rw [hdot, Bool.true_and, Option.pure_def]
      next hdot => rw [Bool.eq_false_iff.mpr hdot, Bool.false_and, Option.pure_def]
    · rw [if_neg hlonger, decide_eq_false hlonger, Bool.false_and, Bool.false_and]

/-! ## The order of names -/

/-- The subdomain test compares labels from the end on, the case of letters aside.  Hence it is
reflexive, transitive and, up to spelling, antisymmetric, and does not depend on spellings.  No step
of it reads outside of a text. -/
theorem isSubdomainOf_hierarchy :
    (∀ name parent : Name, name.isSubdomainOf parent = true ↔
      parent.labels.map (List.map lower) <:+ name.labels.map (List.map lower)) ∧
    (∀ name : Name, name.isSubdomainOf name = true) ∧
    (∀ a b c : Name, a.isSubdomainOf b = true → b.isSubdomainOf c = true →
      a.isSubdomainOf c = true) ∧
    (∀ a b : Name, a.isSubdomainOf b = true → b.isSubdomainOf a = true → a.same b = true) ∧
    (∀ name spelling parent spelling' : Name, name.same spelling = true →
      parent.same spelling' = true →
        name.isSubdomainOf parent = spelling.isSubdomainOf spelling') ∧
    ∀ name parent : Name, name.isSubdomainOf? parent = some (name.isSubdomainOf parent) := by
  simp only [isSubdomainOf_iff_within, same_iff_labels]
  refine ⟨fun _ _ => Iff.rfl, fun _ => List.suffix_refl _, ?_, ?_, ?_, isSubdomainOf?_eq⟩
  · intro a b c hab hbc
    exact hbc.trans hab
  · intro a b hab hba
    exact hba.eq_of_length_le hab.length_le
  · intro name spelling parent spelling' hname hparent
    rw [Bool.eq_iff_iff, isSubdomainOf_iff_within, isSubdomainOf_iff_within, Within, Within, hname,
      hparent]

/-- The name `a.ab.C`. -/
def leafName : Name := ⟨[97, 46, 97, 98, 46, 67], by decide⟩

/-- The name `AB.c`, which is a parent of `a.ab.C`. -/
def branchName : Name := ⟨[65, 66, 46, 99], by decide⟩

/-- The name `b.c`, which is an ending of the text of `a.ab.C` in lower case, but no parent. -/
def strangerName : Name := ⟨[98, 46, 99], by decide⟩

theorem isSubdomainOf_hierarchy_leafName :
    leafName.isSubdomainOf branchName = true ∧ branchName.isSubdomainOf root = true ∧
      leafName.isSubdomainOf root = true ∧ leafName.isSubdomainOf? branchName = some true ∧
      leafName.isSubdomainOf strangerName = false := by
  obtain ⟨hsuffix, -, htrans, -, -, hchecked⟩ := isSubdomainOf_hierarchy
  have hbranch : leafName.isSubdomainOf branchName = true :=
    (hsuffix leafName branchName).mpr (by decide)
  have hroot : branchName.isSubdomainOf root = true := (hsuffix branchName root).mpr (by decide)
  refine ⟨hbranch, hroot, htrans _ _ _ hbranch hroot, ?_, ?_⟩
  · rw [hchecked, hbranch]
  · rw [Bool.eq_false_iff, ne_eq, hsuffix]
    decide

end Name
end DnsResolver
