import DnsResolver.Proofs.Name.Labels

/-!
# Subdomains

A name lies within a zone if its last labels are the labels of the zone, the case of letters aside.
This is what the comparison of texts decides: the text of the zone is an ending of the text of the
name in lower case, and a full stop stands before it unless it is all of the name.
-/

namespace DnsResolver

namespace Labels

open Octets (dot)

/-- A full stop separates the labels in front of it from those behind it. -/
theorem split_append_dot_cons (front rest : Octets) :
    split (front ++ dot :: rest) = split front ++ split rest := by
  induction front with
  | nil => simp [split]
  | cons c front ih =>
    obtain ⟨label, labels, hfront⟩ := List.exists_cons_of_ne_nil (split_ne_nil front)
    rw [hfront, List.cons_append] at ih
    by_cases hc : c = dot
    · simp [split, hc, ih, hfront]
    · rw [List.cons_append, split_cons_of_ne_dot hc ih, split_cons_of_ne_dot hc hfront]
      rfl

theorem split_of_dot_not_mem {label : Octets} (h : dot ∉ label) : split label = [label] := by
  induction label with
  | nil => rfl
  | cons c rest ih =>
    have hc : c ≠ dot := by
      rintro rfl
      exact h List.mem_cons_self
    exact split_cons_of_ne_dot hc (ih fun hrest => h (List.mem_cons_of_mem c hrest))

/-- Splitting undoes joining if no label holds a full stop. -/
theorem split_join {labels : List Octets} (hne : labels ≠ [])
    (hdots : ∀ label ∈ labels, dot ∉ label) :
    split (join labels) = labels := by
  induction labels with
  | nil => exact absurd rfl hne
  | cons label labels ih =>
    obtain ⟨hlabel, hrest⟩ := List.forall_mem_cons.mp hdots
    cases labels with
    | nil => exact split_of_dot_not_mem hlabel
    | cons next labels =>
      rw [join, split_append_dot_cons, split_of_dot_not_mem hlabel,
        ih (List.cons_ne_nil next labels) hrest]
      · rfl
      · exact List.cons_ne_nil next labels

theorem join_append {xs ys : List Octets} (hxs : xs ≠ []) (hys : ys ≠ []) :
    join (xs ++ ys) = join xs ++ dot :: join ys := by
  induction xs with
  | nil => exact absurd rfl hxs
  | cons label labels ih =>
    by_cases hlabels : labels = []
    · subst labels
      obtain ⟨next, others, rfl⟩ := List.exists_cons_of_ne_nil hys
      rfl
    · have hrest := ih hlabels
      rw [List.cons_append, join, hrest, join]
      · simp
      · exact hlabels
      · simp [hlabels]

/-- The last labels of a text are those of another one if the texts agree, or the first one ends in
a full stop and the second one. -/
theorem split_suffix_iff {text rest : Octets} :
    split rest <:+ split text ↔ text = rest ∨ ∃ front, text = front ++ dot :: rest := by
  constructor
  · rintro ⟨leading, hleading⟩
    have hjoin : join (leading ++ split rest) = text := by
      rw [hleading, join_split]
    by_cases hempty : leading = []
    · left
      rw [hempty, List.nil_append, join_split] at hjoin
      exact hjoin.symm
    · right
      rw [join_append hempty (split_ne_nil rest), join_split] at hjoin
      exact ⟨join leading, hjoin.symm⟩
  · rintro (rfl | ⟨front, rfl⟩)
    · exact List.suffix_refl _
    · rw [split_append_dot_cons]
      exact List.suffix_append _ _

end Labels

namespace Name

open Octets (dot lower)

/-- The name is that of the zone or lies below it: label by label, it ends like the zone, the case
of letters aside. -/
def Within (name zone : Name) : Prop :=
  zone.labels.map (List.map lower) <:+ name.labels.map (List.map lower)

instance (name zone : Name) : Decidable (Within name zone) :=
  inferInstanceAs (Decidable (_ <:+ _))

theorem map_labels_of_text_ne_nil {name : Name} (h : name.text ≠ []) :
    name.labels.map (List.map lower) = Labels.split (name.text.map lower) := by
  rw [labels_of_text_ne_nil h, Labels.split_map_lower]

theorem within_iff {name zone : Name} :
    name.Within zone ↔ zone.text = [] ∨ name.text.map lower = zone.text.map lower ∨
      ∃ front, name.text.map lower = front ++ dot :: zone.text.map lower := by
  unfold Within
  by_cases hzone : zone.text = []
  · rw [labels_of_text_eq_nil hzone]
    simp [hzone]
  · by_cases hname : name.text = []
    · rw [labels_of_text_eq_nil hname, map_labels_of_text_ne_nil hzone, hname]
      have hsplit := Labels.split_ne_nil (zone.text.map lower)
      simp [hzone, hsplit]
    · rw [map_labels_of_text_ne_nil hname, map_labels_of_text_ne_nil hzone,
        Labels.split_suffix_iff]
      simp [hzone]

/-- An ending of a text that starts behind a full stop, found by counting from the end. -/
theorem exists_front_iff {text zone : Octets} :
    (∃ front, text.map lower = front ++ dot :: zone.map lower) ↔
      zone.length < text.length ∧ text[text.length - zone.length - 1]? = some dot ∧
        (text.drop (text.length - zone.length)).map lower = zone.map lower := by
  constructor
  · rintro ⟨front, hfront⟩
    have hlength := congrArg List.length hfront
    simp only [List.length_map, List.length_append, List.length_cons] at hlength
    have hbefore : text.length - zone.length - 1 = front.length := by omega
    have hlead : text.length - zone.length = front.length + 1 := by omega
    refine ⟨by omega, ?_, ?_⟩
    · have hdot : (text.map lower)[front.length]? = some dot := by
        rw [hfront, List.getElem?_append_right (Nat.le_refl _), Nat.sub_self]
        rfl
      rw [List.getElem?_map, Option.map_eq_some_iff] at hdot
      obtain ⟨c, hc, hlower⟩ := hdot
      rw [hbefore, hc, (Octets.lower_eq_dot c).mp hlower]
    · rw [hlead, List.map_drop, hfront, List.drop_append]
      simp
  · rintro ⟨hlength, hdot, hending⟩
    obtain ⟨hinside, hget⟩ := List.getElem?_eq_some_iff.mp hdot
    have hbehind : text.length - zone.length - 1 + 1 = text.length - zone.length := by omega
    have hdrop : text.drop (text.length - zone.length - 1) =
        dot :: text.drop (text.length - zone.length) := by
      rw [List.drop_eq_getElem_cons hinside, hget, hbehind]
    refine ⟨(text.take (text.length - zone.length - 1)).map lower, ?_⟩
    calc
      text.map lower =
          (text.take (text.length - zone.length - 1)).map lower ++
            (text.drop (text.length - zone.length - 1)).map lower := by
        rw [← List.map_append, List.take_append_drop]
      _ = (text.take (text.length - zone.length - 1)).map lower ++ dot :: zone.map lower := by
        rw [hdrop, List.map_cons, hending, (Octets.lower_eq_dot dot).mpr rfl]

/-- Comparing texts decides whether a name lies within a zone. -/
theorem isSubdomainOf_iff_within (name zone : Name) :
    name.isSubdomainOf zone = true ↔ name.Within zone := by
  rw [within_iff, exists_front_iff]
  simp only [isSubdomainOf, same, isRoot, Bool.or_eq_true, Bool.and_eq_true, List.isEmpty_iff,
    decide_eq_true_eq, beq_iff_eq, Octets.sameText_iff, or_assoc, and_assoc]

end Name
end DnsResolver
