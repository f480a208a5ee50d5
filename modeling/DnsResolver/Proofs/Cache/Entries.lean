import DnsResolver.Cache.Basic

/-!
# Entries of a cache

A lookup brings no entry into a cache, and finds the value of an entry under the key that has not
expired.  An insertion brings in the one entry that it makes.
-/

namespace DnsResolver
namespace Cache

variable {κ α : Type} [DecidableEq κ]

theorem mem_of_find?_eq_some {cache : Cache κ α} {key : κ} {entry : Entry κ α}
    (h : cache.find? key = some entry) :
    entry ∈ cache.entries ∧ entry.key = key := by
  rw [find?] at h
  exact ⟨List.mem_of_find?_eq_some h, by simpa using List.find?_some h⟩

theorem mem_of_mem_others {cache : Cache κ α} {key : κ} {entry : Entry κ α}
    (h : entry ∈ cache.others key) :
    entry ∈ cache.entries :=
  (List.mem_filter.mp h).1

/-- Looking up a key brings no entry in. -/
theorem mem_of_mem_get {cache : Cache κ α} {key : κ} {now : Nat} {entry : Entry κ α}
    (h : entry ∈ (cache.get key now).2.entries) :
    entry ∈ cache.entries := by
  rw [get] at h
  cases hfind : cache.find? key with
  | none =>
    rw [hfind] at h
    exact h
  | some found =>
    rw [hfind] at h
    by_cases hexpired : found.expires ≤ now
    · simp only [if_pos hexpired] at h
      exact mem_of_mem_others h
    · simp only [if_neg hexpired] at h
      rcases List.mem_cons.mp h with rfl | hother
      · exact (mem_of_find?_eq_some hfind).1
      · exact mem_of_mem_others hother

/-- A lookup that succeeds finds the value of an entry under the key that is still valid. -/
theorem exists_of_get_eq_some {cache : Cache κ α} {key : κ} {now : Nat} {value : α}
    (h : (cache.get key now).1 = some value) :
    ∃ entry ∈ cache.entries, entry.key = key ∧ entry.value = value ∧ now < entry.expires := by
  rw [get] at h
  cases hfind : cache.find? key with
  | none =>
    rw [hfind] at h
    cases h
  | some found =>
    rw [hfind] at h
    by_cases hexpired : found.expires ≤ now
    · simp only [if_pos hexpired] at h
      cases h
    · simp only [if_neg hexpired, Option.some.injEq] at h
      obtain ⟨hmem, hkey⟩ := mem_of_find?_eq_some hfind
      exact ⟨found, hmem, hkey, h, Nat.lt_of_not_le hexpired⟩

/-- An insertion brings in one entry. -/
theorem mem_of_mem_put {cache : Cache κ α} {key : κ} {value : α} {ttl now : Nat}
    {entry : Entry κ α} (h : entry ∈ (cache.put key value ttl now).entries) :
    entry = ⟨key, value, now + ttl * cache.second⟩ ∨ entry ∈ cache.entries := by
  rw [put] at h
  cases hvictim : cache.victim? key with
  | none =>
    rw [hvictim] at h
    exact (List.mem_cons.mp h).imp id mem_of_mem_others
  | some victim =>
    rw [hvictim] at h
    exact (List.mem_cons.mp h).imp id fun hold => List.dropLast_subset _ hold

end Cache
end DnsResolver
