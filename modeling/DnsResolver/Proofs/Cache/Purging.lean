import DnsResolver.Cache.Records
import DnsResolver.Proofs.Cache.Bookkeeping

/-!
# Purging a cache

A purge collects the keys of the entries that have expired and removes them one after the other;
what is left stands as it stood before.  Lookups at the same time or later do not notice: a purge
may as well take place after them, because what it takes away they would not have found.
-/

namespace DnsResolver
namespace Cache

variable {κ α : Type}

/-- The operation looks up a key, at a time or later. -/
def Operation.LooksUpFrom (now : Nat) : Operation κ α → Prop
  | .get _ time => now ≤ time
  | .put _ _ _ _ | .purge _ => False

instance (now : Nat) : DecidablePred (Operation.LooksUpFrom now : Operation κ α → Prop)
  | .get _ time => inferInstanceAs (Decidable (now ≤ time))
  | .put _ _ _ _ => inferInstanceAs (Decidable False)
  | .purge _ => inferInstanceAs (Decidable False)

/-- The keys of the entries that have expired by a time. -/
def expiredKeys (entries : List (Entry κ α)) (now : Nat) : List κ :=
  (entries.filter fun entry => entry.expires ≤ now).map Entry.key

theorem purge_fst (cache : Cache κ α) (now : Nat) :
    (cache.purge now).1 = (expiredKeys cache.entries now).length := by
  have hlength := cache.entries.length_eq_length_filter_add fun entry => now < entry.expires
  simp only [← decide_not, Nat.not_lt] at hlength
  rw [expiredKeys, List.length_map, purge]
  exact Nat.sub_eq_of_eq_add' hlength

theorem purge_snd (cache : Cache κ α) (now : Nat) :
    (cache.purge now).2 =
      { cache with
        entries := cache.entries.filter fun entry => now < entry.expires
        statistics.expired :=
          cache.statistics.expired + (expiredKeys cache.entries now).length } := by
  rw [← purge_fst]
  rfl

/-- An entry has expired if its key is one of those that are purged. -/
theorem Sound.key_mem_expiredKeys_iff {cache : Cache κ α} (h : cache.Sound) {entry : Entry κ α}
    (hentry : entry ∈ cache.entries) (now : Nat) :
    entry.key ∈ expiredKeys cache.entries now ↔ entry.expires ≤ now := by
  rw [expiredKeys, List.mem_map]
  constructor
  · rintro ⟨other, hother, hkey⟩
    obtain ⟨hmem, hexpired⟩ := List.mem_filter.mp hother
    rw [← h.eq_of_key_eq hmem hentry hkey]
    exact of_decide_eq_true hexpired
  · intro hexpired
    exact ⟨entry, List.mem_filter.mpr ⟨hentry, decide_eq_true hexpired⟩, rfl⟩

theorem expiredKeys_cons_of_le {entry : Entry κ α} {now : Nat} (h : entry.expires ≤ now)
    (entries : List (Entry κ α)) :
    expiredKeys (entry :: entries) now = entry.key :: expiredKeys entries now := by
  rw [expiredKeys, List.filter_cons, if_pos (decide_eq_true h), List.map_cons, expiredKeys]

theorem expiredKeys_cons_of_lt {entry : Entry κ α} {now : Nat} (h : now < entry.expires)
    (entries : List (Entry κ α)) :
    expiredKeys (entry :: entries) now = expiredKeys entries now := by
  have hvalid : ¬decide (entry.expires ≤ now) = true := mt of_decide_eq_true (Nat.not_le.mpr h)
  rw [expiredKeys, List.filter_cons, if_neg hvalid, expiredKeys]

variable [DecidableEq κ]

theorem others_purge (cache : Cache κ α) (key : κ) (now : Nat) :
    (cache.purge now).2.others key =
      (cache.others key).filter fun entry => now < entry.expires := by
  rw [others, others, purge, List.filter_filter, List.filter_filter]
  simp only [Bool.and_comm]

/-! ## Removing key after key -/

/-- The cache without a key. -/
def remove (cache : Cache κ α) (key : κ) : Cache κ α :=
  { cache with entries := cache.others key }

/-- Removing keys one after the other leaves the entries under all other keys. -/
theorem foldl_remove (cache : Cache κ α) (keys : List κ) :
    keys.foldl remove cache =
      { cache with entries := cache.entries.filter fun entry => entry.key ∉ keys } := by
  induction keys generalizing cache with
  | nil => simp
  | cons key keys ih =>
    rw [List.foldl_cons, ih, remove, others]
    simp only [List.filter_filter, List.mem_cons, not_or, Bool.decide_and, Bool.and_comm]

namespace Sound

variable {cache : Cache κ α} (h : cache.Sound)
include h

/-- A purge removes key after key, and counts what it has removed. -/
theorem purge_eq (now : Nat) :
    let keys := expiredKeys cache.entries now
    cache.purge now =
      (keys.length,
        { keys.foldl remove cache with
          statistics.expired := cache.statistics.expired + keys.length }) := by
  have hkept : (cache.entries.filter fun entry => now < entry.expires) =
      cache.entries.filter fun entry => entry.key ∉ expiredKeys cache.entries now := by
    refine List.filter_congr fun entry hentry => decide_eq_decide.mpr ?_
    rw [h.key_mem_expiredKeys_iff hentry, Nat.not_le]
  intro keys
  rw [foldl_remove, ← hkept, ← purge_fst]
  rfl

/-! ## Lookups before and after a purge -/

theorem find?_eq_some_of_mem {entry : Entry κ α} (hentry : entry ∈ cache.entries) :
    cache.find? entry.key = some entry := by
  cases hfind : cache.find? entry.key with
  | none => exact absurd rfl (find?_eq_none_iff.mp hfind entry hentry)
  | some found =>
    obtain ⟨hfound, hkey⟩ := mem_of_find?_eq_some hfind
    rw [h.eq_of_key_eq hfound hentry hkey]

/-- What a purge leaves under a key is what was there, unless it has expired. -/
theorem find?_purge (key : κ) (now : Nat) :
    (cache.purge now).2.find? key = (cache.find? key).filter fun entry => now < entry.expires := by
  have hpurged : (cache.purge now).2.Sound := h.apply (.purge now)
  cases hfind : cache.find? key with
  | none =>
    rw [Option.filter_none, find?_eq_none_iff]
    intro other hother
    exact find?_eq_none_iff.mp hfind other (mem_purge_iff.mp hother).1
  | some entry =>
    obtain ⟨hentry, rfl⟩ := mem_of_find?_eq_some hfind
    by_cases hvalid : now < entry.expires
    · rw [hpurged.find?_eq_some_of_mem (mem_purge_iff.mpr ⟨hentry, hvalid⟩), Option.filter_some,
        if_pos (decide_eq_true hvalid)]
    · rw [Option.filter_some, if_neg (mt of_decide_eq_true hvalid), find?_eq_none_iff]
      intro other hother hkey
      obtain ⟨hmem, hlater⟩ := mem_purge_iff.mp hother
      rw [h.eq_of_key_eq hmem hentry hkey] at hlater
      exact hvalid hlater

/-- An entry expires the same, wherever it stands. -/
theorem length_expiredKeys {entry : Entry κ α} (hentry : entry ∈ cache.entries) (now : Nat) :
    (expiredKeys cache.entries now).length =
      (expiredKeys (entry :: cache.others entry.key) now).length := by
  obtain ⟨front, back, hsplit⟩ := List.append_of_mem hentry
  rw [h.others_eq hsplit, hsplit, expiredKeys, expiredKeys, List.length_map, List.length_map]
  exact (List.perm_middle.filter _).length_eq

/-- A lookup at the time of a purge or later finds the same before and after it, and the two may
change places. -/
theorem get_purge (key : κ) {now time : Nat} (hle : now ≤ time) :
    (cache.purge now).2.get key time =
      ((cache.get key time).1, ((cache.get key time).2.purge now).2) := by
  have hfound := h.find?_purge key now
  have hothers := cache.others_purge key now
  rcases cache.get_cases key time with
    ⟨hfind, hget⟩ | ⟨entry, hfind, hexpired, hget⟩ | ⟨entry, hfind, hvalid, hget⟩
  · rw [hfind, Option.filter_none] at hfound
    rw [hget, get, hfound]
    rfl
  · obtain ⟨hentry, rfl⟩ := mem_of_find?_eq_some hfind
    have hcount := h.length_expiredKeys hentry now
    rw [hfind, Option.filter_some] at hfound
    by_cases hlater : now < entry.expires
    · rw [if_pos (decide_eq_true hlater)] at hfound
      rw [expiredKeys_cons_of_lt hlater] at hcount
      rw [hget, get, hfound]
      simp only [if_pos hexpired, hothers]
      simp only [purge_snd, hcount, Nat.add_right_comm]
    · -- The entry is counted as expired once, be it by the purge or by the lookup.
      rw [if_neg (mt of_decide_eq_true hlater)] at hfound
      rw [others_of_find?_eq_none hfound] at hothers
      rw [expiredKeys_cons_of_le (Nat.le_of_not_lt hlater)] at hcount
      rw [hget, get, hfound]
      simp only [purge_snd] at hothers ⊢
      rw [hothers, hcount, List.length_cons, Nat.add_right_comm, Nat.add_assoc]
  · obtain ⟨hentry, rfl⟩ := mem_of_find?_eq_some hfind
    have hlater : now < entry.expires := Nat.lt_of_le_of_lt hle hvalid
    have hcount := h.length_expiredKeys hentry now
    rw [hfind, Option.filter_some, if_pos (decide_eq_true hlater)] at hfound
    rw [hget, get, hfound]
    simp only [if_neg (Nat.not_le.mpr hvalid), hothers]
    simp only [purge_snd, hcount, List.filter_cons_of_pos, decide_eq_true hlater]

/-- Lookups at the time of a purge or later answer the same before and after it. -/
theorem lookups_purge {now : Nat} {lookups : List (Operation κ α)}
    (hlookups : ∀ operation ∈ lookups, operation.LooksUpFrom now) :
    (cache.purge now).2.outcomes lookups = cache.outcomes lookups ∧
      (cache.purge now).2.after lookups = ((cache.after lookups).purge now).2 := by
  induction lookups generalizing cache with
  | nil => exact ⟨rfl, rfl⟩
  | cons operation lookups ih =>
    rw [List.forall_mem_cons] at hlookups
    match operation, hlookups with
    | .get key time, ⟨hle, hlater⟩ =>
      have happly : (cache.purge now).2.apply (.get key time) =
          ((cache.apply (.get key time)).1, ((cache.apply (.get key time)).2.purge now).2) := by
        rw [Cache.apply, Cache.apply, h.get_purge key hle]
      obtain ⟨houtcomes, hafter⟩ := ih (h.apply (.get key time)) hlater
      rw [outcomes_cons, outcomes_cons, after_cons, after_cons, happly]
      exact ⟨congrArg _ houtcomes, hafter⟩

end Sound

/-- Whatever operations a cache has seen, a purge removes the entries that have expired by then, key
after key, and no others; it answers their number, and counts them as expired.  What is left stands
in the order in which it stood.  All lookups at that time or later find the same with and without
the purge, which may as well take place after them. -/
theorem purge_invisible (capacity : Capacity) (second : Nat) (operations : List (Operation κ α))
    (now : Nat) :
    let cache := (empty capacity second).after operations
    let keys := expiredKeys cache.entries now
    let purged := (cache.purge now).2
    (∀ entry, entry ∈ purged.entries ↔ entry ∈ cache.entries ∧ now < entry.expires) ∧
      purged.entries.Sublist cache.entries ∧
      purged.entries = (keys.foldl remove cache).entries ∧
      (cache.purge now).1 = keys.length ∧
      purged.size + (cache.purge now).1 = cache.size ∧
      purged.statistics =
        { cache.statistics with
          expired := cache.statistics.expired + (cache.purge now).1 } ∧
      ∀ lookups : List (Operation κ α), (∀ operation ∈ lookups, operation.LooksUpFrom now) →
        purged.outcomes lookups = cache.outcomes lookups ∧
          purged.after lookups = ((cache.after lookups).purge now).2 := by
  intro cache keys purged
  have hsound : cache.Sound := (sound_empty capacity second).after operations
  refine ⟨fun entry => mem_purge_iff, List.filter_sublist, ?_, purge_fst cache now,
    size_add_purge cache now, rfl, fun lookups => hsound.lookups_purge⟩
  exact congrArg (fun purged => purged.2.entries) (hsound.purge_eq now)

/-- The name servers of the root are stored for half a minute, and its addresses for a whole one. -/
def rootSets : List (Operation CacheKey (List Record)) :=
  [.put (.of .root .ns) [.ofData .root 30 (.ns .root)] 30 0, .put (.of .root .a) [] 60 0]

/-- Both are looked up after half a minute, and the addresses once more after a whole one. -/
def rootLookups : List (Operation CacheKey (List Record)) :=
  [.get (.of .root .ns) 30000, .get (.of .root .a) 30000, .get (.of .root .a) 60000]

theorem purge_invisible_rootSets :
    let cache := (empty ⟨2, by decide⟩).after rootSets
    (∀ operation ∈ rootLookups, operation.LooksUpFrom 30000) ∧
      (cache.purge 30000).1 = 1 ∧
      cache.outcomes rootLookups = [.found none, .found (some []), .found none] ∧
      (cache.purge 30000).2.outcomes rootLookups = cache.outcomes rootLookups := by
  intro cache
  have hlookups : ∀ operation ∈ rootLookups, operation.LooksUpFrom 30000 := by
    decide
  obtain ⟨-, -, -, -, -, -, hsame⟩ := purge_invisible ⟨2, by decide⟩ 1000 rootSets 30000
  exact ⟨hlookups, rfl, rfl, (hsame rootLookups hlookups).1⟩

end Cache
end DnsResolver
