import Mathlib.Data.List.Nodup
import DnsResolver.Proofs.Cache.Entries

/-!
# Histories of a cache

A cache that comes from an empty one by any operations holds one entry for each key at most, and no
more entries than it has room for.  For such a cache `Sound.mem_apply_iff` says all that an
operation does to the entries: an insertion brings one in, and every other entry stays unless the
operation replaces it, finds it expired or evicts it.
-/

namespace DnsResolver
namespace Cache

variable {κ α : Type}

namespace Operation

/-- The operation stores the entry, with so many units of time to a second. -/
def Stores (second : Nat) (entry : Entry κ α) : Operation κ α → Prop
  | put key value ttl now => entry = ⟨key, value, now + ttl * second⟩
  | get _ _ => False
  | purge _ => False

/-- The operation neither stores anything under a key nor finds that a deadline for it has
passed. -/
def Spares (key : κ) (deadline : Nat) : Operation κ α → Prop
  | put other _ _ _ => other ≠ key
  | get other now => other = key → now < deadline
  | purge now => now < deadline

theorem Spares.not_stores {operation : Operation κ α} {entry : Entry κ α} {deadline : Nat}
    (h : operation.Spares entry.key deadline) (second : Nat) :
    ¬operation.Stores second entry := by
  intro hstores
  cases operation with
  | put key value ttl now => exact h (congrArg Entry.key hstores).symm
  | get key now => exact hstores
  | purge now => exact hstores

end Operation

/-- Each key has one entry at most, and there are no more entries than there is room for. -/
structure Sound (cache : Cache κ α) : Prop where
  distinct : (cache.entries.map Entry.key).Nodup
  size_le : cache.size ≤ cache.capacity

theorem sound_empty (capacity : Capacity) (second : Nat) :
    (empty capacity second : Cache κ α).Sound where
  distinct := List.nodup_nil
  size_le := Nat.zero_le _

theorem Sound.eq_of_key_eq {cache : Cache κ α} (h : cache.Sound) {entry other : Entry κ α}
    (hentry : entry ∈ cache.entries) (hother : other ∈ cache.entries)
    (hkey : entry.key = other.key) :
    entry = other :=
  List.inj_on_of_nodup_map h.distinct hentry hother hkey

theorem mem_purge_iff {cache : Cache κ α} {entry : Entry κ α} {now : Nat} :
    entry ∈ (cache.purge now).2.entries ↔ entry ∈ cache.entries ∧ now < entry.expires := by
  simp [purge]

variable [DecidableEq κ]

instance (key : κ) (deadline : Nat) :
    DecidablePred (Operation.Spares key deadline : Operation κ α → Prop)
  | .put other _ _ _ => inferInstanceAs (Decidable (other ≠ key))
  | .get other now => inferInstanceAs (Decidable (other = key → now < deadline))
  | .purge now => inferInstanceAs (Decidable (now < deadline))

/-- The key whose entry an operation evicts, if it evicts one. -/
def evicted? (cache : Cache κ α) : Operation κ α → Option κ
  | .put key _ _ _ => cache.victim? key
  | .get _ _ => none
  | .purge _ => none

/-- The key that an operation uses, if it uses one: that of the value which it stores or finds. -/
def used? (cache : Cache κ α) : Operation κ α → Option κ
  | .put key _ _ _ => some key
  | .get key now => (cache.get key now).1.map fun _ => key
  | .purge _ => none

/-- The cache after some operations. -/
def after (cache : Cache κ α) (operations : List (Operation κ α)) : Cache κ α :=
  operations.foldl (fun cache operation => (cache.apply operation).2) cache

theorem after_cons (cache : Cache κ α) (operation : Operation κ α)
    (operations : List (Operation κ α)) :
    cache.after (operation :: operations) = (cache.apply operation).2.after operations :=
  rfl

theorem after_append (cache : Cache κ α) (xs ys : List (Operation κ α)) :
    cache.after (xs ++ ys) = (cache.after xs).after ys :=
  List.foldl_append

theorem after_concat (cache : Cache κ α) (operations : List (Operation κ α))
    (operation : Operation κ α) :
    cache.after (operations ++ [operation]) = ((cache.after operations).apply operation).2 :=
  after_append cache operations [operation]

/-! ## The cases of a lookup and of an insertion -/

section Cases

variable {cache : Cache κ α} {key : κ}

theorem find?_eq_none_iff :
    cache.find? key = none ↔ ∀ entry ∈ cache.entries, entry.key ≠ key := by
  simp [find?]

theorem mem_others_iff {entry : Entry κ α} :
    entry ∈ cache.others key ↔ entry ∈ cache.entries ∧ entry.key ≠ key := by
  simp [others]

theorem others_of_find?_eq_none (h : cache.find? key = none) :
    cache.others key = cache.entries := by
  rw [others, List.filter_eq_self]
  intro entry hentry
  exact decide_eq_true (find?_eq_none_iff.mp h entry hentry)

/-- A lookup finds no entry, one that has expired, or one that is valid. -/
theorem get_cases (cache : Cache κ α) (key : κ) (now : Nat) :
    (cache.find? key = none ∧
      cache.get key now =
        (none, { cache with statistics.misses := cache.statistics.misses + 1 })) ∨
    (∃ entry, cache.find? key = some entry ∧ entry.expires ≤ now ∧
      cache.get key now =
        (none,
          { cache with
            entries := cache.others key
            statistics.expired := cache.statistics.expired + 1
            statistics.misses := cache.statistics.misses + 1 })) ∨
    ∃ entry, cache.find? key = some entry ∧ now < entry.expires ∧
      cache.get key now =
        (some entry.value,
          { cache with
            entries := entry :: cache.others key
            statistics.hits := cache.statistics.hits + 1 }) := by
  unfold get
  cases hfind : cache.find? key with
  | none => exact .inl ⟨rfl, rfl⟩
  | some entry =>
    by_cases hexpired : entry.expires ≤ now
    · exact .inr (.inl ⟨entry, rfl, hexpired, if_pos hexpired⟩)
    · exact .inr (.inr ⟨entry, rfl, Nat.lt_of_not_le hexpired, if_neg hexpired⟩)

/-- An insertion replaces an entry or finds room for one more, or it evicts the last entry of a full
cache. -/
theorem put_cases (cache : Cache κ α) (key : κ) (value : α) (ttl now : Nat) :
    (cache.victim? key = none ∧ (cache.find? key = none → cache.size < cache.capacity) ∧
      cache.put key value ttl now =
        { cache with entries := ⟨key, value, now + ttl * cache.second⟩ :: cache.others key }) ∨
    ∃ front last, cache.victim? key = some last.key ∧ cache.find? key = none ∧
      cache.capacity ≤ cache.size ∧ cache.entries = front ++ [last] ∧
      cache.put key value ttl now =
        { cache with
          entries := ⟨key, value, now + ttl * cache.second⟩ :: front
          statistics.evicted := cache.statistics.evicted + 1 } := by
  unfold put
  by_cases hroom : (cache.find? key).isSome ∨ cache.size < cache.capacity
  · have hvictim : cache.victim? key = none := if_pos hroom
    refine .inl ⟨hvictim, fun hnew => hroom.resolve_left (by simp [hnew]), ?_⟩
    rw [hvictim]
  · obtain ⟨hnew, hfull⟩ := not_or.mp hroom
    rw [Nat.not_lt] at hfull
    have hpos : 0 < cache.entries.length := Nat.lt_of_lt_of_le cache.capacity.2 hfull
    obtain ⟨front, last, hsplit⟩ :=
      (List.eq_nil_or_concat' cache.entries).resolve_left (List.ne_nil_of_length_pos hpos)
    have hvictim : cache.victim? key = some last.key := by
      rw [victim?, if_neg hroom, hsplit, List.getLast?_concat, Option.map_some]
    refine .inr ⟨front, last, hvictim, by simpa using hnew, hfull, hsplit, ?_⟩
    simp only [hvictim, hsplit, List.dropLast_concat]

/-- After a lookup in vain, the entries under all other keys are left. -/
theorem entries_of_get_eq_none {now : Nat} (h : (cache.get key now).1 = none) :
    (cache.get key now).2.entries = cache.others key := by
  rcases cache.get_cases key now with ⟨hnew, hget⟩ | ⟨_, -, -, hget⟩ | ⟨_, -, -, hget⟩
  · rw [hget, others_of_find?_eq_none hnew]
  · rw [hget]
  · rw [hget] at h
    cases h

/-- An insertion under a new key puts its entry in front, and the last one makes room if there is no
room otherwise. -/
theorem entries_put_of_find?_eq_none (h : cache.find? key = none) (value : α) (ttl now : Nat) :
    (cache.put key value ttl now).entries =
      ⟨key, value, now + ttl * cache.second⟩ ::
        if cache.size < cache.capacity then cache.entries else cache.entries.dropLast := by
  rcases cache.put_cases key value ttl now with
    ⟨-, hroom, hput⟩ | ⟨front, last, -, -, hfull, hsplit, hput⟩
  · rw [hput, if_pos (hroom h), others_of_find?_eq_none h]
  · rw [hput, if_neg (Nat.not_lt.mpr hfull), hsplit, List.dropLast_concat]

theorem victim?_eq_none_of_mem {entry : Entry κ α} (h : entry ∈ cache.entries) :
    cache.victim? entry.key = none := by
  have hfound : cache.find? entry.key ≠ none := fun hnew => find?_eq_none_iff.mp hnew entry h rfl
  exact if_pos (.inl (Option.isSome_iff_ne_none.mpr hfound))

/-- No operation changes what a cache was made with. -/
theorem made_apply (cache : Cache κ α) (operation : Operation κ α) :
    (cache.apply operation).2.capacity = cache.capacity ∧
      (cache.apply operation).2.second = cache.second := by
  cases operation with
  | put key value ttl now =>
    rcases cache.put_cases key value ttl now with ⟨-, -, hput⟩ | ⟨_, _, -, -, -, -, hput⟩
    · rw [apply, hput]
      exact ⟨rfl, rfl⟩
    · rw [apply, hput]
      exact ⟨rfl, rfl⟩
  | get key now =>
    rcases cache.get_cases key now with ⟨-, hget⟩ | ⟨_, -, -, hget⟩ | ⟨_, -, -, hget⟩
    · rw [apply, hget]
      exact ⟨rfl, rfl⟩
    · rw [apply, hget]
      exact ⟨rfl, rfl⟩
    · rw [apply, hget]
      exact ⟨rfl, rfl⟩
  | purge now => exact ⟨rfl, rfl⟩

theorem capacity_apply (cache : Cache κ α) (operation : Operation κ α) :
    (cache.apply operation).2.capacity = cache.capacity :=
  (cache.made_apply operation).1

/-- An insertion after a lookup in vain puts its entry in front of those under all other keys, the
last of which makes room if need be. -/
theorem entries_put_of_get_eq_none {looked : Nat} (h : (cache.get key looked).1 = none) (value : α)
    (ttl now : Nat) :
    ((cache.get key looked).2.put key value ttl now).entries =
      ⟨key, value, now + ttl * cache.second⟩ ::
        if (cache.others key).length < cache.capacity then cache.others key
        else (cache.others key).dropLast := by
  obtain ⟨hcapacity, hsecond⟩ := cache.made_apply (.get key looked)
  have hentries := entries_of_get_eq_none h
  have hnew : (cache.get key looked).2.find? key = none := by
    rw [find?_eq_none_iff, hentries]
    exact fun entry hentry => (mem_others_iff.mp hentry).2
  rw [entries_put_of_find?_eq_none hnew, size, hentries]
  rw [apply] at hcapacity hsecond
  rw [hcapacity, hsecond]

theorem evicted_apply (cache : Cache κ α) (operation : Operation κ α) :
    (cache.apply operation).2.statistics.evicted =
      cache.statistics.evicted + (cache.evicted? operation).toList.length := by
  cases operation with
  | put key value ttl now =>
    rcases cache.put_cases key value ttl now with
      ⟨hvictim, -, hput⟩ | ⟨_, _, hvictim, -, -, -, hput⟩
    · rw [apply, evicted?, hput, hvictim]
      rfl
    · rw [apply, evicted?, hput, hvictim]
      rfl
  | get key now =>
    rcases cache.get_cases key now with ⟨-, hget⟩ | ⟨_, -, -, hget⟩ | ⟨_, -, -, hget⟩
    · rw [apply, hget]
      rfl
    · rw [apply, hget]
      rfl
    · rw [apply, hget]
      rfl
  | purge now => rfl

/-- An operation that uses no key only drops entries; one that does brings its entry to the
front. -/
theorem entries_apply (cache : Cache κ α) (operation : Operation κ α) :
    (cache.used? operation = none ∧ (cache.apply operation).2.entries.Sublist cache.entries) ∨
      ∃ entry rest, cache.used? operation = some entry.key ∧
        (cache.apply operation).2.entries = entry :: rest ∧
          rest.Sublist (cache.others entry.key) := by
  cases operation with
  | put key value ttl now =>
    rcases cache.put_cases key value ttl now with
      ⟨-, -, hput⟩ | ⟨front, last, -, hnew, -, hsplit, hput⟩
    · refine .inr ⟨⟨key, value, now + ttl * cache.second⟩, _, rfl, ?_, List.Sublist.refl _⟩
      rw [apply, hput]
    · refine .inr ⟨⟨key, value, now + ttl * cache.second⟩, front, rfl, ?_, ?_⟩
      · rw [apply, hput]
      · rw [others_of_find?_eq_none hnew, hsplit]
        exact List.sublist_append_left front [last]
  | get key now =>
    rcases cache.get_cases key now with
      ⟨-, hget⟩ | ⟨_, -, -, hget⟩ | ⟨entry, hfind, -, hget⟩
    · refine .inl ⟨?_, ?_⟩
      · rw [used?, hget]
        rfl
      · rw [apply, hget]
    · refine .inl ⟨?_, ?_⟩
      · rw [used?, hget]
        rfl
      · rw [apply, hget]
        exact List.filter_sublist
    · obtain ⟨-, rfl⟩ := mem_of_find?_eq_some hfind
      refine .inr ⟨entry, _, ?_, ?_, List.Sublist.refl _⟩
      · rw [used?, hget]
        rfl
      · rw [apply, hget]
  | purge now => exact .inl ⟨rfl, List.filter_sublist⟩

/-- An operation that evicts an entry uses a new key while the cache is full, and drops the last
entry. -/
theorem exists_of_evicted?_eq_some {operation : Operation κ α}
    (h : cache.evicted? operation = some key) :
    ∃ entry front last, cache.used? operation = some entry.key ∧ cache.find? entry.key = none ∧
      cache.capacity ≤ cache.size ∧ cache.entries = front ++ [last] ∧ last.key = key ∧
        (cache.apply operation).2.entries = entry :: front := by
  cases operation with
  | put other value ttl now =>
    change cache.victim? other = some key at h
    rcases cache.put_cases other value ttl now with
      ⟨hnone, -⟩ | ⟨front, last, hvictim, hnew, hfull, hsplit, hput⟩
    · rw [hnone] at h
      cases h
    · rw [hvictim, Option.some.injEq] at h
      refine ⟨⟨other, value, now + ttl * cache.second⟩, front, last, rfl, hnew, hfull, hsplit, h,
        ?_⟩
      rw [apply, hput]
  | get other now => cases h
  | purge now => cases h

end Cases

/-! ## What an operation does to the entries -/

namespace Sound

variable {cache : Cache κ α} {key : κ} {entry : Entry κ α} (h : cache.Sound)

include h

/-- Without an entry, the others stand as they stood around it. -/
theorem others_eq {front back : List (Entry κ α)}
    (hsplit : cache.entries = front ++ entry :: back) :
    cache.others entry.key = front ++ back := by
  have hdistinct := h.distinct
  rw [hsplit, List.map_append, List.map_cons, List.nodup_middle, List.nodup_cons,
    ← List.map_append] at hdistinct
  have hkept : (front ++ back).filter (fun other => other.key ≠ entry.key) = front ++ back := by
    rw [List.filter_eq_self]
    intro other hother
    refine decide_eq_true fun hkey => hdistinct.1 ?_
    rw [← hkey]
    exact List.mem_map_of_mem hother
  rw [others, hsplit, List.filter_append, List.filter_cons_of_neg (by simp), ← List.filter_append]
  exact hkept

theorem length_others (hentry : entry ∈ cache.entries) :
    (cache.others entry.key).length + 1 = cache.size := by
  obtain ⟨front, back, hsplit⟩ := List.append_of_mem hentry
  rw [h.others_eq hsplit, size, hsplit, List.length_append, List.length_append, List.length_cons,
    Nat.add_assoc]

/-- A lookup finds the value of an entry that is still valid, and brings the entry to the front. -/
theorem get_of_mem (hentry : entry ∈ cache.entries) {now : Nat} (hvalid : now < entry.expires) :
    cache.get entry.key now =
      (some entry.value,
        { cache with
          entries := entry :: cache.others entry.key
          statistics.hits := cache.statistics.hits + 1 }) := by
  rcases cache.get_cases entry.key now with
    ⟨hnew, -⟩ | ⟨found, hfind, hexpired, -⟩ | ⟨found, hfind, -, hget⟩
  · exact absurd rfl (find?_eq_none_iff.mp hnew entry hentry)
  · obtain ⟨hfound, hkey⟩ := mem_of_find?_eq_some hfind
    obtain rfl := h.eq_of_key_eq hfound hentry hkey
    exact absurd hvalid (Nat.not_lt.mpr hexpired)
  · obtain ⟨hfound, hkey⟩ := mem_of_find?_eq_some hfind
    obtain rfl := h.eq_of_key_eq hfound hentry hkey
    exact hget

theorem mem_put_iff {value : α} {ttl now : Nat} :
    entry ∈ (cache.put key value ttl now).entries ↔
      entry = ⟨key, value, now + ttl * cache.second⟩ ∨
        entry ∈ cache.entries ∧ key ≠ entry.key ∧ cache.victim? key ≠ some entry.key := by
  rcases cache.put_cases key value ttl now with
    ⟨hvictim, -, hput⟩ | ⟨front, last, hvictim, hnew, -, hsplit, hput⟩
  · rw [hput, hvictim, List.mem_cons, mem_others_iff, ne_comm]
    simp
  · -- The key is new, so that whatever is not evicted stands under another key.
    have hfront := h.others_eq hsplit
    rw [List.append_nil] at hfront
    rw [hput, hvictim, List.mem_cons, ← hfront, mem_others_iff]
    refine or_congr_right (and_congr_right fun hentry => ?_)
    have hkey := find?_eq_none_iff.mp hnew entry hentry
    simp [hkey.symm, eq_comm]

theorem mem_get_iff {now : Nat} :
    entry ∈ (cache.get key now).2.entries ↔
      entry ∈ cache.entries ∧ (key = entry.key → now < entry.expires) := by
  rcases cache.get_cases key now with
    ⟨hnew, hget⟩ | ⟨found, hfind, hexpired, hget⟩ | ⟨found, hfind, hvalid, hget⟩
  · rw [hget]
    refine (and_iff_left_of_imp fun hentry hkey => ?_).symm
    exact absurd hkey.symm (find?_eq_none_iff.mp hnew entry hentry)
  · obtain ⟨hfound, rfl⟩ := mem_of_find?_eq_some hfind
    rw [hget, mem_others_iff]
    refine and_congr_right fun hentry => ⟨fun hkey hsame => absurd hsame.symm hkey, ?_⟩
    intro hspared hkey
    obtain rfl := h.eq_of_key_eq hentry hfound hkey
    exact absurd (hspared rfl) (Nat.not_lt.mpr hexpired)
  · obtain ⟨hfound, rfl⟩ := mem_of_find?_eq_some hfind
    rw [hget, List.mem_cons, mem_others_iff]
    constructor
    · rintro (rfl | ⟨hentry, hkey⟩)
      · exact ⟨hfound, fun _ => hvalid⟩
      · exact ⟨hentry, fun hsame => absurd hsame.symm hkey⟩
    · rintro ⟨hentry, -⟩
      by_cases hkey : entry.key = found.key
      · exact .inl (h.eq_of_key_eq hentry hfound hkey)
      · exact .inr ⟨hentry, hkey⟩

/-- An entry is in the cache after an operation if the operation stores it, or if it was there and
the operation spares it and does not evict it. -/
theorem mem_apply_iff {operation : Operation κ α} :
    entry ∈ (cache.apply operation).2.entries ↔
      operation.Stores cache.second entry ∨
        entry ∈ cache.entries ∧ operation.Spares entry.key entry.expires ∧
          cache.evicted? operation ≠ some entry.key := by
  cases operation with
  | put key value ttl now => exact h.mem_put_iff
  | get key now =>
    rw [apply, h.mem_get_iff]
    simp [Operation.Stores, Operation.Spares, evicted?]
  | purge now =>
    rw [apply, mem_purge_iff]
    simp [Operation.Stores, Operation.Spares, evicted?]

theorem distinct_apply (operation : Operation κ α) :
    ((cache.apply operation).2.entries.map Entry.key).Nodup := by
  rcases cache.entries_apply operation with ⟨-, hdropped⟩ | ⟨entry, rest, -, hentries, hrest⟩
  · exact h.distinct.sublist (hdropped.map Entry.key)
  · rw [hentries, List.map_cons, List.nodup_cons]
    constructor
    · intro hkey
      obtain ⟨other, hother, hsame⟩ := List.mem_map.mp hkey
      exact (mem_others_iff.mp (hrest.subset hother)).2 hsame
    · exact h.distinct.sublist ((hrest.trans List.filter_sublist).map Entry.key)

theorem size_apply_le (operation : Operation κ α) :
    (cache.apply operation).2.size ≤ cache.capacity := by
  cases operation with
  | put key value ttl now =>
    rcases cache.put_cases key value ttl now with
      ⟨-, hroom, hput⟩ | ⟨front, last, -, -, -, hsplit, hput⟩
    · rw [apply, hput, size, List.length_cons]
      cases hfind : cache.find? key with
      | none =>
        rw [others_of_find?_eq_none hfind]
        exact hroom hfind
      | some entry =>
        obtain ⟨hentry, rfl⟩ := mem_of_find?_eq_some hfind
        rw [h.length_others hentry]
        exact h.size_le
    · have hsize := h.size_le
      rw [size, hsplit, List.length_append] at hsize
      rw [apply, hput]
      exact hsize
  | get key now =>
    rcases cache.get_cases key now with ⟨-, hget⟩ | ⟨_, -, -, hget⟩ | ⟨entry, hfind, -, hget⟩
    · rw [apply, hget]
      exact h.size_le
    · rw [apply, hget]
      exact Nat.le_trans (List.length_filter_le _ _) h.size_le
    · obtain ⟨hentry, rfl⟩ := mem_of_find?_eq_some hfind
      rw [apply, hget, size, List.length_cons, h.length_others hentry]
      exact h.size_le
  | purge now => exact Nat.le_trans (List.length_filter_le _ _) h.size_le

theorem apply (operation : Operation κ α) : (cache.apply operation).2.Sound where
  distinct := h.distinct_apply operation
  size_le := by
    rw [capacity_apply]
    exact h.size_apply_le operation

theorem after (operations : List (Operation κ α)) : (cache.after operations).Sound := by
  induction operations generalizing cache with
  | nil => exact h
  | cons operation operations ih => exact ih (h.apply operation)

/-- While operations spare a key, nothing comes in under it. -/
theorem mem_of_mem_after {operations : List (Operation κ α)} {deadline : Nat}
    (hspares : ∀ operation ∈ operations, operation.Spares entry.key deadline)
    (hentry : entry ∈ (cache.after operations).entries) :
    entry ∈ cache.entries := by
  induction operations generalizing cache with
  | nil => exact hentry
  | cons operation operations ih =>
    rw [List.forall_mem_cons] at hspares
    rcases h.mem_apply_iff.mp (ih (h.apply operation) hspares.2 hentry) with hstores | ⟨hold, -⟩
    · exact absurd hstores (hspares.1.not_stores _)
    · exact hold

end Sound

theorem capacity_after (cache : Cache κ α) (operations : List (Operation κ α)) :
    (cache.after operations).capacity = cache.capacity := by
  induction operations generalizing cache with
  | nil => rfl
  | cons operation operations ih => exact (ih _).trans (cache.capacity_apply operation)

theorem second_after (cache : Cache κ α) (operations : List (Operation κ α)) :
    (cache.after operations).second = cache.second := by
  induction operations generalizing cache with
  | nil => rfl
  | cons operation operations ih => exact (ih _).trans (cache.made_apply operation).2

end Cache
end DnsResolver
