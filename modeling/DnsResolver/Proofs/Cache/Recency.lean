import Mathlib.Data.List.Dedup
import Mathlib.Data.List.Perm.Subperm
import Mathlib.Data.List.Induction
import DnsResolver.Proofs.Cache.Freshness

/-!
# Recency of a cache

The entries of a cache stand in the order in which their keys have been used last.  So an entry is
only evicted when as many other keys as the cache has room for have been used since its own was, and
it is then the one whose key has been used the longest ago.
-/

namespace DnsResolver
namespace Cache

variable {κ α : Type} [DecidableEq κ]

/-- The keys that operations use, in order. -/
def usedKeys (cache : Cache κ α) : List (Operation κ α) → List κ
  | [] => []
  | operation :: operations =>
    (cache.used? operation).toList ++ (cache.apply operation).2.usedKeys operations

/-- The keys that have been used since a key was used last, the latest one first. -/
def keysSince (key : κ) (used : List κ) : List κ :=
  used.reverse.takeWhile fun other => other ≠ key

theorem usedKeys_concat (cache : Cache κ α) (operations : List (Operation κ α))
    (operation : Operation κ α) :
    cache.usedKeys (operations ++ [operation]) =
      cache.usedKeys operations ++ ((cache.after operations).used? operation).toList := by
  induction operations generalizing cache with
  | nil => exact List.append_nil _
  | cons first operations ih =>
    rw [List.cons_append, usedKeys, usedKeys, ih, List.append_assoc]
    rfl

theorem keysSince_concat_of_ne {key other : κ} (h : other ≠ key) (used : List κ) :
    keysSince key (used ++ [other]) = other :: keysSince key used := by
  simp [keysSince, h]

/-- The entries stand in the order in which their keys have been used last, the latest first: each
key has been used since any key behind it was. -/
def InOrderOfUse (used : List κ) (entries : List (Entry κ α)) : Prop :=
  entries.Pairwise fun newer older => newer.key ∈ keysSince older.key used

theorem InOrderOfUse.apply {cache : Cache κ α} {used : List κ}
    (h : InOrderOfUse used cache.entries) (operation : Operation κ α) :
    InOrderOfUse (used ++ (cache.used? operation).toList)
      (cache.apply operation).2.entries := by
  rcases cache.entries_apply operation with
    ⟨hunused, hdropped⟩ | ⟨entry, rest, hused, hentries, hrest⟩
  · rw [hunused, Option.toList_none, List.append_nil]
    exact List.Pairwise.sublist hdropped h
  · have hother : ∀ other ∈ rest, entry.key ≠ other.key := fun other hother =>
      (mem_others_iff.mp (hrest.subset hother)).2.symm
    rw [hused, hentries, Option.toList_some, InOrderOfUse, List.pairwise_cons]
    constructor
    · intro other hmem
      rw [keysSince_concat_of_ne (hother other hmem)]
      exact List.mem_cons_self
    · refine (List.Pairwise.sublist (hrest.trans List.filter_sublist) h).imp_of_mem ?_
      intro newer older _ hmem hnewer
      rw [keysSince_concat_of_ne (hother older hmem)]
      exact List.mem_cons_of_mem _ hnewer

theorem inOrderOfUse_after (capacity : Capacity) (second : Nat)
    (operations : List (Operation κ α)) :
    InOrderOfUse ((empty capacity second).usedKeys operations)
      ((empty capacity second).after operations).entries := by
  induction operations using List.reverseRecOn with
  | nil => exact List.Pairwise.nil
  | append_singleton operations operation ih =>
    rw [usedKeys_concat, after_concat]
    exact ih.apply operation

/-! ## Evictions -/

theorem length_le_length_dedup {xs ys : List κ} (h : xs.Nodup) (hsubset : xs ⊆ ys) :
    xs.length ≤ ys.dedup.length :=
  (List.subperm_of_subset h fun _ hx => List.mem_dedup.mpr (hsubset hx)).length_le

/-- An entry is evicted only once as many other keys have been used since its own as there is room
for entries. -/
theorem capacity_le_of_evicted? {cache : Cache κ α} {used : List κ} {operation : Operation κ α}
    {key : κ} (hsound : cache.Sound) (horder : InOrderOfUse used cache.entries)
    (hevicted : cache.evicted? operation = some key) :
    cache.capacity ≤
      (keysSince key (used ++ (cache.used? operation).toList)).dedup.length := by
  obtain ⟨entry, front, last, hused, hnew, hfull, hsplit, rfl, -⟩ :=
    exists_of_evicted?_eq_some hevicted
  have habsent := find?_eq_none_iff.mp hnew
  have hdistinct := hsound.distinct
  rw [hsplit] at habsent horder hdistinct
  have hsince : ∀ newer ∈ front, newer.key ∈ keysSince last.key used := fun newer hnewer =>
    (List.pairwise_append.mp horder).2.2 newer hnewer last List.mem_cons_self
  -- The new key and those in front of the last one are all different, and all used since that one.
  have hnodup : (entry.key :: front.map Entry.key).Nodup := by
    rw [List.map_append] at hdistinct
    refine List.nodup_cons.mpr ⟨fun hmem => ?_, hdistinct.of_append_left⟩
    obtain ⟨newer, hnewer, hkey⟩ := List.mem_map.mp hmem
    exact habsent newer (List.mem_append_left _ hnewer) hkey
  have hsubset : entry.key :: front.map Entry.key ⊆ entry.key :: keysSince last.key used :=
    List.cons_subset_cons _ (List.forall_mem_map.mpr hsince)
  rw [hused, Option.toList_some,
    keysSince_concat_of_ne (habsent last List.mem_concat_self).symm]
  calc
    cache.capacity ≤ cache.size := hfull
    _ = (entry.key :: front.map Entry.key).length := by simp [size, hsplit]
    _ ≤ (entry.key :: keysSince last.key used).dedup.length := length_le_length_dedup hnodup hsubset

/-- What an operation neither replaces nor finds expired stays, and nothing is counted as
evicted. -/
structure EvictsNothing (cache : Cache κ α) (operation : Operation κ α) : Prop where
  counted : (cache.apply operation).2.statistics.evicted = cache.statistics.evicted
  stays : ∀ entry ∈ cache.entries, operation.Spares entry.key entry.expires →
    entry ∈ (cache.apply operation).2.entries

/-- One entry leaves the cache, which is counted as evicted, and every other one stays and has been
used since. -/
structure EvictsOldest (cache : Cache κ α) (used : List κ) (operation : Operation κ α) : Prop where
  counted : (cache.apply operation).2.statistics.evicted = cache.statistics.evicted + 1
  oldest : ∃ oldest ∈ cache.entries, oldest ∉ (cache.apply operation).2.entries ∧
    ∀ other ∈ cache.entries, other ≠ oldest →
      other ∈ (cache.apply operation).2.entries ∧ other.key ∈ keysSince oldest.key used

theorem Sound.evictsNothing {cache : Cache κ α} (h : cache.Sound) {operation : Operation κ α}
    (hnone : cache.evicted? operation = none) :
    cache.EvictsNothing operation where
  counted := by
    rw [evicted_apply, hnone]
    rfl
  stays entry hentry hspares := by
    refine h.mem_apply_iff.mpr (.inr ⟨hentry, hspares, ?_⟩)
    rw [hnone]
    exact (Option.some_ne_none _).symm

theorem Sound.evictsOldest {cache : Cache κ α} (h : cache.Sound) {used : List κ}
    (horder : InOrderOfUse used cache.entries) {operation : Operation κ α} {key : κ}
    (hevicted : cache.evicted? operation = some key) :
    cache.EvictsOldest used operation where
  counted := by
    rw [evicted_apply, hevicted]
    rfl
  oldest := by
    obtain ⟨entry, front, last, -, hnew, -, hsplit, -, hafter⟩ :=
      exists_of_evicted?_eq_some hevicted
    have hdistinct := h.distinct
    have hlast : last ∈ cache.entries := by
      rw [hsplit]
      exact List.mem_concat_self
    rw [hsplit, List.map_append] at hdistinct
    rw [hsplit] at horder
    refine ⟨last, hlast, ?_, ?_⟩
    · rw [hafter, List.mem_cons, not_or]
      constructor
      · rintro rfl
        exact find?_eq_none_iff.mp hnew last hlast rfl
      · intro hfront
        exact List.disjoint_of_nodup_append hdistinct (List.mem_map_of_mem hfront)
          (List.mem_map_of_mem List.mem_cons_self)
    · intro other hother hne
      rw [hsplit] at hother
      have hfront : other ∈ front :=
        (List.mem_append.mp hother).resolve_right fun hmem => hne (List.mem_singleton.mp hmem)
      refine ⟨?_, (List.pairwise_append.mp horder).2.2 other hfront last List.mem_cons_self⟩
      rw [hafter]
      exact List.mem_cons_of_mem entry hfront

/-! ## Retention -/

theorem length_dedup_keysSince_le {key : κ} {other? : Option κ} (h : other? ≠ some key)
    (used : List κ) :
    (keysSince key used).dedup.length ≤ (keysSince key (used ++ other?.toList)).dedup.length := by
  cases other? with
  | none =>
    have hsame : used ++ (none : Option κ).toList = used := List.append_nil used
    exact Nat.le_of_eq (by rw [hsame])
  | some other =>
    have hne : other ≠ key := fun hkey => h (congrArg some hkey)
    rw [Option.toList_some, keysSince_concat_of_ne hne]
    refine length_le_length_dedup (List.nodup_dedup _) fun since hsince => ?_
    exact List.mem_cons_of_mem _ (List.mem_dedup.mp hsince)

/-- A key that an operation finds a value under has an entry. -/
theorem exists_of_used? {cache : Cache κ α} {operation : Operation κ α} {key : κ} {deadline : Nat}
    (hspares : operation.Spares key deadline) (hused : cache.used? operation = some key) :
    ∃ entry ∈ cache.entries, entry.key = key := by
  cases operation with
  | put other value ttl now => exact absurd (Option.some.inj hused) hspares
  | get other now =>
    obtain ⟨value, hget, rfl⟩ := Option.map_eq_some_iff.mp hused
    obtain ⟨entry, hentry, hkey, -⟩ := exists_of_get_eq_some hget
    exact ⟨entry, hentry, hkey⟩
  | purge now => cases hused

/-- An entry that later operations spare is there as long as fewer other keys have been used since
its own than there is room for. -/
theorem mem_after_of_spares (capacity : Capacity) (second : Nat) (earlier : List (Operation κ α))
    {key : κ} {value : α} {ttl time : Nat} {later : List (Operation κ α)}
    (hspares : ∀ operation ∈ later, operation.Spares key (time + ttl * second))
    (hfew : (keysSince key ((empty capacity second).usedKeys
      (earlier ++ .put key value ttl time :: later))).dedup.length < capacity) :
    ⟨key, value, time + ttl * second⟩ ∈
      ((empty capacity second).after (earlier ++ .put key value ttl time :: later)).entries := by
  have hsound (operations : List (Operation κ α)) :
      ((empty capacity second).after operations).Sound :=
    (sound_empty capacity second).after operations
  have hstored : ⟨key, value, time + ttl * second⟩ ∈
      ((empty capacity second).after (earlier ++ [.put key value ttl time])).entries := by
    rw [after_concat, (hsound earlier).mem_apply_iff, second_after]
    exact .inl rfl
  induction later using List.reverseRecOn with
  | nil => exact hstored
  | append_singleton later operation ih =>
    obtain ⟨hlater, hoperation⟩ := List.forall_mem_append.mp hspares
    have hspare := hoperation operation List.mem_cons_self
    rw [← List.cons_append, ← List.append_assoc] at hfew ⊢
    rw [usedKeys_concat] at hfew
    rw [after_concat, (hsound _).mem_apply_iff]
    refine .inr ⟨?_, hspare, ?_⟩
    · -- A hit of the key forgets how many keys were used before it, but it finds an entry, and
      -- there is no other entry for it to find.
      by_cases hused : ((empty capacity second).after
          (earlier ++ .put key value ttl time :: later)).used? operation = some key
      · obtain ⟨entry, hentry, rfl⟩ := exists_of_used? hspare hused
        have hsplit : earlier ++ .put entry.key value ttl time :: later =
            (earlier ++ [.put entry.key value ttl time]) ++ later :=
          (List.append_assoc earlier [_] later).symm
        have hfirst := hentry
        rw [hsplit, after_append] at hfirst
        have hold := (hsound _).mem_of_mem_after hlater hfirst
        have hsame := (hsound _).eq_of_key_eq hold hstored rfl
        rw [hsame] at hentry
        exact hentry
      · exact ih hlater (Nat.lt_of_le_of_lt (length_dedup_keysSince_le hused _) hfew)
    · intro hevicted
      have hmany :=
        capacity_le_of_evicted? (hsound _) (inOrderOfUse_after capacity second _) hevicted
      rw [capacity_after] at hmany
      exact absurd hfew (Nat.not_lt.mpr hmany)

/-- What a cache keeps, whatever operations it has seen, at whatever times.  A stored value is there
and found until its time runs out, unless it has been replaced or found expired, or as many other
keys have been used since its own as there is room for.  Only an insertion under a new key evicts an
entry, and the one that it evicts is the one whose key has been used the longest ago. -/
theorem retains_until_oldest (capacity : Capacity) (second : Nat)
    (operations : List (Operation κ α)) :
    (∀ earlier key value ttl time later,
      operations = earlier ++ .put key value ttl time :: later →
        (∀ operation ∈ later, operation.Spares key (time + ttl * second)) →
          (keysSince key ((empty capacity second).usedKeys operations)).dedup.length < capacity →
            (∃ entry ∈ ((empty capacity second).after operations).entries, entry.key = key) ∧
              ∀ now < time + ttl * second,
                (((empty capacity second).after operations).get key now).1 = some value) ∧
      (∀ key value ttl now,
        (∃ entry ∈ ((empty capacity second).after operations).entries, entry.key = key) →
          ((empty capacity second).after operations).EvictsNothing (.put key value ttl now)) ∧
      (∀ key now, ((empty capacity second).after operations).EvictsNothing (.get key now)) ∧
      (∀ now, ((empty capacity second).after operations).EvictsNothing (.purge now)) ∧
      ∀ operation,
        ((empty capacity second).after operations).EvictsNothing operation ∨
          ((empty capacity second).after operations).EvictsOldest
            ((empty capacity second).usedKeys operations) operation := by
  have hsound : ((empty capacity second).after operations).Sound :=
    (sound_empty capacity second).after operations
  refine ⟨?_, ?_, ?_, ?_, ?_⟩
  · rintro earlier key value ttl time later rfl hspares hfew
    have hentry := mem_after_of_spares capacity second earlier hspares hfew
    refine ⟨⟨_, hentry, rfl⟩, fun now hnow => ?_⟩
    exact congrArg Prod.fst (hsound.get_of_mem hentry hnow)
  · rintro key value ttl now ⟨entry, hentry, rfl⟩
    exact hsound.evictsNothing (victim?_eq_none_of_mem hentry)
  · intro key now
    exact hsound.evictsNothing rfl
  · intro now
    exact hsound.evictsNothing rfl
  · intro operation
    cases hevicted : ((empty capacity second).after operations).evicted? operation with
    | none => exact .inl (hsound.evictsNothing hevicted)
    | some key =>
      exact .inr (hsound.evictsOldest (inOrderOfUse_after capacity second operations) hevicted)

/-- The name servers of the root are stored and looked up, and then the insertion of a third key
into a cache for two evicts its addresses, which have been used longer ago. -/
def crowdedOperations : List (Operation CacheKey (List Record)) :=
  [.put (.of .root .ns) [.ofData .root 30 (.ns .root)] 30 0,
    .put (.of .root .a) [] 60 0,
    .get (.of .root .ns) 20000,
    .put (.of .root .mx) [] 60 10000,
    .get (.of .root .a) 10000,
    .purge 25000]

theorem retains_until_oldest_crowdedOperations :
    (∀ operation ∈ crowdedOperations.tail, operation.Spares (.of .root .ns) 30000) ∧
      (keysSince (.of .root .ns)
        ((empty ⟨2, by decide⟩).usedKeys crowdedOperations)).dedup.length < 2 ∧
      (((empty ⟨2, by decide⟩).after crowdedOperations).get (.of .root .ns) 29999).1 =
        some [.ofData .root 30 (.ns .root)] := by
  have hspares : ∀ operation ∈ crowdedOperations.tail,
      operation.Spares (.of .root .ns) (0 + 30 * 1000) := by
    decide
  have hfew : (keysSince (.of .root .ns)
      ((empty ⟨2, by decide⟩).usedKeys crowdedOperations)).dedup.length < 2 := by
    decide
  obtain ⟨-, hget⟩ := (retains_until_oldest ⟨2, by decide⟩ 1000 crowdedOperations).1
    [] (.of .root .ns) [.ofData .root 30 (.ns .root)] 30 0 crowdedOperations.tail rfl hspares hfew
  exact ⟨hspares, hfew, hget 29999 (by decide)⟩

end Cache
end DnsResolver
