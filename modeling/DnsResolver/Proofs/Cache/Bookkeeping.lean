import Mathlib.Algebra.Group.Nat.Defs
import Mathlib.Data.List.Induction
import DnsResolver.Proofs.Cache.Histories

/-!
# Bookkeeping of a cache

The counters of a cache account for all that it has been through.  Each lookup is a hit or a miss,
and each entry that an insertion has added is still there, or has been counted as expired or as
evicted.  What is replaced is not counted as either.  No counter grows faster than the number of
operations, so that machine words hold them all for a long time.
-/

namespace DnsResolver
namespace Cache

variable {κ α : Type}

/-- The operation looks up a key. -/
def Operation.looksUp : Operation κ α → Bool
  | .get _ _ => true
  | .put _ _ _ _ | .purge _ => false

/-- A lookup has found a value. -/
def Outcome.isHit : Outcome α → Bool
  | .found (some _) => true
  | .found none | .stored | .purged _ => false

/-- The operation stores a value under a key that has no entry, expired or not. -/
def Adds (cache : Cache κ α) : Operation κ α → Prop
  | .put key _ _ _ => ∀ entry ∈ cache.entries, entry.key ≠ key
  | .get _ _ => False
  | .purge _ => False

/-- What a purge removes and what it leaves make up the cache. -/
theorem size_add_purge (cache : Cache κ α) (now : Nat) :
    (cache.purge now).2.size + (cache.purge now).1 = cache.size :=
  Nat.add_sub_cancel' (List.length_filter_le _ _)

variable [DecidableEq κ]

instance (cache : Cache κ α) : DecidablePred cache.Adds
  | .put key _ _ _ => inferInstanceAs (Decidable (∀ entry ∈ cache.entries, entry.key ≠ key))
  | .get _ _ => inferInstanceAs (Decidable False)
  | .purge _ => inferInstanceAs (Decidable False)

/-- Each of some operations, in order, with the cache that it finds. -/
def steps (cache : Cache κ α) : List (Operation κ α) → List (Cache κ α × Operation κ α)
  | [] => []
  | operation :: operations => (cache, operation) :: (cache.apply operation).2.steps operations

/-- What operations answer, in order. -/
def outcomes (cache : Cache κ α) (operations : List (Operation κ α)) : List (Outcome α) :=
  (cache.steps operations).map fun (found, operation) => (found.apply operation).1

/-- How many of some operations add a key. -/
def additions (cache : Cache κ α) (operations : List (Operation κ α)) : Nat :=
  (cache.steps operations).countP fun (found, operation) => found.Adds operation

theorem steps_concat (cache : Cache κ α) (operations : List (Operation κ α))
    (operation : Operation κ α) :
    cache.steps (operations ++ [operation]) =
      cache.steps operations ++ [(cache.after operations, operation)] := by
  induction operations generalizing cache with
  | nil => rfl
  | cons first operations ih =>
    rw [List.cons_append, steps, steps, ih, List.cons_append]
    rfl

theorem length_steps (cache : Cache κ α) (operations : List (Operation κ α)) :
    (cache.steps operations).length = operations.length := by
  induction operations generalizing cache with
  | nil => rfl
  | cons operation operations ih => exact congrArg (· + 1) (ih _)

theorem additions_le_length (cache : Cache κ α) (operations : List (Operation κ α)) :
    cache.additions operations ≤ operations.length := by
  rw [additions, ← cache.length_steps operations]
  exact List.countP_le_length

theorem outcomes_cons (cache : Cache κ α) (operation : Operation κ α)
    (operations : List (Operation κ α)) :
    cache.outcomes (operation :: operations) =
      (cache.apply operation).1 :: (cache.apply operation).2.outcomes operations :=
  rfl

theorem outcomes_concat (cache : Cache κ α) (operations : List (Operation κ α))
    (operation : Operation κ α) :
    cache.outcomes (operations ++ [operation]) =
      cache.outcomes operations ++ [((cache.after operations).apply operation).1] := by
  rw [outcomes, steps_concat, List.map_append]
  rfl

theorem additions_concat (cache : Cache κ α) (operations : List (Operation κ α))
    (operation : Operation κ α) :
    cache.additions (operations ++ [operation]) =
      cache.additions operations + if (cache.after operations).Adds operation then 1 else 0 := by
  rw [additions, steps_concat, List.countP_append, List.countP_singleton]
  simp only [decide_eq_true_eq]
  rfl

/-! ## What one operation does to the counters -/

section Step

variable (cache : Cache κ α) (operation : Operation κ α)

theorem hits_apply :
    (cache.apply operation).2.statistics.hits =
      cache.statistics.hits + if (cache.apply operation).1.isHit then 1 else 0 := by
  match operation with
  | .put key value ttl now =>
    rcases cache.put_cases key value ttl now with ⟨-, -, hput⟩ | ⟨_, _, -, -, -, -, hput⟩
    · simp [apply, hput, Outcome.isHit]
    · simp [apply, hput, Outcome.isHit]
  | .get key now =>
    rcases cache.get_cases key now with ⟨-, hget⟩ | ⟨_, -, -, hget⟩ | ⟨_, -, -, hget⟩
    · simp [apply, hget, Outcome.isHit]
    · simp [apply, hget, Outcome.isHit]
    · simp [apply, hget, Outcome.isHit]
  | .purge now => simp [apply, purge, Outcome.isHit]

/-- Each lookup is a hit or a miss, and nothing else is. -/
theorem hits_add_misses_apply :
    (cache.apply operation).2.statistics.hits + (cache.apply operation).2.statistics.misses =
      cache.statistics.hits + cache.statistics.misses + if operation.looksUp then 1 else 0 := by
  match operation with
  | .put key value ttl now =>
    rcases cache.put_cases key value ttl now with ⟨-, -, hput⟩ | ⟨_, _, -, -, -, -, hput⟩
    · simp [apply, hput, Operation.looksUp]
    · simp [apply, hput, Operation.looksUp]
  | .get key now =>
    rcases cache.get_cases key now with ⟨-, hget⟩ | ⟨_, -, -, hget⟩ | ⟨_, -, -, hget⟩
    · simp [apply, hget, Operation.looksUp, Nat.add_assoc]
    · simp [apply, hget, Operation.looksUp, Nat.add_assoc]
    · simp [apply, hget, Operation.looksUp, Nat.add_right_comm]
  | .purge now => simp [apply, purge, Operation.looksUp]

end Step

theorem adds_put_iff {cache : Cache κ α} {key : κ} {value : α} {ttl now : Nat} :
    cache.Adds (.put key value ttl now) ↔ cache.find? key = none :=
  find?_eq_none_iff.symm

namespace Sound

variable {cache : Cache κ α} (h : cache.Sound)
include h

theorem length_others_add_one (key : κ) :
    (cache.others key).length + 1 = cache.size + if cache.find? key = none then 1 else 0 := by
  cases hfind : cache.find? key with
  | none => rw [others_of_find?_eq_none hfind, if_pos rfl, size]
  | some entry =>
    obtain ⟨hentry, rfl⟩ := mem_of_find?_eq_some hfind
    rw [h.length_others hentry, if_neg (Option.some_ne_none entry), Nat.add_zero]

/-- What there is, together with what has expired and what was evicted, gets one more with every new
key, and with nothing else. -/
theorem balance_apply (operation : Operation κ α) :
    (cache.apply operation).2.size + (cache.apply operation).2.statistics.expired +
        (cache.apply operation).2.statistics.evicted =
      cache.size + cache.statistics.expired + cache.statistics.evicted +
        if cache.Adds operation then 1 else 0 := by
  match operation with
  | .put key value ttl now =>
    simp only [adds_put_iff]
    rcases cache.put_cases key value ttl now with
      ⟨-, -, hput⟩ | ⟨front, last, -, hnew, -, hsplit, hput⟩
    · have hlength := h.length_others_add_one key
      simp only [Cache.apply, hput, size, List.length_cons] at hlength ⊢
      omega
    · -- The new entry takes the place of the last one, which moves to the evicted ones.
      have hlength : cache.size = front.length + 1 := by simp [size, hsplit]
      simp only [Cache.apply, hput, size, List.length_cons, if_pos hnew] at hlength ⊢
      omega
  | .get key now =>
    have hold : ¬cache.Adds (.get key now) := id
    have hlength := h.length_others_add_one key
    rw [if_neg hold]
    rcases cache.get_cases key now with
      ⟨-, hget⟩ | ⟨entry, hfind, -, hget⟩ | ⟨entry, hfind, -, hget⟩
    · simp [Cache.apply, hget, size]
    · rw [hfind, if_neg (Option.some_ne_none entry)] at hlength
      simp only [Cache.apply, hget, size] at hlength ⊢
      omega
    · rw [hfind, if_neg (Option.some_ne_none entry)] at hlength
      simp only [Cache.apply, hget, size, List.length_cons] at hlength ⊢
      omega
  | .purge now =>
    have hold : ¬cache.Adds (.purge now) := id
    have hsize := cache.size_add_purge now
    have hexpired : (cache.purge now).2.statistics.expired =
        cache.statistics.expired + (cache.purge now).1 := rfl
    have hevicted : (cache.purge now).2.statistics.evicted = cache.statistics.evicted := rfl
    rw [if_neg hold]
    simp only [Cache.apply, hexpired, hevicted]
    omega

/-- An eviction is counted for a new key in a full cache, and for nothing else. -/
theorem evicted_apply_eq (operation : Operation κ α) :
    (cache.apply operation).2.statistics.evicted =
      cache.statistics.evicted +
        if cache.Adds operation ∧ cache.size = cache.capacity then 1 else 0 := by
  match operation with
  | .put key value ttl now =>
    simp only [adds_put_iff]
    rcases cache.put_cases key value ttl now with
      ⟨-, hroom, hput⟩ | ⟨front, last, -, hnew, hfull, -, hput⟩
    · rw [if_neg fun hadds => Nat.ne_of_lt (hroom hadds.1) hadds.2, Cache.apply, hput]
      rfl
    · rw [if_pos ⟨hnew, Nat.le_antisymm h.size_le hfull⟩, Cache.apply, hput]
  | .get key now =>
    rcases cache.get_cases key now with ⟨-, hget⟩ | ⟨_, -, -, hget⟩ | ⟨_, -, -, hget⟩
    · simp [Cache.apply, hget, Adds]
    · simp [Cache.apply, hget, Adds]
    · simp [Cache.apply, hget, Adds]
  | .purge now => simp [Cache.apply, purge, Adds]

end Sound

/-! ## Histories -/

/-- The counters of a cache account for some operations, for what these have answered, and for the
keys that they have added. -/
structure Balanced (cache : Cache κ α) (operations : List (Operation κ α))
    (outcomes : List (Outcome α)) (added : Nat) : Prop where
  lookups : cache.statistics.hits + cache.statistics.misses = operations.countP Operation.looksUp
  hits : cache.statistics.hits = outcomes.countP Outcome.isHit
  added : added = cache.size + cache.statistics.expired + cache.statistics.evicted

theorem Balanced.apply {cache : Cache κ α} {operations : List (Operation κ α)}
    {outcomes : List (Outcome α)} {added : Nat} (h : cache.Balanced operations outcomes added)
    (hsound : cache.Sound) (operation : Operation κ α) :
    (cache.apply operation).2.Balanced (operations ++ [operation])
      (outcomes ++ [(cache.apply operation).1])
      (added + if cache.Adds operation then 1 else 0) where
  lookups := by
    rw [hits_add_misses_apply, h.lookups, List.countP_append, List.countP_singleton]
  hits := by
    rw [hits_apply, h.hits, List.countP_append, List.countP_singleton]
  added := by
    rw [hsound.balance_apply, h.added]

theorem balanced_after (capacity : Capacity) (second : Nat) (operations : List (Operation κ α)) :
    ((empty capacity second).after operations).Balanced operations
      ((empty capacity second).outcomes operations)
      ((empty capacity second).additions operations) := by
  induction operations using List.reverseRecOn with
  | nil => exact ⟨rfl, rfl, rfl⟩
  | append_singleton operations operation ih =>
    rw [after_concat, outcomes_concat, additions_concat]
    exact ih.apply ((sound_empty capacity second).after operations) operation

/-- Whatever operations a cache has seen, at whatever times, each key has one entry at most, and
there are no more entries than there is room for.  The hits are the lookups that have found a value,
and with the misses they are all lookups.  The insertions of new keys are the entries that are still
there, those that have expired and those that were evicted.  An eviction is counted when a new key
is stored in a full cache, and at no other time. -/
theorem bookkeeping_balances (capacity : Capacity) (second : Nat)
    (operations : List (Operation κ α)) :
    let cache := (empty capacity second).after operations
    (cache.entries.map Entry.key).Nodup ∧
      cache.size ≤ capacity ∧
      cache.statistics.hits + cache.statistics.misses = operations.countP Operation.looksUp ∧
      cache.statistics.hits = ((empty capacity second).outcomes operations).countP Outcome.isHit ∧
      (empty capacity second).additions operations =
        cache.size + cache.statistics.expired + cache.statistics.evicted ∧
      ∀ operation, (cache.apply operation).2.statistics.evicted =
        cache.statistics.evicted +
          if cache.Adds operation ∧ cache.size = capacity then 1 else 0 := by
  intro cache
  have hsound : cache.Sound := (sound_empty capacity second).after operations
  have hbalanced := balanced_after capacity second operations
  have hcapacity : cache.capacity = capacity := capacity_after _ operations
  refine ⟨hsound.distinct, ?_, hbalanced.lookups, hbalanced.hits, hbalanced.added, ?_⟩
  · rw [← hcapacity]
    exact hsound.size_le
  · rw [← hcapacity]
    exact hsound.evicted_apply_eq

/-- As long as there have been fewer than `2 ^ 64` operations, machine words hold both sides of the
balance, and so each of the counters. -/
theorem balance_lt_two_pow (capacity : Capacity) (second : Nat) {operations : List (Operation κ α)}
    (h : operations.length < 2 ^ 64) :
    let cache := (empty capacity second).after operations
    cache.statistics.hits + cache.statistics.misses < 2 ^ 64 ∧
      cache.size + cache.statistics.expired + cache.statistics.evicted < 2 ^ 64 := by
  intro cache
  have hbalanced := balanced_after capacity second operations
  constructor
  · rw [hbalanced.lookups]
    exact Nat.lt_of_le_of_lt List.countP_le_length h
  · rw [← hbalanced.added]
    exact Nat.lt_of_le_of_lt (additions_le_length _ operations) h

end Cache
end DnsResolver
