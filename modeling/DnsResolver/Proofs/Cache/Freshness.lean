import Mathlib.Data.List.Induction
import DnsResolver.Cache.Records
import DnsResolver.Proofs.Cache.Histories

/-!
# Freshness of a cache

Every entry of a cache is from the latest insertion under its key, and since then no operation has
found it expired.  So a lookup never finds a value that was stored under another key, that has been
replaced, or whose time had run out at this or at an earlier operation.
-/

namespace DnsResolver
namespace Cache

variable {κ α : Type}

/-- Where an entry is from: an insertion, which every later operation spares. -/
def StoredIn (second : Nat) (operations : List (Operation κ α)) (entry : Entry κ α) : Prop :=
  ∃ earlier ttl time later,
    operations = earlier ++ .put entry.key entry.value ttl time :: later ∧
      entry.expires = time + ttl * second ∧
        ∀ operation ∈ later, operation.Spares entry.key entry.expires

theorem storedIn_concat_of_stores {second : Nat} {operation : Operation κ α} {entry : Entry κ α}
    (h : operation.Stores second entry) (operations : List (Operation κ α)) :
    StoredIn second (operations ++ [operation]) entry := by
  cases operation with
  | put key value ttl now =>
    obtain rfl : entry = ⟨key, value, now + ttl * second⟩ := h
    exact ⟨operations, ttl, now, [], rfl, rfl, List.forall_mem_nil _⟩
  | get key now => exact h.elim
  | purge now => exact h.elim

theorem StoredIn.concat {second : Nat} {operations : List (Operation κ α)} {entry : Entry κ α}
    (h : StoredIn second operations entry) {operation : Operation κ α}
    (hspares : operation.Spares entry.key entry.expires) :
    StoredIn second (operations ++ [operation]) entry := by
  obtain ⟨earlier, ttl, time, later, rfl, hexpires, hlater⟩ := h
  refine ⟨earlier, ttl, time, later ++ [operation], ?_, hexpires, ?_⟩
  · rw [List.append_assoc, List.cons_append]
  · exact List.forall_mem_append.mpr ⟨hlater, List.forall_mem_singleton.mpr hspares⟩

variable [DecidableEq κ]

theorem storedIn_of_mem_after (capacity : Capacity) (second : Nat)
    {operations : List (Operation κ α)} {entry : Entry κ α}
    (h : entry ∈ ((empty capacity second).after operations).entries) :
    StoredIn second operations entry := by
  induction operations using List.reverseRecOn with
  | nil => cases h
  | append_singleton operations operation ih =>
    have hsound : ((empty capacity second).after operations).Sound :=
      (sound_empty capacity second).after operations
    rw [after_concat, hsound.mem_apply_iff, second_after] at h
    rcases h with hstores | ⟨hold, hspares, -⟩
    · exact storedIn_concat_of_stores hstores operations
    · exact (ih hold).concat hspares

/-- Whatever operations a cache has seen, at whatever times, a lookup finds nothing but the value of
the latest insertion under the key, before its time has run out.  Since that insertion no lookup of
the key and no purge has taken place at a time when the value had expired. -/
theorem exists_latest_put_of_get_eq_some (capacity : Capacity) (second : Nat)
    (operations : List (Operation κ α)) {key : κ} {now : Nat} {value : α}
    (h : (((empty capacity second).after operations).get key now).1 = some value) :
    ∃ earlier ttl time later,
      operations = earlier ++ .put key value ttl time :: later ∧ now < time + ttl * second ∧
        ∀ operation ∈ later, operation.Spares key (time + ttl * second) := by
  obtain ⟨entry, hentry, rfl, rfl, hvalid⟩ := exists_of_get_eq_some h
  obtain ⟨earlier, ttl, time, later, hsplit, hexpires, hlater⟩ :=
    storedIn_of_mem_after capacity second hentry
  rw [hexpires] at hvalid hlater
  exact ⟨earlier, ttl, time, later, hsplit, hvalid, hlater⟩

/-- The name servers of the root are stored, replaced by some that live shorter, looked up, and
still there when the clock has gone back for a purge and an insertion under another key. -/
def rootOperations : List (Operation CacheKey (List Record)) :=
  [.put (.of .root .ns) [] 60 0,
    .put (.of .root .ns) [.ofData .root 30 (.ns .root)] 30 100000,
    .get (.of .root .ns) 120000,
    .purge 50000,
    .put (.of .root .a) [] 5 70000]

theorem exists_latest_put_rootOperations :
    (((empty ⟨2, by decide⟩).after rootOperations).get (.of .root .ns) 129999).1 =
        some [.ofData .root 30 (.ns .root)] ∧
      ∃ earlier ttl time later,
        rootOperations =
            earlier ++ .put (.of .root .ns) [.ofData .root 30 (.ns .root)] ttl time :: later ∧
          129999 < time + ttl * 1000 ∧
          ∀ operation ∈ later, operation.Spares (.of .root .ns) (time + ttl * 1000) := by
  have hget : (((empty ⟨2, by decide⟩).after rootOperations).get (.of .root .ns) 129999).1 =
      some [.ofData .root 30 (.ns .root)] := by
    rfl
  exact ⟨hget, exists_latest_put_of_get_eq_some _ _ _ hget⟩

end Cache
end DnsResolver
