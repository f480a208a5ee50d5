/-!
# Caches with expiry and eviction

A `Cache` holds values under keys until they expire or have to make room.  Entries stand in order
of their last use, the latest first.  A lookup that finds an expired entry removes it; an insertion
of a new key into a full cache drops the entry whose last use is the longest ago.  Times may come in
any order, and count in whatever unit the cache is told of.
-/

namespace DnsResolver

/-- A number of entries, at least one. -/
abbrev Capacity := { n : Nat // 0 < n }

namespace Cache

/-- A value under its key, with the time from which on it is no longer valid. -/
structure Entry (κ α : Type) where
  key : κ
  value : α
  expires : Nat
  deriving DecidableEq, Repr

/-- What happened to a cache so far.  Machine words hold these numbers as long as there have been
fewer than `2 ^ 64` operations. -/
structure Statistics where
  /-- Lookups that found a value. -/
  hits : Nat := 0
  /-- Lookups that found none. -/
  misses : Nat := 0
  /-- Entries that were removed because they had expired. -/
  expired : Nat := 0
  /-- Entries that had to make room. -/
  evicted : Nat := 0
  deriving DecidableEq, Repr

end Cache

/-- A bounded store of values under keys. -/
structure Cache (κ α : Type) where
  capacity : Capacity
  /-- The length of a second in the unit of the times; it is 1000 if they are milliseconds. -/
  second : Nat := 1000
  /-- The entries, the latest used one first. -/
  entries : List (Cache.Entry κ α) := []
  statistics : Cache.Statistics := {}

namespace Cache

variable {κ α : Type} [DecidableEq κ]

/-- A cache without entries. -/
def empty (capacity : Capacity) (second : Nat := 1000) : Cache κ α :=
  { capacity, second }

/-- The number of entries, expired ones included. -/
def size (cache : Cache κ α) : Nat :=
  cache.entries.length

/-- The entry under a key, expired or not. -/
def find? (cache : Cache κ α) (key : κ) : Option (Entry κ α) :=
  cache.entries.find? fun entry => entry.key = key

/-- The entries under all other keys. -/
def others (cache : Cache κ α) (key : κ) : List (Entry κ α) :=
  cache.entries.filter fun entry => entry.key ≠ key

/-- Looks up a key at a time.  A hit makes the entry the latest used one, and an entry that has
expired is removed. -/
def get (cache : Cache κ α) (key : κ) (now : Nat) : Option α × Cache κ α :=
  match cache.find? key with
  | none => (none, { cache with statistics.misses := cache.statistics.misses + 1 })
  | some entry =>
    if entry.expires ≤ now then
      (none,
        { cache with
          entries := cache.others key
          statistics.expired := cache.statistics.expired + 1
          statistics.misses := cache.statistics.misses + 1 })
    else
      (some entry.value,
        { cache with
          entries := entry :: cache.others key
          statistics.hits := cache.statistics.hits + 1 })

/-- The key that an insertion under `key` would evict. -/
def victim? (cache : Cache κ α) (key : κ) : Option κ :=
  if (cache.find? key).isSome ∨ cache.size < cache.capacity then none
  else cache.entries.getLast?.map Entry.key

/-- Stores a value for `ttl` seconds from a time on, as the latest used one.  A value that was
stored under the key before is replaced; otherwise the least recently used entry of a full cache
makes room. -/
def put (cache : Cache κ α) (key : κ) (value : α) (ttl now : Nat) : Cache κ α :=
  let entry : Entry κ α := { key, value, expires := now + ttl * cache.second }
  match cache.victim? key with
  | none => { cache with entries := entry :: cache.others key }
  | some _ =>
    { cache with
      entries := entry :: cache.entries.dropLast
      statistics.evicted := cache.statistics.evicted + 1 }

/-- Removes all entries that have expired by a time, and counts them. -/
def purge (cache : Cache κ α) (now : Nat) : Nat × Cache κ α :=
  let kept := cache.entries.filter fun entry => now < entry.expires
  let removed := cache.entries.length - kept.length
  (removed,
    { cache with entries := kept, statistics.expired := cache.statistics.expired + removed })

/-- An operation on a cache. -/
inductive Operation (κ α : Type) where
  | put (key : κ) (value : α) (ttl now : Nat)
  | get (key : κ) (now : Nat)
  | purge (now : Nat)

/-- What an operation on a cache answers. -/
inductive Outcome (α : Type) where
  | stored
  | found (value? : Option α)
  | purged (count : Nat)

/-- Runs one operation. -/
def apply (cache : Cache κ α) : Operation κ α → Outcome α × Cache κ α
  | .put key value ttl now => (.stored, cache.put key value ttl now)
  | .get key now => (.found (cache.get key now).1, (cache.get key now).2)
  | .purge now => (.purged (cache.purge now).1, (cache.purge now).2)

end Cache
end DnsResolver
