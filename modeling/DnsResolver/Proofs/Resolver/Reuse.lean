import Mathlib.Order.Monotone.Defs
import DnsResolver.Proofs.Cache.Recency
import DnsResolver.Proofs.Name.Sameness
import DnsResolver.Proofs.Resolver.Provenance

/-!
# Reuse of cached answers

The trace of a resolver tells how its cache has been used, and so whether the cache still holds a
record set: until the first record of the set runs out, as long as fewer other keys have been used
since than the cache has room for.  Whatever the cache holds is what a name resolves to, without any
exchange.
-/

namespace DnsResolver

open Octets (lower)
open Event (uses)

theorem Cache.Operation.spares_of_time_lt {κ α : Type} {operation : Cache.Operation κ α} {key : κ}
    {deadline : Nat} (hput : ∀ value ttl now, operation ≠ .put key value ttl now)
    (htime : operation.time < deadline) :
    operation.Spares key deadline := by
  cases operation with
  | put other value ttl now => exact fun hkey => hput value ttl now (by rw [hkey])
  | get other now => exact fun _ => htime
  | purge now => exact htime

namespace Resolver

variable {σ : Type} {resolver : Resolver σ} {state : State σ} {name : Name} {type : RecordType}

/-- If the clock does not go back, it now shows no earlier time than at any use of the cache. -/
theorem Noted.time_le {before after : State σ} {events : List Event}
    (h : Noted resolver before events after) (hclock : Monotone resolver.clock)
    {operation : Cache.Operation CacheKey (List Record)} (hmem : operation ∈ uses events) :
    operation.time ≤ resolver.clock after.readings := by
  obtain ⟨reading, -, hlt, hreads⟩ := h.exists_reading hmem
  rw [← hreads]
  exact hclock (Nat.le_of_lt hlt)

/-- What the cache holds is what a name resolves to, and nobody is asked. -/
theorem resolve_of_get_eq_some {depth : Nat} (hdepth : depth ≤ resolver.config.maxDepth)
    {records : List Record} {cache : RecordCache}
    (hget : state.cache.get (.of name type) (resolver.clock state.readings) =
      (some records, cache)) :
    resolver.resolve name type depth state =
      (records,
        { state with
          cache
          readings := state.readings + 1
          trace := state.trace ++
            [.cached (.get (.of name type) (resolver.clock state.readings)),
              .cacheHit name type] }) := by
  rw [resolve_of_le hdepth, bind_apply, lookUp_apply, hget]
  change (records, _) = _
  simp only [List.append_assoc, List.singleton_append]

/-- The cache holds what was stored last for a name and type, if its time has not run out and fewer
other keys have been used since than there is room for. -/
theorem Reachable.mem_cache (h : resolver.Reachable state) (hclock : Monotone resolver.clock)
    {first : Record} {others : List Record} {ttl time : Nat} {earlier later : List Event}
    (htrace : state.trace =
      earlier ++ .cached (.put (.of name type) (first :: others) ttl time) :: later)
    (hlatest : ∀ records ttl time, .cached (.put (.of name type) records ttl time) ∉ later)
    (hvalid : resolver.clock state.readings < time + first.ttl.toNat * resolver.second)
    (hfew : (Cache.keysSince (.of name type)
      ((Cache.empty resolver.config.cacheCapacity resolver.second).usedKeys
        (uses state.trace))).dedup.length < resolver.config.cacheCapacity) :
    ⟨.of name type, first :: others, time + first.ttl.toNat * resolver.second⟩ ∈
      state.cache.entries := by
  obtain ⟨⟨network, hnoted⟩, hsourced⟩ := h.noted_and_sourced
  -- The events tell the time to live of the set, which is that of its first record.
  obtain ⟨_, _, _, hyields⟩ := hsourced _ _ _ _ _ _ htrace
  obtain ⟨_, _, hrecords, rfl⟩ := hyields.lives
  obtain ⟨rfl, -⟩ := List.cons.inj hrecords
  have huses : uses state.trace = uses earlier ++
      .put (.of name type) (first :: others) first.ttl.toNat time :: uses later := by
    rw [htrace, Event.uses_append]
    rfl
  have hspares : ∀ operation ∈ uses later,
      operation.Spares (.of name type) (time + first.ttl.toNat * resolver.second) := by
    intro operation hoperation
    apply Cache.Operation.spares_of_time_lt
    · rintro records ttl time rfl
      obtain ⟨event, hevent, hcached⟩ := List.mem_filterMap.mp hoperation
      cases event with
      | cached operation =>
        obtain rfl := Option.some.inj hcached
        exact hlatest records ttl time hevent
      | _ => cases hcached
    · refine Nat.lt_of_le_of_lt (hnoted.time_le hclock ?_) hvalid
      rw [huses]
      exact List.mem_append_right _ (List.mem_cons_of_mem _ hoperation)
  have hcache : state.cache =
      (Cache.empty resolver.config.cacheCapacity resolver.second).after (uses state.trace) :=
    hnoted.cache
  rw [huses] at hcache hfew
  rw [hcache]
  exact Cache.mem_after_of_spares _ _ _ hspares hfew

/-- What was stored last for a name and type is reused, in every reachable state over any network,
if the clock does not go back.  As long as the time of the first record has not run out, and fewer
other keys have been used since this one than the cache has room for, every spelling of the name
resolves to just these records, alias or not.  There is no exchange, and nothing changes but that the
entry of the records comes to the front, the hits are counted, the clock is read and the lookup is
noted. -/
theorem Reachable.resolve_reuses (h : resolver.Reachable state) (hclock : Monotone resolver.clock)
    {first : Record} {others : List Record} {ttl time : Nat} {earlier later : List Event}
    (htrace : state.trace =
      earlier ++ .cached (.put (.of name type) (first :: others) ttl time) :: later)
    (hlatest : ∀ records ttl time, .cached (.put (.of name type) records ttl time) ∉ later)
    (hvalid : resolver.clock state.readings < time + first.ttl.toNat * resolver.second)
    (hfew : (Cache.keysSince (.of name type)
      ((Cache.empty resolver.config.cacheCapacity resolver.second).usedKeys
        (uses state.trace))).dedup.length < resolver.config.cacheCapacity)
    {spelling : Name} (hspelling : spelling.text.map lower = name.text.map lower) {depth : Nat}
    (hdepth : depth ≤ resolver.config.maxDepth) :
    ∃ front entry back, state.cache.entries = front ++ entry :: back ∧
      entry = ⟨.of name type, first :: others, time + first.ttl.toNat * resolver.second⟩ ∧
      resolver.resolve spelling type depth state =
        (first :: others,
          { state with
            cache :=
              { state.cache with
                entries := entry :: (front ++ back)
                statistics.hits := state.cache.statistics.hits + 1 }
            readings := state.readings + 1
            trace := state.trace ++
              [.cached (.get (.of name type) (resolver.clock state.readings)),
                .cacheHit spelling type] }) := by
  have hentry := h.mem_cache hclock htrace hlatest hvalid hfew
  have hsound : state.cache.Sound := by
    obtain ⟨⟨network, hnoted⟩, -⟩ := h.noted_and_sourced
    rw [hnoted.cache]
    exact (Cache.sound_empty _ _).after _
  obtain ⟨front, back, hsplit⟩ := List.append_of_mem hentry
  have hget := hsound.get_of_mem hentry hvalid
  rw [hsound.others_eq hsplit] at hget
  refine ⟨front, _, back, hsplit, rfl, ?_⟩
  rw [← Name.cacheKey_eq_iff.mpr hspelling] at hget
  rw [resolve_of_get_eq_some hdepth hget, Name.cacheKey_eq_iff.mpr hspelling]

/-- A resolver that follows no alias, whose only root replies that `w.x` is an alias of `y.x`, and
whose clock shows another second at each reading. -/
def aliasResolver : Resolver Unit where
  config :=
    { cacheCapacity := ⟨1, Nat.one_pos⟩, maxDepth := 0, roots := [.v4 ⟨192, 0, 2, 53⟩ dnsPort] }
  network := fun _ _ => pure (.ok Packet.compressedAliasQuery)
  ids := fun _ => 7
  starts := fun _ => 0
  clock := fun reading => 1000 * reading

/-- What has happened once the alias has been found, and the name behind it was too deep. -/
def aliasState : State Unit :=
  (aliasResolver.resolve Packet.aliasName .a 0 (aliasResolver.initial ())).2

/-- The exchange in which the root replies that `w.x` is an alias. -/
def aliasExchange : Exchange where
  server := .v4 ⟨192, 0, 2, 53⟩ dnsPort
  query := (queryFor 7 Packet.aliasName .a).wire
  outcome := .ok Packet.compressedAliasQuery

theorem search_aliasResolver (state : State Unit) :
    aliasResolver.search Packet.aliasName .a maxQueries [aliasExchange.server] state =
      (Packet.aliasQuery.answers,
        { state with
          queries := state.queries + 1
          trace := state.trace ++ [.exchanged aliasExchange] }) := by
  have hask (state : State Unit) :
      aliasResolver.ask aliasExchange.server Packet.aliasName .a state =
        (.ok Packet.aliasQuery,
          { state with
            queries := state.queries + 1
            trace := state.trace ++ [.exchanged aliasExchange] }) := by
    change (acceptReply 7 (.ok Packet.compressedAliasQuery), _) = _
    rw [acceptReply, Packet.ofOctets_compressedAliasQuery]
    rfl
  rw [maxQueries, search, bind_apply, hask]
  rfl

theorem resolveAfresh_aliasResolver (state : State Unit) :
    (aliasResolver.resolveAfresh Packet.aliasName .a 0 state).2 =
      { state with
        cache := state.cache.put (.of Packet.aliasName .a) Packet.aliasQuery.answers 60
          (1000 * state.readings)
        queries := state.queries + 1
        searches := state.searches + 1
        readings := state.readings + 1
        trace := state.trace ++ [.cacheMiss Packet.aliasName .a, .exchanged aliasExchange,
          .cached (.put (.of Packet.aliasName .a) Packet.aliasQuery.answers 60
            (1000 * state.readings))] ++ evictions state.cache (.of Packet.aliasName .a) ++
          [.following Packet.aliasName Packet.hostName, .tooDeep Packet.hostName .a] } := by
  have hroots (state : State Unit) :
      aliasResolver.rootCandidates state =
        ([aliasExchange.server], { state with searches := state.searches + 1 }) :=
    rfl
  have hdeep : aliasResolver.resolve Packet.hostName .a (0 + 1) = _ :=
    resolve_of_tooDeep Nat.one_pos Packet.hostName .a
  rw [resolveAfresh, bind_apply, note_apply, bind_apply, hroots, bind_apply, search_aliasResolver]
  change ((aliasResolver.store _ _ _ >>= fun _ => note _ >>= fun _ =>
    aliasResolver.resolve Packet.hostName .a (0 + 1)) _).2 = _
  rw [hdeep, bind_apply, store_apply]
  simp only [bind_apply, note_apply, pure_apply, List.append_assoc, List.cons_append,
    List.nil_append]
  rfl

theorem aliasState_eq :
    aliasState =
      { cache := (Cache.empty ⟨1, Nat.one_pos⟩ : RecordCache).after
          [.get (.of Packet.aliasName .a) 0,
            .put (.of Packet.aliasName .a) Packet.aliasQuery.answers 60 1000]
        network := ()
        queries := 1
        searches := 1
        readings := 2
        trace := [.cached (.get (.of Packet.aliasName .a) 0), .cacheMiss Packet.aliasName .a,
          .exchanged aliasExchange,
          .cached (.put (.of Packet.aliasName .a) Packet.aliasQuery.answers 60 1000),
          .following Packet.aliasName Packet.hostName, .tooDeep Packet.hostName .a] } := by
  rw [aliasState, resolve_of_le (Nat.le_refl 0)]
  -- The cache is empty at first.
  change (aliasResolver.resolveAfresh Packet.aliasName .a 0 _).2 = _
  rw [resolveAfresh_aliasResolver]
  rfl

/-- The name `W.X`. -/
def capitalName : Name := ⟨[87, 46, 88], by decide⟩

/-- The alias is handed back for another spelling of its name, and nobody is asked once more. -/
theorem resolve_reuses_aliasState :
    aliasResolver.Reachable aliasState ∧
      (aliasResolver.resolve capitalName .a 0 aliasState).1 = Packet.aliasQuery.answers ∧
      (aliasResolver.resolve capitalName .a 0 aliasState).2.trace =
        aliasState.trace ++
          [.cached (.get (.of Packet.aliasName .a) 2000), .cacheHit capitalName .a] := by
  have hreachable : aliasResolver.Reachable aliasState :=
    .call (.resolve Packet.aliasName .a 0) (.initial ())
  have hclock : Monotone aliasResolver.clock := fun _ _ h => Nat.mul_le_mul_left 1000 h
  have htrace : aliasState.trace =
      [.cached (.get (.of Packet.aliasName .a) 0), .cacheMiss Packet.aliasName .a,
          .exchanged aliasExchange] ++
        .cached (.put (.of Packet.aliasName .a) Packet.aliasQuery.answers 60 1000) ::
          [.following Packet.aliasName Packet.hostName, .tooDeep Packet.hostName .a] := by
    rw [aliasState_eq]
    rfl
  have hvalid : aliasResolver.clock aliasState.readings < 1000 + 60 * 1000 := by
    rw [aliasState_eq]
    decide
  have hfew : (Cache.keysSince (.of Packet.aliasName .a)
      ((Cache.empty ⟨1, Nat.one_pos⟩).usedKeys (uses aliasState.trace))).dedup.length < 1 := by
    rw [aliasState_eq]
    decide
  have hspelling : capitalName.text.map lower = Packet.aliasName.text.map lower := by
    decide
  obtain ⟨front, entry, back, -, -, hresolve⟩ :=
    hreachable.resolve_reuses hclock htrace (by simp) hvalid hfew hspelling (Nat.le_refl 0)
  rw [hresolve]
  refine ⟨hreachable, rfl, ?_⟩
  rw [aliasState_eq]
  rfl

end Resolver
end DnsResolver
