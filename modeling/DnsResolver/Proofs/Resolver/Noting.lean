import Mathlib.Data.List.Range
import DnsResolver.Proofs.Resolver.Cases

/-!
# What actions note

The trace of a resolver is its history.  Every action adds events to it, and leaves the cache as the
uses among these events make it, each of them at the next reading of the clock.  `Notes` says which
events an action adds, and follows the way in which the action is put together from others.
-/

namespace DnsResolver

namespace Cache

variable {κ α : Type}

/-- The time at which an operation takes place. -/
def Operation.time : Operation κ α → Nat
  | .put _ _ _ now => now
  | .get _ now => now
  | .purge now => now

end Cache

namespace Event

/-- The event is neither an exchange nor a use of the cache. -/
def Quiet (event : Event) : Prop :=
  event.exchange? = none ∧ event.cached? = none

/-- The exchanges among some events, in order. -/
def exchanges (events : List Event) : List Exchange :=
  events.filterMap Event.exchange?

/-- The uses of the cache among some events, in order. -/
def uses (events : List Event) : List (Cache.Operation CacheKey (List Record)) :=
  events.filterMap Event.cached?

/-- What the uses among some events make of a cache. -/
def replay (cache : RecordCache) (events : List Event) : RecordCache :=
  (uses events).foldl (fun cache operation => (cache.apply operation).2) cache

theorem exchanges_append (xs ys : List Event) :
    exchanges (xs ++ ys) = exchanges xs ++ exchanges ys :=
  List.filterMap_append

theorem uses_append (xs ys : List Event) : uses (xs ++ ys) = uses xs ++ uses ys :=
  List.filterMap_append

theorem replay_append (cache : RecordCache) (xs ys : List Event) :
    replay cache (xs ++ ys) = replay (replay cache xs) ys := by
  rw [replay, uses_append, List.foldl_append]
  rfl

theorem exchanges_of_quiet {events : List Event} (h : ∀ event ∈ events, event.Quiet) :
    exchanges events = [] :=
  List.filterMap_eq_nil_iff.mpr fun event hevent => (h event hevent).1

theorem uses_eq_nil_iff {events : List Event} :
    uses events = [] ↔ ∀ event ∈ events, event.cached? = none :=
  List.filterMap_eq_nil_iff

theorem uses_of_quiet {events : List Event} (h : ∀ event ∈ events, event.Quiet) :
    uses events = [] :=
  uses_eq_nil_iff.mpr fun event hevent => (h event hevent).2

theorem replay_of_uses_eq_nil {events : List Event} (h : uses events = []) (cache : RecordCache) :
    replay cache events = cache := by
  rw [replay, h]
  rfl

end Event

namespace Resolver

open Event (uses replay)

variable {σ α β : Type} {resolver : Resolver σ}

/-- The later state comes from the earlier one by some events, and its cache by the uses of the
cache among them, one at each reading of the clock. -/
structure Noted (resolver : Resolver σ) (before : State σ) (events : List Event)
    (after : State σ) : Prop where
  trace : after.trace = before.trace ++ events
  cache : after.cache = replay before.cache events
  readings : after.readings = before.readings + (uses events).length
  times : (uses events).map Cache.Operation.time =
    (List.range' before.readings (uses events).length).map resolver.clock

theorem Noted.refl (state : State σ) : Noted resolver state [] state where
  trace := (List.append_nil _).symm
  cache := rfl
  readings := rfl
  times := rfl

theorem Noted.trans {s t u : State σ} {xs ys : List Event} (hxs : Noted resolver s xs t)
    (hys : Noted resolver t ys u) :
    Noted resolver s (xs ++ ys) u := by
  constructor
  · rw [hys.trace, hxs.trace, List.append_assoc]
  · rw [hys.cache, hxs.cache, Event.replay_append]
  · rw [hys.readings, hxs.readings, Event.uses_append, List.length_append, Nat.add_assoc]
  · rw [Event.uses_append, List.map_append, hxs.times, hys.times, hxs.readings, List.length_append,
      ← List.map_append, List.range'_append_1]

/-- Every use of the cache takes place at a reading of the clock in between. -/
theorem Noted.exists_reading {before after : State σ} {events : List Event}
    (h : Noted resolver before events after)
    {operation : Cache.Operation CacheKey (List Record)} (hmem : operation ∈ uses events) :
    ∃ reading, before.readings ≤ reading ∧ reading < after.readings ∧
      resolver.clock reading = operation.time := by
  have htime : operation.time ∈ (uses events).map Cache.Operation.time := List.mem_map_of_mem hmem
  rw [h.times] at htime
  obtain ⟨reading, hreading, hreads⟩ := List.mem_map.mp htime
  obtain ⟨hle, hlt⟩ := List.mem_range'_1.mp hreading
  rw [← h.readings] at hlt
  exact ⟨reading, hle, hlt, hreads⟩

/-- From every state with the given cache, the action gives a value and notes events that go
together. -/
def Notes (resolver : Resolver σ) (cache : RecordCache) (action : Action σ α)
    (noted : α → List Event → Prop) : Prop :=
  ∀ state : State σ, state.cache = cache →
    ∃ events, noted (action state).1 events ∧ Noted resolver state events (action state).2

section Rules

variable {cache : RecordCache} {noted : β → List Event → Prop}

theorem notes_pure {b : β} (h : noted b []) : Notes resolver cache (pure b) noted :=
  fun state _ => ⟨[], h, Noted.refl state⟩

/-- What comes second finds the cache that the events of the first action made. -/
theorem Notes.bind {first : Action σ α} {next : α → Action σ β} {between : α → List Event → Prop}
    (hfirst : Notes resolver cache first between)
    (hnext : ∀ a events, between a events →
      Notes resolver (replay cache events) (next a) fun b later => noted b (events ++ later)) :
    Notes resolver cache (first >>= next) noted := by
  intro state hcache
  obtain ⟨events, hbetween, hevents⟩ := hfirst state hcache
  have hafter : (first state).2.cache = replay cache events := by
    rw [hevents.cache, hcache]
  obtain ⟨later, hnoted, hlater⟩ := hnext _ _ hbetween _ hafter
  exact ⟨events ++ later, hnoted, hevents.trans hlater⟩

theorem Notes.bind_pure {first : Action σ α} {f : α → β} {between : α → List Event → Prop}
    (hfirst : Notes resolver cache first between)
    (hf : ∀ a events, between a events → noted (f a) events) :
    Notes resolver cache (first >>= fun a => pure (f a)) noted := by
  refine hfirst.bind ?_
  intro a events hbetween
  refine notes_pure ?_
  rw [List.append_nil]
  exact hf a events hbetween

theorem Notes.mono {action : Action σ β} {weaker : β → List Event → Prop}
    (h : Notes resolver cache action noted)
    (hweaker : ∀ b events, noted b events → weaker b events) :
    Notes resolver cache action weaker := by
  intro state hcache
  obtain ⟨events, hnoted, hevents⟩ := h state hcache
  exact ⟨events, hweaker _ _ hnoted, hevents⟩

end Rules

/-! ## The steps of a resolver -/

section Steps

variable {cache : RecordCache}

theorem notes_note {event : Event} (hquiet : event.Quiet) :
    Notes resolver cache (note event) fun _ events => events = [event] := by
  intro state _
  have huses : uses [event] = [] := by
    apply Event.uses_of_quiet
    simpa using hquiet
  refine ⟨[event], rfl, rfl, ?_, ?_, ?_⟩
  · rw [Event.replay_of_uses_eq_nil huses]
    rfl
  · rw [huses]
    rfl
  · rw [huses]
    rfl

theorem notes_noteAll {logged : List Event} (hquiet : ∀ event ∈ logged, event.Quiet) :
    Notes resolver cache (noteAll logged) fun _ events => events = logged := by
  intro state _
  have huses : uses logged = [] := Event.uses_of_quiet hquiet
  refine ⟨logged, rfl, rfl, ?_, ?_, ?_⟩
  · rw [Event.replay_of_uses_eq_nil huses]
    rfl
  · rw [huses]
    rfl
  · rw [huses]
    rfl

/-- A lookup is noted with its time, and gives what the cache holds then. -/
theorem notes_lookUp (key : CacheKey) :
    Notes resolver cache (resolver.lookUp key) fun found events =>
      ∃ time, found = (cache.get key time).1 ∧ events = [.cached (.get key time)] := by
  rintro state rfl
  rw [lookUp_apply]
  exact ⟨_, ⟨resolver.clock state.readings, rfl, rfl⟩, rfl, rfl, rfl, rfl⟩

theorem evictions_quiet (cache : RecordCache) (key : CacheKey) :
    ∀ event ∈ evictions cache key, event.Quiet := by
  intro event hevent
  unfold evictions at hevent
  split at hevent
  · rw [List.mem_singleton.mp hevent]
    exact ⟨rfl, rfl⟩
  · cases hevent

/-- An insertion is noted with its time, before the evictions that it causes. -/
theorem notes_store (key : CacheKey) (records : List Record) (ttl : UInt32) :
    Notes resolver cache (resolver.store key records ttl) fun _ events =>
      ∃ time evicted, (∀ event ∈ evicted, event.Quiet) ∧
        events = .cached (.put key records ttl.toNat time) :: evicted := by
  intro state _
  rw [store_apply]
  have hquiet := evictions_quiet state.cache key
  have huses : uses (.cached (.put key records ttl.toNat (resolver.clock state.readings)) ::
      evictions state.cache key) =
        [.put key records ttl.toNat (resolver.clock state.readings)] := by
    have hevicted := Event.uses_of_quiet hquiet
    rw [uses] at hevicted ⊢
    rw [List.filterMap_cons, hevicted]
    rfl
  refine ⟨_, ⟨resolver.clock state.readings, _, hquiet, rfl⟩, ?_, ?_, ?_, ?_⟩
  · rw [List.append_assoc]
    rfl
  · rw [replay, huses]
    rfl
  · rw [huses]
    rfl
  · rw [huses]
    rfl

theorem notes_exchange (server : SocketAddress) (query : Octets) :
    Notes resolver cache (resolver.exchange server query) fun outcome events =>
      events = [.exchanged ⟨server, query, outcome⟩] := by
  intro state _
  rw [exchange_apply]
  exact ⟨_, rfl, rfl, rfl, rfl, rfl⟩

theorem notes_drawId :
    Notes resolver cache resolver.drawId fun _ events => events = [] := by
  intro state _
  exact ⟨[], rfl, (List.append_nil _).symm, rfl, rfl, rfl⟩

theorem notes_rootCandidates :
    Notes resolver cache resolver.rootCandidates fun candidates events =>
      (∃ start, candidates = rotate start resolver.config.roots) ∧ events = [] := by
  intro state _
  rw [rootCandidates_apply]
  exact ⟨[], ⟨⟨_, rfl⟩, rfl⟩, (List.append_nil _).symm, rfl, rfl, rfl⟩

end Steps

end Resolver
end DnsResolver
