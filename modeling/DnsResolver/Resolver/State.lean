import DnsResolver.Cache.Records
import DnsResolver.Message
import DnsResolver.Resolver.Config
import DnsResolver.Resolver.Event

/-!
# The state of a resolver

A resolver is given by its configuration and by what it cannot decide itself: the network, the
identifiers and starting places it draws at random, and the clock.  Random values and times are
given for every draw and every reading in advance, so that a run is a function of them.
-/

namespace DnsResolver

/-- A resolver over a network whose state has type `σ`. -/
structure Resolver (σ : Type) where
  config : ResolverConfig
  network : Network σ
  /-- The identifier of each query, by the number of queries before it. -/
  ids : Nat → UInt16
  /-- The place among the roots where each search starts, by the number of searches before it; it
  counts modulo the number of roots. -/
  starts : Nat → Nat
  /-- The time at each reading of the clock, by the number of readings before it. -/
  clock : Nat → Nat
  /-- The length of a second in the unit of the clock; it is 1000 if that is milliseconds. -/
  second : Nat := 1000

namespace Resolver

/-- What changes while a resolver works. -/
structure State (σ : Type) where
  cache : RecordCache
  /-- The state of the network. -/
  network : σ
  /-- The number of queries sent. -/
  queries : Nat := 0
  /-- The number of searches begun. -/
  searches : Nat := 0
  /-- The number of readings of the clock. -/
  readings : Nat := 0
  /-- What happened, in order. -/
  trace : List Event := []

/-- A step of a resolver. -/
abbrev Action (σ : Type) := StateM (State σ)

variable {σ : Type}

/-- The state in which a resolver starts. -/
def initial (resolver : Resolver σ) (network : σ) : State σ where
  cache := .empty resolver.config.cacheCapacity resolver.second
  network := network

/-- Adds an event to the trace. -/
def note (event : Event) : Action σ Unit :=
  modify fun state => { state with trace := state.trace ++ [event] }

/-- Adds events to the trace, in order. -/
def noteAll (events : List Event) : Action σ Unit :=
  modify fun state => { state with trace := state.trace ++ events }

/-- Reads the clock. -/
def now (resolver : Resolver σ) : Action σ Nat :=
  modifyGet fun state =>
    (resolver.clock state.readings, { state with readings := state.readings + 1 })

/-- Draws an identifier for a query. -/
def drawId (resolver : Resolver σ) : Action σ UInt16 :=
  modifyGet fun state => (resolver.ids state.queries, { state with queries := state.queries + 1 })

/-- Draws the place where a search starts. -/
def drawStart (resolver : Resolver σ) : Action σ Nat :=
  modifyGet fun state =>
    (resolver.starts state.searches, { state with searches := state.searches + 1 })

/-- Looks up a record set in the cache. -/
def lookUp (resolver : Resolver σ) (key : CacheKey) : Action σ (Option (List Record)) := do
  let time ← resolver.now
  note (.cached (.get key time))
  modifyGet fun state =>
    ((state.cache.get key time).1, { state with cache := (state.cache.get key time).2 })

/-- Reports the record set that makes room for one under `key`, if one does. -/
def evictions (cache : RecordCache) (key : CacheKey) : List Event :=
  match cache.victim? key with
  | some victim => [.evicted victim.name victim.type]
  | none => []

/-- Stores a record set in the cache for some seconds. -/
def store (resolver : Resolver σ) (key : CacheKey) (records : List Record) (ttl : UInt32) :
    Action σ Unit := do
  let time ← resolver.now
  note (.cached (.put key records ttl.toNat time))
  modify fun state =>
    { state with
      cache := state.cache.put key records ttl.toNat time
      trace := state.trace ++ evictions state.cache key }

/-- Exchanges one message with a server. -/
def exchange (resolver : Resolver σ) (server : SocketAddress) (query : Octets) :
    Action σ (Except ExchangeError Octets) := do
  let outcome ← modifyGet fun state =>
    let result := (resolver.network server query).run state.network
    (result.1, { state with network := result.2 })
  note (.exchanged { server, query, outcome })
  return outcome

/-! ## What each step does to the state -/

section Steps

variable {α β : Type} (resolver : Resolver σ) (state : State σ)

theorem pure_apply (a : α) : (pure a : Action σ α) state = (a, state) := rfl

/-- A step after another one finds the state that the first one left. -/
theorem bind_apply (first : Action σ α) (next : α → Action σ β) :
    (first >>= next) state = next (first state).1 (first state).2 := rfl

theorem note_apply (event : Event) :
    note event state = ((), { state with trace := state.trace ++ [event] }) := rfl

theorem noteAll_apply (events : List Event) :
    noteAll events state = ((), { state with trace := state.trace ++ events }) := rfl

theorem now_apply :
    resolver.now state =
      (resolver.clock state.readings, { state with readings := state.readings + 1 }) := rfl

theorem drawStart_apply :
    resolver.drawStart state =
      (resolver.starts state.searches, { state with searches := state.searches + 1 }) := rfl

/-- A lookup in the cache takes place at the next reading of the clock. -/
theorem lookUp_apply (key : CacheKey) :
    resolver.lookUp key state =
      ((state.cache.get key (resolver.clock state.readings)).1,
        { state with
          cache := (state.cache.get key (resolver.clock state.readings)).2
          readings := state.readings + 1
          trace := state.trace ++ [.cached (.get key (resolver.clock state.readings))] }) := rfl

/-- An insertion into the cache takes place at the next reading of the clock. -/
theorem store_apply (key : CacheKey) (records : List Record) (ttl : UInt32) :
    resolver.store key records ttl state =
      ((),
        { state with
          cache := state.cache.put key records ttl.toNat (resolver.clock state.readings)
          readings := state.readings + 1
          trace := state.trace ++
            [.cached (.put key records ttl.toNat (resolver.clock state.readings))] ++
            evictions state.cache key }) := rfl

/-- An exchange changes the state of the network, and is noted. -/
theorem exchange_apply (server : SocketAddress) (query : Octets) :
    resolver.exchange server query state =
      ((resolver.network server query state.network).1,
        { state with
          network := (resolver.network server query state.network).2
          trace := state.trace ++
            [.exchanged ⟨server, query, (resolver.network server query state.network).1⟩] }) :=
  rfl

end Steps

end Resolver
end DnsResolver
