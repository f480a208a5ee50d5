import Mathlib.Data.List.Rotate
import DnsResolver.Proofs.Resolver.Histories

/-!
# Chains of walks

Every search of a resolution is a walk from server to server.  A resolution takes one walk for the
name that it is asked for, and one more for each alias that it follows, each a step deeper than the
one before.
-/

namespace DnsResolver
namespace Resolver

open Event (exchanges)

theorem rotate_eq {α : Type} (n : Nat) (items : List α) : rotate n items = items.rotate n :=
  List.rotate_eq_drop_append_take_mod.symm

/-- The exchanges of one search, with the name and type that are searched and the number of aliases
that led to them. -/
structure Walk where
  name : Name
  type : RecordType
  depth : Nat
  exchanges : List Exchange

namespace Walk

/-- The walk ends with an accepted reply whose first answer is an alias, in a search for
addresses. -/
def LeadsTo (walk : Walk) (target : Name) : Prop :=
  walk.type = .a ∧ ∃ exchange reply first others,
    walk.exchanges.getLast? = some exchange ∧ exchange.accepted? = some reply ∧
      reply.answers = first :: others ∧ first.data = .cname target

/-- The exchanges are those of a search that starts at some root. -/
def OfSearch (config : ResolverConfig) (walk : Walk) : Prop :=
  ∃ start events found, walk.exchanges = Event.exchanges events ∧
    Searched config.referralPolicy walk.name walk.type maxQueries (rotate start config.roots) events
      found

end Walk

/-- The walks among some events, each a step deeper than the one before.  A walk is what is
exchanged between a lookup in vain and the next use of the cache. -/
def walksIn (depth : Nat) : List Event → List Walk
  | [] => []
  | .cached (.get _ _) :: .cacheMiss name type :: events =>
    ⟨name, type, depth, exchanges (events.takeWhile fun event => event.cached?.isNone)⟩ ::
      walksIn (depth + 1) events
  | _ :: events => walksIn depth events

theorem walksIn_cons {event : Event} (h : ∀ key time, event ≠ .cached (.get key time)) (depth : Nat)
    (later : List Event) :
    walksIn depth (event :: later) = walksIn depth later := by
  rw [walksIn]
  intro key time _ _ _ hevent
  exact absurd hevent (h key time)

theorem walksIn_append {events : List Event} (h : ∀ key time, .cached (.get key time) ∉ events)
    (depth : Nat) (later : List Event) :
    walksIn depth (events ++ later) = walksIn depth later := by
  induction events with
  | nil => rfl
  | cons event events ih =>
    rw [List.cons_append, walksIn_cons, ih]
    · exact fun key time hmem => h key time (List.mem_cons_of_mem event hmem)
    · rintro key time rfl
      exact h key time List.mem_cons_self

/-- The walks that resolving a name at some depth takes: none, if the cache holds the records or the
depth is too great, and else one, which may find an alias and lead on to the walks for it. -/
inductive AliasChain (maxDepth : Nat) : Name → RecordType → Nat → List Walk → Prop where
  | nil {name : Name} {type : RecordType} {depth : Nat} :
      AliasChain maxDepth name type depth []
  | last {name : Name} {type : RecordType} {depth : Nat} (exchanges : List Exchange) :
      depth ≤ maxDepth → AliasChain maxDepth name type depth [⟨name, type, depth, exchanges⟩]
  | followed {name target : Name} {type : RecordType} {depth : Nat} {exchanges : List Exchange}
      {walks : List Walk} :
      depth ≤ maxDepth → Walk.LeadsTo ⟨name, type, depth, exchanges⟩ target →
      AliasChain maxDepth target .a (depth + 1) walks →
      AliasChain maxDepth name type depth (⟨name, type, depth, exchanges⟩ :: walks)

theorem AliasChain.depths {maxDepth : Nat} {name : Name} {type : RecordType} {depth : Nat}
    {walks : List Walk} (h : AliasChain maxDepth name type depth walks) :
    walks.map Walk.depth = List.range' depth walks.length := by
  induction h with
  | nil => rfl
  | last => rfl
  | followed _ _ _ ih => rw [List.map_cons, List.length_cons, List.range'_succ, ih]

theorem AliasChain.type_eq {maxDepth : Nat} {name : Name} {type : RecordType} {depth : Nat}
    {walks : List Walk} (h : AliasChain maxDepth name type depth walks) (htype : type = .a) :
    ∀ walk ∈ walks, walk.type = .a := by
  induction h with
  | nil => exact List.forall_mem_nil _
  | last => exact List.forall_mem_singleton.mpr htype
  | followed _ _ _ ih => exact List.forall_mem_cons.mpr ⟨htype, ih rfl⟩

theorem AliasChain.depth_add_length_le {maxDepth : Nat} {name : Name} {type : RecordType}
    {depth : Nat} {walks : List Walk} (h : AliasChain maxDepth name type depth walks)
    (hdepth : depth ≤ maxDepth + 1) :
    depth + walks.length ≤ maxDepth + 1 := by
  induction h with
  | nil => exact hdepth
  | last _ hle => exact Nat.succ_le_succ hle
  | @followed _ _ _ depth _ walks hle _ _ ih =>
    have hnext := ih (Nat.succ_le_succ hle)
    rw [List.length_cons, Nat.add_comm walks.length, ← Nat.add_assoc]
    exact hnext

variable {config : ResolverConfig} {name : Name} {type : RecordType}

theorem aliasTarget?_eq_some_iff {first : Record} {target : Name} :
    aliasTarget? type first = some target ↔ type = .a ∧ first.data = .cname target := by
  rw [aliasTarget?, Option.ite_none_right_eq_some]
  cases first.data <;> simp

theorem Kept.exchanges_eq_nil {key : CacheKey} {first : Record} {others : List Record}
    {kept : List Event} (h : Kept key first others kept) :
    exchanges kept = [] := by
  cases h with
  | @intro _ evicted hquiet =>
    change exchanges evicted = []
    exact Event.exchanges_of_quiet hquiet

theorem Missed.ofSearch {cache : RecordCache} {walked : List Event} {found : List Record}
    (h : Missed config name type cache walked found) (depth : Nat) :
    Walk.OfSearch config ⟨name, type, depth, exchanges walked⟩ := by
  cases h with
  | @intro _ start events _ _ hsearched => exact ⟨start, events, found, rfl, hsearched⟩

/-- A walk that finds an alias leads to the name behind it. -/
theorem Missed.leadsTo {cache : RecordCache} {walked : List Event} {first : Record}
    {others : List Record} {target : Name}
    (h : Missed config name type cache walked (first :: others))
    (halias : aliasTarget? type first = some target) (depth : Nat) :
    Walk.LeadsTo ⟨name, type, depth, exchanges walked⟩ target := by
  obtain ⟨htype, hdata⟩ := aliasTarget?_eq_some_iff.mp halias
  cases h with
  | @intro _ _ events _ _ hsearched =>
    obtain ⟨exchange, reply, hlast, haccepted, hanswers⟩ :=
      hsearched.exists_getLast? (List.cons_ne_nil first others)
    exact ⟨htype, exchange, reply, first, others, hlast, haccepted, hanswers, hdata⟩

/-- The events of a search make one walk, up to the next use of the cache. -/
theorem Missed.walksIn_append {cache : RecordCache} {walked later : List Event}
    {found : List Record} (h : Missed config name type cache walked found)
    (hlater : later.takeWhile (fun event => event.cached?.isNone) = []) (depth : Nat) :
    walksIn depth (walked ++ later) =
      ⟨name, type, depth, exchanges walked⟩ :: walksIn (depth + 1) later := by
  cases h with
  | @intro _ _ events _ _ hsearched =>
    have hunused := Event.uses_eq_nil_iff.mp hsearched.uses_eq_nil
    have hwhole : (events ++ later).takeWhile (fun event => event.cached?.isNone) = events := by
      rw [List.takeWhile_append_of_pos, hlater, List.append_nil]
      intro event hevent
      rw [hunused event hevent]
      rfl
    have hlookups (key : CacheKey) (time : Nat) : .cached (.get key time) ∉ events :=
      fun hmem => Option.some_ne_none _ (hunused _ hmem)
    rw [List.cons_append, List.cons_append, walksIn, hwhole, Resolver.walksIn_append hlookups]
    rfl

theorem Kept.walksIn_append {key : CacheKey} {first : Record} {others : List Record}
    {kept : List Event} (h : Kept key first others kept) (depth : Nat) (later : List Event) :
    walksIn depth (kept ++ later) = walksIn depth later := by
  cases h with
  | @intro _ evicted hquiet =>
    refine Resolver.walksIn_append ?_ depth later
    intro key time hmem
    rcases List.mem_cons.mp hmem with hput | hevicted
    · cases hput
    · exact Option.some_ne_none _ (hquiet _ hevicted).2

theorem Kept.takeWhile_append {key : CacheKey} {first : Record} {others : List Record}
    {kept : List Event} (h : Kept key first others kept) (later : List Event) :
    (kept ++ later).takeWhile (fun event => event.cached?.isNone) = [] := by
  cases h with
  | intro => rfl

theorem walksIn_of_failed {cache : RecordCache} {walked : List Event} {found : List Record}
    (h : Missed config name type cache walked found) (depth : Nat) :
    walksIn depth walked = [⟨name, type, depth, exchanges walked⟩] := by
  have hwalks := h.walksIn_append List.takeWhile_nil depth
  rw [List.append_nil] at hwalks
  exact hwalks

theorem walksIn_of_found {cache : RecordCache} {walked kept : List Event} {first : Record}
    {others : List Record} (h : Missed config name type cache walked (first :: others))
    (hkept : Kept (.of name type) first others kept) (depth : Nat) :
    walksIn depth (walked ++ kept) = [⟨name, type, depth, exchanges walked⟩] := by
  have hwalks := h.walksIn_append (hkept.takeWhile_append []) depth
  rw [hkept.walksIn_append, List.append_nil] at hwalks
  exact hwalks

theorem walksIn_of_aliased {cache : RecordCache} {walked kept : List Event} {first : Record}
    {others : List Record} (h : Missed config name type cache walked (first :: others))
    (hkept : Kept (.of name type) first others kept) (target : Name) (depth : Nat)
    (later : List Event) :
    walksIn depth (walked ++ (kept ++ .following name target :: later)) =
      ⟨name, type, depth, exchanges walked⟩ :: walksIn (depth + 1) later := by
  rw [h.walksIn_append (hkept.takeWhile_append _), hkept.walksIn_append, walksIn_cons]
  intro key time hevent
  cases hevent

/-- A resolution takes a chain of walks, each of them a search, and makes no other exchanges. -/
theorem Resolved.walks_spec {depth : Nat} {cache : RecordCache} {events : List Event}
    {records : List Record} (h : Resolved config name type depth cache events records) :
    AliasChain config.maxDepth name type depth (walksIn depth events) ∧
      exchanges events = (walksIn depth events).flatMap Walk.exchanges ∧
      ∀ walk ∈ walksIn depth events, walk.OfSearch config := by
  induction h with
  | tooDeep => exact ⟨.nil, rfl, List.forall_mem_nil _⟩
  | hit => exact ⟨.nil, rfl, List.forall_mem_nil _⟩
  | @failed name type depth _ walked hle hmissed =>
    rw [walksIn_of_failed hmissed]
    refine ⟨.last _ hle, ?_, List.forall_mem_singleton.mpr (hmissed.ofSearch depth)⟩
    exact (List.append_nil _).symm
  | @found name type depth _ walked kept _ _ hle hmissed hkept =>
    rw [walksIn_of_found hmissed hkept]
    refine ⟨.last _ hle, ?_, List.forall_mem_singleton.mpr (hmissed.ofSearch depth)⟩
    rw [Event.exchanges_append, hkept.exchanges_eq_nil]
    rfl
  | @aliased name target type depth _ walked kept later _ _ _ hle hmissed hkept halias _ ih =>
    obtain ⟨hchain, hexchanges, hwalks⟩ := ih
    rw [walksIn_of_aliased hmissed hkept]
    refine ⟨.followed hle (hmissed.leadsTo halias depth) hchain, ?_, ?_⟩
    · -- Storing the alias and noting that it is followed are no exchanges.
      rw [Event.exchanges_append, Event.exchanges_append, hkept.exchanges_eq_nil,
        List.flatMap_cons, ← hexchanges]
      rfl
    · exact List.forall_mem_cons.mpr ⟨hmissed.ofSearch depth, hwalks⟩

theorem Resolved.exists_walks {depth : Nat} {cache : RecordCache} {events : List Event}
    {records : List Record} (h : Resolved config name type depth cache events records) :
    ∃ walks, AliasChain config.maxDepth name type depth walks ∧
      exchanges events = walks.flatMap Walk.exchanges ∧ ∀ walk ∈ walks, walk.OfSearch config :=
  ⟨_, h.walks_spec⟩

/-! ## Calls and runs -/

/-- The walks that a call may take.  Handling a message resolves the first question of a request, or
asks nobody. -/
inductive CallWalks (maxDepth : Nat) : Call → List Walk → Prop where
  | resolve {name : Name} {type : RecordType} {depth : Nat} {walks : List Walk} :
      AliasChain maxDepth name type depth walks →
      CallWalks maxDepth (.resolve name type depth) walks
  | handle {message : Message} {request : Packet} {question : Question} {others : List Question}
      {walks : List Walk} :
      Packet.ofOctets message.data = .ok request → request.questions = question :: others →
      AliasChain maxDepth question.name question.type 0 walks →
      CallWalks maxDepth (.handle message) walks
  | unresolved {message : Message} : CallWalks maxDepth (.handle message) []

variable {σ : Type} {resolver : Resolver σ}

theorem notes_call_walks (call : Call) (cache : RecordCache) :
    Notes resolver cache (resolver.call call) fun _ events =>
      ∃ walks, CallWalks resolver.config.maxDepth call walks ∧
        exchanges events = walks.flatMap Walk.exchanges ∧
          ∀ walk ∈ walks, walk.OfSearch resolver.config := by
  cases call with
  | resolve name type depth =>
    refine (notes_resolve name type depth cache).bind_pure ?_
    intro records events hresolved
    obtain ⟨walks, hchain, hexchanges, hwalks⟩ := hresolved.exists_walks
    exact ⟨walks, .resolve hchain, hexchanges, hwalks⟩
  | handle message =>
    refine (notes_handle message cache).bind_pure ?_
    intro result events hhandled
    cases hhandled with
    | unresolved hquiet =>
      exact ⟨[], .unresolved, Event.exchanges_of_quiet hquiet, List.forall_mem_nil _⟩
    | @resolved _ _ _ event events _ _ hread hquestions hquiet hresolved =>
      obtain ⟨walks, hchain, hexchanges, hwalks⟩ := hresolved.exists_walks
      refine ⟨walks, .handle hread hquestions hchain, ?_, hwalks⟩
      have hevent : exchanges [event] = [] :=
        Event.exchanges_of_quiet (List.forall_mem_singleton.mpr hquiet)
      rw [← List.singleton_append, Event.exchanges_append, hevent]
      exact hexchanges

/-- Every call of a run takes walks of its own, one after another. -/
theorem notes_run_walks (calls : List Call) (cache : RecordCache) :
    Notes resolver cache (resolver.run calls) fun _ events =>
      ∃ walks, List.Forall₂ (CallWalks resolver.config.maxDepth) calls walks ∧
        exchanges events = walks.flatten.flatMap Walk.exchanges ∧
          ∀ walk ∈ walks.flatten, walk.OfSearch resolver.config := by
  induction calls generalizing cache with
  | nil => exact notes_pure ⟨[], .nil, rfl, List.forall_mem_nil _⟩
  | cons call calls ih =>
    refine (notes_call_walks call cache).bind ?_
    rintro answer events ⟨walks, hcall, hexchanges, hwalks⟩
    refine (ih _).bind_pure ?_
    rintro answers later ⟨others, hcalls, hlater, hothers⟩
    refine ⟨walks :: others, .cons hcall hcalls, ?_, ?_⟩
    · rw [Event.exchanges_append, hexchanges, hlater, List.flatten_cons,
        List.flatMap_append]
    · rw [List.flatten_cons]
      exact List.forall_mem_append.mpr ⟨hwalks, hothers⟩

end Resolver
end DnsResolver
