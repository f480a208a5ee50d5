import DnsResolver.Proofs.Resolver.Failover
import DnsResolver.Proofs.Resolver.Provenance
import DnsResolver.Proofs.Resolver.Servers
import DnsResolver.Proofs.Resolver.Words

/-!
# Aliases

A question for addresses that finds an alias goes on with the name behind it.  Along a chain of
aliases that the cache does not hold, each name takes one walk, and the answers at the end come back
unless the chain is too deep.  A question for anything else takes an alias as it is.
-/

namespace DnsResolver
namespace Resolver

open Event (exchanges uses replay)

/-! ## Chains of aliases -/

/-- What the walk found: the first answers that came back. -/
def Walk.found (walk : Walk) : List Record :=
  Exchange.firstAnswers walk.exchanges

/-- The walks find each name of a chain to be an alias of the next one, and the answers at its
end. -/
def FindChain (walks : List Walk) (answers : List Record) : Name → List Name → Prop
  | name, [] => ∀ walk ∈ walks, walk.name = name → walk.found = answers
  | name, target :: targets =>
    (∀ walk ∈ walks, walk.name = name →
      ∃ first others, walk.found = first :: others ∧ first.data = .cname target) ∧
    FindChain walks answers target targets

theorem FindChain.mono {walks others : List Walk} {answers : List Record} {name : Name}
    {targets : List Name} (h : FindChain walks answers name targets) (hsubset : others ⊆ walks) :
    FindChain others answers name targets := by
  induction targets generalizing name with
  | nil => exact fun walk hwalk => h walk (hsubset hwalk)
  | cons target targets ih => exact ⟨fun walk hwalk => h.1 walk (hsubset hwalk), ih h.2⟩

/-- The first record that is found for a name leads to the name that comes next in the chain, if one
does. -/
theorem FindChain.aliasTarget?_eq {walks : List Walk} {first answer : Record}
    {others rest : List Record} {name : Name} {targets : List Name}
    (h : FindChain walks (first :: others) name targets)
    (hfirst : ∀ target, first.data ≠ .cname target) {walk : Walk} (hwalk : walk ∈ walks)
    (hname : walk.name = name) (hfound : walk.found = answer :: rest) :
    aliasTarget? .a answer = targets.head? ∧
      (targets = [] → answer :: rest = first :: others) := by
  cases targets with
  | nil =>
    have hanswers := hfound.symm.trans (h walk hwalk hname)
    obtain ⟨rfl, -⟩ := List.cons.inj hanswers
    refine ⟨Option.eq_none_iff_forall_ne_some.mpr fun target halias => ?_, fun _ => hanswers⟩
    exact hfirst target (aliasTarget?_eq_some_iff.mp halias).2
  | cons target targets =>
    obtain ⟨_, _, hlead, hdata⟩ := h.1 walk hwalk hname
    obtain ⟨rfl, -⟩ := List.cons.inj (hfound.symm.trans hlead)
    refine ⟨aliasTarget?_eq_some_iff.mpr ⟨rfl, hdata⟩, fun hnil => ?_⟩
    exact absurd hnil (List.cons_ne_nil target targets)

theorem FindChain.found_ne_nil {walks : List Walk} {first : Record} {others : List Record}
    {name : Name} {targets : List Name}
    (h : FindChain walks (first :: others) name targets) {walk : Walk} (hwalk : walk ∈ walks)
    (hname : walk.name = name) :
    walk.found ≠ [] := by
  cases targets with
  | nil =>
    rw [h walk hwalk hname]
    exact List.cons_ne_nil first others
  | cons target targets =>
    obtain ⟨_, _, hfound, -⟩ := h.1 walk hwalk hname
    rw [hfound]
    exact List.cons_ne_nil _ _

/-- What comes of a chain on some levels: there is a walk for each of its first names, as many as
there are levels, and the answers come back if the last name is among them. -/
structure Reaches (levels : Nat) (name : Name) (targets : List Name) (answers : List Record)
    (walks : List Walk) (records : List Record) : Prop where
  records : records = if targets.length < levels then answers else []
  names : walks.map Walk.name = (name :: targets).take levels
  found : ∀ walk ∈ walks, walk.found ≠ []

namespace Reaches

variable {levels : Nat} {name target : Name} {targets : List Name} {answers records : List Record}
  {walk : Walk} {walks : List Walk}

theorem nothing : Reaches 0 name targets answers [] [] where
  records := (if_neg (Nat.not_lt_zero _)).symm
  names := rfl
  found := List.forall_mem_nil _

theorem last (hname : walk.name = name) (hfound : walk.found ≠ []) :
    Reaches (levels + 1) name [] answers [walk] answers := by
  refine ⟨(if_pos (Nat.add_one_pos _)).symm, ?_, List.forall_mem_singleton.mpr hfound⟩
  rw [List.map_singleton, List.take_succ_cons, List.take_nil, hname]

theorem further (h : Reaches levels target targets answers walks records) (hname : walk.name = name)
    (hfound : walk.found ≠ []) :
    Reaches (levels + 1) name (target :: targets) answers (walk :: walks) records := by
  refine ⟨?_, ?_, List.forall_mem_cons.mpr ⟨hfound, h.found⟩⟩
  · simp only [List.length_cons, Nat.add_lt_add_iff_right]
    exact h.records
  · rw [List.map_cons, List.take_succ_cons, h.names, hname]

end Reaches

/-! ## Keys that the cache holds nothing under -/

section Events

variable {config : ResolverConfig} {name target : Name} {type : RecordType} {depth : Nat}
  {cache : RecordCache} {key : CacheKey} {walked kept later events : List Event}
  {found records : List Record} {first : Record} {others : List Record}

/-- What the cache holds under the key has run out at every use among the events. -/
def Outdated (cache : RecordCache) (events : List Event) (key : CacheKey) : Prop :=
  ∀ entry ∈ cache.entries, entry.key = key → ∀ operation ∈ uses events,
    entry.expires ≤ operation.time

theorem Outdated.get_eq_none {time : Nat} (h : Outdated cache events key)
    (hmem : .get key time ∈ uses events) :
    (cache.get key time).1 = none := by
  by_contra hsome
  obtain ⟨records, hget⟩ := Option.ne_none_iff_exists'.mp hsome
  obtain ⟨entry, hentry, hkey, -, hvalid⟩ := Cache.exists_of_get_eq_some hget
  exact absurd (h entry hentry hkey _ hmem) (Nat.not_le.mpr hvalid)

theorem Missed.put_not_mem (h : Missed config name type cache walked found)
    {records : List Record} {ttl time : Nat} :
    .cached (.put key records ttl time) ∉ walked := by
  cases h with
  | @intro _ _ events _ _ hsearched =>
    intro hmem
    rcases List.mem_cons.mp hmem with hget | hmem
    · cases hget
    · rcases List.mem_cons.mp hmem with hmiss | hmem
      · cases hmiss
      · cases Event.uses_eq_nil_iff.mp hsearched.uses_eq_nil _ hmem

theorem Kept.key_eq_of_put_mem {other : CacheKey} (h : Kept key first others kept)
    {records : List Record} {ttl time : Nat} (hmem : .cached (.put other records ttl time) ∈ kept) :
    other = key := by
  cases h with
  | intro hquiet =>
    rcases List.mem_cons.mp hmem with hput | hevicted
    · cases hput
      rfl
    · cases (hquiet _ hevicted).2

/-- Storing an alias brings in nothing under the key of another name. -/
theorem Outdated.aliased
    (h : Outdated cache (walked ++ (kept ++ .following name target :: later)) key)
    (hmissed : Missed config name type cache walked (first :: others))
    (hkept : Kept (.of name type) first others kept) (hne : key ≠ .of name type) :
    Outdated (replay cache (walked ++ (kept ++ [.following name target]))) later key := by
  rintro entry hentry rfl operation hoperation
  rcases Event.mem_or_put_of_mem_replay hentry with hold | ⟨earlier, ttl, time, behind, hsplit, -⟩
  · refine h entry hold rfl operation ?_
    rw [Event.uses_append, Event.uses_append]
    exact List.mem_append_right _ (List.mem_append_right _ hoperation)
  · exfalso
    have hput : .cached (.put entry.key entry.value ttl time) ∈
        walked ++ (kept ++ [.following name target]) := by
      rw [hsplit]
      exact List.mem_append_cons_self
    rcases List.mem_append.mp hput with hwalked | hput
    · exact hmissed.put_not_mem hwalked
    · rcases List.mem_append.mp hput with hkeptPut | hfollowing
      · exact hne (hkept.key_eq_of_put_mem hkeptPut)
      · cases List.mem_singleton.mp hfollowing

/-! ## Resolving along a chain -/

theorem Missed.found_eq (h : Missed config name type cache walked found) (depth : Nat) :
    Walk.found ⟨name, type, depth, exchanges walked⟩ = found := by
  cases h with
  | intro _ hsearched => exact hsearched.found_eq.symm

/-- Along a chain that the cache does not hold, a resolution takes one walk on each level. -/
theorem Resolved.reaches (h : Resolved config name type depth cache events records)
    {first : Record} {others : List Record} {targets : List Name} (htype : type = .a)
    (hfirst : ∀ target, first.data ≠ .cname target)
    (hdistinct : ((name :: targets).map Name.lowerCase).Nodup)
    (houtdated : ∀ other ∈ name :: targets, Outdated cache events (.of other .a))
    (hchain : FindChain (walksIn depth events) (first :: others) name targets) :
    Reaches (config.maxDepth + 1 - depth) name targets (first :: others) (walksIn depth events)
      records := by
  induction h generalizing targets with
  | @tooDeep name type depth _ hdeep =>
    rw [Nat.sub_eq_zero_of_le hdeep]
    exact .nothing
  | @hit name type _ time cache records _ hget =>
    subst htype
    have huse : .get (.of name .a) time ∈
        uses [.cached (.get (.of name .a) time), .cacheHit name .a] := List.mem_cons_self
    have hnone := (houtdated name List.mem_cons_self).get_eq_none huse
    rw [hget] at hnone
    cases hnone
  | @failed name type depth cache walked _ hmissed =>
    rw [walksIn_of_failed hmissed] at hchain
    exact absurd (hmissed.found_eq depth) (hchain.found_ne_nil List.mem_cons_self rfl)
  | @found name type depth cache walked kept answer rest hle hmissed hkept halias =>
    subst htype
    rw [walksIn_of_found hmissed hkept] at hchain ⊢
    obtain ⟨htarget, hanswers⟩ :=
      hchain.aliasTarget?_eq hfirst List.mem_cons_self rfl (hmissed.found_eq depth)
    rw [halias] at htarget
    obtain rfl := List.head?_eq_none_iff.mp htarget.symm
    rw [Nat.succ_sub hle, hanswers rfl]
    exact .last rfl (hchain.found_ne_nil List.mem_cons_self rfl)
  | @aliased name target type depth cache walked kept later answer rest records hle hmissed hkept
      halias _ ih =>
    obtain ⟨rfl, -⟩ := aliasTarget?_eq_some_iff.mp halias
    rw [walksIn_of_aliased hmissed hkept] at hchain ⊢
    obtain ⟨htarget, -⟩ :=
      hchain.aliasTarget?_eq hfirst List.mem_cons_self rfl (hmissed.found_eq depth)
    rw [halias] at htarget
    obtain ⟨targets, rfl⟩ := List.head?_eq_some_iff.mp htarget.symm
    obtain ⟨hname, hrest⟩ := List.nodup_cons.mp hdistinct
    -- The alias is stored under a key that no name behind it has.
    have hlater : ∀ other ∈ target :: targets, Outdated
        (replay cache (walked ++ (kept ++ [.following name target]))) later (.of other .a) := by
      intro other hother
      refine (houtdated other (List.mem_cons_of_mem name hother)).aliased hmissed hkept ?_
      intro hkey
      refine hname ?_
      rw [← (CacheKey.mk.inj hkey).1]
      exact List.mem_map_of_mem hother
    rw [Nat.succ_sub hle, ← Nat.add_sub_add_right config.maxDepth 1 depth]
    exact (ih rfl hrest hlater (hchain.2.mono (List.subset_cons_self _ _))).further rfl
      (hchain.found_ne_nil List.mem_cons_self rfl)

/-- What is no question for addresses takes one walk, and gets what that finds. -/
theorem Resolved.single (h : Resolved config name type depth cache events records)
    (htype : type ≠ .a) (hdepth : depth ≤ config.maxDepth)
    (houtdated : Outdated cache events (.of name type)) :
    ∃ exchanges, walksIn depth events = [⟨name, type, depth, exchanges⟩] ∧
      records = Exchange.firstAnswers exchanges := by
  cases h with
  | tooDeep hdeep => exact absurd hdepth (Nat.not_le.mpr hdeep)
  | @hit _ _ _ time _ _ _ hget =>
    have huse : .get (.of name type) time ∈
        uses [.cached (.get (.of name type) time), .cacheHit name type] := List.mem_cons_self
    rw [houtdated.get_eq_none huse] at hget
    cases hget
  | failed _ hmissed => exact ⟨_, walksIn_of_failed hmissed depth, (hmissed.found_eq depth).symm⟩
  | found _ hmissed hkept =>
    exact ⟨_, walksIn_of_found hmissed hkept depth, (hmissed.found_eq depth).symm⟩
  | aliased _ _ _ halias => exact absurd (aliasTarget?_eq_some_iff.mp halias).1 htype

end Events

/-- If all servers that a walk asks answer, it asks one of them. -/
theorem Walk.OfSearch.length_eq_one {config : ResolverConfig} {walk : Walk}
    (h : walk.OfSearch config) (hfound : walk.found ≠ [])
    (hanswered : ∀ exchange ∈ walk.exchanges, exchange.answers ≠ []) :
    walk.exchanges.length = 1 := by
  obtain ⟨start, events, found, hexchanges, hsearched⟩ := h
  have hearlier := hsearched.unanswered_of_mem_dropLast
  rw [← hexchanges] at hearlier
  have hnone : walk.exchanges.dropLast = [] := by
    apply List.eq_nil_iff_forall_not_mem.mpr
    intro exchange hmem
    exact hanswered exchange (List.mem_of_mem_dropLast hmem) (hearlier exchange hmem)
  have hsome : walk.exchanges ≠ [] := by
    intro hnil
    rw [Walk.found, hnil] at hfound
    exact hfound rfl
  have hlength := congrArg List.length hnone
  rw [List.length_dropLast, List.length_nil] at hlength
  have hpos := List.length_pos_iff.mpr hsome
  omega

theorem Walk.OfSearch.exchanges_ne_nil {config : ResolverConfig} {walk : Walk}
    (h : walk.OfSearch config) (hroots : config.roots ≠ []) :
    walk.exchanges ≠ [] := by
  obtain ⟨start, events, found, hexchanges, hsearched⟩ := h
  have hcandidates : rotate start config.roots ≠ [] := by
    rw [rotate_eq]
    exact mt List.rotate_eq_nil_iff.mp hroots
  obtain ⟨server, rest, hrotate⟩ := List.exists_cons_of_ne_nil hcandidates
  rw [hrotate] at hsearched
  rw [hexchanges]
  cases hsearched with
  | answered => exact List.cons_ne_nil _ _
  | unanswered => exact List.cons_ne_nil _ _

/-! ## Resolving in any state -/

variable {σ : Type} {resolver : Resolver σ} {state : State σ}

/-- Nothing under the key is valid in the cache at the next reading of the clock, or at a later
one. -/
def Uncached (resolver : Resolver σ) (state : State σ) (key : CacheKey) : Prop :=
  ∀ entry ∈ state.cache.entries, entry.key = key → ∀ reading ≥ state.readings,
    entry.expires ≤ resolver.clock reading

theorem Uncached.outdated {key : CacheKey} (h : Uncached resolver state key) {after : State σ}
    {events : List Event} (hnoted : Noted resolver state events after) :
    Outdated state.cache events key := by
  intro entry hentry hkey operation hoperation
  obtain ⟨reading, hle, -, hreads⟩ := hnoted.exists_reading hoperation
  rw [← hreads]
  exact h entry hentry hkey reading hle

/-- The walks that resolving a name takes. -/
def walksOf (resolver : Resolver σ) (name : Name) (type : RecordType) (depth : Nat)
    (state : State σ) : List Walk :=
  walksIn depth ((resolver.resolve name type depth state).2.trace.drop state.trace.length)

theorem exists_resolved (resolver : Resolver σ) (name : Name) (type : RecordType) (depth : Nat)
    (state : State σ) :
    ∃ events, Noted resolver state events (resolver.resolve name type depth state).2 ∧
      Resolved resolver.config name type depth state.cache events
        (resolver.resolve name type depth state).1 ∧
      resolver.walksOf name type depth state = walksIn depth events := by
  obtain ⟨events, hresolved, hnoted⟩ := notes_resolve name type depth state.cache state rfl
  refine ⟨events, hnoted, hresolved, ?_⟩
  rw [walksOf, hnoted.trace, List.drop_left]

section Settled

variable {answers : SocketAddress → Name → RecordType → List Record} {name : Name}
  {type : RecordType}

/-- All that was asked between two states was answered as the servers always do. -/
def AnsweredBetween (answers : SocketAddress → Name → RecordType → List Record)
    (before after : State σ) : Prop :=
  ∃ made, exchanges after.trace = exchanges before.trace ++ made ∧
    ∀ exchange ∈ made, ∃ name type, exchange.AsksFor name type ∧
      exchange.answers = answers exchange.server name type

namespace AnsweredBetween

variable {before after later : State σ}

theorem refl (answers : SocketAddress → Name → RecordType → List Record) (state : State σ) :
    AnsweredBetween answers state state :=
  ⟨[], (List.append_nil _).symm, List.forall_mem_nil _⟩

theorem of_exchanges_eq (h : AnsweredBetween answers before after)
    (heq : exchanges later.trace = exchanges after.trace) :
    AnsweredBetween answers before later := by
  obtain ⟨made, htrace, hmade⟩ := h
  exact ⟨made, heq.trans htrace, hmade⟩

theorem walked (h : AnsweredBetween answers before after)
    (hsettled : Settled resolver.network answers) {walk : List Exchange}
    (hwalked : Walked resolver name type after walk later) :
    AnsweredBetween answers before later := by
  obtain ⟨made, htrace, hmade⟩ := h
  refine ⟨made ++ walk, ?_, List.forall_mem_append.mpr ⟨hmade, ?_⟩⟩
  · rw [hwalked.trace, htrace, List.append_assoc]
  · intro exchange hexchange
    exact ⟨name, type, hwalked.exchanged.asksFor exchange hexchange,
      hwalked.exchanged.answers_eq hsettled exchange hexchange⟩

end AnsweredBetween

theorem resolve_answeredBetween (hsettled : Settled resolver.network answers) (name : Name)
    (type : RecordType) (depth : Nat) (state : State σ) :
    AnsweredBetween answers state (resolver.resolve name type depth state).2 := by
  let inv := AnsweredBetween answers state
  have hresolve : Ensures inv (resolver.resolve name type depth) fun records after =>
      inv after ∧ (records ≠ [] → ∃ _ : CacheKey, True) := by
    refine Ensures.resolve ?_ ?_ ?_ ?_ ?_ depth name type
    · intro event _ hquiet after hafter
      exact hafter.of_exchanges_eq
        (exchanges_noteAll (List.forall_mem_singleton.mpr hquiet) after)
    · intro key after hafter
      refine ⟨hafter.of_exchanges_eq ?_, fun _ _ => trivial⟩
      rw [lookUp_apply, Event.exchanges_append]
      exact List.append_nil _
    · intro after hafter
      rw [rootCandidates_apply]
      exact hafter
    · intro name type candidates after hafter
      obtain ⟨walk, hwalked⟩ := search_walked after maxQueries candidates
      exact ⟨hafter.walked hsettled hwalked, fun _ => trivial⟩
    · intro key first others _ after hafter
      exact hafter.of_exchanges_eq (exchanges_store key _ _ after)
  exact (hresolve state (.refl answers state)).1

/-- If there are roots, and all servers answer a question alike, that is what a walk finds. -/
theorem found_of_settled {answers : Name → RecordType → List Record}
    (hsettled : Settled resolver.network fun _ => answers) (hroots : resolver.config.roots ≠ [])
    {depth : Nat} {walk : Walk} (hwalk : walk ∈ resolver.walksOf name type depth state) :
    walk.found = answers walk.name walk.type := by
  obtain ⟨events, hnoted, hresolved, hwalks⟩ := exists_resolved resolver name type depth state
  obtain ⟨-, hexchanges, hsearches⟩ := hresolved.walks_spec
  obtain ⟨made, htrace, hmade⟩ := resolve_answeredBetween hsettled name type depth state
  rw [hnoted.trace, Event.exchanges_append, hexchanges] at htrace
  rw [hwalks] at hwalk
  have hsearch := hsearches walk hwalk
  refine Exchange.firstAnswers_eq_of_forall (hsearch.exchanges_ne_nil hroots) ?_
  intro exchange hexchange
  have hmem : exchange ∈ made := by
    rw [← List.append_cancel_left htrace]
    exact List.mem_flatMap.mpr ⟨walk, hwalk, hexchange⟩
  obtain ⟨other, type', hasks, hanswers⟩ := hmade exchange hmem
  obtain ⟨rfl, rfl⟩ := hasks.unique (hsearch.legitimate.asks exchange hexchange)
  exact hanswers

end Settled

/-- The answer to a query: names that begin with `w` are aliases of `y.x`, and all others have an
address. -/
def chainAnswer (query : Octets) : Record :=
  if query[13]? = some 119 then .ofData Packet.aliasName 60 (.cname Packet.hostName)
  else .ofData Packet.hostName 60 (.a ⟨192, 0, 2, 1⟩)

/-- A resolver whose root replies with this answer. -/
def chainResolver : Resolver Unit :=
  { hostResolver with
    network := fun _ query =>
      pure (.ok (query.take 2 ++ ((Packet.empty 0).addAnswer (chainAnswer query)).wire.drop 2)) }

/-- The record that answers a question, whatever the identifier of the query is. -/
def chainRecord (name : Name) (type : RecordType) : Record :=
  chainAnswer (queryFor 0 name type).wire

theorem acceptReply_chainRecord (server : SocketAddress) (name : Name) (type : RecordType)
    (id : UInt16) (state : Unit) :
    acceptReply id (chainResolver.network server (queryFor id name type).wire state).1 =
      .ok ((Packet.empty id).addAnswer (chainRecord name type)) := by
  have hmade : (chainRecord name type).Made := by
    unfold chainRecord chainAnswer
    split
    · exact .cname _ _ _
    · exact .a _ _ _
  have hcanonical : (chainRecord name type).data.Canonical := by
    unfold chainRecord chainAnswer
    split
    · decide
    · decide
  exact acceptReply_addAnswer hmade hcanonical id

theorem settled_chainResolver :
    Settled chainResolver.network fun _ name type => [chainRecord name type] := by
  constructor
  · intro server name type id state
    rw [acceptReply_chainRecord]
    rfl
  · intro _ _ _ _ _ _
    rfl

section ChainNetwork

variable {resolver : Resolver Unit} (hnetwork : resolver.network = chainResolver.network)
include hnetwork

theorem search_of_chainNetwork (server : SocketAddress) (name : Name) (state : State Unit) :
    resolver.search name .a maxQueries [server] state =
      ([chainRecord name .a], (resolver.ask server name .a state).2) := by
  have hask : (resolver.ask server name .a state).1 =
      .ok ((Packet.empty (resolver.ids state.queries)).addAnswer (chainRecord name .a)) := by
    rw [ask_apply, hnetwork]
    dsimp only
    rw [acceptReply_chainRecord]
  rw [maxQueries, search, bind_apply, hask]
  rfl

/-- One level for a name that the cache does not hold finds its record and stores it. -/
theorem resolveLevel_of_chainNetwork {server : SocketAddress}
    (hroots : resolver.config.roots = [server]) {name : Name} {state : State Unit}
    (hmiss : (state.cache.get (.of name .a) (resolver.clock state.readings)).1 = none) :
    let record := chainRecord name .a
    let missed := (state.cache.get (.of name .a) (resolver.clock state.readings)).2
    ∃ after, after.cache = missed.put (.of name .a) [record] record.ttl.toNat
        (resolver.clock (state.readings + 1)) ∧
      resolver.resolveLevel name .a state =
        match aliasTarget? .a record with
        | none => (.ended [record], after)
        | some target => (.aliased target, after) := by
  intro record missed
  have hcandidates (state : State Unit) :
      resolver.rootCandidates state =
        ([server], { state with searches := state.searches + 1 }) := by
    rw [rootCandidates_apply, hroots, rotate_eq, List.rotate_singleton]
    rfl
  have hlookUp : (resolver.lookUp (.of name .a) state).1 = none := hmiss
  rw [resolveLevel, bind_apply, hlookUp]
  simp only [bind_apply, hcandidates, search_of_chainNetwork hnetwork]
  cases aliasTarget? .a (chainRecord name .a) with
  | none => exact ⟨_, rfl, rfl⟩
  | some target => exact ⟨_, rfl, rfl⟩

end ChainNetwork

/-- The resolver along the same chain that follows aliases down to the level of the largest machine
word. -/
def deepestResolver : Resolver Unit :=
  { chainResolver with config := { chainResolver.config with maxDepth := 2 ^ 64 - 1 } }

end Resolver
end DnsResolver
