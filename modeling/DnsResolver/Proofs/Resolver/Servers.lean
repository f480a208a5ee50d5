import DnsResolver.Proofs.Resolver.Chains

/-!
# The servers that are asked

A walk asks the roots from some place on, until a reply refers to other servers.  From then on it
asks the servers of the latest such referral, in order.  So whoever is asked is a root, or a server
that an earlier exchange of the same walk refers to.
-/

namespace DnsResolver
namespace Resolver

open Event (exchanges)

variable {policy : ReferralPolicy} {name : Name} {type : RecordType} {budget : Nat}
  {candidates : List SocketAddress} {events : List Event} {found : List Record}

/-- The exchanges ask the candidates in turn, and after each referral the servers of that referral
instead. -/
structure InOrder (policy : ReferralPolicy) (name : Name) (candidates : List SocketAddress)
    (exchanges : List Exchange) : Prop where
  unreferred : ∀ earlier exchange later, exchanges = earlier ++ exchange :: later →
    (∀ other ∈ earlier, other.servers policy name = []) →
      candidates[earlier.length]? = some exchange.server
  referred : ∀ earlier referring between exchange later,
    exchanges = earlier ++ referring :: between ++ exchange :: later →
      referring.servers policy name ≠ [] → (∀ other ∈ between, other.servers policy name = []) →
        (referring.servers policy name)[between.length]? = some exchange.server

namespace InOrder

theorem nil (candidates : List SocketAddress) : InOrder policy name candidates [] where
  unreferred earlier exchange later h := by
    exact absurd h.symm (List.append_ne_nil_of_right_ne_nil _ (List.cons_ne_nil _ _))
  referred earlier referring between exchange later h := by
    exact absurd h.symm (List.append_ne_nil_of_right_ne_nil _ (List.cons_ne_nil _ _))

theorem cons {exchange : Exchange} {rest : List SocketAddress} {later : List Exchange}
    (h : InOrder policy name (exchange.candidatesAfter policy name rest) later) :
    InOrder policy name (exchange.server :: rest) (exchange :: later) := by
  -- What comes after the first exchange is in the order of the candidates that it leaves: the rest,
  -- or the servers that it refers to.
  constructor
  · intro earlier next behind hsplit hearlier
    cases earlier with
    | nil =>
      obtain ⟨rfl, -⟩ := List.cons.inj hsplit
      rfl
    | cons first earlier =>
      obtain ⟨rfl, hlater⟩ := List.cons.inj hsplit
      have hservers : exchange.servers policy name = [] := hearlier exchange List.mem_cons_self
      have hnext := h.unreferred earlier next behind hlater fun other hother =>
        hearlier other (List.mem_cons_of_mem _ hother)
      rw [Exchange.candidatesAfter_of_servers_eq_nil hservers] at hnext
      exact hnext
  · intro earlier referring between next behind hsplit hreferring hbetween
    cases earlier with
    | nil =>
      obtain ⟨rfl, hlater⟩ := List.cons.inj hsplit
      have hnext := h.unreferred between next behind hlater hbetween
      rw [Exchange.candidatesAfter_of_servers_ne_nil hreferring] at hnext
      exact hnext
    | cons first earlier =>
      obtain ⟨rfl, hlater⟩ := List.cons.inj hsplit
      exact h.referred earlier referring between next behind hlater hreferring hbetween

end InOrder

theorem Searched.inOrder (h : Searched policy name type budget candidates events found) :
    InOrder policy name candidates (exchanges events) := by
  induction h with
  | exhausted => exact .nil _
  | spent => exact .nil _
  | answered => exact (InOrder.nil _).cons
  | @unanswered _ _ _ _ later _ _ _ hlogged _ ih =>
    rw [exchanges_of_unanswered hlogged later]
    exact ih.cons

theorem Searched.asksFor (h : Searched policy name type budget candidates events found) :
    ∀ exchange ∈ exchanges events, exchange.AsksFor name type := by
  induction h with
  | exhausted => exact List.forall_mem_nil _
  | spent => exact List.forall_mem_nil _
  | answered hasks => exact List.forall_mem_singleton.mpr hasks
  | @unanswered _ _ _ _ later _ hasks _ hlogged _ ih =>
    rw [exchanges_of_unanswered hlogged later]
    exact List.forall_mem_cons.mpr ⟨hasks, ih⟩

/-- Some exchanges hold no referral, or a latest one. -/
theorem exists_latest_referral (policy : ReferralPolicy) (name : Name) (earlier : List Exchange) :
    (∀ other ∈ earlier, other.servers policy name = []) ∨
      ∃ before referring between, earlier = before ++ referring :: between ∧
        referring.servers policy name ≠ [] ∧ ∀ other ∈ between, other.servers policy name = [] := by
  induction earlier using List.reverseRecOn with
  | nil => exact .inl (List.forall_mem_nil _)
  | append_singleton earlier last ih =>
    by_cases hlast : last.servers policy name = []
    · rcases ih with hnone | ⟨before, referring, between, rfl, hreferring, hbetween⟩
      · exact .inl (List.forall_mem_append.mpr ⟨hnone, List.forall_mem_singleton.mpr hlast⟩)
      · refine .inr ⟨before, referring, between ++ [last], ?_, hreferring, ?_⟩
        · rw [List.append_assoc, List.cons_append]
        · exact List.forall_mem_append.mpr ⟨hbetween, List.forall_mem_singleton.mpr hlast⟩
    · exact .inr ⟨earlier, last, [], rfl, hlast, List.forall_mem_nil _⟩

/-- Who is asked is a candidate, or referred to before. -/
theorem InOrder.mem_or_mem_servers {earlier later : List Exchange} {exchange : Exchange}
    (h : InOrder policy name candidates (earlier ++ exchange :: later)) :
    exchange.server ∈ candidates ∨
      ∃ referring ∈ earlier, exchange.server ∈ referring.servers policy name := by
  rcases exists_latest_referral policy name earlier with
    hnone | ⟨before, referring, between, rfl, hreferring, hbetween⟩
  · exact .inl (List.mem_of_getElem? (h.unreferred earlier exchange later rfl hnone))
  · have hserver := h.referred before referring between exchange later rfl hreferring hbetween
    refine .inr ⟨referring, ?_, List.mem_of_getElem? hserver⟩
    exact List.mem_append_right before List.mem_cons_self

/-! ## Walks -/

/-- A walk asks nothing but its question, and nobody else than it may: roots, and, if referrals are
followed, servers that an earlier exchange refers to.  The roots come in their order from some place
on, and the servers of the latest referral in its order. -/
structure Walk.Legitimate (config : ResolverConfig) (walk : Walk) : Prop where
  asks : ∀ exchange ∈ walk.exchanges, exchange.AsksFor walk.name walk.type
  ignoring : config.referralPolicy = .ignore →
    ∀ exchange ∈ walk.exchanges, exchange.server ∈ config.roots
  following : ∀ earlier exchange later, walk.exchanges = earlier ++ exchange :: later →
    exchange.server ∈ config.roots ∨
      ∃ referring ∈ earlier, referring.RefersTo walk.name exchange.server
  inOrder : ∃ start, InOrder config.referralPolicy walk.name (config.roots.rotate start)
    walk.exchanges

theorem Walk.OfSearch.legitimate {config : ResolverConfig} {walk : Walk}
    (h : walk.OfSearch config) :
    walk.Legitimate config := by
  obtain ⟨start, events, found, hexchanges, hsearched⟩ := h
  rw [rotate_eq] at hsearched
  have horder : InOrder config.referralPolicy walk.name (config.roots.rotate start)
      walk.exchanges := by
    rw [hexchanges]
    exact hsearched.inOrder
  have hserver : ∀ earlier exchange later, walk.exchanges = earlier ++ exchange :: later →
      exchange.server ∈ config.roots ∨ ∃ referring ∈ earlier,
        exchange.server ∈ referring.servers config.referralPolicy walk.name := by
    intro earlier exchange later hsplit
    rw [hsplit] at horder
    exact horder.mem_or_mem_servers.imp List.mem_rotate.mp id
  refine ⟨?_, ?_, ?_, start, horder⟩
  · rw [hexchanges]
    exact hsearched.asksFor
  · intro hignore exchange hexchange
    obtain ⟨earlier, later, hsplit⟩ := List.append_of_mem hexchange
    rcases hserver earlier exchange later hsplit with hroot | ⟨referring, -, hmem⟩
    · exact hroot
    · rw [hignore, Exchange.servers_ignore] at hmem
      cases hmem
  · intro earlier exchange later hsplit
    rcases hserver earlier exchange later hsplit with hroot | ⟨referring, hreferring, hmem⟩
    · exact .inl hroot
    · exact .inr ⟨referring, hreferring, Exchange.refersTo_of_mem_servers hmem⟩

/-- In every run over any network, each call takes walks of its own, which make up all exchanges of
the run, and each of these walks is legitimate. -/
theorem run_legitimate {σ : Type} (resolver : Resolver σ) (calls : List Call) (state : State σ) :
    ∃ walks, List.Forall₂ (CallWalks resolver.config.maxDepth) calls walks ∧
      exchanges (resolver.run calls state).2.trace =
        exchanges state.trace ++ walks.flatten.flatMap Walk.exchanges ∧
      ∀ walk ∈ walks.flatten, walk.Legitimate resolver.config := by
  obtain ⟨events, ⟨walks, hcalls, hexchanges, hwalks⟩, hevents⟩ :=
    notes_run_walks calls state.cache state rfl
  refine ⟨walks, hcalls, ?_, ?_⟩
  · rw [hevents.trace, Event.exchanges_append, hexchanges]
  · intro walk hwalk
    exact (hwalks walk hwalk).legitimate

end Resolver
end DnsResolver
