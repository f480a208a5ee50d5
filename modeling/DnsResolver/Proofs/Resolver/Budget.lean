import Mathlib.Algebra.Order.BigOperators.Group.List
import Mathlib.Algebra.Order.Ring.Nat
import DnsResolver.Proofs.Resolver.Chains
import DnsResolver.Proofs.Resolver.Replies

/-!
# The budget of a resolution

A referral may bring any number of new candidates, and an alias a whole new search.  But every query
takes one from the budget of its search, and every alias leads one step deeper, so that a resolution
makes no more exchanges than its depth allows, whatever the servers reply.
-/

namespace DnsResolver
namespace Resolver

open Event (exchanges)

variable {policy : ReferralPolicy} {name : Name} {type : RecordType} {budget : Nat}
  {candidates : List SocketAddress} {events : List Event} {found : List Record}

theorem Searched.length_le_budget
    (h : Searched policy name type budget candidates events found) :
    (exchanges events).length ≤ budget := by
  induction h with
  | exhausted => exact Nat.zero_le _
  | spent => exact Nat.le_refl 0
  | answered => exact Nat.succ_le_succ (Nat.zero_le _)
  | @unanswered _ _ _ _ later _ _ _ hlogged _ ih =>
    rw [exchanges_of_unanswered hlogged later]
    exact Nat.succ_le_succ ih

/-- A search that follows no referrals asks each candidate once at most. -/
theorem Searched.length_le_candidates
    (h : Searched .ignore name type budget candidates events found) :
    (exchanges events).length ≤ candidates.length := by
  induction h with
  | exhausted => exact Nat.le_refl 0
  | spent => exact Nat.zero_le _
  | answered => exact Nat.succ_le_succ (Nat.zero_le _)
  | @unanswered _ rest exchange _ later _ _ _ hlogged _ ih =>
    have hservers := exchange.servers_ignore name
    rw [Exchange.candidatesAfter_of_servers_eq_nil hservers] at ih
    rw [exchanges_of_unanswered hlogged later]
    exact Nat.succ_le_succ ih

namespace Walk.OfSearch

variable {config : ResolverConfig} {walk : Walk}

theorem length_le (h : walk.OfSearch config) : walk.exchanges.length ≤ 32 := by
  obtain ⟨start, events, found, hexchanges, hsearched⟩ := h
  rw [hexchanges]
  exact hsearched.length_le_budget

theorem length_le_roots (h : walk.OfSearch config) (hignore : config.referralPolicy = .ignore) :
    walk.exchanges.length ≤ config.roots.length := by
  obtain ⟨start, events, found, hexchanges, hsearched⟩ := h
  rw [hignore] at hsearched
  have hlength := hsearched.length_le_candidates
  rw [rotate_eq, List.length_rotate] at hlength
  rw [hexchanges]
  exact hlength

end Walk.OfSearch

/-- What a chain of walks may cost. -/
structure WithinBudget (config : ResolverConfig) (depth : Nat) (walks : List Walk) : Prop where
  /-- There is one walk for each depth at most. -/
  depths : walks.map Walk.depth = List.range' depth walks.length
  depth_le : ∀ walk ∈ walks, walk.depth ≤ config.maxDepth
  /-- A machine word can hold the depth behind an alias. -/
  depth_lt : config.maxDepth < 2 ^ 64 - 1 → ∀ walk ∈ walks, walk.depth + 1 < 2 ^ 64
  each : ∀ walk ∈ walks, walk.exchanges.length ≤ 32
  ignoring : config.referralPolicy = .ignore →
    ∀ walk ∈ walks, walk.exchanges.length ≤ min 32 config.roots.length
  total : (walks.flatMap Walk.exchanges).length ≤ 32 * (config.maxDepth - depth + 1)

theorem AliasChain.withinBudget {config : ResolverConfig} {depth : Nat} {walks : List Walk}
    (h : AliasChain config.maxDepth name type depth walks) (hdepth : depth ≤ config.maxDepth)
    (hwalks : ∀ walk ∈ walks, walk.OfSearch config) :
    WithinBudget config depth walks := by
  have hlength : depth + walks.length ≤ config.maxDepth + 1 :=
    h.depth_add_length_le (Nat.le_succ_of_le hdepth)
  have heach : ∀ walk ∈ walks, walk.exchanges.length ≤ 32 := fun walk hwalk =>
    (hwalks walk hwalk).length_le
  have hdepths : ∀ walk ∈ walks, walk.depth ≤ config.maxDepth := by
    intro walk hwalk
    have hmem : walk.depth ∈ List.range' depth walks.length := by
      rw [← h.depths]
      exact List.mem_map_of_mem hwalk
    obtain ⟨-, hlt⟩ := List.mem_range'_1.mp hmem
    exact Nat.le_of_lt_succ (Nat.lt_of_lt_of_le hlt hlength)
  refine ⟨h.depths, hdepths, ?_, heach, ?_, ?_⟩
  · intro hword walk hwalk
    have hle := hdepths walk hwalk
    omega
  · intro hignore walk hwalk
    exact Nat.le_min.mpr ⟨heach walk hwalk, (hwalks walk hwalk).length_le_roots hignore⟩
  · have hsum : (walks.map fun walk => walk.exchanges.length).sum ≤ walks.length * 32 := by
      have hbound := List.sum_le_card_nsmul (walks.map fun walk => walk.exchanges.length) 32
        (List.forall_mem_map.mpr heach)
      rw [List.length_map] at hbound
      exact hbound
    calc
      (walks.flatMap Walk.exchanges).length
          = (walks.map fun walk => walk.exchanges.length).sum := List.length_flatMap
      _ ≤ walks.length * 32 := hsum
      _ ≤ 32 * (config.maxDepth - depth + 1) := by omega

/-- Resolving ends within its budget in every state over any network.  Beyond the deepest nesting
nothing happens but a log entry.  Otherwise each depth has one walk at most, and neither any of
these walks nor all of them together make too many exchanges. -/
theorem resolve_withinBudget {σ : Type} (resolver : Resolver σ) (name : Name) (type : RecordType)
    (depth : Nat) (state : State σ) :
    (resolver.config.maxDepth < depth →
      resolver.resolve name type depth state =
        ([], { state with trace := state.trace ++ [.tooDeep name type] })) ∧
      (depth ≤ resolver.config.maxDepth →
        ∃ walks, AliasChain resolver.config.maxDepth name type depth walks ∧
          exchanges (resolver.resolve name type depth state).2.trace =
            exchanges state.trace ++ walks.flatMap Walk.exchanges ∧
          WithinBudget resolver.config depth walks) := by
  constructor
  · intro hdeep
    rw [resolve_of_tooDeep hdeep]
    rfl
  · intro hdepth
    obtain ⟨events, hresolved, hevents⟩ := notes_resolve name type depth state.cache state rfl
    obtain ⟨walks, hchain, hexchanges, hwalks⟩ := hresolved.exists_walks
    refine ⟨walks, hchain, ?_, hchain.withinBudget hdepth hwalks⟩
    rw [hevents.trace, Event.exchanges_append, hexchanges]

theorem resolve_withinBudget_hostResolver :
    hostResolver.resolve Packet.hostName .a 11 (hostResolver.initial ()) =
        ([], { hostResolver.initial () with trace := [.tooDeep Packet.hostName .a] }) ∧
      ∃ walks,
        exchanges (hostResolver.resolve Packet.hostName .a 0 (hostResolver.initial ())).2.trace =
          walks.flatMap Walk.exchanges ∧
        WithinBudget hostResolver.config 0 walks ∧
        ∀ walk ∈ walks, walk.exchanges.length ≤ 1 := by
  constructor
  · have hdeep : hostResolver.config.maxDepth < 11 := by decide
    exact (resolve_withinBudget hostResolver Packet.hostName .a 11 _).1 hdeep
  · have hdepth : 0 ≤ hostResolver.config.maxDepth := Nat.zero_le _
    obtain ⟨walks, -, hexchanges, hbudget⟩ :=
      (resolve_withinBudget hostResolver Packet.hostName .a 0 (hostResolver.initial ())).2 hdepth
    refine ⟨walks, hexchanges, hbudget, ?_⟩
    intro walk hwalk
    exact Nat.le_trans (hbudget.ignoring rfl walk hwalk) (Nat.min_le_right 32 1)

end Resolver
end DnsResolver
