import DnsResolver.Proofs.Cache.Histories
import DnsResolver.Proofs.Resolver.Draws

/-!
# Failover

A search without referrals visits servers one after another, and the first answer decides.  A server
that gives no answer is passed over, and leaves no mark on what is found or on the cache.
-/

namespace DnsResolver
namespace Resolver

open Event (exchanges)

/-! ## Up to the first answer -/

/-- A walk visits candidates in order, up to the first that answers, or all of them in vain. -/
structure FailsOver (candidates : List SocketAddress) (walk : List Exchange)
    (found : List Record) : Prop where
  servers : walk.map Exchange.server <+: candidates
  earlier : ∀ exchange ∈ walk.dropLast, exchange.answers = []
  answered : found ≠ [] → ∃ last reply, walk.getLast? = some last ∧
    last.accepted? = some reply ∧ reply.answers = found
  failed : found = [] →
    walk.map Exchange.server = candidates ∧ ∀ exchange ∈ walk, exchange.answers = []

section Searched

variable {policy : ReferralPolicy} {name : Name} {type : RecordType} {budget : Nat}
  {candidates : List SocketAddress} {events : List Event} {found : List Record}

/-- What a search finds is the first answer section that comes back. -/
theorem Searched.found_eq (h : Searched policy name type budget candidates events found) :
    found = Exchange.firstAnswers (exchanges events) := by
  induction h with
  | exhausted => rfl
  | spent => rfl
  | answered _ haccepted hanswers =>
    have hbrought := (Exchange.answers_of_accepted? haccepted).trans hanswers
    exact (Exchange.firstAnswers_cons_of_cons hbrought []).symm
  | @unanswered _ _ _ _ later _ _ hunanswered hlogged _ ih =>
    have hnone := Exchange.answers_eq_nil_iff.mpr hunanswered
    rw [exchanges_of_unanswered hlogged later, Exchange.firstAnswers_cons_of_nil hnone, ih]

/-- A search goes on only as long as nobody answers. -/
theorem Searched.unanswered_of_mem_dropLast
    (h : Searched policy name type budget candidates events found) :
    ∀ exchange ∈ (exchanges events).dropLast, exchange.answers = [] := by
  induction h with
  | exhausted => exact List.forall_mem_nil _
  | spent => exact List.forall_mem_nil _
  | answered => exact List.forall_mem_nil _
  | @unanswered _ _ _ _ later _ _ hunanswered hlogged _ ih =>
    have hnone := Exchange.answers_eq_nil_iff.mpr hunanswered
    rw [exchanges_of_unanswered hlogged later]
    by_cases hlater : exchanges later = []
    · rw [hlater]
      exact List.forall_mem_nil _
    · rw [List.dropLast_cons_of_ne_nil hlater]
      exact List.forall_mem_cons.mpr ⟨hnone, ih⟩

/-- Without referrals, a search visits the first candidates, as many as it has queries. -/
theorem Searched.servers_prefix
    (h : Searched .ignore name type budget candidates events found) :
    (exchanges events).map Exchange.server <+: candidates.take budget ∧
      (found = [] → (exchanges events).map Exchange.server = candidates.take budget) := by
  induction h with
  | exhausted => exact ⟨List.nil_prefix, fun _ => List.take_nil.symm⟩
  | spent => exact ⟨List.nil_prefix, fun _ => List.take_zero.symm⟩
  | @answered budget rest exchange =>
    rw [List.take_succ_cons]
    exact ⟨List.prefix_append [exchange.server] (rest.take budget), fun hnil => by cases hnil⟩
  | @unanswered budget rest exchange logged later _ _ _ hlogged _ ih =>
    rw [Exchange.candidatesAfter_of_servers_eq_nil (exchange.servers_ignore name)] at ih
    rw [exchanges_of_unanswered hlogged later, List.map_cons, List.take_succ_cons,
      List.prefix_cons_inj]
    exact ⟨ih.1, fun hnil => congrArg (exchange.server :: ·) (ih.2 hnil)⟩

theorem Searched.failsOver (h : Searched .ignore name type budget candidates events found) :
    FailsOver (candidates.take budget) (exchanges events) found := by
  obtain ⟨hservers, hall⟩ := h.servers_prefix
  refine ⟨hservers, h.unanswered_of_mem_dropLast, h.exists_getLast?, fun hnil => ?_⟩
  have hfound := h.found_eq
  rw [hnil] at hfound
  exact ⟨hall hnil, Exchange.firstAnswers_eq_nil_iff.mp hfound.symm⟩

end Searched

/-! ## What the network makes of a walk -/

variable {σ : Type} {resolver : Resolver σ} {name : Name} {type : RecordType}

/-- The exchanges take place one after another, each under the next identifier, and take the network
from one state to another. -/
inductive Exchanged (resolver : Resolver σ) (name : Name) (type : RecordType) :
    Nat → σ → List Exchange → σ → Prop where
  | nil {queries : Nat} {network : σ} : Exchanged resolver name type queries network [] network
  | cons {queries : Nat} {network next last : σ} {exchange : Exchange} {walk : List Exchange} :
      exchange.query = (queryFor (resolver.ids queries) name type).wire →
      resolver.network exchange.server exchange.query network = (exchange.outcome, next) →
      Exchanged resolver name type (queries + 1) next walk last →
      Exchanged resolver name type queries network (exchange :: walk) last

theorem Exchanged.concat {queries : Nat} {network last next : σ} {walk : List Exchange}
    {exchange : Exchange} (h : Exchanged resolver name type queries network walk last)
    (hquery : exchange.query = (queryFor (resolver.ids (queries + walk.length)) name type).wire)
    (hnetwork : resolver.network exchange.server exchange.query last = (exchange.outcome, next)) :
    Exchanged resolver name type queries network (walk ++ [exchange]) next := by
  induction h with
  | nil => exact .cons hquery hnetwork .nil
  | @cons _ _ _ _ _ walk hfirst hfirstNetwork _ ih =>
    rw [List.length_cons, ← Nat.add_assoc, Nat.add_right_comm] at hquery
    exact .cons hfirst hfirstNetwork (ih hquery hnetwork)

theorem Exchanged.asksFor {queries : Nat} {network last : σ} {walk : List Exchange}
    (h : Exchanged resolver name type queries network walk last) :
    ∀ exchange ∈ walk, exchange.AsksFor name type := by
  induction h with
  | nil => exact List.forall_mem_nil _
  | @cons queries _ _ _ exchange _ hquery _ _ ih =>
    refine List.forall_mem_cons.mpr ⟨⟨resolver.ids queries, ?_⟩, ih⟩
    rw [hquery, queryFor_eq]
    exact Packet.ofOctets_wire_plainQuery _ _

theorem exchanges_noteAll {events : List Event} (hquiet : ∀ event ∈ events, event.Quiet)
    (state : State σ) :
    exchanges (noteAll events state).2.trace = exchanges state.trace := by
  rw [noteAll_apply, Event.exchanges_append, Event.exchanges_of_quiet hquiet, List.append_nil]

theorem exchanges_store (key : CacheKey) (records : List Record) (ttl : UInt32)
    (state : State σ) :
    exchanges (resolver.store key records ttl state).2.trace = exchanges state.trace := by
  rw [store_apply, Event.exchanges_append, Event.exchanges_append,
    Event.exchanges_of_quiet (evictions_quiet _ _), List.append_nil]
  exact List.append_nil _

/-- From one state to another, just these exchanges are made and noted. -/
structure Walked (resolver : Resolver σ) (name : Name) (type : RecordType) (before : State σ)
    (walk : List Exchange) (after : State σ) : Prop where
  trace : exchanges after.trace = exchanges before.trace ++ walk
  queries : after.queries = before.queries + walk.length
  exchanged : Exchanged resolver name type before.queries before.network walk after.network

namespace Walked

variable {before after : State σ} {walk : List Exchange}

theorem refl (state : State σ) : Walked resolver name type state [] state where
  trace := (List.append_nil _).symm
  queries := rfl
  exchanged := .nil

theorem of_missedState
    (h : Walked resolver name type (resolver.missedState name type before) walk after) :
    Walked resolver name type before walk after := by
  have htrace := h.trace
  rw [missedState, Event.exchanges_append] at htrace
  exact ⟨htrace.trans (congrArg (· ++ walk) (List.append_nil _)), h.queries, h.exchanged⟩

theorem noteAll (h : Walked resolver name type before walk after) {events : List Event}
    (hquiet : ∀ event ∈ events, event.Quiet) :
    Walked resolver name type before walk (noteAll events after).2 :=
  ⟨(exchanges_noteAll hquiet after).trans h.trace, h.queries, h.exchanged⟩

theorem store (h : Walked resolver name type before walk after) (key : CacheKey)
    (records : List Record) (ttl : UInt32) :
    Walked resolver name type before walk (resolver.store key records ttl after).2 :=
  ⟨(exchanges_store key records ttl after).trans h.trace, h.queries, h.exchanged⟩

/-- Asking a server is one exchange more. -/
theorem ask (h : Walked resolver name type before walk after) (server : SocketAddress) :
    ∃ exchange, Walked resolver name type before (walk ++ [exchange])
      (resolver.ask server name type after).2 := by
  let query := (queryFor (resolver.ids after.queries) name type).wire
  refine ⟨⟨server, query, (resolver.network server query after.network).1⟩, ?_⟩
  rw [ask_apply]
  constructor
  · rw [Event.exchanges_append, h.trace, List.append_assoc]
    rfl
  · rw [List.length_append, ← Nat.add_assoc, ← h.queries]
    rfl
  · refine h.exchanged.concat ?_ rfl
    rw [← h.queries]

end Walked

/-- A search does nothing to the network but to exchange messages about its question. -/
theorem search_walked (state : State σ) (budget : Nat) (candidates : List SocketAddress) :
    ∃ walk, Walked resolver name type state walk
      (resolver.search name type budget candidates state).2 := by
  let inv (after : State σ) := ∃ walk, Walked resolver name type state walk after
  have hnoteAll {events : List Event} (hquiet : ∀ event ∈ events, event.Quiet) :
      Ensures inv (noteAll events) fun _ => inv := by
    rintro after ⟨walk, hwalk⟩
    exact ⟨walk, hwalk.noteAll hquiet⟩
  have hnote (event : Event) (hquiet : event.Quiet) : Ensures inv (note event) fun _ => inv :=
    hnoteAll (List.forall_mem_singleton.mpr hquiet)
  have hask (server : SocketAddress) :
      Ensures inv (resolver.ask server name type) fun _ after => inv after ∧ True := by
    rintro after ⟨walk, hwalk⟩
    obtain ⟨exchange, hnext⟩ := hwalk.ask server
    exact ⟨⟨_, hnext⟩, trivial⟩
  have hreferral (reply : Packet) :
      Ensures inv (resolver.referral name reply) fun _ => inv := by
    rw [referral]
    cases resolver.config.referralPolicy with
    | ignore => exact ensures_pure fun _ hinv => hinv
    | follow =>
      refine (hnoteAll (foreignReferrals_quiet name reply)).bind fun _ => ?_
      exact ensures_pure fun _ hinv => hinv
  have hsearch := Ensures.search (fun event _ => hnote event)
    (fun server error _ => hnote (.queryFailed name type server error) ⟨rfl, rfl⟩) hask hreferral
    budget candidates
  exact (hsearch state ⟨[], .refl state⟩).1

/-! ## Searching and resolving -/

/-- A search without referrals fails over from one candidate to the next, and leaves the cache
alone. -/
theorem search_fails_over (hpolicy : resolver.config.referralPolicy = .ignore) (state : State σ)
    (name : Name) (type : RecordType) (candidates : List SocketAddress) :
    ∃ walk found after, resolver.search name type maxQueries candidates state = (found, after) ∧
      FailsOver (candidates.take maxQueries) walk found ∧
      Walked resolver name type state walk after ∧
      after.cache = state.cache ∧ after.readings = state.readings := by
  obtain ⟨events, hsearched, hnoted⟩ :=
    @notes_search σ resolver name type maxQueries candidates state.cache state rfl
  obtain ⟨walk, hwalked⟩ := @search_walked σ resolver name type state maxQueries candidates
  have hevents : exchanges events = walk := by
    have htrace := hwalked.trace
    rw [hnoted.trace, Event.exchanges_append] at htrace
    exact List.append_cancel_left htrace
  have hcache := hnoted.cache
  have hreadings := hnoted.readings
  rw [Event.replay_of_uses_eq_nil hsearched.uses_eq_nil] at hcache
  rw [hsearched.uses_eq_nil] at hreadings
  rw [hpolicy] at hsearched
  refine ⟨walk, _, _, rfl, ?_, hwalked, hcache, hreadings⟩
  rw [← hevents]
  exact hsearched.failsOver

/-- A name that is not in the cache is resolved, if referrals are ignored, by a walk over the first
32 roots from a random one on, which ends with the first that answers.  Its answers are stored for
as long as the first of them lives, in front of all that the cache holds about other questions, the
last of which makes room if it is full; and they are handed back, or lead on to the name behind an
alias.  If nobody answers, nothing is found and nothing is stored. -/
theorem resolve_fails_over {depth : Nat} {state : State σ}
    (hpolicy : resolver.config.referralPolicy = .ignore)
    (hdepth : depth ≤ resolver.config.maxDepth)
    (hmiss : (state.cache.get (.of name type) (resolver.clock state.readings)).1 = none) :
    let candidates := (resolver.config.roots.rotate (resolver.starts state.searches)).take 32
    let missed := (state.cache.get (.of name type) (resolver.clock state.readings)).2
    let kept := state.cache.others (.of name type)
    let time := resolver.clock (state.readings + 1)
    ∃ walk found after, FailsOver candidates walk found ∧
      Walked resolver name type state walk after ∧
      match found with
      | [] =>
        after.cache = missed ∧ after.cache.entries = kept ∧
          resolver.resolve name type depth state = ([], after)
      | first :: others =>
        after.cache = missed.put (.of name type) (first :: others) first.ttl.toNat time ∧
          after.cache.entries =
            ⟨.of name type, first :: others, time + first.ttl.toNat * state.cache.second⟩ ::
              (if kept.length < state.cache.capacity then kept else kept.dropLast) ∧
          resolver.resolve name type depth state =
            match aliasTarget? type first with
            | none => (first :: others, after)
            | some target =>
              resolver.resolve target .a (depth + 1) (note (.following name target) after).2 := by
  intro candidates missed kept time
  obtain ⟨walk, found, after, hsearch, hwalk, hwalked, hcache, hreadings⟩ :=
    search_fails_over hpolicy (resolver.missedState name type state) name type
      (rotate (resolver.starts state.searches) resolver.config.roots)
  have hresolve := resolve_of_miss hdepth hmiss
  rw [bind_apply, hsearch] at hresolve
  rw [rotate_eq] at hwalk
  cases found with
  | nil =>
    refine ⟨walk, [], after, hwalk, hwalked.of_missedState, hcache, ?_, hresolve⟩
    rw [hcache]
    exact Cache.entries_of_get_eq_none hmiss
  | cons first others =>
    have hstored : (resolver.store (.of name type) (first :: others) first.ttl after).2.cache =
        missed.put (.of name type) (first :: others) first.ttl.toNat time := by
      rw [store_apply, hcache, hreadings]
      rfl
    refine ⟨walk, first :: others,
      (resolver.store (.of name type) (first :: others) first.ttl after).2, hwalk,
      hwalked.of_missedState.store _ _ _, hstored, ?_, ?_⟩
    · rw [hstored]
      exact Cache.entries_put_of_get_eq_none hmiss _ _ _
    · cases halias : aliasTarget? type first with
      | none => exact hresolve.trans (keepFound_of_not_alias halias others depth after)
      | some target => exact hresolve.trans (keepFound_of_alias halias others depth after)

/-! ## Servers whose answers are settled -/

/-- The answers that a server's outcome holds are those that the exchange with it brought. -/
theorem answersIn_acceptReply (server : SocketAddress) (id : UInt16) (name : Name)
    (type : RecordType) (outcome : Except ExchangeError Octets) :
    answersIn (acceptReply id outcome) =
      Exchange.answers ⟨server, (queryFor id name type).wire, outcome⟩ := by
  have haccepted := acceptReply_eq_ok_iff server id name type outcome
  cases hreply : acceptReply id outcome with
  | ok reply => exact (Exchange.answers_of_accepted? ((haccepted reply).mp hreply)).symm
  | error error =>
    refine (Exchange.answers_eq_nil_iff.mpr fun reply hother => ?_).symm
    have hok := (haccepted reply).mpr hother
    rw [hreply] at hok
    cases hok

theorem Exchanged.answers_eq {answers : SocketAddress → Name → RecordType → List Record}
    (hsettled : Settled resolver.network answers) {queries : Nat} {network last : σ}
    {walk : List Exchange} (h : Exchanged resolver name type queries network walk last) :
    ∀ exchange ∈ walk, exchange.answers = answers exchange.server name type := by
  induction h with
  | nil => exact List.forall_mem_nil _
  | @cons queries network _ _ exchange _ hquery hnetwork _ ih =>
    refine List.forall_mem_cons.mpr ⟨?_, ih⟩
    have hsteady := hsettled.steady exchange.server name type (resolver.ids queries) network
    rw [← hquery, hnetwork, answersIn_acceptReply exchange.server _ name type, ← hquery] at hsteady
    exact hsteady

/-- The first root is silent and passed over, and what the second one answers is stored. -/
theorem resolve_fails_over_twoRootResolver :
    ∃ walk after,
      walk.map Exchange.server = [silentRoot, .v4 ⟨192, 0, 2, 53⟩ dnsPort] ∧
      Walked twoRootResolver Packet.hostName .a (twoRootResolver.initial ()) walk after ∧
      after.cache.entries = [⟨.of Packet.hostName .a, hostReply.answers, 60000⟩] ∧
      twoRootResolver.resolve Packet.hostName .a 0 (twoRootResolver.initial ()) =
        (hostReply.answers, after) := by
  obtain ⟨walk, found, after, hwalk, hwalked, hend⟩ :=
    @resolve_fails_over Unit twoRootResolver Packet.hostName .a 0 (twoRootResolver.initial ()) rfl
      (Nat.zero_le _) rfl
  change FailsOver [silentRoot, .v4 ⟨192, 0, 2, 53⟩ dnsPort] walk found at hwalk
  have hanswers := hwalked.exchanged.answers_eq settled_twoRootResolver
  cases found with
  | nil =>
    obtain ⟨hall, hnone⟩ := hwalk.failed rfl
    have hasked : .v4 ⟨192, 0, 2, 53⟩ dnsPort ∈ walk.map Exchange.server := by
      rw [hall]
      exact List.mem_cons_of_mem _ List.mem_cons_self
    obtain ⟨exchange, hexchange, hserver⟩ := List.mem_map.mp hasked
    have hsilent := hnone exchange hexchange
    rw [hanswers exchange hexchange, hserver] at hsilent
    exact absurd hsilent (by decide)
  | cons first others =>
    obtain ⟨last, reply, hlast, haccepted, hreply⟩ := hwalk.answered (List.cons_ne_nil first others)
    have hbrought := hanswers last (List.mem_of_getLast? hlast)
    rw [Exchange.answers_of_accepted? haccepted, hreply, twoRootAnswers] at hbrought
    split at hbrought
    next => cases hbrought
    next hsilent =>
      obtain ⟨rfl, rfl⟩ := List.cons.inj hbrought
      refine ⟨walk, after, ?_, hwalked, hend.2.1, hend.2.2⟩
      obtain ⟨rest, hrest⟩ := hwalk.servers
      rcases walk with _ | ⟨exchange, _ | ⟨other, walk⟩⟩
      · cases hlast
      · obtain rfl : exchange = last := Option.some.inj hlast
        exact absurd (List.cons.inj hrest).1 hsilent
      · obtain ⟨-, hothers⟩ := List.cons.inj hrest
        obtain ⟨-, hnil⟩ := List.cons.inj hothers
        rw [(List.append_eq_nil_iff.mp hnil).2, List.append_nil] at hrest
        exact hrest

end Resolver
end DnsResolver
