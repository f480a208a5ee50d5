import DnsResolver.Proofs.Resolver.AnswerSections
import DnsResolver.Proofs.Resolver.Exchanges
import DnsResolver.Proofs.Resolver.Noting

/-!
# Histories of searches and resolutions

`Searched` and `Resolved` say which events a search and a resolution may leave, together with what
they find.  Neither mentions the network, the clock or what is drawn at random: what happened is all
there, so that facts about the trace of a resolver are facts about these two relations.
-/

namespace DnsResolver

namespace Exchange

/-- The candidates that are left once a server has been asked in vain: those that it refers to, if
there are any, and else the rest. -/
def candidatesAfter (policy : ReferralPolicy) (name : Name) (exchange : Exchange)
    (rest : List SocketAddress) : List SocketAddress :=
  if exchange.servers policy name = [] then rest else exchange.servers policy name

theorem candidatesAfter_of_servers_eq_nil {policy : ReferralPolicy} {name : Name}
    {exchange : Exchange} (h : exchange.servers policy name = []) (rest : List SocketAddress) :
    exchange.candidatesAfter policy name rest = rest :=
  if_pos h

theorem candidatesAfter_of_servers_ne_nil {policy : ReferralPolicy} {name : Name}
    {exchange : Exchange} (h : exchange.servers policy name ≠ []) (rest : List SocketAddress) :
    exchange.candidatesAfter policy name rest = exchange.servers policy name :=
  if_neg h

end Exchange

namespace Resolver

open Event (replay)

/-- How a search with a budget and some candidates may go.  It goes on after each exchange that
brings no accepted reply with answers. -/
inductive Searched (policy : ReferralPolicy) (name : Name) (type : RecordType) :
    Nat → List SocketAddress → List Event → List Record → Prop where
  | exhausted {budget : Nat} : Searched policy name type budget [] [] []
  | spent {server : SocketAddress} {rest : List SocketAddress} :
      Searched policy name type 0 (server :: rest) [.outOfQueries name type] []
  | answered {budget : Nat} {rest : List SocketAddress} {exchange : Exchange} {reply : Packet}
      {first : Record} {others : List Record} :
      exchange.AsksFor name type → exchange.accepted? = some reply →
      reply.answers = first :: others →
      Searched policy name type (budget + 1) (exchange.server :: rest) [.exchanged exchange]
        (first :: others)
  | unanswered {budget : Nat} {rest : List SocketAddress} {exchange : Exchange}
      {logged later : List Event} {found : List Record} :
      exchange.AsksFor name type →
      (∀ reply, exchange.accepted? = some reply → reply.answers = []) →
      (∀ event ∈ logged, event.Quiet) →
      Searched policy name type budget (exchange.candidatesAfter policy name rest) later found →
      Searched policy name type (budget + 1) (exchange.server :: rest)
        (.exchanged exchange :: logged ++ later) found

/-- The events that a lookup in vain and the search after it leave, and what is found. -/
inductive Missed (config : ResolverConfig) (name : Name) (type : RecordType)
    (cache : RecordCache) : List Event → List Record → Prop where
  | intro {time start : Nat} {events : List Event} {found : List Record} :
      (cache.get (.of name type) time).1 = none →
      Searched config.referralPolicy name type maxQueries (rotate start config.roots) events found →
      Missed config name type cache
        (.cached (.get (.of name type) time) :: .cacheMiss name type :: events) found

/-- The events that storing what was found leaves. -/
inductive Kept (key : CacheKey) (first : Record) (others : List Record) : List Event → Prop where
  | intro {time : Nat} {evicted : List Event} :
      (∀ event ∈ evicted, event.Quiet) →
      Kept key first others
        (.cached (.put key (first :: others) first.ttl.toNat time) :: evicted)

/-- How the resolution of a name may go, with a cache at hand.  What a search finds is kept, and if
it is an alias, the name behind it is resolved with the cache as it is then. -/
inductive Resolved (config : ResolverConfig) :
    Name → RecordType → Nat → RecordCache → List Event → List Record → Prop where
  | tooDeep {name : Name} {type : RecordType} {depth : Nat} {cache : RecordCache} :
      config.maxDepth < depth →
      Resolved config name type depth cache [.tooDeep name type] []
  | hit {name : Name} {type : RecordType} {depth time : Nat} {cache : RecordCache}
      {records : List Record} :
      depth ≤ config.maxDepth → (cache.get (.of name type) time).1 = some records →
      Resolved config name type depth cache
        [.cached (.get (.of name type) time), .cacheHit name type] records
  | failed {name : Name} {type : RecordType} {depth : Nat} {cache : RecordCache}
      {walked : List Event} :
      depth ≤ config.maxDepth → Missed config name type cache walked [] →
      Resolved config name type depth cache walked []
  | found {name : Name} {type : RecordType} {depth : Nat} {cache : RecordCache}
      {walked kept : List Event} {first : Record} {others : List Record} :
      depth ≤ config.maxDepth → Missed config name type cache walked (first :: others) →
      Kept (.of name type) first others kept → aliasTarget? type first = none →
      Resolved config name type depth cache (walked ++ kept) (first :: others)
  | aliased {name target : Name} {type : RecordType} {depth : Nat} {cache : RecordCache}
      {walked kept later : List Event} {first : Record} {others records : List Record} :
      depth ≤ config.maxDepth → Missed config name type cache walked (first :: others) →
      Kept (.of name type) first others kept → aliasTarget? type first = some target →
      Resolved config target .a (depth + 1)
        (replay cache (walked ++ (kept ++ [.following name target]))) later records →
      Resolved config name type depth cache
        (walked ++ (kept ++ .following name target :: later)) records

/-- How the handling of a message may go: the first question of a request is resolved, and nothing
else leads to an exchange or a use of the cache. -/
inductive Handled (config : ResolverConfig) (message : Message) (cache : RecordCache) :
    Except HandleError (Option Message) → List Event → Prop where
  | unresolved {result : Except HandleError (Option Message)} {logged : List Event} :
      (∀ event ∈ logged, event.Quiet) → Handled config message cache result logged
  | resolved {request : Packet} {question : Question} {others : List Question} {event : Event}
      {events : List Event} {records : List Record} {reply : Option Message} :
      Packet.ofOctets message.data = .ok request → request.questions = question :: others →
      event.Quiet → Resolved config question.name question.type 0 cache events records →
      Handled config message cache (.ok reply) (event :: events)

variable {σ : Type} {resolver : Resolver σ} {cache : RecordCache}

/-! ## Searching -/

theorem acceptReply_eq_ok_iff (server : SocketAddress) (id : UInt16) (name : Name)
    (type : RecordType) (outcome : Except ExchangeError Octets) (reply : Packet) :
    acceptReply id outcome = .ok reply ↔
      Exchange.accepted? ⟨server, (queryFor id name type).wire, outcome⟩ = some reply := by
  have hquery := Packet.ofOctets_wire_plainQuery id ⟨name, type, .internet⟩
  rw [queryFor_eq]
  constructor
  · intro h
    obtain ⟨octets, rfl, hread, hid⟩ := exists_of_acceptReply_eq_ok h
    exact Exchange.accepted?_eq_some_iff.mpr ⟨_, octets, hquery, rfl, hread, hid⟩
  · intro h
    obtain ⟨query, octets, hread', rfl, hread, hid⟩ := Exchange.accepted?_eq_some_iff.mp h
    rw [hquery, Except.ok.injEq] at hread'
    subst hread'
    rw [acceptReply, hread]
    exact if_pos hid

/-- Asking a server is one exchange, which asks for nothing else, and gives the accepted reply. -/
theorem notes_ask (server : SocketAddress) (name : Name) (type : RecordType) :
    Notes resolver cache (resolver.ask server name type) fun result events =>
      ∃ exchange : Exchange, exchange.server = server ∧ exchange.AsksFor name type ∧
        (∀ reply, result = .ok reply ↔ exchange.accepted? = some reply) ∧
          events = [.exchanged exchange] := by
  rw [ask]
  refine notes_drawId.bind ?_
  rintro id _ rfl
  refine (notes_exchange _ _).bind ?_
  rintro outcome _ rfl
  refine notes_pure ⟨⟨server, (queryFor id name type).wire, outcome⟩, rfl, ?_, ?_, rfl⟩
  · exact ⟨id, Packet.ofOctets_wire_plainQuery id _⟩
  · exact acceptReply_eq_ok_iff server id name type outcome

theorem foreignReferrals_quiet (name : Name) (reply : Packet) :
    ∀ event ∈ foreignReferrals name reply, event.Quiet := by
  intro event hevent
  obtain ⟨⟨zone, host⟩, -, hforeign⟩ := List.mem_filterMap.mp hevent
  rw [Option.ite_none_left_eq_some, Option.some.injEq] at hforeign
  rw [← hforeign.2]
  exact ⟨rfl, rfl⟩

theorem notes_referral {exchange : Exchange} {reply : Packet}
    (haccepted : exchange.accepted? = some reply) (hanswers : reply.answers = []) (name : Name) :
    Notes resolver cache (resolver.referral name reply) fun servers events =>
      servers = exchange.servers resolver.config.referralPolicy name ∧
        ∀ event ∈ events, event.Quiet := by
  rw [referral]
  cases resolver.config.referralPolicy with
  | ignore => exact notes_pure ⟨rfl, List.forall_mem_nil _⟩
  | follow =>
    refine (notes_noteAll (foreignReferrals_quiet name reply)).bind_pure ?_
    rintro _ _ rfl
    refine ⟨?_, foreignReferrals_quiet name reply⟩
    rw [Exchange.servers_of_accepted? haccepted hanswers, referralServers_eq]

/-- A search goes on after an exchange that brought no answers, with the candidates left. -/
theorem notes_search_after {name : Name} {type : RecordType} {budget : Nat}
    {exchange : Exchange} {event : Event} {logged : List Event} {rest next : List SocketAddress}
    (hasks : exchange.AsksFor name type)
    (hunanswered : ∀ reply, exchange.accepted? = some reply → reply.answers = [])
    (hlogged : ∀ event ∈ logged, event.Quiet) (hevent : event.Quiet)
    (hnext : exchange.candidatesAfter resolver.config.referralPolicy name rest = next)
    (hsearch : ∀ cache, Notes resolver cache (resolver.search name type budget next)
      fun found events =>
        Searched resolver.config.referralPolicy name type budget next events found) :
    Notes resolver cache (do note event; resolver.search name type budget next)
      fun found events =>
        Searched resolver.config.referralPolicy name type (budget + 1) (exchange.server :: rest)
          (.exchanged exchange :: logged ++ events) found := by
  refine (notes_note hevent).bind ?_
  rintro _ _ rfl
  refine (hsearch _).mono ?_
  intro found later hsearched
  have hquiet : ∀ other ∈ logged ++ [event], other.Quiet :=
    List.forall_mem_append.mpr ⟨hlogged, List.forall_mem_singleton.mpr hevent⟩
  subst hnext
  have h := Searched.unanswered hasks hunanswered hquiet hsearched
  rw [← List.append_assoc]
  exact h

theorem notes_search (name : Name) (type : RecordType) (budget : Nat)
    (candidates : List SocketAddress) (cache : RecordCache) :
    Notes resolver cache (resolver.search name type budget candidates) fun found events =>
      Searched resolver.config.referralPolicy name type budget candidates events found := by
  -- A referral may replace all candidates, so only the budget gets smaller with every query.
  induction budget generalizing candidates cache with
  | zero =>
    cases candidates with
    | nil => exact notes_pure .exhausted
    | cons server rest =>
      refine (notes_note ⟨rfl, rfl⟩).bind_pure ?_
      rintro _ _ rfl
      exact .spent
  | succ budget ih =>
    cases candidates with
    | nil => exact notes_pure .exhausted
    | cons server rest =>
      rw [search]
      refine (notes_ask server name type).bind ?_
      rintro result _ ⟨exchange, rfl, hasks, haccepted, rfl⟩
      -- The events of each branch begin with the one exchange; what is logged after it is quiet.
      cases result with
      | error error =>
        have hnone : exchange.accepted? = none := by
          apply Option.eq_none_iff_forall_ne_some.mpr
          intro reply hreply
          cases (haccepted reply).mpr hreply
        have hunanswered : ∀ reply, exchange.accepted? = some reply → reply.answers = [] := by
          intro reply hreply
          rw [hnone] at hreply
          cases hreply
        have hnext := Exchange.candidatesAfter_of_servers_eq_nil
          (Exchange.servers_of_not_accepted hnone resolver.config.referralPolicy name) rest
        exact notes_search_after hasks hunanswered (List.forall_mem_nil _) ⟨rfl, rfl⟩ hnext
          (ih rest)
      | ok reply =>
        have hreply := (haccepted reply).mp rfl
        cases hanswers : reply.answers with
        | cons first others =>
          simp only [hanswers]
          exact notes_pure (.answered hasks hreply hanswers)
        | nil =>
          have hunanswered : ∀ other, exchange.accepted? = some other → other.answers = [] := by
            intro other hother
            rw [hreply, Option.some.injEq] at hother
            rw [← hother, hanswers]
          simp only [hanswers]
          refine (notes_referral hreply hanswers name).bind ?_
          rintro servers logged ⟨hservers, hlogged⟩
          cases servers with
          | nil =>
            have hnext := Exchange.candidatesAfter_of_servers_eq_nil hservers.symm rest
            exact notes_search_after hasks hunanswered hlogged ⟨rfl, rfl⟩ hnext (ih rest)
          | cons next others =>
            have hne : exchange.servers resolver.config.referralPolicy name ≠ [] := by
              rw [← hservers]
              exact List.cons_ne_nil next others
            have hnext := Exchange.candidatesAfter_of_servers_ne_nil hne rest
            rw [← hservers] at hnext
            exact notes_search_after hasks hunanswered hlogged ⟨rfl, rfl⟩ hnext (ih _)

section Searched

variable {policy : ReferralPolicy} {name : Name} {type : RecordType} {budget : Nat}
  {candidates : List SocketAddress} {events : List Event} {found : List Record}

/-- A search that finds something ends with the exchange that brought it. -/
theorem Searched.exists_last
    (h : Searched policy name type budget candidates events found) (hfound : found ≠ []) :
    ∃ before exchange reply, events = before ++ [.exchanged exchange] ∧
      exchange.AsksFor name type ∧ exchange.accepted? = some reply ∧ reply.answers = found := by
  induction h with
  | exhausted => exact absurd rfl hfound
  | spent => exact absurd rfl hfound
  | answered hasks haccepted hanswers => exact ⟨[], _, _, rfl, hasks, haccepted, hanswers⟩
  | unanswered _ _ _ _ ih =>
    obtain ⟨before, exchange, reply, rfl, hexchange⟩ := ih hfound
    exact ⟨_, exchange, reply, (List.append_assoc ..).symm, hexchange⟩

theorem Searched.exists_getLast?
    (h : Searched policy name type budget candidates events found) (hfound : found ≠ []) :
    ∃ exchange reply, (Event.exchanges events).getLast? = some exchange ∧
      exchange.accepted? = some reply ∧ reply.answers = found := by
  obtain ⟨before, exchange, reply, rfl, -, haccepted, hanswers⟩ := h.exists_last hfound
  rw [Event.exchanges_append]
  exact ⟨exchange, reply, List.getLast?_concat .., haccepted, hanswers⟩

theorem exchanges_of_unanswered {exchange : Exchange} {logged : List Event}
    (hlogged : ∀ event ∈ logged, event.Quiet) (later : List Event) :
    Event.exchanges (.exchanged exchange :: logged ++ later) =
      exchange :: Event.exchanges later := by
  change exchange :: Event.exchanges (logged ++ later) = _
  rw [Event.exchanges_append, Event.exchanges_of_quiet hlogged, List.nil_append]

theorem Searched.uses_eq_nil (h : Searched policy name type budget candidates events found) :
    Event.uses events = [] := by
  induction h with
  | exhausted => rfl
  | spent => rfl
  | answered => rfl
  | @unanswered _ _ _ logged later _ _ _ hlogged _ ih =>
    change Event.uses (logged ++ later) = []
    rw [Event.uses_append, Event.uses_of_quiet hlogged, ih]
    rfl

end Searched

/-! ## Resolving -/

theorem notes_resolve (name : Name) (type : RecordType) (depth : Nat) (cache : RecordCache) :
    Notes resolver cache (resolver.resolve name type depth) fun records events =>
      Resolved resolver.config name type depth cache events records := by
  induction depth using depth_induction resolver generalizing name type cache with
  | tooDeep depth hdeep =>
    rw [resolve_of_tooDeep hdeep]
    refine (notes_note ⟨rfl, rfl⟩).bind_pure ?_
    rintro _ _ rfl
    exact .tooDeep hdeep
  | deeper depth hle ih =>
    rw [resolve_of_le hle]
    refine (notes_lookUp _).bind ?_
    rintro found _ ⟨time, hfound, rfl⟩
    cases found with
    | some records =>
      refine (notes_note ⟨rfl, rfl⟩).bind ?_
      rintro _ _ rfl
      exact notes_pure (.hit hle hfound.symm)
    | none =>
      rw [resolveAfresh]
      refine (notes_note ⟨rfl, rfl⟩).bind ?_
      rintro _ _ rfl
      refine notes_rootCandidates.bind ?_
      rintro _ _ ⟨⟨start, rfl⟩, rfl⟩
      refine (notes_search name type maxQueries _ _).bind ?_
      intro records events hsearched
      have hmissed : Missed resolver.config name type cache _ records :=
        .intro hfound.symm hsearched
      cases records with
      | nil =>
        refine notes_pure ?_
        rw [List.append_nil]
        exact .failed hle hmissed
      | cons first others =>
        refine (notes_store _ _ _).bind ?_
        rintro _ _ ⟨time, evicted, hquiet, rfl⟩
        have hkept : Kept (.of name type) first others
            (.cached (.put (.of name type) (first :: others) first.ttl.toNat time) :: evicted) :=
          .intro hquiet
        cases htarget : aliasTarget? type first with
        | none =>
          have hresolved := Resolved.found hle hmissed hkept htarget
          refine notes_pure ?_
          rw [List.append_nil]
          exact hresolved
        | some target =>
          refine (notes_note ⟨rfl, rfl⟩).bind ?_
          rintro _ _ rfl
          -- The target finds the cache that all events so far have made.
          simp only [← Event.replay_append, List.append_assoc]
          refine (ih target .a _).mono ?_
          intro records later hresolved
          exact .aliased hle hmissed hkept htarget hresolved

/-! ## Handling -/

theorem notes_handle (message : Message) (cache : RecordCache) :
    Notes resolver cache (resolver.handle message) fun result events =>
      Handled resolver.config message cache result events := by
  -- What is only noted is no exchange and no use of the cache.
  have hunresolved (event : Event) (result : Except HandleError (Option Message))
      (hquiet : event.Quiet) :
      Notes resolver cache (do note event; return result) fun result events =>
        Handled resolver.config message cache result events := by
    refine (notes_note hquiet).bind_pure ?_
    rintro _ _ rfl
    exact .unresolved (List.forall_mem_singleton.mpr hquiet)
  by_cases hkind : MessageKind.of? message.data = some .response
  · rw [handle_of_response hkind]
    exact hunresolved _ _ ⟨rfl, rfl⟩
  · cases hread : Packet.ofOctets message.data with
    | error error =>
      cases hid : messageId? message.data with
      | none =>
        rw [handle_of_tooShort hkind hread hid]
        exact notes_pure (.unresolved (List.forall_mem_nil _))
      | some id =>
        rw [handle_of_malformed hkind hread hid]
        exact hunresolved _ _ ⟨rfl, rfl⟩
    | ok request =>
      cases hquestions : request.questions with
      | nil =>
        rw [handle_of_noQuestion hkind hread hquestions]
        exact hunresolved _ _ ⟨rfl, rfl⟩
      | cons question others =>
        rw [handle_of_question hkind hread hquestions]
        refine (notes_note ⟨rfl, rfl⟩).bind ?_
        rintro _ _ rfl
        refine (notes_resolve question.name question.type 0 _).bind_pure ?_
        intro records events hresolved
        exact .resolved hread hquestions ⟨rfl, rfl⟩ hresolved

theorem notes_serveMessage (message : Message) (cache : RecordCache) :
    Notes resolver cache (resolver.serveMessage message) fun reply events =>
      Handled resolver.config message cache (.ok reply) events := by
  refine (notes_handle message cache).bind ?_
  intro result events hhandled
  cases result with
  | ok reply =>
    refine notes_pure ?_
    rw [List.append_nil]
    exact hhandled
  | error error =>
    cases hhandled with
    | unresolved hquiet =>
      refine (notes_note ⟨rfl, rfl⟩).bind_pure ?_
      rintro _ _ rfl
      refine .unresolved (List.forall_mem_append.mpr ⟨hquiet, ?_⟩)
      exact List.forall_mem_singleton.mpr ⟨rfl, rfl⟩

end Resolver
end DnsResolver
