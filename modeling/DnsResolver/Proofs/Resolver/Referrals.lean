import DnsResolver.Proofs.Resolver.Spellings

/-!
# Following and ignoring referrals

Whether a resolver follows referrals shows only where there are any.  Two resolvers that differ in
nothing but their policy work side by side until an exchange refers the name that it asks for to
some server.  If none does, they ask the same servers in the same order, give the same replies, and
end with the same cache.
-/

namespace DnsResolver

open Event (exchanges)

/-- The exchange refers the name that it asks for to some server. -/
def Exchange.Refers (exchange : Exchange) : Prop :=
  ∃ name type server, exchange.AsksFor name type ∧ exchange.RefersTo name server

namespace Resolver

variable {σ α : Type}

/-- Some exchange so far refers the name that it asks for to a server. -/
def Referred (state : State σ) : Prop :=
  ∃ exchange ∈ exchanges state.trace, exchange.Refers

theorem referred_iff_of_trace_eq {s t : State σ} {events : List Event}
    (h : t.trace = s.trace ++ events) :
    Referred t ↔ Referred s ∨ ∃ exchange ∈ exchanges events, exchange.Refers := by
  rw [Referred, Referred, h, Event.exchanges_append]
  simp only [List.mem_append, or_and_right, exists_or]

theorem Referred.mono {s t : State σ} (h : Referred s) (hgrows : s.trace <+: t.trace) :
    Referred t := by
  obtain ⟨events, hevents⟩ := hgrows
  exact (referred_iff_of_trace_eq hevents.symm).mpr (.inl h)

/-! ## Networks without referrals -/

/-- Nothing that the network brings refers to a server. -/
def NeverRefers (network : Network σ) : Prop :=
  ∀ server query state, ¬Exchange.Refers ⟨server, query, (network server query state).1⟩

/-- Nothing has been referred after an action, if its exchanges refer to no server. -/
theorem ensures_not_referred {action : Action σ α}
    (h : ∀ state, ∃ events, (action state).2.trace = state.trace ++ events ∧
      ∀ exchange ∈ exchanges events, ¬exchange.Refers) :
    Ensures (¬Referred ·) action fun _ => (¬Referred ·) := by
  intro state hstate hreferred
  obtain ⟨events, htrace, hevents⟩ := h state
  rcases (referred_iff_of_trace_eq htrace).mp hreferred with hbefore | ⟨exchange, hmem, hrefers⟩
  · exact hstate hbefore
  · exact hevents exchange hmem hrefers

theorem ensures_not_referred_of_exchanges_eq_nil {action : Action σ α}
    (h : ∀ state, ∃ events, (action state).2.trace = state.trace ++ events ∧
      exchanges events = []) :
    Ensures (¬Referred ·) action fun _ => (¬Referred ·) := by
  refine ensures_not_referred fun state => ?_
  obtain ⟨events, htrace, hnone⟩ := h state
  refine ⟨events, htrace, ?_⟩
  rw [hnone]
  exact List.forall_mem_nil _

theorem note_not_referred {event : Event} (hquiet : event.Quiet) :
    Ensures (σ := σ) (¬Referred ·) (note event) fun _ => (¬Referred ·) :=
  ensures_not_referred_of_exchanges_eq_nil fun _ =>
    ⟨[event], rfl, Event.exchanges_of_quiet (List.forall_mem_singleton.mpr hquiet)⟩

section NeverRefers

variable {resolver : Resolver σ}

theorem referral_not_referred (name : Name) (reply : Packet) :
    Ensures (¬Referred ·) (resolver.referral name reply) fun _ => (¬Referred ·) := by
  refine ensures_not_referred_of_exchanges_eq_nil fun state => ?_
  rw [referral]
  cases resolver.config.referralPolicy with
  | ignore => exact ⟨[], (List.append_nil _).symm, rfl⟩
  | follow => exact ⟨_, rfl, Event.exchanges_of_quiet (foreignReferrals_quiet name reply)⟩

theorem lookUp_not_referred (key : CacheKey) :
    Ensures (¬Referred ·) (resolver.lookUp key) fun _ => (¬Referred ·) :=
  ensures_not_referred_of_exchanges_eq_nil fun _ => ⟨_, rfl, rfl⟩

theorem store_not_referred (key : CacheKey) (records : List Record) (ttl : UInt32) :
    Ensures (¬Referred ·) (resolver.store key records ttl) fun _ => (¬Referred ·) := by
  refine ensures_not_referred_of_exchanges_eq_nil fun state => ⟨_, List.append_assoc _ _ _, ?_⟩
  rw [Event.exchanges_append]
  exact Event.exchanges_of_quiet (evictions_quiet state.cache key)

theorem rootCandidates_not_referred :
    Ensures (¬Referred ·) resolver.rootCandidates fun _ => (¬Referred ·) := by
  refine ensures_not_referred_of_exchanges_eq_nil fun state => ⟨[], ?_, rfl⟩
  rw [rootCandidates_apply, List.append_nil]

variable (hnever : NeverRefers resolver.network)
include hnever

theorem ask_not_referred (server : SocketAddress) (name : Name) (type : RecordType) :
    Ensures (¬Referred ·) (resolver.ask server name type) fun _ => (¬Referred ·) :=
  ensures_not_referred fun state =>
    ⟨_, rfl, List.forall_mem_singleton.mpr (hnever server _ state.network)⟩

theorem search_not_referred (name : Name) (type : RecordType) (budget : Nat)
    (candidates : List SocketAddress) :
    Ensures (¬Referred ·) (resolver.search name type budget candidates) fun _ =>
      (¬Referred ·) := by
  have hsearch := Ensures.search (fun _ _ hquiet => note_not_referred hquiet)
    (fun _ _ _ => note_not_referred ⟨rfl, rfl⟩)
    (fun server => (ask_not_referred hnever server name type).mono fun _ _ h => ⟨h, trivial⟩)
    (referral_not_referred name) budget candidates
  exact hsearch.mono fun _ _ h => h.1

theorem resolve_not_referred (name : Name) (type : RecordType) (depth : Nat) :
    Ensures (¬Referred ·) (resolver.resolve name type depth) fun _ => (¬Referred ·) := by
  have hresolve := Ensures.resolve (fun _ _ hquiet => note_not_referred hquiet)
    (fun key => (lookUp_not_referred key).mono fun _ _ h => ⟨h, fun _ _ => trivial⟩)
    rootCandidates_not_referred
    (fun name type candidates =>
      (search_not_referred hnever name type maxQueries candidates).mono
        fun _ _ h => ⟨h, fun _ => trivial⟩)
    (fun key first others _ => store_not_referred key (first :: others) first.ttl)
    depth name type
  exact hresolve.mono fun _ _ h => h.1

/-- Over a network that never refers, no run comes to a referral. -/
theorem run_not_referred (calls : List Call) :
    Ensures (¬Referred ·) (resolver.run calls) fun _ => (¬Referred ·) := by
  refine Ensures.run (Ensures.handle (fun _ _ hquiet => note_not_referred hquiet)
    (fun _ _ _ _ _ => note_not_referred ⟨rfl, rfl⟩) ?_) (resolve_not_referred hnever) calls
  exact fun name type => resolve_not_referred hnever name type 0

end NeverRefers

/-! ## Until a referral -/

/-- Actions that agree, and of which the first only adds to the trace, agree until a referral. -/
theorem Paired.untilReferred {first second : Action σ α} (h : Paired SameAsked first second Eq)
    (hgrows : ∀ state, state.trace <+: (first state).2.trace) :
    PairedUntil Referred SameAsked first second where
  stays state hreferred := hreferred.mono (hgrows state)
  agrees s t hsame := .inr (h s t hsame)

theorem note_untilReferred (event other : Event) (hquiet : event.Quiet) (hother : other.Quiet) :
    PairedUntil (σ := σ) (τ := σ) Referred SameAsked (note event) (note other) :=
  (sameAsked_notesFreely event other hquiet hother).untilReferred fun _ => List.prefix_append _ _

/-! ## Asking a server -/

/-- A reply that has no answers but refers to a server makes its exchange one that refers. -/
theorem referred_of_ask {resolver : Resolver σ} {server next : SocketAddress} {name : Name}
    {type : RecordType} {state : State σ} {reply : Packet}
    (hreply : (resolver.ask server name type state).1 = .ok reply) (hanswers : reply.answers = [])
    (hnext : next ∈ referralServers name reply) :
    Referred (resolver.ask server name type state).2 := by
  obtain ⟨_, ⟨exchange, -, hasks, haccepted, rfl⟩, hnoted⟩ :=
    notes_ask server name type state rfl
  have hexchange := (haccepted reply).mp hreply
  rw [referralServers_eq, ← Exchange.servers_of_accepted? hexchange hanswers] at hnext
  have hrefers : exchange.Refers :=
    ⟨name, type, next, hasks, Exchange.refersTo_of_mem_servers hnext⟩
  exact (referred_iff_of_trace_eq hnoted.trace).mpr
    (.inr ⟨exchange, List.mem_singleton_self exchange, hrefers⟩)

/-- Asking the same question from states that differ in nothing but the trace is one exchange with
the same server. -/
theorem ask_sameAsked (resolver : Resolver σ) (server : SocketAddress) (name : Name)
    (type : RecordType) :
    Paired SameAsked (resolver.ask server name type) (resolver.ask server name type) Eq := by
  rintro s _ ⟨⟨trace, rfl⟩, hservers⟩
  exact ⟨rfl, ⟨_, rfl⟩, askedServers_append_congr hservers _⟩

/-- A reply that refers to no server is the end of the referral, whatever the policy is. -/
theorem referral_of_referralServers_eq_nil (resolver : Resolver σ) {name : Name} {reply : Packet}
    (h : referralServers name reply = []) (state : State σ) :
    ∃ logged, (∀ event ∈ logged, event.Quiet) ∧
      resolver.referral name reply state = ([], { state with trace := state.trace ++ logged }) := by
  rw [referral]
  cases resolver.config.referralPolicy with
  | ignore =>
    refine ⟨[], List.forall_mem_nil _, ?_⟩
    rw [List.append_nil]
    rfl
  | follow =>
    refine ⟨foreignReferrals name reply, foreignReferrals_quiet name reply, ?_⟩
    rw [← h]
    rfl

theorem referral_sameAsked (first second : Resolver σ) {name : Name} {reply : Packet}
    (h : referralServers name reply = []) :
    Paired SameAsked (first.referral name reply) (second.referral name reply) Eq := by
  rintro s _ ⟨⟨trace, rfl⟩, hservers⟩
  obtain ⟨logged, hlogged, hfirst⟩ := referral_of_referralServers_eq_nil first h s
  obtain ⟨others, hothers, hsecond⟩ :=
    referral_of_referralServers_eq_nil second h { s with trace }
  rw [hfirst, hsecond]
  refine ⟨rfl, ⟨_, rfl⟩, ?_⟩
  rw [askedServers_append, askedServers_append, askedServers_of_quiet hlogged,
    askedServers_of_quiet hothers]
  exact congrArg (· ++ []) hservers

/-! ## Policies -/

/-- The resolver with another policy. -/
def withPolicy (resolver : Resolver σ) (policy : ReferralPolicy) : Resolver σ :=
  { resolver with config.referralPolicy := policy }

section Policies

variable (resolver : Resolver σ) (first second : ReferralPolicy)

theorem lookUp_withPolicy (key : CacheKey) :
    PairedUntil Referred SameAsked ((resolver.withPolicy first).lookUp key)
      ((resolver.withPolicy second).lookUp key) :=
  (lookUp_alike resolver key).untilReferred fun _ => List.prefix_append _ _

theorem store_withPolicy (key : CacheKey) (records : List Record) (ttl : UInt32) :
    PairedUntil Referred SameAsked ((resolver.withPolicy first).store key records ttl)
      ((resolver.withPolicy second).store key records ttl) :=
  (store_alike resolver key records ttl).untilReferred fun _ =>
    (List.prefix_append _ _).trans (List.prefix_append _ _)

theorem rootCandidates_withPolicy :
    PairedUntil Referred SameAsked (resolver.withPolicy first).rootCandidates
      (resolver.withPolicy second).rootCandidates := by
  refine (rootCandidates_alike resolver).untilReferred fun state => ⟨[], ?_⟩
  rw [rootCandidates_apply, List.append_nil]

/-- What comes of asking a server is a matter of the policy only if the reply refers to some
server. -/
theorem judge_sameAsked {name : Name} {result : Except QueryError Packet}
    (h : ∀ reply, result = .ok reply → reply.answers = [] → referralServers name reply = []) :
    Paired SameAsked ((resolver.withPolicy first).judge name result)
      ((resolver.withPolicy second).judge name result) Eq := by
  cases result with
  | error error => exact paired_pure rfl
  | ok reply =>
    by_cases hanswers : reply.answers = []
    · rw [judge_of_answers_eq_nil hanswers, judge_of_answers_eq_nil hanswers]
      exact (referral_sameAsked _ _ (h reply rfl hanswers)).bind_eq fun _ => paired_pure rfl
    · obtain ⟨answer, answers, hcons⟩ := List.exists_cons_of_ne_nil hanswers
      rw [judge_of_answers_eq_cons hcons, judge_of_answers_eq_cons hcons]
      exact paired_pure rfl

theorem judge_grows (name : Name) (result : Except QueryError Packet) (state : State σ) :
    state.trace <+: (resolver.judge name result state).2.trace := by
  cases result with
  | error error => exact List.prefix_rfl
  | ok reply =>
    by_cases hanswers : reply.answers = []
    · rw [judge_of_answers_eq_nil hanswers, bind_apply, referral]
      cases resolver.config.referralPolicy with
      | ignore => exact List.prefix_rfl
      | follow => exact List.prefix_append _ _
    · obtain ⟨answer, answers, hcons⟩ := List.exists_cons_of_ne_nil hanswers
      rw [judge_of_answers_eq_cons hcons]
      exact List.prefix_rfl

theorem ask_withPolicy (server : SocketAddress) (name : Name) (type : RecordType) :
    (resolver.withPolicy first).ask server name type = resolver.ask server name type :=
  rfl

/-- Two attempts part only at an exchange that refers to a server. -/
theorem attempt_withPolicy (server : SocketAddress) (name : Name) (type : RecordType) :
    PairedUntil Referred SameAsked ((resolver.withPolicy first).attempt server name type)
      ((resolver.withPolicy second).attempt server name type) := by
  have hstays (result : Except QueryError Packet) (state : State σ) (h : Referred state) :
      Referred ((resolver.withPolicy first).judge name result state).2 :=
    h.mono (judge_grows _ name result state)
  rw [attempt, attempt, ask_withPolicy, ask_withPolicy]
  constructor
  · intro state hreferred
    exact hstays _ _ (hreferred.mono (List.prefix_append _ _))
  · intro s t hsame
    by_cases hreferred : Referred (resolver.ask server name type s).2
    · exact .inl (hstays _ _ hreferred)
    · have hnone : ∀ reply, (resolver.ask server name type s).1 = .ok reply →
          reply.answers = [] → referralServers name reply = [] := by
        intro reply hreply hanswers
        refine List.eq_nil_iff_forall_not_mem.mpr fun next hnext => ?_
        exact hreferred (referred_of_ask hreply hanswers hnext)
      obtain ⟨hvalue, hasked⟩ := ask_sameAsked resolver server name type s t hsame
      rw [bind_apply, bind_apply, ← hvalue]
      exact .inr (judge_sameAsked resolver first second hnone _ _ hasked)

theorem searchRoots_withPolicy (name : Name) (type : RecordType) :
    PairedUntil Referred SameAsked ((resolver.withPolicy first).searchRoots name type)
      ((resolver.withPolicy second).searchRoots name type) := by
  refine (rootCandidates_withPolicy resolver first second).bind ?_
  exact PairedUntil.search note_untilReferred
    (fun server => attempt_withPolicy resolver first second server name type) maxQueries

theorem resolve_withPolicy (name : Name) (type : RecordType) (depth : Nat) :
    PairedUntil Referred SameAsked ((resolver.withPolicy first).resolve name type depth)
      ((resolver.withPolicy second).resolve name type depth) := by
  have hdepth : (resolver.withPolicy first).config.maxDepth =
      (resolver.withPolicy second).config.maxDepth :=
    rfl
  refine PairedUntil.resolve note_untilReferred (@rfl Name) hdepth ?_ ?_ ?_ depth type rfl
  · rintro name _ type rfl
    exact lookUp_withPolicy resolver first second (.of name type)
  · rintro name _ type rfl
    exact searchRoots_withPolicy resolver first second name type
  · rintro name _ type records ttl rfl
    exact store_withPolicy resolver first second (.of name type) records ttl

/-- Runs under two policies are the same until an exchange refers to a server. -/
theorem run_withPolicy (calls : List Call) :
    PairedUntil Referred SameAsked ((resolver.withPolicy first).run calls)
      ((resolver.withPolicy second).run calls) :=
  PairedUntil.run note_untilReferred (resolve_withPolicy resolver first second) calls

end Policies

/-- Let no exchange of a run refer the name that it asks for to a server, be it that referrals are
followed or that they are ignored.  Then it makes no difference which of the two is the case: all
calls are answered alike, the same servers are asked in the same order, and the cache is the same
in the end, with its statistics. -/
theorem follow_conservative (resolver : Resolver σ) (network : σ) (calls : List Call)
    (policy : ReferralPolicy)
    (h : ¬Referred ((resolver.withPolicy policy).run calls (resolver.initial network)).2) :
    let following := (resolver.withPolicy .follow).run calls (resolver.initial network)
    let ignoring := (resolver.withPolicy .ignore).run calls (resolver.initial network)
    following.1 = ignoring.1 ∧
      askedServers following.2.trace = askedServers ignoring.2.trace ∧
      following.2.cache = ignoring.2.cache := by
  intro following ignoring
  have hsame : SameAsked (resolver.initial network) (resolver.initial network) :=
    ⟨.refl _, rfl⟩
  have hagree (other : ReferralPolicy) :=
    ((run_withPolicy resolver policy other calls).agrees _ _ hsame).resolve_left h
  have hboth : following.1 = ignoring.1 ∧ SameAsked following.2 ignoring.2 := by
    cases policy with
    | follow => exact hagree .ignore
    | ignore => exact ⟨(hagree .follow).1.symm, (hagree .follow).2.symm⟩
  exact ⟨hboth.1, hboth.2.servers, hboth.2.cache_eq⟩

/-- A reply that holds a name server of `y.x` and an address, but not that of the name server. -/
def lameReply : Packet :=
  ((Packet.empty 5).step (.authority (.ofData Packet.hostName 60 (.ns Packet.aliasName)))).step
    (.additional (.ofData Packet.hostName 60 (.a ⟨192, 0, 2, 1⟩)))

/-- A resolver with one root, which always gives that reply. -/
def lameResolver : Resolver Unit :=
  { hostResolver with network := fun _ _ => pure (.ok lameReply.wire) }

theorem ofOctets_wire_lameReply : Packet.ofOctets lameReply.wire = .ok lameReply := by
  have hmade : lameReply.Made :=
    .step _ (.step _ (.empty 5) (List.forall_mem_singleton.mpr (.ns _ _ _)))
      (List.forall_mem_singleton.mpr (.a _ _ _))
  have hfit : lameReply.SectionsFit := by
    constructor <;> decide
  exact (hmade.encodable hfit (by decide)).ofOctets_wire

theorem neverRefers_lameResolver : NeverRefers lameResolver.network := by
  rintro server query state ⟨name, type, next, -, reply, haccepted, -, delegation, hdelegation,
    address, haddress, host, ip, hns, -, -, hhost, -⟩
  obtain ⟨_, octets, -, houtcome, hread, -⟩ := Exchange.accepted?_eq_some_iff.mp haccepted
  cases houtcome
  rw [ofOctets_wire_lameReply, Except.ok.injEq] at hread
  subst hread
  rw [List.mem_singleton.mp hdelegation] at hns
  cases hns
  rw [List.mem_singleton.mp haddress] at hhost
  exact absurd hhost (by decide)

theorem follow_conservative_lameResolver :
    let following := (lameResolver.withPolicy .follow).run [.handle hostMessage]
      (lameResolver.initial ())
    let ignoring := (lameResolver.withPolicy .ignore).run [.handle hostMessage]
      (lameResolver.initial ())
    ¬Referred following.2 ∧ following.1 = ignoring.1 ∧
      askedServers following.2.trace = askedServers ignoring.2.trace ∧
      following.2.cache = ignoring.2.cache := by
  have hnever : NeverRefers (lameResolver.withPolicy .follow).network := neverRefers_lameResolver
  have hinitial : ¬Referred (lameResolver.initial ()) := fun ⟨_, hmem, _⟩ => List.not_mem_nil hmem
  have hnot := run_not_referred hnever [.handle hostMessage] (lameResolver.initial ()) hinitial
  exact ⟨hnot, follow_conservative lameResolver () [.handle hostMessage] .follow hnot⟩

end Resolver
end DnsResolver
