import DnsResolver.Proofs.Name.Subdomains
import DnsResolver.Proofs.Resolver.Reuse
import DnsResolver.Proofs.Resolver.Serving

/-!
# Spellings of names

Clients may spell the name they ask for in upper or lower case.  If the network cannot tell these
spellings apart, they make no difference: the same servers are asked in the same order, the cache
ends up the same, and the replies differ in nothing but the question, which comes back to each
client as it was spelled.
-/

namespace DnsResolver

open Octets (lower)

/-! ## Names and questions that differ in case -/

/-- The names differ at most in the case of letters. -/
def Name.SpelledAlike (name other : Name) : Prop :=
  name.text.map lower = other.text.map lower

/-- The questions differ at most in the case of letters of their names. -/
structure Question.SpelledAlike (question other : Question) : Prop where
  name : question.name.SpelledAlike other.name
  type : question.type = other.type
  recordClass : question.recordClass = other.recordClass

namespace Name.SpelledAlike

variable {name other : Name}

theorem isSubdomainOf_eq (h : name.SpelledAlike other) (zone : Name) :
    name.isSubdomainOf zone = other.isSubdomainOf zone := by
  rw [Bool.eq_iff_iff, isSubdomainOf_iff_within, isSubdomainOf_iff_within, within_iff, within_iff,
    h]

theorem cacheKey_eq (h : name.SpelledAlike other) (type : RecordType) :
    CacheKey.of name type = .of other type :=
  Name.cacheKey_eq_iff.mpr h

theorem referralServers_eq (h : name.SpelledAlike other) (reply : Packet) :
    Resolver.referralServers name reply = Resolver.referralServers other reply := by
  simp only [Resolver.referralServers, h.isSubdomainOf_eq]

theorem foreignReferrals_eq (h : name.SpelledAlike other) (reply : Packet) :
    Resolver.foreignReferrals name reply = Resolver.foreignReferrals other reply := by
  simp only [Resolver.foreignReferrals, h.isSubdomainOf_eq]

end Name.SpelledAlike

/-! ## Messages that differ in case -/

/-- The messages ask the same, each in its own spelling: they begin with the same header, and their
first questions differ at most in case. -/
inductive AsksAlike (octets other : Octets) : Prop where
  | malformed {error fault : DecodeError} :
      Packet.ofOctets octets = .error error → Packet.ofOctets other = .error fault →
      octets.take 4 = other.take 4 → AsksAlike octets other
  | noQuestion {request asked : Packet} :
      Packet.ofOctets octets = .ok request → Packet.ofOctets other = .ok asked →
      request.header = asked.header → request.questions = [] → asked.questions = [] →
      AsksAlike octets other
  | question {request asked : Packet} {first second : Question} {firsts seconds : List Question} :
      Packet.ofOctets octets = .ok request → Packet.ofOctets other = .ok asked →
      request.header = asked.header → request.questions = first :: firsts →
      asked.questions = second :: seconds → first.SpelledAlike second → AsksAlike octets other

namespace AsksAlike

variable {octets other : Octets}

theorem take_four_of_header_eq {request asked : Packet}
    (hread : Packet.ofOctets octets = .ok request) (hread' : Packet.ofOctets other = .ok asked)
    (hheader : request.header = asked.header) :
    octets.take 4 = other.take 4 := by
  rw [Packet.take_four_of_ofOctets_eq_ok hread, Packet.take_four_of_ofOctets_eq_ok hread', hheader]

theorem take_four_eq (h : AsksAlike octets other) : octets.take 4 = other.take 4 := by
  cases h with
  | malformed _ _ htake => exact htake
  | noQuestion hread hread' hheader => exact take_four_of_header_eq hread hread' hheader
  | question hread hread' hheader => exact take_four_of_header_eq hread hread' hheader

theorem markedResponse_iff (h : octets.take 4 = other.take 4) :
    MarkedResponse octets ↔ MarkedResponse other := by
  have hthird (message : Octets) : message[2]? = (message.take 4)[2]? :=
    (List.getElem?_take_of_lt (by decide)).symm
  rw [MarkedResponse, MarkedResponse, hthird octets, hthird other, h]

theorem messageId?_eq (h : octets.take 4 = other.take 4) :
    Resolver.messageId? octets = Resolver.messageId? other := by
  have hfront (message : Octets) :
      Resolver.messageId? message = Resolver.messageId? (message.take 4) := by
    match message with
    | [] => rfl
    | [_] => rfl
    | _ :: _ :: _ => rfl
  rw [hfront octets, hfront other, h]

theorem length_eq (h : octets.take 4 = other.take 4) (hshort : octets.length < 2) :
    octets.length = other.length := by
  have hlength := congrArg List.length h
  rw [List.length_take, List.length_take] at hlength
  omega

end AsksAlike

/-- Two requests that are written out and differ only in how their first question is spelled. -/
theorem asksAlike_of_encodable {request : Packet} {first second : Question} {others : List Question}
    (h : request.Encodable) (hquestions : request.questions = first :: others)
    (hspelled : first.SpelledAlike second) :
    AsksAlike request.wire { request with questions := second :: others }.wire := by
  have hcounted : { request with questions := second :: others }.Counted := by
    obtain ⟨hcount, hanswers, hauthority, hadditional⟩ := h.counted
    rw [hquestions] at hcount
    exact ⟨hcount, hanswers, hauthority, hadditional⟩
  have hother : { request with questions := second :: others }.Encodable :=
    ⟨hcounted, h.canonical, h.fits⟩
  exact .question h.ofOctets_wire hother.ofOctets_wire rfl hquestions rfl hspelled

/-- The first question of a message, as its client spelled it. -/
def firstQuestion (octets : Octets) : List Question :=
  match Packet.ofOctets octets with
  | .ok request => request.questions.take 1
  | .error _ => []

namespace Resolver

variable {σ : Type}

/-- The answers to two messages agree: both are without a reply, or both have replies, which can be
read and differ in nothing but that each holds the first question of its own message. -/
inductive AnsweredAlike (message other : Message) : Answer → Answer → Prop where
  | noReply {answer : Answer} :
      answer.reply? = none → AnsweredAlike message other answer answer
  | reply {reply answer : Packet} :
      Packet.ofOctets reply.wire = .ok reply → Packet.ofOctets answer.wire = .ok answer →
      reply.questions = firstQuestion message.data →
      answer = { reply with questions := firstQuestion other.data } →
      AnsweredAlike message other (.handled (.ok (some { message with data := reply.wire })))
        (.handled (.ok (some { other with data := answer.wire })))

/-! ## Steps -/

/-- The network does not tell apart queries that differ in the case of letters. -/
def CaseBlind (network : Network σ) : Prop :=
  ∀ server id name other type, name.SpelledAlike other →
    network server (queryFor id name type).wire = network server (queryFor id other type).wire

/-- The servers that were asked, in order. -/
def askedServers (events : List Event) : List SocketAddress :=
  (Event.exchanges events).map Exchange.server

theorem askedServers_append (xs ys : List Event) :
    askedServers (xs ++ ys) = askedServers xs ++ askedServers ys := by
  rw [askedServers, Event.exchanges_append, List.map_append]
  rfl

theorem askedServers_append_congr {xs ys : List Event} (h : askedServers xs = askedServers ys)
    (events : List Event) :
    askedServers (xs ++ events) = askedServers (ys ++ events) := by
  rw [askedServers_append, askedServers_append, h]

theorem askedServers_of_quiet {events : List Event} (h : ∀ event ∈ events, event.Quiet) :
    askedServers events = [] := by
  rw [askedServers, Event.exchanges_of_quiet h]
  rfl

/-- The states differ in nothing but the trace, and the same servers were asked. -/
structure SameAsked (s t : State σ) : Prop where
  same : SameButTrace s t
  servers : askedServers s.trace = askedServers t.trace

theorem SameAsked.symm {s t : State σ} (h : SameAsked s t) : SameAsked t s := by
  obtain ⟨⟨trace, rfl⟩, hservers⟩ := h
  exact ⟨⟨s.trace, rfl⟩, hservers.symm⟩

theorem SameAsked.cache_eq {s t : State σ} (h : SameAsked s t) : s.cache = t.cache := by
  obtain ⟨⟨trace, rfl⟩, -⟩ := h
  rfl

theorem sameAsked_notesFreely : NotesFreely (σ := σ) (τ := σ) SameAsked := by
  rintro event other hquiet hother s _ ⟨⟨trace, rfl⟩, hservers⟩
  refine ⟨rfl, ⟨_, rfl⟩, ?_⟩
  rw [note_apply, note_apply, askedServers_append, askedServers_append,
    askedServers_of_quiet (List.forall_mem_singleton.mpr hquiet),
    askedServers_of_quiet (List.forall_mem_singleton.mpr hother)]
  exact congrArg (· ++ []) hservers

section Steps

variable (resolver : Resolver σ)

theorem ask_alike (hblind : CaseBlind resolver.network) {name other : Name}
    (halike : name.SpelledAlike other) (server : SocketAddress) (type : RecordType) :
    Paired SameAsked (resolver.ask server name type) (resolver.ask server other type) Eq := by
  rintro s _ ⟨⟨trace, rfl⟩, hservers⟩
  have hnetwork := hblind server (resolver.ids s.queries) name other type halike
  rw [ask_apply, ask_apply, hnetwork]
  refine ⟨rfl, ⟨_, rfl⟩, ?_⟩
  -- The queries differ, but they go to the same server.
  rw [askedServers_append, askedServers_append, hservers]
  rfl

theorem lookUp_alike (key : CacheKey) :
    Paired SameAsked (resolver.lookUp key) (resolver.lookUp key) Eq := by
  rintro s _ ⟨⟨trace, rfl⟩, hservers⟩
  exact ⟨rfl, ⟨_, rfl⟩, askedServers_append_congr hservers _⟩

theorem store_alike (key : CacheKey) (records : List Record) (ttl : UInt32) :
    Paired SameAsked (resolver.store key records ttl) (resolver.store key records ttl) Eq := by
  rintro s _ ⟨⟨trace, rfl⟩, hservers⟩
  have hstored := askedServers_append_congr hservers
    [.cached (.put key records ttl.toNat (resolver.clock s.readings))]
  exact ⟨rfl, ⟨_, rfl⟩, askedServers_append_congr hstored (evictions s.cache key)⟩

theorem referral_alike (name : Name) (reply : Packet) :
    Paired SameAsked (resolver.referral name reply) (resolver.referral name reply) Eq := by
  rintro s _ ⟨⟨trace, rfl⟩, hservers⟩
  rw [referral]
  cases resolver.config.referralPolicy with
  | ignore => exact ⟨rfl, ⟨trace, rfl⟩, hservers⟩
  | follow => exact ⟨rfl, ⟨_, rfl⟩, askedServers_append_congr hservers _⟩

theorem rootCandidates_alike :
    Paired SameAsked resolver.rootCandidates resolver.rootCandidates Eq := by
  rintro s _ ⟨⟨trace, rfl⟩, hservers⟩
  rw [rootCandidates_apply, rootCandidates_apply]
  exact ⟨rfl, ⟨trace, rfl⟩, hservers⟩

end Steps

/-! ## Searches, resolutions and replies -/

section Alike

variable {resolver : Resolver σ} (hblind : CaseBlind resolver.network)
include hblind

theorem search_alike {name other : Name} (halike : name.SpelledAlike other) (type : RecordType)
    (budget : Nat) (candidates : List SocketAddress) :
    Paired SameAsked (resolver.search name type budget candidates)
      (resolver.search other type budget candidates) Eq := by
  refine Paired.search sameAsked_notesFreely
    (fun server => ask_alike resolver hblind halike server type) ?_ budget candidates
  intro reply
  have hreferral : resolver.referral other reply = resolver.referral name reply := by
    rw [referral, referral, halike.foreignReferrals_eq, halike.referralServers_eq]
  rw [hreferral]
  exact referral_alike resolver name reply

theorem resolve_alike {name other : Name} (halike : name.SpelledAlike other) (type : RecordType)
    (depth : Nat) :
    Paired SameAsked (resolver.resolve name type depth) (resolver.resolve other type depth) Eq := by
  refine Paired.resolve sameAsked_notesFreely (fun name => (rfl : name.SpelledAlike name)) rfl ?_
    (rootCandidates_alike resolver) ?_ ?_ depth type halike
  · intro name other type halike
    rw [halike.cacheKey_eq]
    exact lookUp_alike resolver (.of other type)
  · rintro name other type candidates _ halike rfl
    exact search_alike hblind halike type maxQueries candidates
  · intro name other type records ttl halike
    rw [halike.cacheKey_eq]
    exact store_alike resolver (.of other type) records ttl

end Alike

/-- Handling the messages, each in its state, gives answers that agree and leaves states in which
the same servers have been asked. -/
def HandlesAlike (resolver : Resolver σ) (message other : Message) (s t : State σ) : Prop :=
  AnsweredAlike message other (.handled (resolver.handle message s).1)
      (.handled (resolver.handle other t).1) ∧
    SameAsked (resolver.handle message s).2 (resolver.handle other t).2

section Handle

variable {resolver : Resolver σ} {message other : Message} {s t : State σ}

theorem note_alike (hsame : SameAsked s t) {event noted : Event} (hquiet : event.Quiet)
    (hnoted : noted.Quiet) :
    SameAsked (note event s).2 (note noted t).2 :=
  (sameAsked_notesFreely event noted hquiet hnoted s t hsame).2

theorem handle_alike_of_response (hsame : SameAsked s t)
    (hkind : MessageKind.of? message.data = some .response)
    (hkind' : MessageKind.of? other.data = some .response) :
    HandlesAlike resolver message other s t := by
  rw [HandlesAlike, handle_of_response hkind, handle_of_response hkind']
  exact ⟨.noReply rfl, note_alike hsame ⟨rfl, rfl⟩ ⟨rfl, rfl⟩⟩

variable (hkind : MessageKind.of? message.data ≠ some .response)
  (hkind' : MessageKind.of? other.data ≠ some .response)
include hkind hkind'

theorem handle_alike_of_malformed {error fault : DecodeError} (hsame : SameAsked s t)
    (hread : Packet.ofOctets message.data = .error error)
    (hread' : Packet.ofOctets other.data = .error fault)
    (htake : message.data.take 4 = other.data.take 4) :
    HandlesAlike resolver message other s t := by
  cases hid : messageId? message.data with
  | none =>
    have hid' := (AsksAlike.messageId?_eq htake).symm.trans hid
    have hlength := AsksAlike.length_eq htake (messageId?_eq_none_iff.mp hid)
    rw [HandlesAlike, handle_of_tooShort hkind hread hid, handle_of_tooShort hkind' hread' hid',
      hlength]
    exact ⟨.noReply rfl, hsame⟩
  | some id =>
    have hid' := (AsksAlike.messageId?_eq htake).symm.trans hid
    have hreply := (malformedReply_encodable id).ofOctets_wire
    have hfirst : firstQuestion message.data = [] := by
      rw [firstQuestion, hread]
    have hsecond : firstQuestion other.data = [] := by
      rw [firstQuestion, hread']
    rw [HandlesAlike, handle_of_malformed hkind hread hid, handle_of_malformed hkind' hread' hid']
    refine ⟨.reply hreply hreply hfirst.symm ?_, note_alike hsame ⟨rfl, rfl⟩ ⟨rfl, rfl⟩⟩
    rw [hsecond]
    rfl

theorem handle_alike_of_noQuestion {request asked : Packet} (hsame : SameAsked s t)
    (hread : Packet.ofOctets message.data = .ok request)
    (hread' : Packet.ofOctets other.data = .ok asked) (hheader : request.header = asked.header)
    (hquestions : request.questions = []) (hquestions' : asked.questions = []) :
    HandlesAlike resolver message other s t := by
  have hreply := (respond_encodable request .formatError).ofOctets_wire
  have hrespond : asked.respond .formatError = request.respond .formatError := by
    rw [respond_eq, respond_eq, hheader]
  have hfirst : firstQuestion message.data = [] := by
    simp only [firstQuestion, hread, hquestions, List.take_nil]
  have hsecond : firstQuestion other.data = [] := by
    simp only [firstQuestion, hread', hquestions', List.take_nil]
  rw [HandlesAlike, handle_of_noQuestion hkind hread hquestions,
    handle_of_noQuestion hkind' hread' hquestions', hrespond]
  refine ⟨.reply hreply hreply hfirst.symm ?_, note_alike hsame ⟨rfl, rfl⟩ ⟨rfl, rfl⟩⟩
  rw [hsecond]
  rfl

/-- What the two names resolve to is the same, and so is the header of the request. -/
theorem handle_alike_of_question {request asked : Packet} {first second : Question}
    {firsts seconds : List Question} (hblind : CaseBlind resolver.network) (hsound : CacheSound s)
    (hsame : SameAsked s t) (hread : Packet.ofOctets message.data = .ok request)
    (hread' : Packet.ofOctets other.data = .ok asked) (hheader : request.header = asked.header)
    (hquestions : request.questions = first :: firsts)
    (hquestions' : asked.questions = second :: seconds) (hspelled : first.SpelledAlike second) :
    HandlesAlike resolver message other s t := by
  have hnoted : SameAsked (note (.request request.header.id message.peer first) s).2
      (note (.request asked.header.id other.peer second) t).2 :=
    note_alike hsame ⟨rfl, rfl⟩ ⟨rfl, rfl⟩
  obtain ⟨hanswers, hafter⟩ :=
    resolve_alike hblind hspelled.name first.type 0 _ _ hnoted
  have hsection := (resolve_cacheSound resolver 0 first.name first.type
    (note (.request request.header.id message.peer first) s).2 hsound).2
  rw [HandlesAlike, handle_of_question hkind hread hquestions,
    handle_of_question hkind' hread' hquestions', ← hspelled.type]
  refine ⟨?_, hafter⟩
  simp only [bind_apply, pure_apply, answerReply_eq, ← hanswers]
  generalize (resolver.resolve first.name first.type 0 _).1 = answers at hsection ⊢
  have hfirst : firstQuestion message.data = [first] := by
    simp only [firstQuestion, hread, hquestions, List.take_succ_cons, List.take_zero]
  have hsecond : firstQuestion other.data = [second] := by
    simp only [firstQuestion, hread', hquestions', List.take_succ_cons, List.take_zero]
  have hreply := (answerPacket_encodable request first hsection).ofOctets_wire
  have hreply' := (answerPacket_encodable asked second hsection).ofOctets_wire
  refine .reply hreply hreply' hfirst.symm ?_
  rw [hsecond, answerPacket, answerPacket, hheader]

end Handle

/-- Messages that ask the same in different spellings get replies that differ in the question
alone, and leave the resolver in the same state, but for what is noted about the spellings. -/
theorem handle_alike {resolver : Resolver σ} (hblind : CaseBlind resolver.network)
    {message other : Message} (h : AsksAlike message.data other.data) {s t : State σ}
    (hsound : CacheSound s) (hsame : SameAsked s t) :
    HandlesAlike resolver message other s t := by
  have hmarks := AsksAlike.markedResponse_iff h.take_four_eq
  by_cases hmark : MarkedResponse message.data
  · exact handle_alike_of_response hsame (MessageKind.of?_eq_response_iff.mpr hmark)
      (MessageKind.of?_eq_response_iff.mpr (hmarks.mp hmark))
  have hkind := mt MessageKind.of?_eq_response_iff.mp hmark
  have hkind' := mt MessageKind.of?_eq_response_iff.mp (mt hmarks.mpr hmark)
  cases h with
  | malformed hread hread' htake =>
    exact handle_alike_of_malformed hkind hkind' hsame hread hread' htake
  | noQuestion hread hread' hheader hquestions hquestions' =>
    exact handle_alike_of_noQuestion hkind hkind' hsame hread hread' hheader hquestions hquestions'
  | question hread hread' hheader hquestions hquestions' hspelled =>
    exact handle_alike_of_question hkind hkind' hblind hsound hsame hread hread' hheader hquestions
      hquestions' hspelled

/-! ## Conversations -/

theorem handleAll_alike {resolver : Resolver σ} (hblind : CaseBlind resolver.network)
    {messages others : List Message}
    (h : List.Forall₂ (fun message other => AsksAlike message.data other.data) messages others)
    {s t : State σ} (hsound : CacheSound s) (hsame : SameAsked s t) :
    List.Forall₂ (fun x y => AnsweredAlike x.1 y.1 x.2 y.2)
        (messages.zip (resolver.handleAll messages s).1)
        (others.zip (resolver.handleAll others t).1) ∧
      SameAsked (resolver.handleAll messages s).2 (resolver.handleAll others t).2 := by
  induction h generalizing s t with
  | nil => exact ⟨.nil, hsame⟩
  | @cons message other messages others halike _ ih =>
    obtain ⟨hanswer, hafter⟩ := handle_alike hblind halike hsound hsame
    obtain ⟨hanswers, hlast⟩ := ih (handle_cacheSound resolver message s hsound) hafter
    exact ⟨.cons hanswer hanswers, hlast⟩

/-- From any reachable state, over a network that does not tell apart how names are spelled, let two
sequences of messages ask the same in different spellings.  Their replies differ only in the first
question of each message, and the caches are the same in the end, after the same servers have been
asked in the same order. -/
theorem Reachable.handleAll_spelledAlike {resolver : Resolver σ} {state : State σ}
    (hreachable : resolver.Reachable state) (hblind : CaseBlind resolver.network)
    {messages others : List Message}
    (h : List.Forall₂ (fun message other => AsksAlike message.data other.data) messages others) :
    List.Forall₂ (fun x y => AnsweredAlike x.1 y.1 x.2 y.2)
        (messages.zip (resolver.handleAll messages state).1)
        (others.zip (resolver.handleAll others state).1) ∧
      (resolver.handleAll messages state).2.cache = (resolver.handleAll others state).2.cache ∧
      askedServers (resolver.handleAll messages state).2.trace =
        askedServers (resolver.handleAll others state).2.trace := by
  have hsame : SameAsked state state := ⟨.refl state, rfl⟩
  obtain ⟨hanswers, ⟨trace, htrace⟩, hservers⟩ :=
    handleAll_alike hblind h hreachable.cacheSound hsame
  refine ⟨hanswers, ?_, hservers⟩
  rw [htrace]

/-- The question about the address of `y.x`, in upper case. -/
def loudQuestion : Question :=
  ⟨⟨[89, 46, 88], by decide⟩, .a, .internet⟩

/-- A client asks for the address of `y.x` in upper case. -/
def loudMessage : Message :=
  { hostMessage with data := ((Packet.query 7).addQuestion loudQuestion).wire }

theorem asksAlike_hostMessage_loudMessage : AsksAlike hostMessage.data loudMessage.data := by
  have hencodable : ((Packet.query 7).addQuestion hostQuestion).Encodable :=
    Packet.Counted.encodable_of_records_eq_nil ⟨rfl, rfl, rfl, rfl⟩ rfl
  have hspelled : hostQuestion.SpelledAlike loudQuestion := ⟨rfl, rfl, rfl⟩
  exact asksAlike_of_encodable hencodable rfl hspelled

theorem handleAll_spelledAlike_hostMessage :
    let messages := [shortMessage, hostMessage]
    let others := [shortMessage, loudMessage]
    let start := hostResolver.initial ()
    List.Forall₂ (fun x y => AnsweredAlike x.1 y.1 x.2 y.2)
        (messages.zip (hostResolver.handleAll messages start).1)
        (others.zip (hostResolver.handleAll others start).1) ∧
      (hostResolver.handleAll messages start).2.cache =
        (hostResolver.handleAll others start).2.cache ∧
      askedServers (hostResolver.handleAll messages start).2.trace =
        askedServers (hostResolver.handleAll others start).2.trace := by
  have hreachable : hostResolver.Reachable (hostResolver.initial ()) := .initial ()
  -- The root does not even look at the query.
  have hblind : CaseBlind hostResolver.network := fun _ _ _ _ _ _ => rfl
  exact hreachable.handleAll_spelledAlike hblind
    (.cons (.malformed rfl rfl rfl) (.cons asksAlike_hostMessage_loudMessage .nil))

end Resolver
end DnsResolver
