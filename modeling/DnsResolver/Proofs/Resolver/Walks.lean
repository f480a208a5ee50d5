import DnsResolver.Proofs.Resolver.Actions
import DnsResolver.Proofs.Resolver.Noting

/-!
# Invariants of searches, resolutions and replies

An invariant that each step of a search keeps is kept by the search, and what the search finds is
the answer section of a reply that was accepted.  An invariant that searches and uses of the cache
keep is kept by resolving, at any depth of aliases, and by handling messages.
-/

namespace DnsResolver

/-- The event reports an error in the words of that error. -/
def Event.ReportsError : Event → Prop
  | .malformed .. | .dropped .. | .queryFailed .. => True
  | _ => False

namespace Resolver

variable {σ : Type} {resolver : Resolver σ} {inv : State σ → Prop}

/-- A search keeps what its steps keep.  If all that asking results in is `good`, what is found is
the answer section of a `good` reply, and only `good` failures are reported. -/
theorem Ensures.search {good : Except QueryError Packet → Prop} {name : Name} {type : RecordType}
    (hnote : ∀ event, ¬event.ReportsError → event.Quiet → Ensures inv (note event) fun _ => inv)
    (hfailed : ∀ server error, good (.error error) →
      Ensures inv (note (.queryFailed name type server error)) fun _ => inv)
    (hask : ∀ server, Ensures inv (resolver.ask server name type) fun result state =>
      inv state ∧ good result)
    (hreferral : ∀ reply, Ensures inv (resolver.referral name reply) fun _ => inv)
    (budget : Nat) (candidates : List SocketAddress) :
    Ensures inv (resolver.search name type budget candidates) fun records state =>
      inv state ∧ (records ≠ [] → ∃ reply, good (.ok reply) ∧ reply.answers = records) := by
  have hnothing : Ensures inv (pure [] : Action σ (List Record)) fun records state =>
      inv state ∧ (records ≠ [] → ∃ reply, good (.ok reply) ∧ reply.answers = records) :=
    ensures_pure fun _ hinv => ⟨hinv, fun hne => absurd rfl hne⟩
  -- A referral may replace all candidates, so only the budget gets smaller with every query.
  induction budget generalizing candidates with
  | zero =>
    cases candidates with
    | nil => exact hnothing
    | cons server rest => exact (hnote _ id ⟨rfl, rfl⟩).bind fun _ => hnothing
  | succ budget ih =>
    cases candidates with
    | nil => exact hnothing
    | cons server rest =>
      rw [Resolver.search]
      refine (hask server).bind fun result => ?_
      refine Ensures.assuming fun hgood => ?_
      cases result with
      | error error => exact (hfailed server error hgood).bind fun _ => ih rest
      | ok reply =>
        cases hanswers : reply.answers with
        | cons first others =>
          simp only [hanswers]
          refine ensures_pure fun _ hinv => ⟨hinv, fun _ => ?_⟩
          exact ⟨reply, hgood, hanswers⟩
        | nil =>
          simp only [hanswers]
          refine (hreferral reply).bind fun next => ?_
          cases next with
          | nil => exact (hnote _ id ⟨rfl, rfl⟩).bind fun _ => ih rest
          | cons server others => exact (hnote _ id ⟨rfl, rfl⟩).bind fun _ => ih (server :: others)

/-- Resolving keeps what looking up, searching and storing keep.  If what is looked up and what is
found is `good` for its key, what a name resolves to is `good` for some key. -/
theorem Ensures.resolve {good : CacheKey → List Record → Prop}
    (hnote : ∀ event, ¬event.ReportsError → event.Quiet → Ensures inv (note event) fun _ => inv)
    (hlookUp : ∀ key, Ensures inv (resolver.lookUp key) fun found state =>
      inv state ∧ ∀ records, found = some records → good key records)
    (hroots : Ensures inv resolver.rootCandidates fun _ => inv)
    (hsearch : ∀ name type candidates,
      Ensures inv (resolver.search name type maxQueries candidates) fun records state =>
        inv state ∧ (records ≠ [] → good (.of name type) records))
    (hstore : ∀ key first others, good key (first :: others) →
      Ensures inv (resolver.store key (first :: others) first.ttl) fun _ => inv)
    (depth : Nat) (name : Name) (type : RecordType) :
    Ensures inv (resolver.resolve name type depth) fun records state =>
      inv state ∧ (records ≠ [] → ∃ key, good key records) := by
  have hnothing : Ensures inv (pure [] : Action σ (List Record)) fun records state =>
      inv state ∧ (records ≠ [] → ∃ key, good key records) :=
    ensures_pure fun _ hinv => ⟨hinv, fun hne => absurd rfl hne⟩
  -- What is behind an alias is resolved one level deeper, for another name and type.
  induction depth using depth_induction resolver generalizing name type with
  | tooDeep depth hdeep =>
    rw [resolve_of_tooDeep hdeep]
    exact (hnote _ id ⟨rfl, rfl⟩).bind fun _ => hnothing
  | deeper depth hle ih =>
    rw [resolve_of_le hle]
    refine (hlookUp _).bind fun found => ?_
    refine Ensures.assuming fun hfound => ?_
    cases found with
    | some records =>
      refine (hnote _ id ⟨rfl, rfl⟩).bind fun _ => ?_
      exact ensures_pure fun _ hinv => ⟨hinv, fun _ => ⟨_, hfound records rfl⟩⟩
    | none =>
      rw [resolveAfresh]
      refine (hnote _ id ⟨rfl, rfl⟩).bind fun _ => ?_
      refine hroots.bind fun candidates => ?_
      refine (hsearch name type candidates).bind fun records => ?_
      refine Ensures.assuming fun hrecords => ?_
      cases records with
      | nil => exact hnothing
      | cons first others =>
        have hgood := hrecords (List.cons_ne_nil first others)
        refine (hstore _ first others hgood).bind fun _ => ?_
        cases aliasTarget? type first with
        | none => exact ensures_pure fun _ hinv => ⟨hinv, fun _ => ⟨_, hgood⟩⟩
        | some target => exact (hnote _ id ⟨rfl, rfl⟩).bind fun _ => ih target .a

/-- Handling a message keeps what noting and resolving keep.  A message is reported as malformed
only with an error of reading some octets. -/
theorem Ensures.handle
    (hnote : ∀ event, ¬event.ReportsError → event.Quiet → Ensures inv (note event) fun _ => inv)
    (hmalformed : ∀ id peer octets error, Packet.ofOctets octets = .error error →
      Ensures inv (note (.malformed id peer error)) fun _ => inv)
    (hresolve : ∀ name type, Ensures inv (resolver.resolve name type 0) fun _ => inv)
    (message : Message) :
    Ensures inv (resolver.handle message) fun _ => inv := by
  by_cases hkind : MessageKind.of? message.data = some .response
  · rw [handle_of_response hkind]
    exact hnote _ id ⟨rfl, rfl⟩
  · cases hread : Packet.ofOctets message.data with
    | error error =>
      cases hid : messageId? message.data with
      | none =>
        rw [handle_of_tooShort hkind hread hid]
        exact ensures_pure fun _ hinv => hinv
      | some id =>
        rw [handle_of_malformed hkind hread hid]
        exact hmalformed id message.peer message.data error hread
    | ok request =>
      cases hquestions : request.questions with
      | nil =>
        rw [handle_of_noQuestion hkind hread hquestions]
        exact hnote _ id ⟨rfl, rfl⟩
      | cons question others =>
        rw [handle_of_question hkind hread hquestions]
        refine (hnote _ id ⟨rfl, rfl⟩).bind fun _ => ?_
        refine (hresolve question.name question.type).bind fun answers => ?_
        exact ensures_pure fun _ hinv => hinv

theorem Ensures.serveMessage {message : Message}
    (hdropped : ∀ error, Ensures inv (note (.dropped message.peer error)) fun _ => inv)
    (hhandle : Ensures inv (resolver.handle message) fun _ => inv) :
    Ensures inv (resolver.serveMessage message) fun _ => inv := by
  refine hhandle.bind fun result => ?_
  cases result with
  | ok reply => exact ensures_pure fun _ hinv => hinv
  | error error => exact hdropped error

/-- A run keeps what handling and resolving keep. -/
theorem Ensures.run
    (hhandle : ∀ message, Ensures inv (resolver.handle message) fun _ => inv)
    (hresolve : ∀ name type depth, Ensures inv (resolver.resolve name type depth) fun _ => inv)
    (calls : List Call) :
    Ensures inv (resolver.run calls) fun _ => inv := by
  induction calls with
  | nil => exact ensures_pure fun _ hinv => hinv
  | cons call calls ih =>
    have hcall : Ensures inv (resolver.call call) fun _ => inv := by
      cases call with
      | handle message => exact (hhandle message).bind fun _ => ensures_pure fun _ hinv => hinv
      | resolve name type depth =>
        exact (hresolve name type depth).bind fun _ => ensures_pure fun _ hinv => hinv
    exact hcall.bind fun _ => ih.bind fun _ => ensures_pure fun _ hinv => hinv

end Resolver
end DnsResolver
