import DnsResolver.Proofs.Cache.Entries
import DnsResolver.Proofs.Packet.Encodable
import DnsResolver.Proofs.Resolver.Walks

/-!
# Where record sets come from

In every state that a resolver comes to, each record set in its cache is the answer section of a
packet that was read, and so is every record set that it resolves a name to.  Such a set has no more
records than a count can hold, and can be written without loss.
-/

namespace DnsResolver

/-- The records are the answer section of some packet that was read. -/
def AnswerSection (records : List Record) : Prop :=
  ∃ octets reply, Packet.ofOctets octets = .ok reply ∧ reply.answers = records

namespace AnswerSection

variable {records : List Record}

theorem length_le (h : AnswerSection records) : records.length ≤ 65535 := by
  obtain ⟨octets, reply, hread, rfl⟩ := h
  rw [← (Packet.encodable_of_ofOctets_eq_ok hread).counted.answers]
  exact Nat.le_of_lt_succ reply.header.answerCount.toNat_lt

theorem canonical_and_fits (h : AnswerSection records) :
    ∀ record ∈ records, record.data.Canonical ∧ record.data.Fits := by
  obtain ⟨octets, reply, hread, rfl⟩ := h
  have hencodable := Packet.encodable_of_ofOctets_eq_ok hread
  intro record hrecord
  have hmem : record ∈ reply.records := Packet.mem_records_iff.mpr (.inl hrecord)
  exact ⟨hencodable.canonical record hmem, hencodable.fits record hmem⟩

end AnswerSection

namespace Resolver

variable {σ : Type}

/-- An accepted reply is a packet that was read, with the identifier of the query. -/
theorem exists_of_acceptReply_eq_ok {id : UInt16} {outcome : Except ExchangeError Octets}
    {reply : Packet} (h : acceptReply id outcome = .ok reply) :
    ∃ octets, outcome = .ok octets ∧ Packet.ofOctets octets = .ok reply ∧ reply.header.id = id := by
  cases outcome with
  | error error => cases h
  | ok octets =>
    rw [acceptReply] at h
    cases hread : Packet.ofOctets octets with
    | error error =>
      rw [hread] at h
      cases h
    | ok packet =>
      simp only [hread] at h
      split at h
      next hid =>
        cases h
        exact ⟨octets, rfl, hread, hid⟩
      next => cases h

/-- Every record set in the cache is an answer section. -/
def CacheSound (state : State σ) : Prop :=
  ∀ entry ∈ state.cache.entries, AnswerSection entry.value

/-! ## Steps -/

theorem cacheSound_initial (resolver : Resolver σ) (network : σ) :
    CacheSound (resolver.initial network) := by
  intro entry hentry
  cases hentry

theorem note_cacheSound (event : Event) :
    Ensures (σ := σ) CacheSound (note event) fun _ => CacheSound :=
  fun _ hsound => hsound

theorem lookUp_cacheSound (resolver : Resolver σ) (key : CacheKey) :
    Ensures CacheSound (resolver.lookUp key) fun found state =>
      CacheSound state ∧ ∀ records, found = some records → AnswerSection records := by
  intro state hsound
  rw [lookUp_apply]
  constructor
  · intro entry hentry
    exact hsound entry (Cache.mem_of_mem_get hentry)
  · intro records hfound
    obtain ⟨entry, hentry, -, rfl, -⟩ := Cache.exists_of_get_eq_some hfound
    exact hsound entry hentry

theorem store_cacheSound (resolver : Resolver σ) (key : CacheKey) {records : List Record}
    (hrecords : AnswerSection records) (ttl : UInt32) :
    Ensures CacheSound (resolver.store key records ttl) fun _ => CacheSound := by
  intro state hsound
  rw [store_apply]
  intro entry hentry
  rcases Cache.mem_of_mem_put hentry with rfl | hold
  · exact hrecords
  · exact hsound entry hold

theorem ask_cacheSound (resolver : Resolver σ) (server : SocketAddress) (name : Name)
    (type : RecordType) :
    Ensures CacheSound (resolver.ask server name type) fun result state =>
      CacheSound state ∧ ∀ reply, result = .ok reply → AnswerSection reply.answers := by
  intro state hsound
  refine ⟨hsound, ?_⟩
  intro reply hreply
  obtain ⟨octets, -, hread, -⟩ := exists_of_acceptReply_eq_ok hreply
  exact ⟨octets, reply, hread, rfl⟩

theorem referral_cacheSound (resolver : Resolver σ) (name : Name) (reply : Packet) :
    Ensures CacheSound (resolver.referral name reply) fun _ => CacheSound := by
  intro state hsound
  rw [referral]
  cases resolver.config.referralPolicy with
  | ignore => exact hsound
  | follow => exact hsound

theorem rootCandidates_cacheSound (resolver : Resolver σ) :
    Ensures CacheSound resolver.rootCandidates fun _ => CacheSound := by
  intro state hsound
  rw [rootCandidates_apply]
  exact hsound

/-! ## Searches and resolutions -/

theorem search_cacheSound (resolver : Resolver σ) (name : Name) (type : RecordType) (budget : Nat)
    (candidates : List SocketAddress) :
    Ensures CacheSound (resolver.search name type budget candidates) fun records state =>
      CacheSound state ∧ (records ≠ [] → AnswerSection records) := by
  have hsearch := Ensures.search (fun event _ _ => note_cacheSound event)
    (fun _ _ _ => note_cacheSound _) (fun server => ask_cacheSound resolver server name type)
    (referral_cacheSound resolver name) budget candidates
  refine hsearch.mono ?_
  rintro records state ⟨hsound, hfound⟩
  refine ⟨hsound, fun hne => ?_⟩
  obtain ⟨reply, hsection, rfl⟩ := hfound hne
  exact hsection reply rfl

/-- A resolution keeps the cache sound, and what it resolves a name to is an answer section. -/
theorem resolve_cacheSound (resolver : Resolver σ) (depth : Nat) (name : Name)
    (type : RecordType) :
    Ensures CacheSound (resolver.resolve name type depth) fun records state =>
      CacheSound state ∧ (records ≠ [] → AnswerSection records) := by
  have hresolve : Ensures CacheSound (resolver.resolve name type depth) fun records state =>
      CacheSound state ∧ (records ≠ [] → ∃ _ : CacheKey, AnswerSection records) :=
    Ensures.resolve (fun event _ _ => note_cacheSound event) (lookUp_cacheSound resolver)
      (rootCandidates_cacheSound resolver)
      (fun name type => search_cacheSound resolver name type maxQueries)
      (fun key first others hrecords => store_cacheSound resolver key hrecords first.ttl)
      depth name type
  refine hresolve.mono ?_
  rintro records state ⟨hsound, hfound⟩
  refine ⟨hsound, fun hne => ?_⟩
  obtain ⟨_, hsection⟩ := hfound hne
  exact hsection

/-! ## Runs -/

theorem handle_cacheSound (resolver : Resolver σ) (message : Message) :
    Ensures CacheSound (resolver.handle message) fun _ => CacheSound :=
  Ensures.handle (fun event _ _ => note_cacheSound event) (fun _ _ _ _ _ => note_cacheSound _)
    (fun name type => (resolve_cacheSound resolver 0 name type).mono fun _ _ h => h.1) message

theorem serveMessage_cacheSound (resolver : Resolver σ) (message : Message) :
    Ensures CacheSound (resolver.serveMessage message) fun _ => CacheSound :=
  Ensures.serveMessage (fun _ => note_cacheSound _) (handle_cacheSound resolver message)

/-- The states that a resolver comes to from its start over any network: by handling messages, by
resolving names, and by serving messages one after another. -/
inductive Reachable (resolver : Resolver σ) : State σ → Prop where
  | initial (network : σ) : Reachable resolver (resolver.initial network)
  | call {state : State σ} (call : Call) :
      Reachable resolver state → Reachable resolver (resolver.call call state).2
  | serve {state : State σ} (message : Message) :
      Reachable resolver state → Reachable resolver (resolver.serveMessage message state).2

/-- What holds in the beginning, and is kept by handling, resolving and serving, holds in every
reachable state. -/
theorem Reachable.invariant {resolver : Resolver σ} {inv : State σ → Prop}
    (hinitial : ∀ network, inv (resolver.initial network))
    (hhandle : ∀ message, Ensures inv (resolver.handle message) fun _ => inv)
    (hresolve : ∀ name type depth, Ensures inv (resolver.resolve name type depth) fun _ => inv)
    (hserve : ∀ message, Ensures inv (resolver.serveMessage message) fun _ => inv)
    {state : State σ} (h : resolver.Reachable state) :
    inv state := by
  induction h with
  | initial network => exact hinitial network
  | @call state call _ ih =>
    cases call with
    | handle message => exact hhandle message state ih
    | resolve name type depth => exact hresolve name type depth state ih
  | @serve state message _ ih => exact hserve message state ih

theorem Reachable.cacheSound {resolver : Resolver σ} {state : State σ}
    (h : resolver.Reachable state) :
    CacheSound state :=
  h.invariant (cacheSound_initial resolver) (handle_cacheSound resolver)
    (fun name type depth => (resolve_cacheSound resolver depth name type).mono fun _ _ h => h.1)
    (serveMessage_cacheSound resolver)

/-- In every reachable state, what a name is resolved to is an answer section or nothing. -/
theorem Reachable.answerSection {resolver : Resolver σ} {state : State σ}
    (h : resolver.Reachable state) (name : Name) (type : RecordType) (depth : Nat)
    (hne : (resolver.resolve name type depth state).1 ≠ []) :
    AnswerSection (resolver.resolve name type depth state).1 :=
  (resolve_cacheSound resolver depth name type state h.cacheSound).2 hne

end Resolver
end DnsResolver
