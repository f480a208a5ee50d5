import DnsResolver.Proofs.Cache.Histories
import DnsResolver.Proofs.Resolver.Histories
import DnsResolver.Proofs.Resolver.Replies

/-!
# Provenance of cached records

Every insertion into the cache comes right after the exchange that brought the records: the accepted
reply to a query for them, whose answer section they are.  So the history of a resolver tells for
each entry of the cache, and for whatever a name resolves to, which reply it is from.  A reply that
is not accepted or has no answers brings nothing in.
-/

namespace DnsResolver

open Event (exchanges uses replay)

/-- The exchange asked for the records under a key, and the accepted reply to it has these records,
at least one, as its answers, and the first of them lives for so many seconds. -/
structure Exchange.Yields (exchange : Exchange) (key : CacheKey) (records : List Record)
    (ttl : Nat) : Prop where
  asks : ∃ name type, key = .of name type ∧ exchange.AsksFor name type
  answers : ∃ reply, exchange.accepted? = some reply ∧ reply.answers = records
  lives : ∃ first others, records = first :: others ∧ ttl = first.ttl.toNat

theorem Exchange.Yields.answerSection {exchange : Exchange} {key : CacheKey}
    {records : List Record} {ttl : Nat} (h : exchange.Yields key records ttl) :
    AnswerSection records := by
  obtain ⟨reply, haccepted, hanswers⟩ := h.answers
  obtain ⟨_, octets, -, -, hread, -⟩ := Exchange.accepted?_eq_some_iff.mp haccepted
  exact ⟨octets, reply, hread, hanswers⟩

/-- The events show where an entry is from: an exchange yields its records, and they are stored at
once, to expire when the first of them does. -/
def StoredBy (second : Nat) (events : List Event)
    (entry : Cache.Entry CacheKey (List Record)) : Prop :=
  ∃ earlier exchange ttl time later,
    events = earlier ++ .exchanged exchange ::
      .cached (.put entry.key entry.value ttl time) :: later ∧
    exchange.Yields entry.key entry.value ttl ∧ entry.expires = time + ttl * second

namespace StoredBy

variable {second : Nat} {entry : Cache.Entry CacheKey (List Record)}

theorem answerSection {events : List Event} (h : StoredBy second events entry) :
    AnswerSection entry.value := by
  obtain ⟨_, exchange, _, _, _, _, hyields, _⟩ := h
  exact hyields.answerSection

theorem append_left {events : List Event} (h : StoredBy second events entry)
    (before : List Event) :
    StoredBy second (before ++ events) entry := by
  obtain ⟨earlier, exchange, ttl, time, later, rfl, hyields⟩ := h
  exact ⟨before ++ earlier, exchange, ttl, time, later, (List.append_assoc ..).symm, hyields⟩

theorem append_right {events : List Event} (h : StoredBy second events entry)
    (after : List Event) :
    StoredBy second (events ++ after) entry := by
  obtain ⟨earlier, exchange, ttl, time, later, rfl, hyields⟩ := h
  exact ⟨earlier, exchange, ttl, time, later ++ after, List.append_assoc .., hyields⟩

end StoredBy

/-- Every insertion among the events comes right after an exchange that yields what it stores. -/
def Sourced (events : List Event) : Prop :=
  ∀ earlier key records ttl time later,
    events = earlier ++ .cached (.put key records ttl time) :: later →
      ∃ before exchange, earlier = before ++ [.exchanged exchange] ∧
        exchange.Yields key records ttl

namespace Sourced

theorem append {xs ys : List Event} (hxs : Sourced xs) (hys : Sourced ys) :
    Sourced (xs ++ ys) := by
  intro earlier key records ttl time later hsplit
  rcases List.append_eq_append_iff.mp hsplit with ⟨between, rfl, hrest⟩ | ⟨between, rfl, hrest⟩
  · obtain ⟨before, exchange, rfl, hyields⟩ := hys between key records ttl time later hrest
    exact ⟨xs ++ before, exchange, (List.append_assoc ..).symm, hyields⟩
  · cases between with
    | nil =>
      -- Events never begin with an insertion.
      obtain ⟨before, exchange, hnil, -⟩ := hys [] key records ttl time later hrest.symm
      exact absurd hnil.symm (List.append_ne_nil_of_right_ne_nil _ (List.cons_ne_nil _ _))
    | cons event between =>
      obtain ⟨rfl, rfl⟩ := List.cons.inj hrest
      exact hxs earlier key records ttl time between rfl

theorem of_append {xs ys : List Event} (h : Sourced (xs ++ ys)) : Sourced xs := by
  rintro earlier key records ttl time later rfl
  exact h earlier key records ttl time (later ++ ys) (List.append_assoc ..)

theorem of_forall_ne {events : List Event}
    (h : ∀ key records ttl time, .cached (.put key records ttl time) ∉ events) :
    Sourced events := by
  rintro earlier key records ttl time later rfl
  exact absurd List.mem_append_cons_self (h key records ttl time)

theorem of_uses_eq_nil {events : List Event} (h : uses events = []) : Sourced events := by
  apply of_forall_ne
  intro key records ttl time hmem
  have hnone := List.filterMap_eq_nil_iff.mp h _ hmem
  cases hnone

theorem pair {exchange : Exchange} {key : CacheKey} {records : List Record} {ttl : Nat}
    (h : exchange.Yields key records ttl) (time : Nat) :
    Sourced [.exchanged exchange, .cached (.put key records ttl time)] := by
  intro earlier key' records' ttl' time' later hsplit
  match earlier with
  | [] => cases hsplit
  | [event] =>
    cases hsplit
    exact ⟨[], exchange, rfl, h⟩
  | _ :: _ :: earlier => simp at hsplit

end Sourced

namespace Event

theorem second_replay (cache : RecordCache) (events : List Event) :
    (replay cache events).second = cache.second :=
  Cache.second_after cache (uses events)

theorem mem_or_put_of_mem_replay_singleton {cache : RecordCache} {event : Event}
    {entry : Cache.Entry CacheKey (List Record)} (h : entry ∈ (replay cache [event]).entries) :
    entry ∈ cache.entries ∨
      ∃ ttl time, event = .cached (.put entry.key entry.value ttl time) ∧
        entry.expires = time + ttl * cache.second := by
  cases event with
  | cached operation =>
    cases operation with
    | put key records ttl time =>
      rcases Cache.mem_of_mem_put h with rfl | hold
      · exact .inr ⟨ttl, time, rfl, rfl⟩
      · exact .inl hold
    | get key time => exact .inl (Cache.mem_of_mem_get h)
    | purge time => exact .inl (List.mem_filter.mp h).1
  | _ => exact .inl h

/-- What is in a cache after some events was there before, or was put in by one of them. -/
theorem mem_or_put_of_mem_replay {cache : RecordCache} {events : List Event}
    {entry : Cache.Entry CacheKey (List Record)} (h : entry ∈ (replay cache events).entries) :
    entry ∈ cache.entries ∨ ∃ earlier ttl time later,
      events = earlier ++ .cached (.put entry.key entry.value ttl time) :: later ∧
        entry.expires = time + ttl * cache.second := by
  induction events generalizing cache with
  | nil => exact .inl h
  | cons event events ih =>
    have hreplay := replay_append cache [event] events
    rw [List.singleton_append] at hreplay
    rw [hreplay] at h
    rcases ih h with hmem | ⟨earlier, ttl, time, later, rfl, hexpires⟩
    · rcases mem_or_put_of_mem_replay_singleton hmem with hold | ⟨ttl, time, rfl, hexpires⟩
      · exact .inl hold
      · exact .inr ⟨[], ttl, time, events, rfl, hexpires⟩
    · rw [second_replay] at hexpires
      exact .inr ⟨event :: earlier, ttl, time, later, rfl, hexpires⟩

end Event

theorem Sourced.mem_or_storedBy {cache : RecordCache} {events : List Event}
    {entry : Cache.Entry CacheKey (List Record)} (h : Sourced events)
    (hentry : entry ∈ (replay cache events).entries) :
    entry ∈ cache.entries ∨ StoredBy cache.second events entry := by
  rcases Event.mem_or_put_of_mem_replay hentry with
    hold | ⟨earlier, ttl, time, later, hsplit, hexpires⟩
  · exact .inl hold
  · obtain ⟨before, exchange, rfl, hyields⟩ := h _ _ _ _ _ _ hsplit
    rw [List.append_assoc] at hsplit
    exact .inr ⟨before, exchange, ttl, time, later, hsplit, hyields, hexpires⟩

/-- After an exchange without an accepted reply that has answers, nothing comes into the cache until
the next exchange. -/
theorem Sourced.mem_of_unanswered {cache : RecordCache} {earlier between later : List Event}
    {exchange : Exchange} {entry : Cache.Entry CacheKey (List Record)}
    (h : Sourced (earlier ++ .exchanged exchange :: between ++ later))
    (hbetween : exchanges between = [])
    (hunanswered : ∀ reply, exchange.accepted? = some reply → reply.answers = [])
    (hentry : entry ∈ (replay cache (earlier ++ .exchanged exchange :: between)).entries) :
    entry ∈ (replay cache earlier).entries := by
  rw [Event.replay_append] at hentry
  rcases Event.mem_or_put_of_mem_replay hentry with hold | ⟨front, ttl, time, behind, hsplit, -⟩
  · exact hold
  · -- An insertion has its source right before it, which could only be the exchange itself.
    exfalso
    cases front with
    | nil => cases hsplit
    | cons event front =>
      have hshape : between = front ++ .cached (.put entry.key entry.value ttl time) :: behind :=
        (List.cons.inj hsplit).2
      subst hshape
      have htrace : earlier ++ .exchanged exchange ::
            (front ++ .cached (.put entry.key entry.value ttl time) :: behind) ++ later =
          (earlier ++ .exchanged exchange :: front) ++
            .cached (.put entry.key entry.value ttl time) :: (behind ++ later) := by
        simp only [List.append_assoc, List.cons_append]
      obtain ⟨before, source, hbefore, hyields⟩ := h _ _ _ _ _ _ htrace
      rcases List.eq_nil_or_concat' front with rfl | ⟨front, last, rfl⟩
      · obtain ⟨-, hlast⟩ := List.append_inj' hbefore rfl
        cases hlast
        obtain ⟨reply, haccepted, hanswers⟩ := hyields.answers
        obtain ⟨first, others, hrecords, -⟩ := hyields.lives
        rw [hunanswered reply haccepted, hrecords] at hanswers
        cases hanswers
      · rw [← List.cons_append, ← List.append_assoc] at hbefore
        obtain ⟨-, hlast⟩ := List.append_inj' hbefore rfl
        cases hlast
        have hnone := List.filterMap_eq_nil_iff.mp hbetween (.exchanged source)
          (List.mem_append_left _ List.mem_concat_self)
        cases hnone

namespace Resolver

variable {config : ResolverConfig} {name : Name} {type : RecordType}

section Missed

variable {cache : RecordCache} {walked kept : List Event} {found : List Record} {first : Record}
  {others : List Record}

theorem Missed.sourced (h : Missed config name type cache walked found) : Sourced walked := by
  cases h with
  | @intro time start events _ _ hsearched =>
    have hlookUp : Sourced [.cached (.get (.of name type) time), .cacheMiss name type] := by
      apply Sourced.of_forall_ne
      intro key records ttl time hmem
      simp at hmem
    exact hlookUp.append (Sourced.of_uses_eq_nil hsearched.uses_eq_nil)

/-- What a search finds is stored right after the exchange that yields it. -/
theorem Missed.exists_storing
    (hmissed : Missed config name type cache walked (first :: others))
    (hkept : Kept (.of name type) first others kept) :
    ∃ before exchange time evicted,
      walked ++ kept = before ++ .exchanged exchange ::
        .cached (.put (.of name type) (first :: others) first.ttl.toNat time) :: evicted ∧
      exchange.Yields (.of name type) (first :: others) first.ttl.toNat ∧
      Sourced before ∧ Sourced evicted := by
  have hwalked : Sourced walked := hmissed.sourced
  obtain ⟨before, exchange, rfl, hyields⟩ : ∃ before exchange,
      walked = before ++ [.exchanged exchange] ∧
        exchange.Yields (.of name type) (first :: others) first.ttl.toNat := by
    cases hmissed with
    | intro _ hsearched =>
      obtain ⟨before, exchange, reply, rfl, hasks, hreply⟩ :=
        hsearched.exists_last (List.cons_ne_nil first others)
      refine ⟨_ :: _ :: before, exchange, rfl, ?_⟩
      exact ⟨⟨name, type, rfl, hasks⟩, ⟨reply, hreply⟩, ⟨first, others, rfl, rfl⟩⟩
  cases hkept with
  | @intro time evicted hquiet =>
    have hevicted : Sourced evicted := Sourced.of_uses_eq_nil (Event.uses_of_quiet hquiet)
    exact ⟨before, exchange, time, evicted, List.append_assoc .., hyields, hwalked.of_append,
      hevicted⟩

theorem Missed.sourced_append
    (hmissed : Missed config name type cache walked (first :: others))
    (hkept : Kept (.of name type) first others kept) :
    Sourced (walked ++ kept) := by
  obtain ⟨before, exchange, time, evicted, hevents, hyields, hbefore, hevicted⟩ :=
    hmissed.exists_storing hkept
  rw [hevents]
  exact hbefore.append ((Sourced.pair hyields time).append hevicted)

theorem Missed.exists_storedBy
    (hmissed : Missed config name type cache walked (first :: others))
    (hkept : Kept (.of name type) first others kept) (second : Nat) :
    ∃ entry, entry.value = first :: others ∧ StoredBy second (walked ++ kept) entry := by
  obtain ⟨before, exchange, time, evicted, hevents, hyields, -, -⟩ :=
    hmissed.exists_storing hkept
  refine ⟨⟨.of name type, first :: others, time + first.ttl.toNat * second⟩, rfl, ?_⟩
  exact ⟨before, exchange, first.ttl.toNat, time, evicted, hevents, hyields, rfl⟩

theorem Missed.sourced_following
    (hmissed : Missed config name type cache walked (first :: others))
    (hkept : Kept (.of name type) first others kept) (target : Name) :
    Sourced (walked ++ (kept ++ [.following name target])) := by
  have hfollowing : Sourced [.following name target] := Sourced.of_uses_eq_nil rfl
  rw [← List.append_assoc]
  exact (hmissed.sourced_append hkept).append hfollowing

end Missed

/-! ## Resolutions -/

theorem Resolved.sourced {depth : Nat} {cache : RecordCache} {events : List Event}
    {records : List Record} (h : Resolved config name type depth cache events records) :
    Sourced events := by
  induction h with
  | tooDeep => exact Sourced.of_uses_eq_nil rfl
  | hit =>
    apply Sourced.of_forall_ne
    intro key records ttl time hmem
    simp at hmem
  | failed _ hmissed => exact hmissed.sourced
  | found _ hmissed hkept => exact hmissed.sourced_append hkept
  | @aliased _ target _ _ _ _ _ _ _ _ _ _ hmissed hkept _ _ ih =>
    have hsourced := (hmissed.sourced_following hkept target).append ih
    simp only [List.append_assoc, List.singleton_append] at hsourced
    exact hsourced

/-- What a name resolves to is the value of an entry that was in the cache or has been stored. -/
theorem Resolved.exists_entry {depth : Nat} {cache : RecordCache} {events : List Event}
    {records : List Record} (h : Resolved config name type depth cache events records)
    (hne : records ≠ []) :
    ∃ entry, entry.value = records ∧
      (entry ∈ cache.entries ∨ StoredBy cache.second events entry) := by
  induction h with
  | tooDeep => exact absurd rfl hne
  | hit _ hget =>
    obtain ⟨entry, hentry, -, hvalue, -⟩ := Cache.exists_of_get_eq_some hget
    exact ⟨entry, hvalue, .inl hentry⟩
  | failed => exact absurd rfl hne
  | found _ hmissed hkept =>
    obtain ⟨entry, hvalue, hstored⟩ := hmissed.exists_storedBy hkept _
    exact ⟨entry, hvalue, .inr hstored⟩
  | @aliased name target type _ cache walked kept later _ _ _ _ hmissed hkept _ _ ih =>
    have hsourced := hmissed.sourced_following hkept target
    have hevents : walked ++ (kept ++ .following name target :: later) =
        walked ++ (kept ++ [.following name target]) ++ later := by
      simp only [List.append_assoc, List.singleton_append]
    rw [Event.second_replay] at ih
    rw [hevents]
    obtain ⟨entry, hvalue, hmem | hstored⟩ := ih hne
    · rcases hsourced.mem_or_storedBy hmem with hold | hstored
      · exact ⟨entry, hvalue, .inl hold⟩
      · exact ⟨entry, hvalue, .inr (hstored.append_right later)⟩
    · exact ⟨entry, hvalue, .inr (hstored.append_left _)⟩

theorem Handled.sourced {message : Message} {cache : RecordCache}
    {result : Except HandleError (Option Message)} {events : List Event}
    (h : Handled config message cache result events) :
    Sourced events := by
  cases h with
  | unresolved hquiet => exact Sourced.of_uses_eq_nil (Event.uses_of_quiet hquiet)
  | @resolved _ _ _ event events _ _ _ _ hquiet hresolved =>
    have hevent : Sourced [event] := by
      apply Sourced.of_uses_eq_nil
      exact Event.uses_of_quiet (List.forall_mem_singleton.mpr hquiet)
    exact hevent.append hresolved.sourced

/-! ## Runs -/

variable {σ : Type} {resolver : Resolver σ} {state : State σ}

theorem notes_call_sourced (call : Call) (cache : RecordCache) :
    Notes resolver cache (resolver.call call) fun _ events => Sourced events := by
  cases call with
  | handle message =>
    refine (notes_handle message cache).bind_pure ?_
    intro result events hhandled
    exact hhandled.sourced
  | resolve name type depth =>
    refine (notes_resolve name type depth cache).bind_pure ?_
    intro records events hresolved
    exact hresolved.sourced

/-- The trace of a reachable state is its whole history, with every insertion right after the
exchange that yields what it stores. -/
theorem Reachable.noted_and_sourced (h : resolver.Reachable state) :
    (∃ network, Noted resolver (resolver.initial network) state.trace state) ∧
      Sourced state.trace := by
  have hstep {before after : State σ} {events : List Event}
      (hbefore : (∃ network, Noted resolver (resolver.initial network) before.trace before) ∧
        Sourced before.trace)
      (hsourced : Sourced events) (hevents : Noted resolver before events after) :
      (∃ network, Noted resolver (resolver.initial network) after.trace after) ∧
        Sourced after.trace := by
    obtain ⟨⟨network, hnoted⟩, htrace⟩ := hbefore
    rw [hevents.trace]
    exact ⟨⟨network, hnoted.trans hevents⟩, htrace.append hsourced⟩
  induction h with
  | initial network => exact ⟨⟨network, Noted.refl _⟩, Sourced.of_uses_eq_nil rfl⟩
  | @call state call _ ih =>
    obtain ⟨events, hsourced, hevents⟩ := notes_call_sourced call state.cache state rfl
    exact hstep ih hsourced hevents
  | @serve state message _ ih =>
    obtain ⟨events, hhandled, hevents⟩ := notes_serveMessage message state.cache state rfl
    exact hstep ih hhandled.sourced hevents

theorem Noted.storedBy {network : σ}
    (hnoted : Noted resolver (resolver.initial network) state.trace state)
    (hsourced : Sourced state.trace) {entry : Cache.Entry CacheKey (List Record)}
    (hentry : entry ∈ state.cache.entries) :
    StoredBy resolver.second state.trace entry := by
  rw [hnoted.cache] at hentry
  rcases hsourced.mem_or_storedBy hentry with hold | hstored
  · cases hold
  · exact hstored

theorem Noted.exists_entry_of_resolve {network : σ}
    (hnoted : Noted resolver (resolver.initial network) state.trace state)
    (hsourced : Sourced state.trace) {name : Name} {type : RecordType} {depth : Nat}
    (hne : (resolver.resolve name type depth state).1 ≠ []) :
    ∃ entry, entry.value = (resolver.resolve name type depth state).1 ∧
      StoredBy resolver.second (resolver.resolve name type depth state).2.trace entry := by
  obtain ⟨events, hresolved, hevents⟩ := notes_resolve name type depth state.cache state rfl
  obtain ⟨entry, hvalue, hentry⟩ := hresolved.exists_entry hne
  have hsecond : state.cache.second = resolver.second := by
    rw [hnoted.cache, Event.second_replay]
    rfl
  refine ⟨entry, hvalue, ?_⟩
  rw [hevents.trace]
  rw [hsecond] at hentry
  rcases hentry with hold | hstored
  · exact (hnoted.storedBy hsourced hold).append_right events
  · exact hstored.append_left state.trace

/-- What the question of a request resolves to is stored while the request is handled, or has been
before. -/
theorem Noted.exists_entry_of_handle {network : σ}
    (hnoted : Noted resolver (resolver.initial network) state.trace state)
    (hsourced : Sourced state.trace) {message : Message} {request : Packet} {question : Question}
    {others : List Question} (hmark : ¬MarkedResponse message.data)
    (hread : Packet.ofOctets message.data = .ok request)
    (hquestions : request.questions = question :: others)
    (hne : resolver.resolved state question ≠ []) :
    ∃ entry, entry.value = resolver.resolved state question ∧
      StoredBy resolver.second (resolver.handle message state).2.trace entry := by
  rw [← MessageKind.of?_eq_response_iff] at hmark
  let event : Event := .request request.header.id message.peer question
  have hevent : Noted resolver (resolver.initial network) (state.trace ++ [event])
      (note event state).2 := by
    have hnotes : Notes resolver state.cache (note event) fun _ events => events = [event] :=
      notes_note ⟨rfl, rfl⟩
    obtain ⟨_, rfl, hadded⟩ := hnotes state rfl
    exact hnoted.trans hadded
  have hsourcedEvent : Sourced (state.trace ++ [event]) :=
    hsourced.append (Sourced.of_uses_eq_nil rfl)
  have hresolved := resolve_note resolver event question.name question.type 0 state
  rw [resolved, ← hresolved] at hne ⊢
  rw [handle_of_question hmark hread hquestions]
  exact hevent.exists_entry_of_resolve hsourcedEvent hne

/-- Where records come from, in every reachable state over any network.  The trace is the whole
history of the cache.  Each of its entries, and all that a name or the question of a request
resolves to, is the answer section of an accepted reply, stored to expire when its first record
does.  After an exchange that brought no such reply, no entry comes in before the next exchange. -/
theorem Reachable.provenance (h : resolver.Reachable state) :
    (∃ network, Noted resolver (resolver.initial network) state.trace state) ∧
      (∀ entry ∈ state.cache.entries,
        StoredBy resolver.second state.trace entry ∧ entry.value.length ≤ 65535 ∧
          ∀ record ∈ entry.value, record.data.Canonical ∧ record.data.Fits) ∧
      (∀ name type depth, (resolver.resolve name type depth state).1 ≠ [] →
        ∃ entry, entry.value = (resolver.resolve name type depth state).1 ∧
          StoredBy resolver.second (resolver.resolve name type depth state).2.trace entry) ∧
      (∀ (message : Message) request question others, ¬MarkedResponse message.data →
        Packet.ofOctets message.data = .ok request → request.questions = question :: others →
          resolver.resolved state question ≠ [] →
            ∃ entry, entry.value = resolver.resolved state question ∧
              StoredBy resolver.second (resolver.handle message state).2.trace entry) ∧
      ∀ earlier exchange between later,
        state.trace = earlier ++ .exchanged exchange :: between ++ later →
          exchanges between = [] →
            (∀ reply, exchange.accepted? = some reply → reply.answers = []) →
              ∀ entry ∈ (replay (.empty resolver.config.cacheCapacity resolver.second)
                  (earlier ++ .exchanged exchange :: between)).entries,
                entry ∈ (replay (.empty resolver.config.cacheCapacity resolver.second)
                  earlier).entries := by
  obtain ⟨⟨network, hnoted⟩, hsourced⟩ := h.noted_and_sourced
  refine ⟨⟨network, hnoted⟩, ?_, ?_, ?_, ?_⟩
  · intro entry hentry
    have hstored := hnoted.storedBy hsourced hentry
    have hsection := hstored.answerSection
    exact ⟨hstored, hsection.length_le, hsection.canonical_and_fits⟩
  · intro name type depth hne
    exact hnoted.exists_entry_of_resolve hsourced hne
  · intro message request question others hmark hread hquestions hne
    exact hnoted.exists_entry_of_handle hsourced hmark hread hquestions hne
  · intro earlier exchange between later htrace hbetween hunanswered entry hentry
    rw [htrace] at hsourced
    exact hsourced.mem_of_unanswered hbetween hunanswered hentry

/-- What has happened once the address of `y.x` is known. -/
def hostState : State Unit :=
  (hostResolver.resolve Packet.hostName .a 0 (hostResolver.initial ())).2

theorem entries_hostState :
    hostState.cache.entries = [⟨.of Packet.hostName .a, hostReply.answers, 60000⟩] := by
  have hroots (state : State Unit) :
      (hostResolver.rootCandidates state).1 = [.v4 ⟨192, 0, 2, 53⟩ dnsPort] :=
    rfl
  rw [hostState, resolve_of_le (Nat.zero_le _)]
  change (hostResolver.resolveAfresh Packet.hostName .a 0 _).2.cache.entries = _
  rw [resolveAfresh, bind_apply, bind_apply, bind_apply, hroots, search_hostResolver]
  rfl

theorem provenance_hostState :
    hostResolver.Reachable hostState ∧
      ∃ entry ∈ hostState.cache.entries, entry.value = hostReply.answers ∧
        entry.expires = 60000 ∧ StoredBy 1000 hostState.trace entry := by
  have hreachable : hostResolver.Reachable hostState :=
    .call (.resolve Packet.hostName .a 0) (.initial ())
  have hentry : (⟨.of Packet.hostName .a, hostReply.answers, 60000⟩ : Cache.Entry _ _) ∈
      hostState.cache.entries := by
    rw [entries_hostState]
    exact List.mem_singleton_self _
  obtain ⟨hstored, -⟩ := hreachable.provenance.2.1 _ hentry
  exact ⟨hreachable, _, hentry, rfl, rfl, hstored⟩

end Resolver
end DnsResolver
