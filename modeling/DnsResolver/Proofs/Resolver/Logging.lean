import DnsResolver.Proofs.Log.Printable
import DnsResolver.Proofs.Reader.Failures
import DnsResolver.Proofs.Resolver.Replies

/-!
# What is logged

Names, addresses, types and questions go into the log in printable characters, and so do the errors
that reading a message ends with.  What the network reports about itself is quoted; if that is
printable, too, then every text in the log is, whatever clients and servers send.  Such a text is
written as it is, and its entry is one line of the system log, behind its priority.
-/

namespace DnsResolver

/-! ## Legible entries -/

namespace LogEntry

/-- All that the entry says is printable. -/
structure Legible (entry : LogEntry) : Prop where
  origin : Printable entry.origin
  message : Printable entry.message

end LogEntry

theorem IsPrintable.not_steers {c : Char} (h : IsPrintable c) : Escaped.steers c = false := by
  have hne : ∀ d : Char, d.toNat < 32 → c ≠ d := by
    rintro d hd rfl
    exact absurd h.1 (Nat.not_le.mpr hd)
  have hbeyond : ¬127 ≤ c.toNat := Nat.not_le.mpr h.2
  simp [Escaped.steers, hne, hbeyond]

theorem Printable.escaped {text : String} (h : Printable text) : Escaped.ofString text = text :=
  Escaped.ofString_of_forall fun c hc => (h c hc).not_steers

theorem Printable.newline_not_mem {text : String} (h : Printable text) : '\n' ∉ text.toList :=
  fun hmem => absurd (h '\n' hmem) (by decide)

namespace LogEntry

variable {entry : LogEntry}

theorem Legible.systemLine_eq (h : entry.Legible) :
    entry.systemLine = s!"<{entry.level.priority}>{entry.origin}: {entry.message}" := by
  rw [systemLine, h.message.escaped]

theorem Legible.printable_systemLine (h : entry.Legible) : Printable entry.systemLine := by
  rw [h.systemLine_eq]
  simp only [printable_append, printable_toString, printable_nat, h.origin, h.message]
  decide

/-- The characters of a log: those of its lines, each with its end. -/
def written (lines : List String) : List Char :=
  lines.flatMap fun line => line.toList ++ ['\n']

theorem written_eq_intercalate (lines : List String) :
    written lines = ['\n'].intercalate (lines.map String.toList ++ [[]]) := by
  induction lines with
  | nil => rfl
  | cons line lines ih =>
    have hne : lines.map String.toList ++ [[]] ≠ [] :=
      List.append_ne_nil_of_right_ne_nil _ (List.cons_ne_nil [] [])
    rw [written, List.flatMap_cons, ← written, ih, List.map_cons, List.cons_append,
      List.intercalate_cons_of_ne_nil hne]

/-- Nothing that is written in printable lines reads as another line. -/
theorem splitOn_written {lines : List String} (h : ∀ line ∈ lines, Printable line) :
    (written lines).splitOn '\n' = lines.map String.toList ++ [[]] := by
  have hbreak : ∀ text ∈ lines.map String.toList ++ [[]], '\n' ∉ text := by
    refine List.forall_mem_append.mpr ⟨?_, List.forall_mem_singleton.mpr List.not_mem_nil⟩
    exact List.forall_mem_map.mpr fun line hline => (h line hline).newline_not_mem
  rw [written_eq_intercalate]
  exact List.splitOn_intercalate '\n' hbreak
    (List.append_ne_nil_of_right_ne_nil _ (List.cons_ne_nil [] []))

theorem printable_of_mem_lines {most : LogLevel} {entries : List LogEntry}
    (h : ∀ entry ∈ entries, entry.Legible) :
    ∀ line ∈ lines .systemd most entries, Printable line := by
  intro line hline
  obtain ⟨entry, hentry, rfl⟩ := List.mem_map.mp hline
  exact (h entry (List.mem_of_mem_filter hentry)).printable_systemLine

end LogEntry

/-! ## Legible events -/

theorem QueryError.printable_idMismatch (expected found : UInt16) :
    Printable (idMismatch expected found).message := by
  unfold message
  simp only [printable_append, printable_toString, printable_word]
  decide

namespace Event

/-- What is logged about the event, if anything is, is printable. -/
def Legible (event : Event) : Prop :=
  ∀ entry, event.logEntry? = some entry → entry.Legible

theorem legible_of_message {event : Event} {entry : LogEntry} (h : event.logEntry? = some entry)
    (horigin : Printable entry.origin) (hmessage : Printable entry.message) :
    event.Legible := by
  intro other hother
  rw [h] at hother
  cases hother
  exact ⟨horigin, hmessage⟩

theorem printable_origin : Printable "dns_recursor::resolver" := by
  decide

/-- An event that reports no error is made up of names, addresses, types and numbers. -/
theorem legible_of_not_reportsError {event : Event} (h : ¬event.ReportsError) :
    event.Legible := by
  intro entry hentry
  unfold logEntry? at hentry
  cases event with
  | malformed => exact absurd trivial h
  | dropped => exact absurd trivial h
  | queryFailed => exact absurd trivial h
  | cached => cases hentry
  | exchanged => cases hentry
  | _ =>
    cases hentry
    constructor
    · dsimp only
      decide
    · simp only [printable_append, printable_toString, printable_nat, printable_word,
        Name.printable, RecordType.printable, SocketAddress.printable, Question.printable]
      decide

theorem legible_malformed (id : UInt16) (peer : SocketAddress) {error : DecodeError}
    (h : error.QuotesNoLabel) :
    (malformed id peer error).Legible := by
  refine legible_of_message rfl printable_origin ?_
  simp only [printable_append, printable_toString, printable_word, SocketAddress.printable,
    DecodeError.printable_message h]
  decide

theorem legible_dropped (peer : SocketAddress) (error : HandleError) :
    (dropped peer error).Legible := by
  refine legible_of_message rfl printable_origin ?_
  simp only [printable_append, printable_toString, SocketAddress.printable,
    error.printable_message]
  decide

theorem legible_queryFailed (name : Name) (type : RecordType) (server : SocketAddress)
    {error : QueryError} (h : Printable error.message) :
    (queryFailed name type server error).Legible := by
  refine legible_of_message rfl printable_origin ?_
  simp only [printable_append, printable_toString, Name.printable, RecordType.printable,
    SocketAddress.printable, h]
  decide

end Event

namespace Resolver

variable {σ : Type}

/-- What the network says about itself is printable, whatever has been asked before. -/
def NetworkLegible (network : Network σ) : Prop :=
  ∀ server query state address source,
    (network server query state).1 = .error (.io address source) → Printable source

/-- Everything that has been logged is printable. -/
def TraceLegible (state : State σ) : Prop :=
  ∀ event ∈ state.trace, event.Legible

/-! ## Steps -/

theorem note_legible {event : Event} (h : event.Legible) :
    Ensures (σ := σ) TraceLegible (note event) fun _ => TraceLegible :=
  fun _ hlegible => List.forall_mem_append.mpr ⟨hlegible, List.forall_mem_singleton.mpr h⟩

theorem legible_evictions (cache : RecordCache) (key : CacheKey) :
    ∀ event ∈ evictions cache key, event.Legible := by
  rw [evictions]
  split
  · exact List.forall_mem_singleton.mpr (Event.legible_of_not_reportsError id)
  · exact List.forall_mem_nil _

theorem legible_foreignReferrals (name : Name) (reply : Packet) :
    ∀ event ∈ foreignReferrals name reply, event.Legible := by
  intro event hevent
  obtain ⟨⟨zone, host⟩, -, hforeign⟩ := List.mem_filterMap.mp hevent
  dsimp only at hforeign
  split at hforeign
  · cases hforeign
  · cases hforeign
    exact Event.legible_of_not_reportsError id

theorem lookUp_legible (resolver : Resolver σ) (key : CacheKey) :
    Ensures TraceLegible (resolver.lookUp key) fun _ => TraceLegible := by
  intro state hlegible
  rw [lookUp_apply]
  have hcached : (Event.cached (.get key (resolver.clock state.readings))).Legible :=
    Event.legible_of_not_reportsError id
  exact List.forall_mem_append.mpr ⟨hlegible, List.forall_mem_singleton.mpr hcached⟩

theorem store_legible (resolver : Resolver σ) (key : CacheKey) (records : List Record)
    (ttl : UInt32) :
    Ensures TraceLegible (resolver.store key records ttl) fun _ => TraceLegible := by
  intro state hlegible
  rw [store_apply]
  have hcached :
      (Event.cached (.put key records ttl.toNat (resolver.clock state.readings))).Legible :=
    Event.legible_of_not_reportsError id
  refine List.forall_mem_append.mpr ⟨List.forall_mem_append.mpr ⟨hlegible, ?_⟩, ?_⟩
  · exact List.forall_mem_singleton.mpr hcached
  · exact legible_evictions state.cache key

theorem referral_legible (resolver : Resolver σ) (name : Name) (reply : Packet) :
    Ensures TraceLegible (resolver.referral name reply) fun _ => TraceLegible := by
  intro state hlegible
  rw [referral]
  cases resolver.config.referralPolicy with
  | ignore => exact hlegible
  | follow =>
    exact List.forall_mem_append.mpr ⟨hlegible, legible_foreignReferrals name reply⟩

theorem rootCandidates_legible (resolver : Resolver σ) :
    Ensures TraceLegible resolver.rootCandidates fun _ => TraceLegible := by
  intro state hlegible
  rw [rootCandidates_apply]
  exact hlegible

/-- The reason why a reply is not accepted is printable, unless the network words it otherwise. -/
theorem printable_of_acceptReply_eq_error {id : UInt16} {outcome : Except ExchangeError Octets}
    (houtcome : ∀ server source, outcome = .error (.io server source) → Printable source)
    {error : QueryError} (h : acceptReply id outcome = .error error) :
    Printable error.message := by
  cases outcome with
  | error fault =>
    cases h
    refine ExchangeError.printable_message ?_
    rintro server source rfl
    exact houtcome server source rfl
  | ok octets =>
    rw [acceptReply] at h
    split at h
    next hread =>
      cases h
      exact DecodeError.printable_message (Packet.quotesNoLabel_of_ofOctets_eq_error hread)
    next =>
      split at h
      · cases h
      · cases h
        exact QueryError.printable_idMismatch _ _

theorem ask_legible {resolver : Resolver σ} (hnetwork : NetworkLegible resolver.network)
    (server : SocketAddress) (name : Name) (type : RecordType) :
    Ensures TraceLegible (resolver.ask server name type) fun result state =>
      TraceLegible state ∧ ∀ error, result = .error error → Printable error.message := by
  intro state hlegible
  constructor
  · refine List.forall_mem_append.mpr ⟨hlegible, List.forall_mem_singleton.mpr ?_⟩
    exact Event.legible_of_not_reportsError id
  · intro error herror
    refine printable_of_acceptReply_eq_error ?_ herror
    exact fun address source => hnetwork server _ state.network address source

/-! ## Searches, resolutions and replies -/

section Legible

variable {resolver : Resolver σ} (hnetwork : NetworkLegible resolver.network)
include hnetwork

theorem search_legible (name : Name) (type : RecordType) (budget : Nat)
    (candidates : List SocketAddress) :
    Ensures TraceLegible (resolver.search name type budget candidates) fun _ => TraceLegible := by
  have hsearch := Ensures.search
    (fun event hplain _ => note_legible (Event.legible_of_not_reportsError hplain))
    (fun server error hgood =>
      note_legible (Event.legible_queryFailed name type server (hgood error rfl)))
    (fun server => ask_legible hnetwork server name type) (referral_legible resolver name)
    budget candidates
  exact hsearch.mono fun _ _ h => h.1

theorem resolve_legible (depth : Nat) (name : Name) (type : RecordType) :
    Ensures TraceLegible (resolver.resolve name type depth) fun _ => TraceLegible := by
  have hresolve : Ensures TraceLegible (resolver.resolve name type depth) fun records state =>
      TraceLegible state ∧ (records ≠ [] → ∃ _ : CacheKey, True) :=
    Ensures.resolve
      (fun event hplain _ => note_legible (Event.legible_of_not_reportsError hplain))
      (fun key => (lookUp_legible resolver key).mono fun _ _ h => ⟨h, fun _ _ => trivial⟩)
      (rootCandidates_legible resolver)
      (fun name type candidates => (search_legible hnetwork name type maxQueries candidates).mono
        fun _ _ h => ⟨h, fun _ => trivial⟩)
      (fun key first others _ => store_legible resolver key (first :: others) first.ttl)
      depth name type
  exact hresolve.mono fun _ _ h => h.1

theorem handle_legible (message : Message) :
    Ensures TraceLegible (resolver.handle message) fun _ => TraceLegible := by
  refine Ensures.handle
    (fun event hplain _ => note_legible (Event.legible_of_not_reportsError hplain)) ?_
    (resolve_legible hnetwork 0) message
  intro id peer octets error hread
  have hquotes := Packet.quotesNoLabel_of_ofOctets_eq_error hread
  exact note_legible (Event.legible_malformed id peer hquotes)

theorem serveMessage_legible (message : Message) :
    Ensures TraceLegible (resolver.serveMessage message) fun _ => TraceLegible :=
  Ensures.serveMessage
    (fun error => note_legible (Event.legible_dropped message.peer error))
    (handle_legible hnetwork message)

theorem Reachable.traceLegible {state : State σ} (h : resolver.Reachable state) :
    TraceLegible state :=
  h.invariant (fun _ => List.forall_mem_nil _) (handle_legible hnetwork)
    (fun name type depth => resolve_legible hnetwork depth name type)
    (serveMessage_legible hnetwork)

end Legible

/-! ## The log -/

/-- What has been logged, in order. -/
def State.log (state : State σ) : List LogEntry :=
  state.trace.filterMap Event.logEntry?

theorem Reachable.log_legible {resolver : Resolver σ} (hnetwork : NetworkLegible resolver.network)
    {state : State σ} (h : resolver.Reachable state) :
    ∀ entry ∈ state.log, entry.Legible := by
  intro entry hentry
  obtain ⟨event, hevent, hlogged⟩ := List.mem_filterMap.mp hentry
  exact h.traceLegible hnetwork event hevent entry hlogged

/-- In every reachable state, all texts that have been logged are printable, and each entry is one
line of the system log, behind its priority: splitting the log at its line breaks gives back the
lines of the entries. -/
theorem Reachable.logs_one_line_each {resolver : Resolver σ}
    (hnetwork : NetworkLegible resolver.network) {state : State σ} (h : resolver.Reachable state)
    (most : LogLevel) :
    (∀ entry ∈ state.log,
        Printable entry.message ∧
        entry.systemLine = s!"<{entry.level.priority}>{entry.origin}: {entry.message}" ∧
        Printable entry.systemLine) ∧
      (LogEntry.written (LogEntry.lines .systemd most state.log)).splitOn '\n' =
        (LogEntry.lines .systemd most state.log).map String.toList ++ [[]] := by
  have hlegible := h.log_legible hnetwork
  constructor
  · intro entry hentry
    have hentry := hlegible entry hentry
    exact ⟨hentry.message, hentry.systemLine_eq, hentry.printable_systemLine⟩
  · exact LogEntry.splitOn_written (LogEntry.printable_of_mem_lines hlegible)

/-- A resolver whose root refuses to talk to it. -/
def refusedResolver : Resolver Unit :=
  { hostResolver with network := fun server _ => pure (.error (.io server "connection refused")) }

/-- The state after the resolver has tried to find the address of `y.x`. -/
def refusedState : State Unit :=
  (refusedResolver.resolve Packet.hostName .a 0 (refusedResolver.initial ())).2

theorem systemLines_refusedState :
    LogEntry.lines .systemd .debug refusedState.log =
      ["<7>dns_recursor::resolver: Cache miss for y.x A",
        "<7>dns_recursor::resolver: Query for y.x A to 192.0.2.53:53 failed: " ++
          "Failed to exchange a message with 192.0.2.53:53: connection refused"] := by
  rw [refusedState, resolve_of_le (Nat.zero_le _)]
  decide +kernel

theorem logs_one_line_each_refusedState :
    refusedResolver.Reachable refusedState ∧ NetworkLegible refusedResolver.network ∧
      (∀ entry ∈ refusedState.log, Printable entry.systemLine) ∧
      (LogEntry.written (LogEntry.lines .systemd .debug refusedState.log)).splitOn '\n' =
        ["<7>dns_recursor::resolver: Cache miss for y.x A",
          "<7>dns_recursor::resolver: Query for y.x A to 192.0.2.53:53 failed: " ++
            "Failed to exchange a message with 192.0.2.53:53: connection refused"].map
          String.toList ++ [[]] := by
  have hreachable : refusedResolver.Reachable refusedState :=
    .call (.resolve Packet.hostName .a 0) (.initial ())
  have hnetwork : NetworkLegible refusedResolver.network := by
    rintro server query state address source ⟨rfl⟩
    decide
  obtain ⟨hentries, hlines⟩ := hreachable.logs_one_line_each hnetwork .debug
  refine ⟨hreachable, hnetwork, fun entry hentry => (hentries entry hentry).2.2, ?_⟩
  rw [hlines, systemLines_refusedState]

end Resolver
end DnsResolver
