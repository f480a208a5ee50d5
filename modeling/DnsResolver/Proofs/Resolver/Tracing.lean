import DnsResolver.Proofs.Resolver.Pairs

/-!
# The trace is only written

What happened before is noted in the trace but never read back.  From states that differ in nothing
but the trace, every step gives the same value and leaves states that differ in nothing else, so a
name resolves to the same records, and a message gets the same reply, whatever has been noted.
-/

namespace DnsResolver
namespace Resolver

variable {σ : Type}

/-- The states differ in nothing but the trace. -/
def SameButTrace (s t : State σ) : Prop :=
  ∃ trace, t = { s with trace }

theorem SameButTrace.refl (state : State σ) : SameButTrace state state :=
  ⟨state.trace, rfl⟩

theorem SameButTrace.trans {s t u : State σ} (hst : SameButTrace s t) (htu : SameButTrace t u) :
    SameButTrace s u := by
  obtain ⟨_, rfl⟩ := hst
  obtain ⟨trace, rfl⟩ := htu
  exact ⟨trace, rfl⟩

theorem sameButTrace_note (event : Event) (state : State σ) :
    SameButTrace state (note event state).2 :=
  ⟨_, rfl⟩

/-! ## Steps -/

/-- The action gives the same value whatever the trace is. -/
abbrev TraceBlind {α : Type} (action : Action σ α) : Prop :=
  Paired SameButTrace action action Eq

theorem sameButTrace_notesFreely : NotesFreely (σ := σ) (τ := σ) SameButTrace := by
  rintro event other - - s _ ⟨trace, rfl⟩
  exact ⟨rfl, _, rfl⟩

theorem referral_traceBlind (resolver : Resolver σ) (name : Name) (reply : Packet) :
    TraceBlind (resolver.referral name reply) := by
  rintro s _ ⟨trace, rfl⟩
  rw [referral]
  cases resolver.config.referralPolicy with
  | ignore => exact ⟨rfl, trace, rfl⟩
  | follow => exact ⟨rfl, _, rfl⟩

theorem rootCandidates_traceBlind (resolver : Resolver σ) :
    TraceBlind resolver.rootCandidates := by
  rintro s _ ⟨trace, rfl⟩
  rw [rootCandidates_apply, rootCandidates_apply]
  exact ⟨rfl, trace, rfl⟩

theorem ask_traceBlind (resolver : Resolver σ) (server : SocketAddress) (name : Name)
    (type : RecordType) :
    TraceBlind (resolver.ask server name type) := by
  rintro s _ ⟨trace, rfl⟩
  exact ⟨rfl, _, rfl⟩

theorem lookUp_traceBlind (resolver : Resolver σ) (key : CacheKey) :
    TraceBlind (resolver.lookUp key) := by
  rintro s _ ⟨trace, rfl⟩
  exact ⟨rfl, _, rfl⟩

theorem store_traceBlind (resolver : Resolver σ) (key : CacheKey) (records : List Record)
    (ttl : UInt32) :
    TraceBlind (resolver.store key records ttl) := by
  rintro s _ ⟨trace, rfl⟩
  exact ⟨rfl, _, rfl⟩

/-! ## Searches and resolutions -/

theorem search_traceBlind (resolver : Resolver σ) (name : Name) (type : RecordType) (budget : Nat)
    (candidates : List SocketAddress) :
    TraceBlind (resolver.search name type budget candidates) :=
  Paired.search sameButTrace_notesFreely (fun server => ask_traceBlind resolver server name type)
    (referral_traceBlind resolver name) budget candidates

theorem resolve_traceBlind (resolver : Resolver σ) (name : Name) (type : RecordType)
    (depth : Nat) :
    TraceBlind (resolver.resolve name type depth) := by
  refine Paired.resolve sameButTrace_notesFreely (@rfl Name) rfl ?_
    (rootCandidates_traceBlind resolver) ?_ ?_ depth type rfl
  · rintro name _ type rfl
    exact lookUp_traceBlind resolver (.of name type)
  · rintro name _ type candidates _ rfl rfl
    exact search_traceBlind resolver name type maxQueries candidates
  · rintro name _ type records ttl rfl
    exact store_traceBlind resolver (.of name type) records ttl

/-- What a name is resolved to does not depend on what is noted before. -/
theorem resolve_note (resolver : Resolver σ) (event : Event) (name : Name) (type : RecordType)
    (depth : Nat) (state : State σ) :
    (resolver.resolve name type depth (note event state).2).1 =
      (resolver.resolve name type depth state).1 := by
  have hpaired := resolve_traceBlind resolver name type depth
  exact (hpaired state (note event state).2 ⟨_, rfl⟩).1.symm

/-! ## Handling -/

theorem handle_traceBlind (resolver : Resolver σ) (message : Message) :
    TraceBlind (resolver.handle message) :=
  Paired.handle sameButTrace_notesFreely (resolve_traceBlind resolver) message

end Resolver
end DnsResolver
