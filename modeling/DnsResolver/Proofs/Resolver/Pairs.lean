import DnsResolver.Proofs.Resolver.Actions
import DnsResolver.Proofs.Resolver.Cases
import DnsResolver.Proofs.Resolver.Noting

/-!
# Runs side by side

Two resolvers work next to each other on names that are alike.  As long as their single steps keep
the states related and give both of them the same, so do searches, resolutions, replies and runs.
The rules are shown for steps that agree until the first resolver comes to some kind of state, and
then read for steps that agree for good.
-/

namespace DnsResolver
namespace Resolver

variable {σ τ : Type} {first : Resolver σ} {second : Resolver τ}
  {related : State σ → State τ → Prop}

/-- What the two note apart from exchanges and uses of the cache need not be the same. -/
def NotesFreely (related : State σ → State τ → Prop) : Prop :=
  ∀ event other : Event, event.Quiet → other.Quiet →
    Paired related (note event) (note other) Eq

/-! ## Until something happens -/

section Until

variable {stop : State σ → Prop}
  (hnote : ∀ event other : Event, event.Quiet → other.Quiet →
    PairedUntil stop related (note event) (note other))
include hnote

/-- Searches among the same candidates find the same, if each server gives both the same. -/
theorem PairedUntil.search {name other : Name} {type : RecordType}
    (hattempt : ∀ server, PairedUntil stop related (first.attempt server name type)
      (second.attempt server other type))
    (budget : Nat) (candidates : List SocketAddress) :
    PairedUntil stop related (first.search name type budget candidates)
      (second.search other type budget candidates) := by
  induction budget generalizing candidates with
  | zero =>
    cases candidates with
    | nil => exact pairedUntil_pure []
    | cons server rest =>
      exact (hnote _ _ ⟨rfl, rfl⟩ ⟨rfl, rfl⟩).bind fun _ => pairedUntil_pure []
  | succ budget ih =>
    cases candidates with
    | nil => exact pairedUntil_pure []
    | cons server rest =>
      rw [search_cons, search_cons]
      refine (hattempt server).bind fun result => ?_
      match result with
      | .failed error => exact (hnote _ _ ⟨rfl, rfl⟩ ⟨rfl, rfl⟩).bind fun _ => ih rest
      | .answered answer answers => exact pairedUntil_pure (answer :: answers)
      | .referred [] => exact (hnote _ _ ⟨rfl, rfl⟩ ⟨rfl, rfl⟩).bind fun _ => ih rest
      | .referred (next :: others) =>
        exact (hnote _ _ ⟨rfl, rfl⟩ ⟨rfl, rfl⟩).bind fun _ => ih (next :: others)

/-- Resolving names that are alike gives the same, if the caches and the searches do.  The names
behind aliases are the same for both. -/
theorem PairedUntil.resolve {alike : Name → Name → Prop} (hrefl : ∀ name, alike name name)
    (hdepth : first.config.maxDepth = second.config.maxDepth)
    (hlookUp : ∀ name other type, alike name other →
      PairedUntil stop related (first.lookUp (.of name type)) (second.lookUp (.of other type)))
    (hsearch : ∀ name other type, alike name other →
      PairedUntil stop related (first.searchRoots name type) (second.searchRoots other type))
    (hstore : ∀ name other type records ttl, alike name other →
      PairedUntil stop related (first.store (.of name type) records ttl)
        (second.store (.of other type) records ttl))
    (depth : Nat) {name other : Name} (type : RecordType) (halike : alike name other) :
    PairedUntil stop related (first.resolve name type depth) (second.resolve other type depth) := by
  induction depth using depth_induction first generalizing name other type with
  | tooDeep depth hdeep =>
    rw [resolve_of_tooDeep hdeep, resolve_of_tooDeep (hdepth ▸ hdeep)]
    exact (hnote _ _ ⟨rfl, rfl⟩ ⟨rfl, rfl⟩).bind fun _ => pairedUntil_pure []
  | deeper depth hle ih =>
    rw [resolve_of_le hle, resolve_of_le (hdepth ▸ hle)]
    refine (hlookUp name other type halike).bind fun found => ?_
    match found with
    | some records =>
      exact (hnote _ _ ⟨rfl, rfl⟩ ⟨rfl, rfl⟩).bind fun _ => pairedUntil_pure records
    | none =>
      simp only [resolveAfresh_eq]
      refine (hnote _ _ ⟨rfl, rfl⟩ ⟨rfl, rfl⟩).bind fun _ => ?_
      refine (hsearch name other type halike).bind fun records => ?_
      match records with
      | [] => exact pairedUntil_pure []
      | answer :: answers =>
        refine (hstore name other type _ _ halike).bind fun _ => ?_
        match aliasTarget? type answer with
        | none => exact pairedUntil_pure (answer :: answers)
        | some target =>
          exact (hnote _ _ ⟨rfl, rfl⟩ ⟨rfl, rfl⟩).bind fun _ => ih .a (hrefl target)

variable (hresolve : ∀ name type depth,
  PairedUntil stop related (first.resolve name type depth) (second.resolve name type depth))
include hresolve

/-- A message gets the same reply from both, if names resolve to the same. -/
theorem PairedUntil.handle (message : Message) :
    PairedUntil stop related (first.handle message) (second.handle message) := by
  by_cases hkind : MessageKind.of? message.data = some .response
  · rw [handle_of_response hkind, handle_of_response hkind]
    exact (hnote _ _ ⟨rfl, rfl⟩ ⟨rfl, rfl⟩).bind fun _ => pairedUntil_pure _
  cases hread : Packet.ofOctets message.data with
  | error error =>
    cases hid : messageId? message.data with
    | none =>
      rw [handle_of_tooShort hkind hread hid, handle_of_tooShort hkind hread hid]
      exact pairedUntil_pure _
    | some id =>
      rw [handle_of_malformed hkind hread hid, handle_of_malformed hkind hread hid]
      exact (hnote _ _ ⟨rfl, rfl⟩ ⟨rfl, rfl⟩).bind fun _ => pairedUntil_pure _
  | ok request =>
    cases hquestions : request.questions with
    | nil =>
      rw [handle_of_noQuestion hkind hread hquestions, handle_of_noQuestion hkind hread hquestions]
      exact (hnote _ _ ⟨rfl, rfl⟩ ⟨rfl, rfl⟩).bind fun _ => pairedUntil_pure _
    | cons question others =>
      rw [handle_of_question hkind hread hquestions, handle_of_question hkind hread hquestions]
      refine (hnote _ _ ⟨rfl, rfl⟩ ⟨rfl, rfl⟩).bind fun _ => ?_
      exact (hresolve question.name question.type 0).bind fun _ => pairedUntil_pure _

/-- A run of calls gives the same answers, if handling and resolving do. -/
theorem PairedUntil.run (calls : List Call) :
    PairedUntil stop related (first.run calls) (second.run calls) := by
  induction calls with
  | nil => exact pairedUntil_pure []
  | cons call calls ih =>
    have hcall : PairedUntil stop related (first.call call) (second.call call) := by
      cases call with
      | handle message =>
        exact (PairedUntil.handle hnote hresolve message).bind fun _ => pairedUntil_pure _
      | resolve name type depth =>
        exact (hresolve name type depth).bind fun _ => pairedUntil_pure _
    exact hcall.bind fun _ => ih.bind fun _ => pairedUntil_pure _

end Until

/-! ## For good -/

section Rules

/-- Asking a server comes to the same, if the reply and what it refers to are the same. -/
theorem Paired.attempt {name other : Name} {type : RecordType} {server : SocketAddress}
    (hask : Paired related (first.ask server name type) (second.ask server other type) Eq)
    (hreferral : ∀ reply,
      Paired related (first.referral name reply) (second.referral other reply) Eq) :
    Paired related (first.attempt server name type) (second.attempt server other type) Eq := by
  refine hask.bind_eq fun result => ?_
  cases result with
  | error error => exact paired_pure rfl
  | ok reply =>
    cases hanswers : reply.answers with
    | cons answer answers =>
      rw [judge_of_answers_eq_cons hanswers, judge_of_answers_eq_cons hanswers]
      exact paired_pure rfl
    | nil =>
      rw [judge_of_answers_eq_nil hanswers, judge_of_answers_eq_nil hanswers]
      exact (hreferral reply).bind_eq fun _ => paired_pure rfl

variable (hnote : NotesFreely related)
include hnote

theorem NotesFreely.pairedUntil (event other : Event) (hquiet : event.Quiet)
    (hother : other.Quiet) :
    PairedUntil (fun _ => False) related (note event) (note other) :=
  paired_eq_iff_pairedUntil.mp (hnote event other hquiet hother)

/-- Searches among the same candidates find the same, if each server gives both the same. -/
theorem Paired.search {name other : Name} {type : RecordType}
    (hask : ∀ server,
      Paired related (first.ask server name type) (second.ask server other type) Eq)
    (hreferral : ∀ reply,
      Paired related (first.referral name reply) (second.referral other reply) Eq)
    (budget : Nat) (candidates : List SocketAddress) :
    Paired related (first.search name type budget candidates)
      (second.search other type budget candidates) Eq := by
  refine paired_eq_iff_pairedUntil.mpr (.search hnote.pairedUntil ?_ budget candidates)
  intro server
  exact paired_eq_iff_pairedUntil.mp (Paired.attempt (hask server) hreferral)

/-- Resolving names that are alike gives the same, if the caches and the searches do.  The names
behind aliases are the same for both. -/
theorem Paired.resolve {alike : Name → Name → Prop} (hrefl : ∀ name, alike name name)
    {agree : List SocketAddress → List SocketAddress → Prop}
    (hdepth : first.config.maxDepth = second.config.maxDepth)
    (hlookUp : ∀ name other type, alike name other →
      Paired related (first.lookUp (.of name type)) (second.lookUp (.of other type)) Eq)
    (hroots : Paired related first.rootCandidates second.rootCandidates agree)
    (hsearch : ∀ name other type candidates others, alike name other → agree candidates others →
      Paired related (first.search name type maxQueries candidates)
        (second.search other type maxQueries others) Eq)
    (hstore : ∀ name other type records ttl, alike name other →
      Paired related (first.store (.of name type) records ttl)
        (second.store (.of other type) records ttl) Eq)
    (depth : Nat) {name other : Name} (type : RecordType) (halike : alike name other) :
    Paired related (first.resolve name type depth) (second.resolve other type depth) Eq := by
  refine paired_eq_iff_pairedUntil.mpr
    (.resolve hnote.pairedUntil hrefl hdepth ?_ ?_ ?_ depth type halike)
  · intro name other type halike
    exact paired_eq_iff_pairedUntil.mp (hlookUp name other type halike)
  · intro name other type halike
    refine paired_eq_iff_pairedUntil.mp (hroots.bind fun candidates others hagree => ?_)
    exact hsearch name other type candidates others halike hagree
  · intro name other type records ttl halike
    exact paired_eq_iff_pairedUntil.mp (hstore name other type records ttl halike)

variable (hresolve : ∀ name type depth,
  Paired related (first.resolve name type depth) (second.resolve name type depth) Eq)
include hresolve

/-- A message gets the same reply from both, if names resolve to the same. -/
theorem Paired.handle (message : Message) :
    Paired related (first.handle message) (second.handle message) Eq := by
  refine paired_eq_iff_pairedUntil.mpr (.handle hnote.pairedUntil ?_ message)
  intro name type depth
  exact paired_eq_iff_pairedUntil.mp (hresolve name type depth)

/-- A run of calls gives the same answers, if resolving does. -/
theorem Paired.run (calls : List Call) :
    Paired related (first.run calls) (second.run calls) Eq := by
  refine paired_eq_iff_pairedUntil.mpr (.run hnote.pairedUntil ?_ calls)
  intro name type depth
  exact paired_eq_iff_pairedUntil.mp (hresolve name type depth)

end Rules

end Resolver
end DnsResolver
