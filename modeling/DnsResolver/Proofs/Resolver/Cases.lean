import DnsResolver.Resolver.Run

/-!
# The cases of resolving and handling

A search starts at a place among the roots, which is drawn only if there are roots.  Resolving a
name ends at once beyond the deepest nesting of aliases, and elsewhere with what the cache holds or
with a search.  That gives an induction from deeper to less deep resolutions.  Handling a message
depends on how the message is marked and how it reads.
-/

namespace DnsResolver
namespace Resolver

variable {σ : Type} {resolver : Resolver σ}

/-! ## Starting a search -/

/-- Without roots there is nothing to draw from, and nothing to rotate. -/
theorem rootCandidates_apply (state : State σ) :
    resolver.rootCandidates state =
      (rotate (resolver.starts state.searches) resolver.config.roots,
        { state with
          searches :=
            if resolver.config.roots.isEmpty then state.searches else state.searches + 1 }) := by
  rw [rootCandidates]
  by_cases h : resolver.config.roots.isEmpty = true
  · have hnil : rotate (resolver.starts state.searches) ([] : List SocketAddress) = [] := by
      rw [rotate, List.drop_nil, List.take_nil, List.append_nil]
    rw [if_pos h, if_pos h, List.isEmpty_iff.mp h, hnil]
    rfl
  · rw [if_neg h, if_neg h]
    rfl

/-! ## Asking a server -/

/-- Asking a server is one exchange with it, under the next identifier. -/
theorem ask_apply (server : SocketAddress) (name : Name) (type : RecordType) (state : State σ) :
    let id := resolver.ids state.queries
    let query := (queryFor id name type).wire
    let replied := resolver.network server query state.network
    resolver.ask server name type state =
      (acceptReply id replied.1,
        { state with
          network := replied.2
          queries := state.queries + 1
          trace := state.trace ++ [.exchanged ⟨server, query, replied.1⟩] }) :=
  rfl

/-! ## Searching -/

/-- What one query of a search comes to. -/
inductive Attempt where
  /-- There is no usable reply. -/
  | failed (error : QueryError)
  /-- The reply has answers. -/
  | answered (first : Record) (others : List Record)
  /-- The reply has no answers, and refers to some servers. -/
  | referred (servers : List SocketAddress)

/-- What comes of asking a server.  If the reply has no answers, a referral is looked for. -/
def judge (resolver : Resolver σ) (name : Name) : Except QueryError Packet → Action σ Attempt
  | .error error => return .failed error
  | .ok reply =>
    match reply.answers with
    | first :: others => return .answered first others
    | [] => return .referred (← resolver.referral name reply)

theorem judge_of_answers_eq_cons {reply : Packet} {first : Record} {others : List Record}
    (h : reply.answers = first :: others) (name : Name) :
    resolver.judge name (.ok reply) = return .answered first others := by
  rw [judge]
  simp only [h]

theorem judge_of_answers_eq_nil {reply : Packet} (h : reply.answers = []) (name : Name) :
    resolver.judge name (.ok reply) = (do return .referred (← resolver.referral name reply)) := by
  rw [judge]
  simp only [h]

/-- One query of a search. -/
def attempt (resolver : Resolver σ) (server : SocketAddress) (name : Name) (type : RecordType) :
    Action σ Attempt := do
  resolver.judge name (← resolver.ask server name type)

/-- A search goes from one query to the next, until there are answers. -/
theorem search_cons (server : SocketAddress) (rest : List SocketAddress) (name : Name)
    (type : RecordType) (budget : Nat) :
    resolver.search name type (budget + 1) (server :: rest) = (do
      match ← resolver.attempt server name type with
      | .failed error =>
        note (.queryFailed name type server error)
        resolver.search name type budget rest
      | .answered first others => return first :: others
      | .referred [] =>
        note (.noAnswer name type server)
        resolver.search name type budget rest
      | .referred (next :: others) =>
        note (.referred name server (next :: others).length)
        resolver.search name type budget (next :: others)) := by
  funext state
  rw [search, attempt, bind_apply, bind_apply, bind_apply]
  cases (resolver.ask server name type state).1 with
  | error error => rfl
  | ok reply =>
    cases hanswers : reply.answers with
    | cons first others =>
      rw [judge_of_answers_eq_cons hanswers]
      simp only [hanswers, pure_apply]
    | nil =>
      rw [judge_of_answers_eq_nil hanswers]
      simp only [hanswers]
      rw [bind_apply, bind_apply, pure_apply]
      cases (resolver.referral name reply _).1 with
      | nil => rfl
      | cons next others => rfl

/-- The search among the roots. -/
def searchRoots (resolver : Resolver σ) (name : Name) (type : RecordType) :
    Action σ (List Record) := do
  resolver.search name type maxQueries (← resolver.rootCandidates)

/-! ## Resolving -/

/-- What holds beyond the deepest nesting, and at every depth if it holds one deeper, holds at every
depth. -/
theorem depth_induction {p : Nat → Prop} (resolver : Resolver σ)
    (tooDeep : ∀ depth, resolver.config.maxDepth < depth → p depth)
    (deeper : ∀ depth, depth ≤ resolver.config.maxDepth → p (depth + 1) → p depth) (depth : Nat) :
    p depth := by
  by_cases h : resolver.config.maxDepth < depth
  · exact tooDeep depth h
  · exact deeper depth (Nat.le_of_not_lt h) (depth_induction resolver tooDeep deeper (depth + 1))
termination_by resolver.config.maxDepth + 1 - depth

/-- Beyond the deepest nesting, nothing is resolved. -/
theorem resolve_of_tooDeep {depth : Nat}
    (h : resolver.config.maxDepth < depth) (name : Name) (type : RecordType) :
    resolver.resolve name type depth = (do note (.tooDeep name type); return []) := by
  rw [resolve, dif_pos h]

/-- Down to the deepest nesting, a name is resolved level by level. -/
theorem resolve_eq_resolveLevel {depth : Nat} (h : depth ≤ resolver.config.maxDepth) (name : Name)
    (type : RecordType) :
    resolver.resolve name type depth = (do
      match ← resolver.resolveLevel name type with
      | .ended records => return records
      | .aliased target => resolver.resolve target .a (depth + 1)) := by
  rw [resolve]
  exact dif_neg (Nat.not_lt.mpr h)

/-- What resolving does once the cache has been asked in vain. -/
def resolveAfresh (resolver : Resolver σ) (name : Name) (type : RecordType) (depth : Nat) :
    Action σ (List Record) := do
  note (.cacheMiss name type)
  let candidates ← resolver.rootCandidates
  match ← resolver.search name type maxQueries candidates with
  | [] => return []
  | first :: others =>
    resolver.store (.of name type) (first :: others) first.ttl
    match aliasTarget? type first with
    | none => return first :: others
    | some target =>
      note (.following name target)
      resolver.resolve target .a (depth + 1)

/-- Down to the deepest nesting, the cache is asked first. -/
theorem resolve_of_le {depth : Nat}
    (h : depth ≤ resolver.config.maxDepth) (name : Name) (type : RecordType) :
    resolver.resolve name type depth = (do
      match ← resolver.lookUp (.of name type) with
      | some records =>
        note (.cacheHit name type)
        return records
      | none => resolver.resolveAfresh name type depth) := by
  funext state
  rw [resolve_eq_resolveLevel h, resolveLevel]
  simp only [bind_apply]
  cases (resolver.lookUp (.of name type) state).1 with
  | some records => rfl
  | none =>
    rw [resolveAfresh]
    simp only [bind_apply]
    cases (resolver.search name type maxQueries _ _).1 with
    | nil => rfl
    | cons first others =>
      simp only [bind_apply]
      cases aliasTarget? type first with
      | none => rfl
      | some target => rfl

/-- The state in which the search for a name begins, once the cache has been asked in vain. -/
def missedState (resolver : Resolver σ) (name : Name) (type : RecordType) (state : State σ) :
    State σ :=
  let key := CacheKey.of name type
  let time := resolver.clock state.readings
  { state with
    cache := (state.cache.get key time).2
    searches := if resolver.config.roots.isEmpty then state.searches else state.searches + 1
    readings := state.readings + 1
    trace := state.trace ++ [.cached (.get key time), .cacheMiss name type] }

/-- What resolving does with what the search has found. -/
def keepFound (resolver : Resolver σ) (name : Name) (type : RecordType) (depth : Nat) :
    List Record → Action σ (List Record)
  | [] => return []
  | first :: others => do
    resolver.store (.of name type) (first :: others) first.ttl
    match aliasTarget? type first with
    | none => return first :: others
    | some target =>
      note (.following name target)
      resolver.resolve target .a (depth + 1)

theorem resolveAfresh_eq (name : Name) (type : RecordType) (depth : Nat) :
    resolver.resolveAfresh name type depth = (do
      note (.cacheMiss name type)
      resolver.keepFound name type depth (← resolver.searchRoots name type)) := by
  funext state
  rw [resolveAfresh, searchRoots]
  simp only [bind_apply]
  cases (resolver.search name type maxQueries _ _).1 with
  | nil => rfl
  | cons first others => rfl

/-- A name that the cache knows nothing about is searched from some root on. -/
theorem resolve_of_miss {name : Name} {type : RecordType} {depth : Nat} {state : State σ}
    (hdepth : depth ≤ resolver.config.maxDepth)
    (hmiss : (state.cache.get (.of name type) (resolver.clock state.readings)).1 = none) :
    resolver.resolve name type depth state =
      (resolver.search name type maxQueries
          (rotate (resolver.starts state.searches) resolver.config.roots) >>=
        resolver.keepFound name type depth) (resolver.missedState name type state) := by
  rw [resolve_of_le hdepth, bind_apply, lookUp_apply, hmiss]
  change resolver.resolveAfresh name type depth _ = _
  rw [resolveAfresh, bind_apply, note_apply, bind_apply, rootCandidates_apply, bind_apply,
    bind_apply, missedState]
  simp only [List.append_assoc, List.singleton_append]
  cases (resolver.search name type maxQueries _ _).1 with
  | nil => rfl
  | cons first others => rfl

theorem keepFound_of_alias {name target : Name} {type : RecordType} {first : Record}
    (halias : aliasTarget? type first = some target) (others : List Record) (depth : Nat)
    (state : State σ) :
    resolver.keepFound name type depth (first :: others) state =
      resolver.resolve target .a (depth + 1) (note (.following name target)
        (resolver.store (.of name type) (first :: others) first.ttl state).2).2 := by
  rw [keepFound, halias]
  rfl

theorem keepFound_of_not_alias {name : Name} {type : RecordType} {first : Record}
    (halias : aliasTarget? type first = none) (others : List Record) (depth : Nat)
    (state : State σ) :
    resolver.keepFound name type depth (first :: others) state =
      (first :: others,
        (resolver.store (.of name type) (first :: others) first.ttl state).2) := by
  rw [keepFound, halias]
  rfl

/-! ## Handling -/

section Handle

variable {message : Message} {request : Packet}

theorem handle_of_response (hkind : MessageKind.of? message.data = some .response) :
    resolver.handle message = (do note (.unsolicited message.peer); return .ok none) := by
  rw [handle, if_pos hkind]

theorem handle_of_tooShort {error : DecodeError}
    (hkind : MessageKind.of? message.data ≠ some .response)
    (hread : Packet.ofOctets message.data = .error error) (hid : messageId? message.data = none) :
    resolver.handle message = (return .error (.tooShort message.data.length)) := by
  rw [handle, if_neg hkind, hread, hid]

theorem handle_of_malformed {error : DecodeError} {id : UInt16}
    (hkind : MessageKind.of? message.data ≠ some .response)
    (hread : Packet.ofOctets message.data = .error error)
    (hid : messageId? message.data = some id) :
    resolver.handle message = (do
      note (.malformed id message.peer error)
      return .ok (some { message with data := (malformedReply id).wire })) := by
  rw [handle, if_neg hkind, hread, hid]

theorem handle_of_noQuestion (hkind : MessageKind.of? message.data ≠ some .response)
    (hread : Packet.ofOctets message.data = .ok request) (hquestions : request.questions = []) :
    resolver.handle message = (do
      note (.noQuestion request.header.id)
      return .ok (some { message with data := (request.respond .formatError).wire })) := by
  rw [handle, if_neg hkind]
  simp only [hread, hquestions]

theorem handle_of_question {question : Question} {others : List Question}
    (hkind : MessageKind.of? message.data ≠ some .response)
    (hread : Packet.ofOctets message.data = .ok request)
    (hquestions : request.questions = question :: others) :
    resolver.handle message = (do
      note (.request request.header.id message.peer question)
      let answers ← resolver.resolve question.name question.type 0
      return .ok (some { message with data := (answerReply request question answers).wire })) := by
  rw [handle, if_neg hkind]
  simp only [hread, hquestions]

end Handle

end Resolver
end DnsResolver
