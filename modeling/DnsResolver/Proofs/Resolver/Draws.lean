import DnsResolver.Proofs.Resolver.Chains
import DnsResolver.Proofs.Resolver.Replies

/-!
# Draws at random

A resolver draws the identifier of each query, and the root at which each search starts.  Let
referrals be ignored, let one search be able to ask all roots, and let the answers of a server
depend on the question alone, with no two servers that give different ones.  Then every search finds
the answers that any root gives, whichever root it reaches first, and the draws show neither in the
replies to clients nor in the cache.
-/

namespace DnsResolver
namespace Resolver

variable {σ : Type}

/-! ## Servers that agree -/

/-- The answers in what asking a server results in. -/
def answersIn : Except QueryError Packet → List Record
  | .error _ => []
  | .ok reply => reply.answers

/-- Servers whose answers are a matter of the server and the question alone, whatever identifier the
query has and whatever has been asked before.  Those that answer a question agree. -/
structure Settled (network : Network σ)
    (answers : SocketAddress → Name → RecordType → List Record) : Prop where
  steady : ∀ server name type id state,
    answersIn (acceptReply id (network server (queryFor id name type).wire state).1) =
      answers server name type
  unanimous : ∀ server other name type, answers server name type ≠ [] →
    answers other name type ≠ [] → answers server name type = answers other name type

/-- What a search among some servers comes to: the answers of one of them, or nothing if none of
them has any. -/
structure Found (answers : SocketAddress → List Record) (servers : List SocketAddress)
    (records : List Record) : Prop where
  exists_server : records ≠ [] → ∃ server ∈ servers, answers server = records
  forall_server : records = [] → ∀ server ∈ servers, answers server = []

namespace Found

variable {answers : SocketAddress → List Record} {servers : List SocketAddress}
  {records : List Record}

theorem nil (answers : SocketAddress → List Record) : Found answers [] [] :=
  ⟨fun hne => absurd rfl hne, fun _ => List.forall_mem_nil _⟩

theorem answer {server : SocketAddress} (h : answers server = records) (hne : records ≠ []) :
    Found answers (server :: servers) records :=
  ⟨fun _ => ⟨server, List.mem_cons_self, h⟩, fun hnil => absurd hnil hne⟩

theorem skip {server : SocketAddress} (hserver : answers server = [])
    (h : Found answers servers records) :
    Found answers (server :: servers) records := by
  constructor
  · intro hne
    obtain ⟨other, hother, hanswers⟩ := h.exists_server hne
    exact ⟨other, List.mem_cons_of_mem server hother, hanswers⟩
  · intro hnil
    exact List.forall_mem_cons.mpr ⟨hserver, h.forall_server hnil⟩

theorem perm {others : List SocketAddress} (h : Found answers servers records)
    (hperm : servers.Perm others) :
    Found answers others records := by
  constructor
  · intro hne
    obtain ⟨server, hserver, hanswers⟩ := h.exists_server hne
    exact ⟨server, hperm.mem_iff.mp hserver, hanswers⟩
  · intro hnil server hserver
    exact h.forall_server hnil server (hperm.mem_iff.mpr hserver)

/-- Where one search finds nothing, no other does. -/
theorem eq_nil {others : List Record} (h : Found answers servers records)
    (hothers : Found answers servers others) (hnil : records = []) :
    others = [] := by
  by_contra hne
  obtain ⟨server, hserver, hanswers⟩ := hothers.exists_server hne
  exact hne (hanswers.symm.trans (h.forall_server hnil server hserver))

/-- Among servers that agree there is only one thing to find. -/
theorem unique {others : List Record}
    (hagree : ∀ server other, answers server ≠ [] → answers other ≠ [] →
      answers server = answers other)
    (h : Found answers servers records) (hothers : Found answers servers others) :
    records = others := by
  by_cases hnil : records = []
  · rw [hnil, h.eq_nil hothers hnil]
  · have hne : others ≠ [] := mt (hothers.eq_nil h) hnil
    obtain ⟨server, -, rfl⟩ := h.exists_server hnil
    obtain ⟨other, -, rfl⟩ := hothers.exists_server hne
    exact hagree server other hnil hne

end Found

/-! ## Searches -/

/-- The states have the same cache, at the same reading of the clock. -/
structure SharesCache (s t : State σ) : Prop where
  cache : s.cache = t.cache
  readings : s.readings = t.readings

theorem SharesCache.symm {s t : State σ} (h : SharesCache s t) : SharesCache t s :=
  ⟨h.cache.symm, h.readings.symm⟩

theorem SharesCache.trans {s t u : State σ} (hst : SharesCache s t) (htu : SharesCache t u) :
    SharesCache s u :=
  ⟨hst.cache.trans htu.cache, hst.readings.trans htu.readings⟩

theorem sharesCache_notesFreely : NotesFreely (σ := σ) (τ := σ) SharesCache :=
  fun _ _ _ _ _ _ hshares => ⟨rfl, hshares.cache, hshares.readings⟩

section Search

variable (resolver : Resolver σ) {answers : SocketAddress → Name → RecordType → List Record}

theorem ask_answersIn (hsettled : Settled resolver.network answers) (start : State σ)
    (server : SocketAddress) (name : Name) (type : RecordType) :
    Ensures (SharesCache start) (resolver.ask server name type) fun result state =>
      SharesCache start state ∧ answersIn result = answers server name type :=
  fun _ hshares => ⟨⟨hshares.cache, hshares.readings⟩, hsettled.steady server name type _ _⟩

theorem note_sharesCache (start : State σ) (event : Event) :
    Ensures (SharesCache start) (note event) fun _ => SharesCache start :=
  fun _ hshares => ⟨hshares.cache, hshares.readings⟩

/-- A search that may ask all candidates finds what there is to find among them, and leaves the
cache alone. -/
theorem search_found (hpolicy : resolver.config.referralPolicy = .ignore)
    (hsettled : Settled resolver.network answers) (start : State σ) (name : Name)
    (type : RecordType) {budget : Nat} {candidates : List SocketAddress}
    (hlength : candidates.length ≤ budget) :
    Ensures (SharesCache start) (resolver.search name type budget candidates) fun records state =>
      SharesCache start state ∧ Found (answers · name type) candidates records := by
  induction budget generalizing candidates with
  | zero =>
    rw [List.eq_nil_of_length_eq_zero (Nat.le_zero.mp hlength)]
    exact ensures_pure fun _ hshares => ⟨hshares, .nil _⟩
  | succ budget ih =>
    cases candidates with
    | nil => exact ensures_pure fun _ hshares => ⟨hshares, .nil _⟩
    | cons server rest =>
      have hrest : rest.length ≤ budget := Nat.le_of_succ_le_succ hlength
      -- A server without answers is passed over.
      have hnext (event : Event) (hnil : answers server name type = []) :
          Ensures (SharesCache start)
            (note event >>= fun _ => resolver.search name type budget rest)
            fun records state =>
              SharesCache start state ∧ Found (answers · name type) (server :: rest) records := by
        refine (note_sharesCache start event).bind fun _ => (ih hrest).mono ?_
        exact fun _ _ ⟨hshares, hfound⟩ => ⟨hshares, hfound.skip hnil⟩
      rw [search]
      refine (ask_answersIn resolver hsettled start server name type).bind fun result => ?_
      refine Ensures.assuming fun hanswers => ?_
      cases result with
      | error error => exact hnext _ hanswers.symm
      | ok reply =>
        cases hreply : reply.answers with
        | cons first others =>
          simp only [hreply]
          refine ensures_pure fun _ hshares => ⟨hshares, .answer ?_ (List.cons_ne_nil first others)⟩
          exact hanswers.symm.trans hreply
        | nil =>
          have hreferral : resolver.referral name reply = pure [] := by
            rw [referral, hpolicy]
          simp only [hreply, hreferral, pure_bind]
          exact hnext _ (hanswers.symm.trans hreply)

end Search

/-! ## Two resolvers that draw differently -/

/-- The resolver with other identifiers and starting places. -/
def drawing (resolver : Resolver σ) (ids : Nat → UInt16) (starts : Nat → Nat) : Resolver σ :=
  { resolver with ids, starts }

theorem rootCandidates_perm (resolver : Resolver σ) (state : State σ) :
    (resolver.rootCandidates state).1.Perm resolver.config.roots ∧
      SharesCache state (resolver.rootCandidates state).2 := by
  rw [rootCandidates_apply, rotate_eq]
  exact ⟨List.rotate_perm _ _, rfl, rfl⟩

section Drawing

variable (resolver : Resolver σ) (ids ids' : Nat → UInt16) (starts starts' : Nat → Nat)

theorem rootCandidates_drawing :
    Paired SharesCache (resolver.drawing ids starts).rootCandidates
      (resolver.drawing ids' starts').rootCandidates fun candidates others =>
        candidates.Perm resolver.config.roots ∧ others.Perm resolver.config.roots := by
  intro s t hshares
  obtain ⟨hperm, hs⟩ := rootCandidates_perm (resolver.drawing ids starts) s
  obtain ⟨hperm', ht⟩ := rootCandidates_perm (resolver.drawing ids' starts') t
  exact ⟨⟨hperm, hperm'⟩, hs.symm.trans (hshares.trans ht)⟩

theorem lookUp_drawing (key : CacheKey) :
    Paired SharesCache ((resolver.drawing ids starts).lookUp key)
      ((resolver.drawing ids' starts').lookUp key) Eq := by
  rintro s t ⟨hcache, hreadings⟩
  rw [lookUp_apply, lookUp_apply, hcache, hreadings]
  exact ⟨rfl, rfl, rfl⟩

theorem store_drawing (key : CacheKey) (records : List Record) (ttl : UInt32) :
    Paired SharesCache ((resolver.drawing ids starts).store key records ttl)
      ((resolver.drawing ids' starts').store key records ttl) Eq := by
  rintro s t ⟨hcache, hreadings⟩
  rw [store_apply, store_apply, hcache, hreadings]
  exact ⟨rfl, rfl, rfl⟩

variable {answers : SocketAddress → Name → RecordType → List Record}
  (hpolicy : resolver.config.referralPolicy = .ignore)
  (hroots : resolver.config.roots.length ≤ 32) (hsettled : Settled resolver.network answers)
include hpolicy hroots hsettled

theorem search_drawing (name : Name) (type : RecordType) {candidates others : List SocketAddress}
    (hperm : candidates.Perm resolver.config.roots) (hperm' : others.Perm resolver.config.roots) :
    Paired SharesCache ((resolver.drawing ids starts).search name type maxQueries candidates)
      ((resolver.drawing ids' starts').search name type maxQueries others) Eq := by
  intro s t hshares
  have hlength : candidates.length ≤ maxQueries := hperm.length_eq.trans_le hroots
  have hlength' : others.length ≤ maxQueries := hperm'.length_eq.trans_le hroots
  have hfirst := search_found (resolver.drawing ids starts) hpolicy hsettled s name type hlength
  have hsecond := search_found (resolver.drawing ids' starts') hpolicy hsettled t name type hlength'
  obtain ⟨hs, hfound⟩ := hfirst s ⟨rfl, rfl⟩
  obtain ⟨ht, hfound'⟩ := hsecond t ⟨rfl, rfl⟩
  refine ⟨?_, hs.symm.trans (hshares.trans ht)⟩
  have hagree := fun server other => hsettled.unanimous server other name type
  exact Found.unique hagree (hfound.perm hperm) (hfound'.perm hperm')

theorem resolve_drawing (name : Name) (type : RecordType) (depth : Nat) :
    Paired SharesCache ((resolver.drawing ids starts).resolve name type depth)
      ((resolver.drawing ids' starts').resolve name type depth) Eq := by
  have hdepth : (resolver.drawing ids starts).config.maxDepth =
      (resolver.drawing ids' starts').config.maxDepth :=
    rfl
  refine Paired.resolve sharesCache_notesFreely (@rfl Name) hdepth ?_
    (rootCandidates_drawing resolver ids ids' starts starts') ?_ ?_ depth type rfl
  · rintro name _ type rfl
    exact lookUp_drawing resolver ids ids' starts starts' (.of name type)
  · rintro name _ type candidates others rfl ⟨hperm, hperm'⟩
    exact search_drawing resolver ids ids' starts starts' hpolicy hroots hsettled name type hperm
      hperm'
  · rintro name _ type records ttl rfl
    exact store_drawing resolver ids ids' starts starts' (.of name type) records ttl

/-- If referrals are ignored, all roots can be asked in one search, and the answers of servers
depend on the server and the question alone and do not contradict each other, then a run gives the
same replies and leaves the same cache, whatever is drawn. -/
theorem run_drawing (calls : List Call) (state : State σ) :
    ((resolver.drawing ids starts).run calls state).1 =
        ((resolver.drawing ids' starts').run calls state).1 ∧
      ((resolver.drawing ids starts).run calls state).2.cache =
        ((resolver.drawing ids' starts').run calls state).2.cache := by
  have hresolve := resolve_drawing resolver ids ids' starts starts' hpolicy hroots hsettled
  have hrun := Paired.run sharesCache_notesFreely hresolve calls
  obtain ⟨hanswers, hshares⟩ := hrun state state ⟨rfl, rfl⟩
  exact ⟨hanswers, hshares.cache⟩

end Drawing

/-! ## Two roots of which one is silent -/

/-- A root that never replies. -/
def silentRoot : SocketAddress :=
  .v4 ⟨192, 0, 2, 51⟩ dnsPort

/-- A resolver with a silent root and one that knows the address of `y.x`, which it replies under
the identifier of the query. -/
def twoRootResolver : Resolver Unit :=
  { hostResolver with
    config.roots := silentRoot :: hostResolver.config.roots
    network := fun server query =>
      pure (if server = silentRoot then .error (.timeout server)
        else .ok (query.take 2 ++ hostReply.wire.drop 2)) }

/-- The answers of the two roots. -/
def twoRootAnswers (server : SocketAddress) (_ : Name) (_ : RecordType) : List Record :=
  if server = silentRoot then [] else hostReply.answers

/-- The reply about `y.x` with another identifier. -/
def hostReplyTo (id : UInt16) : Packet :=
  (Packet.empty id).addAnswer (.ofData Packet.hostName 60 (.a ⟨192, 0, 2, 1⟩))

/-- A reply with one answer is accepted under its identifier. -/
theorem acceptReply_addAnswer {record : Record} (hmade : record.Made)
    (hcanonical : record.data.Canonical) (id : UInt16) :
    acceptReply id (.ok ((Packet.empty id).addAnswer record).wire) =
      .ok ((Packet.empty id).addAnswer record) := by
  rw [acceptReply, Packet.ofOctets_wire_addAnswer hmade hcanonical]
  exact if_pos rfl

theorem acceptReply_hostReplyTo (id : UInt16) (name : Name) (type : RecordType) :
    acceptReply id (.ok ((queryFor id name type).wire.take 2 ++ hostReply.wire.drop 2)) =
      .ok (hostReplyTo id) :=
  acceptReply_addAnswer (.a Packet.hostName 60 ⟨192, 0, 2, 1⟩) (by decide) id

theorem settled_twoRootResolver : Settled twoRootResolver.network twoRootAnswers := by
  constructor
  · intro server name type id state
    by_cases hsilent : server = silentRoot
    · subst hsilent
      rfl
    · change answersIn (acceptReply id (if server = silentRoot then _ else _)) = _
      rw [if_neg hsilent, acceptReply_hostReplyTo, twoRootAnswers, if_neg hsilent]
      rfl
  · intro server other name type hserver hother
    have hne : server ≠ silentRoot := fun h => hserver (if_pos h)
    have hne' : other ≠ silentRoot := fun h => hother (if_pos h)
    rw [twoRootAnswers, twoRootAnswers, if_neg hne, if_neg hne']

theorem run_drawing_twoRootResolver :
    let early := twoRootResolver.drawing (fun _ => 5) (fun _ => 0)
    let late := twoRootResolver.drawing (fun _ => 9) (fun _ => 1)
    let start := twoRootResolver.initial ()
    (early.rootCandidates start).1 ≠ (late.rootCandidates start).1 ∧
      (early.run [.handle hostMessage] start).1 = (late.run [.handle hostMessage] start).1 ∧
      (early.run [.handle hostMessage] start).2.cache =
        (late.run [.handle hostMessage] start).2.cache := by
  intro early late start
  refine ⟨by decide, ?_⟩
  exact run_drawing twoRootResolver (fun _ => 5) (fun _ => 9) (fun _ => 0) (fun _ => 1) rfl
    (by decide) settled_twoRootResolver [.handle hostMessage] start

end Resolver
end DnsResolver
