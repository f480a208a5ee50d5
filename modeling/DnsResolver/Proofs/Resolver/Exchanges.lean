import DnsResolver.Proofs.Name.Subdomains
import DnsResolver.Proofs.Packet.RoundTrip
import DnsResolver.Resolver.Search

/-!
# What an exchange asks and brings

Every query asks one question and nothing else.  A reply is accepted if it can be read and carries
the identifier of the query.  An accepted reply without answers may refer to other servers: those
that a name server record of a zone around the name and an address record for its host make up.
-/

namespace DnsResolver

open Octets (lower)

/-! ## Queries -/

namespace Packet

/-- The packet that asks one question, wishes for recursion, and holds nothing else. -/
def plainQuery (id : UInt16) (question : Question) : Packet where
  header :=
    { id
      control :=
        { flags := { recursionDesired := true }
          opcode := Control.lowFour 0
          responseCode := Control.lowFour ResponseCode.noError.code.toNat }
      questionCount := 1 }
  questions := [question]

theorem ofOctets_wire_plainQuery (id : UInt16) (question : Question) :
    ofOctets (plainQuery id question).wire = .ok (plainQuery id question) := by
  have hencodable : (plainQuery id question).Encodable := by
    constructor
    · constructor <;> rfl
    · exact List.forall_mem_nil _
    · exact List.forall_mem_nil _
  exact hencodable.ofOctets_wire

end Packet

namespace Exchange

/-- The exchange asks for the records of a type that a name owns, and for nothing else. -/
def AsksFor (exchange : Exchange) (name : Name) (type : RecordType) : Prop :=
  ∃ id, Packet.ofOctets exchange.query = .ok (.plainQuery id ⟨name, type, .internet⟩)

theorem AsksFor.unique {exchange : Exchange} {name other : Name} {type type' : RecordType}
    (h : exchange.AsksFor name type) (h' : exchange.AsksFor other type') :
    name = other ∧ type = type' := by
  obtain ⟨id, hread⟩ := h
  obtain ⟨id', hread'⟩ := h'
  have hquery := Except.ok.inj (hread.symm.trans hread')
  obtain ⟨hquestion, -⟩ := List.cons.inj (congrArg Packet.questions hquery)
  obtain ⟨hname, htype, -⟩ := Question.mk.inj hquestion
  exact ⟨hname, htype⟩

/-- The reply that the exchange brought, if it can be read and carries the identifier of the
query. -/
def accepted? (exchange : Exchange) : Option Packet :=
  match Packet.ofOctets exchange.query, exchange.outcome with
  | .ok query, .ok octets =>
    match Packet.ofOctets octets with
    | .ok reply => if reply.header.id = query.header.id then some reply else none
    | .error _ => none
  | _, _ => none

theorem accepted?_eq_some_iff {exchange : Exchange} {reply : Packet} :
    exchange.accepted? = some reply ↔
      ∃ query octets, Packet.ofOctets exchange.query = .ok query ∧ exchange.outcome = .ok octets ∧
        Packet.ofOctets octets = .ok reply ∧ reply.header.id = query.header.id := by
  constructor
  · intro h
    unfold accepted? at h
    split at h
    next query octets hquery houtcome =>
      split at h
      next packet hread =>
        by_cases hid : packet.header.id = query.header.id
        · rw [if_pos hid, Option.some.injEq] at h
          subst h
          exact ⟨query, octets, hquery, houtcome, hread, hid⟩
        · rw [if_neg hid] at h
          cases h
      next => cases h
    next => cases h
  · rintro ⟨query, octets, hquery, houtcome, hread, hid⟩
    unfold accepted?
    rw [hquery, houtcome]
    simp only [hread, if_pos hid]

/-- The answers that the exchange brought: those of the accepted reply, if there is one. -/
def answers (exchange : Exchange) : List Record :=
  match exchange.accepted? with
  | some reply => reply.answers
  | none => []

theorem answers_of_accepted? {exchange : Exchange} {reply : Packet}
    (h : exchange.accepted? = some reply) :
    exchange.answers = reply.answers := by
  rw [answers, h]

theorem answers_eq_nil_iff {exchange : Exchange} :
    exchange.answers = [] ↔ ∀ reply, exchange.accepted? = some reply → reply.answers = [] := by
  rw [answers]
  cases exchange.accepted? with
  | none => simp
  | some reply => simp

/-- The answers that the first exchange with any answers brought. -/
def firstAnswers : List Exchange → List Record
  | [] => []
  | exchange :: exchanges =>
    match exchange.answers with
    | [] => firstAnswers exchanges
    | first :: others => first :: others

theorem firstAnswers_cons_of_nil {exchange : Exchange} (h : exchange.answers = [])
    (exchanges : List Exchange) :
    firstAnswers (exchange :: exchanges) = firstAnswers exchanges := by
  rw [firstAnswers, h]

theorem firstAnswers_cons_of_cons {exchange : Exchange} {first : Record} {others : List Record}
    (h : exchange.answers = first :: others) (exchanges : List Exchange) :
    firstAnswers (exchange :: exchanges) = first :: others := by
  rw [firstAnswers, h]

theorem firstAnswers_eq_nil_iff {exchanges : List Exchange} :
    firstAnswers exchanges = [] ↔ ∀ exchange ∈ exchanges, exchange.answers = [] := by
  induction exchanges with
  | nil => exact iff_of_true rfl (List.forall_mem_nil _)
  | cons exchange exchanges ih =>
    rw [List.forall_mem_cons]
    cases hanswers : exchange.answers with
    | nil => rw [firstAnswers_cons_of_nil hanswers, ih, and_iff_right rfl]
    | cons first others =>
      rw [firstAnswers_cons_of_cons hanswers]
      exact iff_of_false (List.cons_ne_nil first others) fun h =>
        List.cons_ne_nil first others h.1

theorem firstAnswers_eq_of_forall {exchanges : List Exchange} {records : List Record}
    (hne : exchanges ≠ []) (h : ∀ exchange ∈ exchanges, exchange.answers = records) :
    firstAnswers exchanges = records := by
  cases exchanges with
  | nil => exact absurd rfl hne
  | cons exchange exchanges =>
    cases records with
    | nil => exact firstAnswers_eq_nil_iff.mpr h
    | cons first others =>
      exact firstAnswers_cons_of_cons (h exchange List.mem_cons_self) exchanges

end Exchange

/-! ## Referrals -/

/-- The server that a name server record and an address record make up: the zone of the first is
around the name, and the second gives an address for its host. -/
def delegatedServer? (name : Name) (delegation address : Record) : Option SocketAddress :=
  match delegation.data, address.data with
  | .ns host, .a ip =>
    if name.Within delegation.name ∧ address.name.text.map lower = host.text.map lower then
      some (.v4 ip dnsPort)
    else none
  | _, _ => none

/-- The servers that a reply refers to, in the order of its authority section, and for each name
server in the order of its additional section. -/
def Packet.delegatedServers (name : Name) (reply : Packet) : List SocketAddress :=
  reply.authority.flatMap fun delegation =>
    reply.additional.filterMap (delegatedServer? name delegation)

/-- An exchange refers a name to a server: its reply was accepted, has no answers, and holds a name
server record of a zone around the name and an address record of the server for its host. -/
def Exchange.RefersTo (exchange : Exchange) (name : Name) (server : SocketAddress) : Prop :=
  ∃ reply, exchange.accepted? = some reply ∧ reply.answers = [] ∧
    ∃ delegation ∈ reply.authority, ∃ address ∈ reply.additional, ∃ host ip,
      delegation.data = .ns host ∧ name.Within delegation.name ∧ address.data = .a ip ∧
        address.name.text.map lower = host.text.map lower ∧ server = .v4 ip dnsPort

theorem delegatedServer?_eq_some_iff {name : Name} {delegation address : Record}
    {server : SocketAddress} :
    delegatedServer? name delegation address = some server ↔
      ∃ host ip, delegation.data = .ns host ∧ name.Within delegation.name ∧ address.data = .a ip ∧
        address.name.text.map lower = host.text.map lower ∧ server = .v4 ip dnsPort := by
  unfold delegatedServer?
  split
  next host ip hdelegation haddress =>
    rw [hdelegation, haddress]
    simp only [Option.ite_none_right_eq_some, Option.some.injEq, RecordData.ns.injEq,
      RecordData.a.injEq]
    constructor
    · rintro ⟨⟨hwithin, hhost⟩, rfl⟩
      exact ⟨host, ip, rfl, hwithin, rfl, hhost, rfl⟩
    · rintro ⟨_, _, rfl, hwithin, rfl, hhost, rfl⟩
      exact ⟨⟨hwithin, hhost⟩, rfl⟩
  next hother =>
    constructor
    · intro h
      cases h
    · rintro ⟨host, ip, hdelegation, -, haddress, -⟩
      exact absurd haddress (hother host ip hdelegation)

/-- The servers that an exchange refers a name to, as far as referrals are followed. -/
def Exchange.servers (policy : ReferralPolicy) (name : Name) (exchange : Exchange) :
    List SocketAddress :=
  match policy with
  | .ignore => []
  | .follow =>
    match exchange.accepted? with
    | some reply => if reply.answers = [] then reply.delegatedServers name else []
    | none => []

namespace Exchange

theorem servers_ignore (name : Name) (exchange : Exchange) : exchange.servers .ignore name = [] :=
  rfl

theorem servers_of_accepted? {exchange : Exchange} {reply : Packet}
    (haccepted : exchange.accepted? = some reply) (hanswers : reply.answers = []) (name : Name) :
    exchange.servers .follow name = reply.delegatedServers name := by
  rw [servers]
  simp only [haccepted, if_pos hanswers]

theorem servers_of_not_accepted {exchange : Exchange} (h : exchange.accepted? = none)
    (policy : ReferralPolicy) (name : Name) :
    exchange.servers policy name = [] := by
  cases policy with
  | ignore => rfl
  | follow =>
    rw [servers]
    simp only [h]

/-- The servers that an exchange refers to are referred to by records of its reply. -/
theorem refersTo_of_mem_servers {policy : ReferralPolicy} {name : Name} {exchange : Exchange}
    {server : SocketAddress} (h : server ∈ exchange.servers policy name) :
    exchange.RefersTo name server := by
  cases policy with
  | ignore => cases h
  | follow =>
    cases haccepted : exchange.accepted? with
    | none =>
      rw [servers_of_not_accepted haccepted] at h
      cases h
    | some reply =>
      by_cases hanswers : reply.answers = []
      · rw [servers_of_accepted? haccepted hanswers] at h
        obtain ⟨delegation, hdelegation, hmem⟩ := List.mem_flatMap.mp h
        obtain ⟨address, haddress, hserver⟩ := List.mem_filterMap.mp hmem
        exact ⟨reply, haccepted, hanswers, delegation, hdelegation, address, haddress,
          delegatedServer?_eq_some_iff.mp hserver⟩
      · rw [servers] at h
        simp only [haccepted, if_neg hanswers] at h
        cases h

end Exchange

namespace Resolver

/-- The query for a name and a type is read as the packet that asks for them and nothing else. -/
theorem queryFor_eq (id : UInt16) (name : Name) (type : RecordType) :
    queryFor id name type = .plainQuery id ⟨name, type, .internet⟩ := by
  rfl

theorem filterMap_delegatedServer? {delegation : Record} {host : Name}
    (hdelegation : delegation.data = .ns host) (name : Name) (records : List Record) :
    records.filterMap (delegatedServer? name delegation) =
      if name.isSubdomainOf delegation.name then hostAddresses host records else [] := by
  by_cases hwithin : name.Within delegation.name
  · rw [if_pos ((Name.isSubdomainOf_iff_within name delegation.name).mpr hwithin), hostAddresses]
    congr 1
    funext address
    rw [delegatedServer?, hdelegation]
    cases address.data <;> simp [hwithin, Name.same, Octets.sameText_iff]
  · rw [if_neg (mt (Name.isSubdomainOf_iff_within name delegation.name).mp hwithin)]
    apply List.filterMap_eq_nil_iff.mpr
    intro address _
    rw [delegatedServer?, hdelegation]
    cases address.data <;> simp [hwithin]

/-- The servers that a search goes on with are those that the reply refers to. -/
theorem referralServers_eq (name : Name) (reply : Packet) :
    referralServers name reply = reply.delegatedServers name := by
  rw [referralServers, delegations, Packet.delegatedServers]
  induction reply.authority with
  | nil => rfl
  | cons delegation authority ih =>
    rw [List.flatMap_cons, ← ih, List.filterMap_cons]
    cases hdata : delegation.data with
    | ns host =>
      rw [filterMap_delegatedServer? hdata]
      rfl
    | _ =>
      have hnone : reply.additional.filterMap (delegatedServer? name delegation) = [] := by
        apply List.filterMap_eq_nil_iff.mpr
        intro address _
        rw [delegatedServer?, hdata]
      rw [hnone]
      rfl

end Resolver
end DnsResolver
