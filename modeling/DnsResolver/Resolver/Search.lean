import DnsResolver.Resolver.State

/-!
# The search for an answer

Servers are asked one after another until one of them answers.  A server that fails, or that has
no answer, moves the search on to the next one; a referral, if referrals are followed, replaces all
servers that have not been asked yet.  The search ends after `maxQueries` queries at the latest.
-/

namespace DnsResolver
namespace Resolver

variable {σ : Type}

/-- The question for the records of a type that a name owns. -/
def questionFor (name : Name) (type : RecordType) : Question where
  name := name
  type := type
  recordClass := .internet

/-- The query that is sent to a server. -/
def queryFor (id : UInt16) (name : Name) (type : RecordType) : Packet :=
  (Packet.query id).addQuestion (questionFor name type)

/-- The reply that a query was answered with, if it is a packet with the identifier of the query. -/
def acceptReply (id : UInt16) : Except ExchangeError Octets → Except QueryError Packet
  | .error error => .error (.exchange error)
  | .ok octets =>
    match Packet.ofOctets octets with
    | .error error => .error (.reply error)
    | .ok reply =>
      if reply.header.id = id then .ok reply else .error (.idMismatch id reply.header.id)

/-- Asks one server. -/
def ask (resolver : Resolver σ) (server : SocketAddress) (name : Name) (type : RecordType) :
    Action σ (Except QueryError Packet) := do
  let id ← resolver.drawId
  let outcome ← resolver.exchange server (queryFor id name type).wire
  return acceptReply id outcome

/-- The addresses that the records give for a host. -/
def hostAddresses (host : Name) (records : List Record) : List SocketAddress :=
  records.filterMap fun record =>
    match record.data with
    | .a address => if record.name.same host then some (.v4 address dnsPort) else none
    | _ => none

/-- The zones and hosts of the name server records. -/
def delegations (records : List Record) : List (Name × Name) :=
  records.filterMap fun record =>
    match record.data with
    | .ns host => some (record.name, host)
    | _ => none

/-- The servers that a reply refers to for a name: those name servers of zones around the name
whose addresses the reply holds, too. -/
def referralServers (name : Name) (reply : Packet) : List SocketAddress :=
  (delegations reply.authority).flatMap fun (zone, host) =>
    if name.isSubdomainOf zone then hostAddresses host reply.additional else []

/-- The events that report the name servers of zones that the name does not belong to. -/
def foreignReferrals (name : Name) (reply : Packet) : List Event :=
  (delegations reply.authority).filterMap fun (zone, host) =>
    if name.isSubdomainOf zone then none else some (.foreignReferral host zone)

/-- The servers that a reply without answers refers to, as far as referrals are followed. -/
def referral (resolver : Resolver σ) (name : Name) (reply : Packet) :
    Action σ (List SocketAddress) := do
  match resolver.config.referralPolicy with
  | .ignore => return []
  | .follow =>
    noteAll (foreignReferrals name reply)
    return referralServers name reply

/-- Asks candidates in turn, at most `budget` of them, for the first answer section that is not
empty. -/
def search (resolver : Resolver σ) (name : Name) (type : RecordType) (budget : Nat)
    (candidates : List SocketAddress) : Action σ (List Record) :=
  match candidates, budget with
  | [], _ => return []
  | _ :: _, 0 => do
    note (.outOfQueries name type)
    return []
  | server :: rest, budget + 1 => do
    match ← resolver.ask server name type with
    | .error error =>
      note (.queryFailed name type server error)
      resolver.search name type budget rest
    | .ok reply =>
      match reply.answers with
      | first :: others => return first :: others
      | [] =>
        match ← resolver.referral name reply with
        | [] =>
          note (.noAnswer name type server)
          resolver.search name type budget rest
        | next :: others =>
          note (.referred name server (next :: others).length)
          resolver.search name type budget (next :: others)
termination_by structural budget

/-- The list with its first `n` entries moved to the end, `n` counting modulo its length. -/
def rotate {α : Type} (n : Nat) (items : List α) : List α :=
  items.drop (n % items.length) ++ items.take (n % items.length)

/-- The roots, from a random one on. -/
def rootCandidates (resolver : Resolver σ) : Action σ (List SocketAddress) := do
  if resolver.config.roots.isEmpty then
    return []
  else
    return rotate (← resolver.drawStart) resolver.config.roots

end Resolver
end DnsResolver
