import DnsResolver.Cache.Basic
import DnsResolver.Network

/-!
# Configuration of a resolver

How much a resolver caches, how deep it follows aliases, where its searches start, how long it waits
for a reply, and what it makes of a referral.
-/

namespace DnsResolver

/-- What a resolver does with a reply that has no answers. -/
inductive ReferralPolicy where
  /-- The reply counts as no answer from that server. -/
  | ignore
  /-- The servers that the reply refers to are asked instead. -/
  | follow
  deriving DecidableEq, Repr

namespace ReferralPolicy

/-- The name of the policy. -/
def describe : ReferralPolicy → String
  | ignore => "Ignore"
  | follow => "Follow"

end ReferralPolicy

/-- What can be chosen about a resolver. -/
structure ResolverConfig where
  cacheCapacity : Capacity := ⟨4096, by decide⟩
  /-- The deepest nesting of aliases that is still resolved, a machine word in the program. -/
  maxDepth : Nat := 10
  roots : List SocketAddress := rootServers.map fun address => .v4 address dnsPort
  /-- How long a reply is waited for, in milliseconds. -/
  timeout : Nat := 2000
  referralPolicy : ReferralPolicy := .ignore
  deriving DecidableEq, Repr

end DnsResolver
