import DnsResolver.Log
import DnsResolver.Resolver.Config

/-!
# Settings of the program

The settings that a command line may change, each with the value it has otherwise, and the reading
of their values from text.
-/

namespace DnsResolver

/-- What the program was told to do. -/
structure Settings where
  /-- The address to listen on. -/
  listen : IPAddress := .v4 ⟨0, 0, 0, 0⟩
  /-- The port to listen on. -/
  port : UInt16 := dnsPort
  /-- The number of record sets in the cache. -/
  cacheCapacity : Capacity := ⟨4096, by decide⟩
  /-- How long a reply is waited for, in milliseconds. -/
  timeout : Nat := 2000
  /-- The deepest nesting of aliases. -/
  maxDepth : Nat := 10
  /-- The servers to begin at, in place of those of the root zone. -/
  rootServers : List IPv4 := []
  followReferrals : Bool := false
  logLevel : LogLevel := .info
  logTarget : LogTarget := .console
  deriving DecidableEq, Repr

namespace Settings

/-- The address and port to listen on. -/
def listenAddress (settings : Settings) : SocketAddress :=
  .ofHost settings.listen settings.port

/-- The configuration of the resolver. -/
def resolverConfig (settings : Settings) : ResolverConfig :=
  let roots :=
    if settings.rootServers.isEmpty then DnsResolver.rootServers else settings.rootServers
  { cacheCapacity := settings.cacheCapacity
    maxDepth := settings.maxDepth
    roots := roots.map fun address => .v4 address dnsPort
    timeout := settings.timeout
    referralPolicy := if settings.followReferrals then .follow else .ignore }

/-- Reads a decimal number below `bound`; a plus sign may stand in front of it. -/
def unsigned? (bound : Nat) (text : String) : Option Nat :=
  match text.toList with
  | '+' :: digits => Numeral.ofDecimal? bound digits
  | digits => Numeral.ofDecimal? bound digits

/-- Reads a decimal number below `bound` with either sign; a minus sign fits zero alone. -/
def signed? (bound : Nat) (text : String) : Option Nat :=
  match text.toList with
  | '-' :: digits => Numeral.ofDecimal? 1 digits
  | _ => unsigned? bound text

/-- Reads a number that is not zero. -/
def capacity? (text : String) : Option Capacity := do
  let n ← unsigned? 18446744073709551616 text
  if h : 0 < n then return ⟨n, h⟩ else none

end Settings
end DnsResolver
