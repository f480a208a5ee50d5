import DnsResolver.Address.Socket

/-!
# Messages

A message is what travels between a client and the resolver: its octets, the peer it came from or
goes to, the transport, and the number of the socket it arrived on.
-/

namespace DnsResolver

/-- How a message travels. -/
inductive Transport where
  | udp
  | tcp
  deriving DecidableEq, Repr

namespace Transport

/-- The name of the transport. -/
def display : Transport → String
  | udp => "udp"
  | tcp => "tcp"

end Transport

/-- Octets on their way from or to a peer. -/
structure Message where
  data : Octets
  peer : SocketAddress
  transport : Transport
  source : Int
  deriving DecidableEq, Repr

/-- The most octets of a message over UDP. -/
def maxDatagramLength : Nat := 512

end DnsResolver
