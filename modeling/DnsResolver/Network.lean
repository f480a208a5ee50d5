import DnsResolver.Address.Socket

/-!
# Name servers

A resolver asks name servers by exchanging one message with one of them at a time.  A `Network` is
anything over which such exchanges can be made; it may remember earlier ones.
-/

namespace DnsResolver

/-- The reasons why an exchange brings no reply. -/
inductive ExchangeError where
  /-- The server did not reply in time. -/
  | timeout (server : SocketAddress)
  /-- The message could not be sent, or the reply could not be received. -/
  | io (server : SocketAddress) (source : String)
  deriving DecidableEq, Repr

namespace ExchangeError

/-- What is reported about an exchange without a reply. -/
def message : ExchangeError → String
  | timeout server => s!"No reply from {server} in time"
  | io server source => s!"Failed to exchange a message with {server}: {source}"

end ExchangeError

/-- Sends a message to a server and waits for the reply.  What the servers and the lines to them
remember is kept in a state of type `σ`. -/
abbrev Network (σ : Type) := SocketAddress → Octets → StateM σ (Except ExchangeError Octets)

/-- The port that name servers listen on. -/
def dnsPort : UInt16 := 53

/-- The addresses of the servers of the root zone. -/
def rootServers : List IPv4 :=
  [⟨198, 41, 0, 4⟩, ⟨170, 247, 170, 2⟩, ⟨192, 33, 4, 12⟩, ⟨199, 7, 91, 13⟩,
    ⟨192, 203, 230, 10⟩, ⟨192, 5, 5, 241⟩, ⟨192, 112, 36, 4⟩, ⟨198, 97, 190, 53⟩,
    ⟨192, 36, 148, 17⟩, ⟨192, 58, 128, 30⟩, ⟨193, 0, 14, 129⟩, ⟨199, 7, 83, 42⟩,
    ⟨202, 12, 27, 33⟩]

end DnsResolver
