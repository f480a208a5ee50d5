import DnsResolver.Cache.Records
import DnsResolver.Packet.Basic
import DnsResolver.Log
import DnsResolver.Network

/-!
# Events of a resolver

All that a resolver does leaves a trace of events: its exchanges with servers, its uses of the cache,
and the steps that it logs.  `Event.logEntry?` gives the log entry of an event that has one.
-/

namespace DnsResolver

/-- The reasons why a server gave no usable reply to a query. -/
inductive QueryError where
  /-- There was no reply. -/
  | exchange (error : ExchangeError)
  /-- The reply is no packet. -/
  | reply (error : DecodeError)
  /-- The reply belongs to another query. -/
  | idMismatch (expected found : UInt16)
  deriving DecidableEq, Repr

namespace QueryError

/-- What is reported about a query without a usable reply. -/
def message : QueryError → String
  | exchange error => error.message
  | reply error => error.message
  | idMismatch expected found =>
    s!"Reply id {Hex.word found} does not match query id {Hex.word expected}"

end QueryError

/-- The reason why a message can be answered by no reply at all. -/
inductive HandleError where
  /-- The message does not even hold an identifier. -/
  | tooShort (length : Nat)
  deriving DecidableEq, Repr

namespace HandleError

/-- What is reported about a message without a reply. -/
def message : HandleError → String
  | tooShort length => s!"Message of {length} bytes is too short to reply to"

end HandleError

/-- One message sent to a server, and what came back. -/
structure Exchange where
  server : SocketAddress
  query : Octets
  outcome : Except ExchangeError Octets

/-- The most servers that are asked in the search for one name. -/
def maxQueries : Nat := 32

/-- Something that a resolver did. -/
inductive Event where
  /-- A message from a client is itself a reply. -/
  | unsolicited (peer : SocketAddress)
  /-- A message from a client is no packet. -/
  | malformed (id : UInt16) (peer : SocketAddress) (error : DecodeError)
  /-- A request asks nothing. -/
  | noQuestion (id : UInt16)
  /-- A request asks a question. -/
  | request (id : UInt16) (peer : SocketAddress) (question : Question)
  /-- A message from a client is dropped. -/
  | dropped (peer : SocketAddress) (error : HandleError)
  /-- Aliases are nested too deeply. -/
  | tooDeep (name : Name) (type : RecordType)
  /-- The records were in the cache. -/
  | cacheHit (name : Name) (type : RecordType)
  /-- The records were not in the cache, and the search for them begins. -/
  | cacheMiss (name : Name) (type : RecordType)
  /-- A record set had to make room in the cache. -/
  | evicted (name : Name) (type : RecordType)
  /-- The cache was used. -/
  | cached (operation : Cache.Operation CacheKey (List Record))
  /-- A message was exchanged with a server. -/
  | exchanged (exchange : Exchange)
  /-- A server gave no usable reply. -/
  | queryFailed (name : Name) (type : RecordType) (server : SocketAddress) (error : QueryError)
  /-- A server gave a reply without answers. -/
  | noAnswer (name : Name) (type : RecordType) (server : SocketAddress)
  /-- A server gave a reply that refers to other servers. -/
  | referred (name : Name) (server : SocketAddress) (count : Nat)
  /-- A reply refers to the servers of a zone that the name does not belong to. -/
  | foreignReferral (host zone : Name)
  /-- The answer is an alias. -/
  | following (name target : Name)
  /-- Enough servers have been asked. -/
  | outOfQueries (name : Name) (type : RecordType)

namespace Event

/-- The log entry of an event; uses of the cache and exchanges are not logged. -/
def logEntry? : Event → Option LogEntry
  | unsolicited peer => warn s!"Dropping unsolicited response from {peer}"
  | malformed id peer error =>
    warn s!"Malformed request {Hex.word id} from {peer}: {error.message}"
  | noQuestion id => debug s!"Request {Hex.word id} without questions"
  | request id peer question => debug s!"Request {Hex.word id} from {peer}: {question}"
  | dropped peer error => warn s!"Dropping message from {peer}: {error.message}"
  | tooDeep name type => debug s!"Giving up on {name} {type}: too deep"
  | cacheHit name type => debug s!"Cache hit for {name} {type}"
  | cacheMiss name type => debug s!"Cache miss for {name} {type}"
  | evicted name type => some ⟨.trace, "dns_recursor::cache", s!"Evicted {name} {type} from cache"⟩
  | cached _ => none
  | exchanged _ => none
  | queryFailed name type server error =>
    debug s!"Query for {name} {type} to {server} failed: {error.message}"
  | noAnswer name type server => debug s!"No answer for {name} {type} from {server}"
  | referred name server count => debug s!"{server} referred {name} to {count} servers"
  | foreignReferral host zone =>
    debug s!"Ignoring referral to {host} for unrelated zone {zone}"
  | following name target => debug s!"Following {name} to {target}"
  | outOfQueries name type => debug s!"Giving up on {name} {type} after {maxQueries} queries"
where
  /-- An entry of the resolver itself. -/
  entry (level : LogLevel) (message : String) : Option LogEntry :=
    some ⟨level, "dns_recursor::resolver", message⟩
  warn (message : String) : Option LogEntry := entry .warn message
  debug (message : String) : Option LogEntry := entry .debug message

/-- The exchange that an event records, if it records one. -/
def exchange? : Event → Option Exchange
  | exchanged exchange => some exchange
  | _ => none

/-- The use of the cache that an event records, if it records one. -/
def cached? : Event → Option (Cache.Operation CacheKey (List Record))
  | cached operation => some operation
  | _ => none

end Event
end DnsResolver
