import DnsResolver.Resolver.Handle

/-!
# Transcripts

A transcript is a line of text that holds a message from a client, and behind it the replies that
servers gave in turn while the message was handled.  Messages are written in hexadecimal and stand
apart by blanks; a hyphen stands for a server that did not reply.  Replaying a transcript needs no
network: each query takes the next reply, under the identifier of the query.
-/

namespace DnsResolver

/-- A message from a client with the replies of servers, of which a missing one is `none`. -/
structure Transcript where
  request : Octets
  replies : List (Option Octets)
  deriving DecidableEq, Repr

namespace Transcript

/-- The words between the blanks of a text. -/
def words : List Char → List (List Char)
  | [] => []
  | c :: rest =>
    if c.isWhitespace then words rest
    else
      match rest, words rest with
      | next :: _, word :: others =>
        if next.isWhitespace then [c] :: word :: others else (c :: word) :: others
      | _, others => [c] :: others

/-- The reply that a word stands for. -/
def replyOf? (word : List Char) : Option (Option Octets) :=
  if word = ['-'] then some none else (Hex.octetsOf? word).map some

/-- The transcript that a line holds. -/
def ofLine? (line : String) : Option Transcript :=
  match words line.toList with
  | [] => none
  | request :: replies => do
    return { request := ← Hex.octetsOf? request, replies := ← replies.mapM replyOf? }

/-- The network that brings the replies in turn, each under the identifier of the query. -/
def network : Network (List (Option Octets)) := fun server query => do
  match ← get with
  | some reply :: rest =>
    set rest
    return .ok (query.take 2 ++ reply.drop 2)
  | _ :: rest =>
    set rest
    return .error (.timeout server)
  | [] => return .error (.timeout server)

end Transcript
end DnsResolver
