import DnsResolver.Queue
import DnsResolver.Resolver.Resolve

/-!
# Answering clients

Every message from a client is answered by one reply at most.  Replies that arrive unasked and
messages without an identifier get none; what cannot be read, or asks nothing, is answered with a
format error; otherwise the first question is resolved.
-/

namespace DnsResolver
namespace Resolver

variable {σ : Type}

/-- The reply to a message that is no packet. -/
def malformedReply (id : UInt16) : Packet where
  header := (Header.setFlags { id } { response := true }).setResponseCode .formatError

/-- The reply to a request whose first question has been resolved. -/
def answerReply (request : Packet) (question : Question) (answers : List Record) : Packet :=
  let code : ResponseCode := if answers.isEmpty then .nameError else .noError
  let reply := request.respond code
  { reply with header := reply.header.setRecursionAvailable true }
    |>.addQuestion question
    |>.addAnswers answers

/-- The identifier in front of a message, if it is long enough to hold one. -/
def messageId? : Octets → Option UInt16
  | high :: low :: _ => some (UInt16.ofNat (Octets.value [high, low]))
  | _ => none

/-- Turns a message from a client into the reply to it, if it gets one. -/
def handle (resolver : Resolver σ) (message : Message) :
    Action σ (Except HandleError (Option Message)) := do
  let reply (packet : Packet) : Except HandleError (Option Message) :=
    .ok (some { message with data := packet.wire })
  if MessageKind.of? message.data = some .response then
    note (.unsolicited message.peer)
    return .ok none
  else
    match Packet.ofOctets message.data with
    | .error error =>
      match messageId? message.data with
      | none => return .error (.tooShort message.data.length)
      | some id =>
        note (.malformed id message.peer error)
        return reply (malformedReply id)
    | .ok request =>
      match request.questions with
      | [] =>
        note (.noQuestion request.header.id)
        return reply (request.respond .formatError)
      | question :: _ =>
        note (.request request.header.id message.peer question)
        let answers ← resolver.resolve question.name question.type 0
        return reply (answerReply request question answers)

/-- Handles one message; one that cannot be handled is dropped. -/
def serveMessage (resolver : Resolver σ) (message : Message) : Action σ (Option Message) := do
  match ← resolver.handle message with
  | .ok reply => return reply
  | .error error =>
    note (.dropped message.peer error)
    return none

/-- Takes message after message from one queue and pushes the replies to another, until the first
queue is empty. -/
def serve (resolver : Resolver σ) (inbound outbound : Queue Message) :
    Action σ (Queue Message × Queue Message) :=
  match _taken : inbound.pop? with
  | none => return (inbound, outbound)
  | some (message, inbound) => do
    match ← resolver.serveMessage message with
    | none => resolver.serve inbound outbound
    | some reply => resolver.serve inbound (outbound.push reply)
termination_by inbound.size
decreasing_by all_goals have := Queue.size_of_pop? _taken; omega

end Resolver
end DnsResolver
