import DnsResolver.Resolver.Handle

/-!
# Runs of a resolver

A resolver is called again and again, to handle a message or to resolve a name directly.  A run is
a sequence of such calls, each of which finds the state that the calls before it left.
-/

namespace DnsResolver
namespace Resolver

variable {σ : Type}

/-- A call of a resolver. -/
inductive Call where
  | handle (message : Message)
  | resolve (name : Name) (type : RecordType) (depth : Nat)
  deriving DecidableEq

/-- What a call answers. -/
inductive Answer where
  | handled (result : Except HandleError (Option Message))
  | resolved (records : List Record)

/-- Runs one call. -/
def call (resolver : Resolver σ) : Call → Action σ Answer
  | .handle message => return .handled (← resolver.handle message)
  | .resolve name type depth => return .resolved (← resolver.resolve name type depth)

/-- Runs calls in order and collects their answers. -/
def run (resolver : Resolver σ) : List Call → Action σ (List Answer)
  | [] => return []
  | call :: calls => do
    let answer ← resolver.call call
    let answers ← resolver.run calls
    return answer :: answers

end Resolver
end DnsResolver
