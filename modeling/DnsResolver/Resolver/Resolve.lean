import DnsResolver.Resolver.Search

/-!
# Resolving names

A name is resolved from the cache or by a search from the roots on, whose answer is cached for as
long as its first record lives.  If addresses were asked for and the answer begins with an alias,
the name behind the alias is resolved in turn, one level deeper, down to the configured depth.

`resolve` counts the levels without a bound.  `resolveOnWords` counts them in a machine word, which
matters if aliases may be followed down to the largest one.
-/

namespace DnsResolver

/-- What comes of a sum that a machine word cannot hold, which depends on how the program was
built. -/
inductive Overflow where
  /-- The program stops. -/
  | traps
  /-- The program goes on with the sum modulo `2 ^ 64`. -/
  | wraps
  deriving DecidableEq, Repr

/-- The sum of two machine words, unless the program stops. -/
def Overflow.add? (overflow : Overflow) (x y : UInt64) : Option UInt64 :=
  match overflow with
  | traps => if x.toNat + y.toNat < UInt64.size then some (x + y) else none
  | wraps => some (x + y)

namespace Resolver

variable {σ : Type}

/-- The name to go on with, if addresses were asked for and the first answer is an alias. -/
def aliasTarget? (type : RecordType) (first : Record) : Option Name :=
  if type = .a then
    match first.data with
    | .cname target => some target
    | _ => none
  else none

/-- What one level of a resolution comes to. -/
inductive Level where
  /-- It ends with some records, or with none if the search failed. -/
  | ended (records : List Record)
  /-- The answer is an alias, and the name behind it is still to be resolved. -/
  | aliased (target : Name)

/-- One level of a resolution, which follows no alias itself. -/
def resolveLevel (resolver : Resolver σ) (name : Name) (type : RecordType) : Action σ Level := do
  let key := CacheKey.of name type
  match ← resolver.lookUp key with
  | some records =>
    note (.cacheHit name type)
    return .ended records
  | none =>
    note (.cacheMiss name type)
    let candidates ← resolver.rootCandidates
    match ← resolver.search name type maxQueries candidates with
    | [] => return .ended []
    | first :: others =>
      resolver.store key (first :: others) first.ttl
      match aliasTarget? type first with
      | none => return .ended (first :: others)
      | some target =>
        note (.following name target)
        return .aliased target

/-- Resolves the records of a type that a name owns.  No records mean that this failed. -/
def resolve (resolver : Resolver σ) (name : Name) (type : RecordType) (depth : Nat) :
    Action σ (List Record) := do
  if _tooDeep : resolver.config.maxDepth < depth then
    note (.tooDeep name type)
    return []
  else
    match ← resolver.resolveLevel name type with
    | .ended records => return records
    | .aliased target => resolver.resolve target .a (depth + 1)
termination_by resolver.config.maxDepth + 1 - depth

/-- Resolves records with the depth in a machine word.  Nothing comes of it if the program stops at
an overflow, or if it wraps and aliases lead on for ever. -/
def resolveOnWords (resolver : Resolver σ) (overflow : Overflow) (name : Name) (type : RecordType)
    (depth : UInt64) (state : State σ) : Option (List Record × State σ) :=
  if resolver.config.maxDepth < depth.toNat then
    some ([], (note (.tooDeep name type) state).2)
  else
    match resolver.resolveLevel name type state with
    | (.ended records, state) => some (records, state)
    | (.aliased target, state) => do
      let deeper ← overflow.add? depth 1
      resolver |>.resolveOnWords overflow target .a deeper state
partial_fixpoint

end Resolver
end DnsResolver
