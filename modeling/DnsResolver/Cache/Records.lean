import DnsResolver.Cache.Basic
import DnsResolver.Record.Basic

/-!
# The cache of record sets

Record sets are kept under the name and type that were asked for.  The name is kept in lower case,
so that every spelling of it finds the same set.
-/

namespace DnsResolver

/-- What a record set is kept under. -/
structure CacheKey where
  name : Name
  type : RecordType
  deriving DecidableEq

namespace CacheKey

/-- The key for the records of a type that a name owns, in whatever spelling. -/
def of (name : Name) (type : RecordType) : CacheKey where
  name := name.lowerCase
  type := type

end CacheKey

/-- A cache of record sets. -/
abbrev RecordCache := Cache CacheKey (List Record)

end DnsResolver
