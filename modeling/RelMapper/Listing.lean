import RelMapper.Entity
namespace RelMapper

/-- Entities that were read, and the number of all rows that match, whichever page was read. -/
structure Listing where
  entities : List Entity
  count : Nat

namespace Listing

def isEmpty (l : Listing) : Bool :=
  l.entities.isEmpty

def toJson (l : Listing) : Json :=
  .object [("count", .integer l.count), ("results", .array (Entity.listToJson l.entities))]

def serialized (l : Listing) : Json :=
  .object [("entities", .array (Entity.listToJson l.entities)), ("count", .integer l.count)]

end Listing

end RelMapper
