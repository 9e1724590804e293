import RelMapper.Registry
import RelMapper.Sql.Query
namespace RelMapper

/-- Where the rows of a collection stand, and the column of that table that names the owner. -/
structure CollectionTable where
  table : String
  ownerColumn : String

namespace CollectionTable

def ofRelation (known : Registry) (m : Model) (r : Relation) : Except Fault CollectionTable :=
  match r.kind with
  | .oneToMany back _ => do
    let foreign ← known.get r.foreignModel
    let ownerColumn ← back.elim m.idName .ok
    return ⟨← foreign.tableName, ownerColumn⟩
  | .manyToMany junction .. => return ⟨junction, ← m.idName⟩
  | .manyToOne .. => .error (.ofMisuse (.relationMismatch r.name m.name .collection))

def owner (c : CollectionTable) : Column :=
  .qualified c.table c.ownerColumn

def belongsTo (c : CollectionTable) (id : Value) : Predicate :=
  .columnIs c.owner id

end CollectionTable

namespace Relation

def sameColumns (c d : Column) : Predicate :=
  .equal (.column c) (.column d)

def aggregateCall (known : Registry) (r : Relation) (a : Aggregation) (newName : Option String) :
    Except Fault Expr :=
  match a.column with
  | none => .ok (.call a.function.sqlName [.star] newName)
  | some column => do
    let foreign ← known.get r.foreignModel
    return .call a.function.sqlName [.column (.qualified (← foreign.tableName) column)] newName

/-- The tables to aggregate over. A column of a many-to-many relation is a column of the foreign
table, which is reached through the junction. -/
def aggregateSource (known : Registry) (c : CollectionTable) (r : Relation) (a : Aggregation) :
    Except Fault Source :=
  match r.kind, a.column with
  | .manyToMany junction foreignKey _, some _ => do
    let foreign ← known.get r.foreignModel
    let table ← foreign.tableName
    return (Source.ofTable c.table).joinOn .inner (.table { name := table })
      (sameColumns (.qualified table (← foreign.idName)) (.qualified junction foreignKey))
  | _, _ => .ok (.ofTable c.table)

def ownerKeyName : String := "owner_pk"

def aggregateName : String := "aggr"

/-- One row for every owner that has a non-empty collection: its id and the aggregate. -/
def aggregateQuery (known : Registry) (m : Model) (r : Relation) (a : Aggregation) :
    Except Fault Query := do
  let c ← CollectionTable.ofRelation known m r
  let call ← r.aggregateCall known a (some aggregateName)
  let projection ← Projection.ofItems [.column (c.owner.named ownerKeyName), call]
  return { projection, source := ← r.aggregateSource known c a, groupBy := some [.column c.owner] }

end Relation

end RelMapper
