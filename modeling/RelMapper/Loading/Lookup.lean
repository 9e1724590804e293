import RelMapper.FetchOptions
import RelMapper.Loading.Collection
import RelMapper.Entity
namespace RelMapper

namespace Query

/-- Counts the rows that a read with the same options would find without paging. -/
def countOf (m : Model) (o : FetchOptions) : Except Fault Query :=
  (o.restrict (.ofModel m)).countQuery

def countRelated (known : Registry) (owner : Entity) (r : Relation) : Except Fault Query := do
  let c ← CollectionTable.ofRelation known owner.model r
  let id ← owner.id
  let projection ← Projection.ofItems [.call "COUNT" [.star] none]
  return { projection, source := .ofTable c.table, filter := some (c.belongsTo id) }

def linkedIds (m : Model) (junction foreignKey : String) (owner : Value) : Except Fault Query := do
  let projection ← Projection.ofItems [.column (.qualified junction foreignKey)]
  let filter := Predicate.columnIs (.qualified junction (← m.idName)) owner
  return { projection, source := .ofTable junction, filter := some filter }

def lookup (m : Model) (wanted field : String) (v : Value) : Except Fault Query := do
  let table ← m.tableName
  if !m.hasField wanted then throw (m.unknownField wanted)
  if !m.hasField field then throw (m.unknownField field)
  let selection := ((Selection.ofModel m).select [wanted]).satisfying
    (.columnIs (.qualified table field) v)
  (selection.paged ⟨1, none⟩).query

end Query

end RelMapper
