import RelMapper.Loading.Eager
namespace RelMapper

/-- How to load a relation after its owner: not at all, because the result is known, or by a query
for one row, for a collection or for an aggregate. -/
inductive FollowUp
  | known (data : Loaded Entity)
  | one (q : EntityQuery)
  | many (q : EntityQuery)
  | aggregate (q : Query) (function : AggregateFunction)

namespace FollowUp

def foreignRow (foreign : Model) (owner : Entity) (foreignKey foreignColumn : String) :
    Except Fault FollowUp := do
  let table ← foreign.tableName
  let key := (owner.get? foreignKey).getD .null
  if key.isNull then return .known (.one none)
  let selection := (Selection.ofModel foreign).satisfying
    (.columnIs (.qualified table foreignColumn) key)
  return .one (.plain foreign (← selection.query))

def ofNoOwner (r : Relation) : Loaded Entity :=
  match r.aggregation with
  | some a => .aggregate (a.function.ofResult .null)
  | none => .many []

def ofAggregation (known : Registry) (c : CollectionTable) (id : Value) (r : Relation)
    (a : Aggregation) : Except Fault FollowUp := do
  let projection ← Projection.ofItems [← r.aggregateCall known a none]
  let source ← r.aggregateSource known c a
  return .aggregate { projection, source, filter := some (c.belongsTo id) } a.function

/-- Joins the junction of a many-to-many relation to its foreign rows, unless a filter has joined
it already. -/
def joinJunction (foreign : Model) (r : Relation) (q : Query) : Except Fault Query :=
  match r.kind with
  | .manyToMany junction foreignKey _ =>
    if q.source.joinsTable junction then .ok q
    else do
      let p := Relation.sameColumns (.qualified junction foreignKey)
        (.qualified (← foreign.tableName) (← foreign.idName))
      return { q with source := q.source.joinOn .inner (.table { name := junction }) p }
  | _ => .ok q

def ofCollection (foreign : Model) (c : CollectionTable) (id : Value) (r : Relation)
    (o : Option RelationOptions) : Except Fault FollowUp := do
  let selection := (Selection.ofModel foreign).satisfying (c.belongsTo id)
  let query ← (o.elim selection (·.apply selection)).query
  return .many (.plain foreign (← joinJunction foreign r query))

def ofRelation (known : Registry) (owner : Entity) (r : Relation) (o : Option RelationOptions) :
    Except Fault FollowUp := do
  let foreign ← known.get r.foreignModel
  discard foreign.tableName
  match r.kind with
  | .manyToOne foreignKey foreignColumn .. => foreignRow foreign owner foreignKey foreignColumn
  | _ =>
    let id ← owner.id
    if id.isNull then return .known (ofNoOwner r)
    let c ← CollectionTable.ofRelation known owner.model r
    match r.aggregation with
    | some a => ofAggregation known c id r a
    | none => ofCollection foreign c id r o

end FollowUp

end RelMapper
