import RelMapper.FetchOptions
import RelMapper.Loading.Collection
import RelMapper.Loading.Layout
namespace RelMapper

/-- Whether a relation is loaded after its owner. Collections without an aggregate always are. -/
def Relation.needsFollowUp (r : Relation) : Bool :=
  r.lazy || (!r.isManyToOne && r.aggregation.isNone)

/-- A query under construction, and the names by which its tables are known so far. -/
structure Draft where
  query : Query
  layout : Layout
  names : List String

namespace Draft

def leftJoin (d : Draft) (name : String) (target : Target) (p : Predicate) (items : List Expr) :
    Draft :=
  { d with
    query := { d.query with
      source := d.query.source.joinOn .leftOuter target p
      projection := items.foldl Projection.push d.query.projection }
    names := d.names ++ [name] }

/-- Joins the foreign row of a many-to-one relation. A table that is there already gets another
name. -/
def joinForeign (known : Registry) (table : String) (r : Relation)
    (foreignKey foreignColumn : String) (d : Draft) : Except Fault Draft := do
  let foreign ← known.get r.foreignModel
  let foreignTable ← foreign.tableName
  let newName := if d.names.contains foreignTable then some (table ++ "_" ++ r.name) else none
  let name := newName.getD foreignTable
  let start := d.query.projection.items.length
  let d := d.leftJoin name (.table ⟨foreignTable, newName⟩)
    (Relation.sameColumns (.qualified table foreignKey) (.qualified name foreignColumn))
    (foreign.fieldNames.map fun field ↦ .column (.qualified name field))
  return { d with layout := { d.layout with
    related := d.layout.related ++ [⟨r.name, foreign, start⟩] } }

def joinAggregate (known : Registry) (m : Model) (table : String) (r : Relation) (a : Aggregation)
    (d : Draft) : Except Fault Draft := do
  let name := table ++ "_" ++ r.name
  let query ← r.aggregateQuery known m a
  let id ← m.idName
  let index := d.query.projection.items.length
  let d := d.leftJoin name (.derived (query.derivedAs name))
    (Relation.sameColumns (.qualified name Relation.ownerKeyName) (.qualified table id))
    [.column (.qualified name Relation.aggregateName)]
  return { d with layout := { d.layout with
    aggregates := d.layout.aggregates ++ [⟨r.name, index, a.function⟩] } }

def joinRelation (known : Registry) (m : Model) (table : String) (o : FetchOptions) (d : Draft)
    (r : Relation) : Except Fault Draft :=
  if r.lazy || o.skips r.name then .ok d
  else match r.kind, r.aggregation with
    | .manyToOne foreignKey foreignColumn _ _, _ =>
      d.joinForeign known table r foreignKey foreignColumn
    | _, some a => d.joinAggregate known m table r a
    | _, none => .ok d

end Draft

namespace EntityQuery

def followUpKey (m : Model) (r : Relation) : Except Fault (Option String) :=
  match r.kind with
  | .manyToOne foreignKey .. => .ok (if m.hasField foreignKey then some foreignKey else none)
  | _ => some <$> m.idName

def followUpKeys (m : Model) (o : FetchOptions) : Except Fault (List String) := do
  let relations := m.relations.filter fun r ↦ r.needsFollowUp && !o.skips r.name
  return (← relations.mapM (followUpKey m)).filterMap id

/-- Reads the rows of a model with what comes with them: related rows and aggregates that are not
lazy, and, however few fields are asked for, the keys of all that is loaded after them. -/
def primary (known : Registry) (c : Config) (m : Model) (o : FetchOptions) (id : Option Value) :
    Except Fault EntityQuery := do
  let table ← m.tableName
  let fields ← o.projection m
  let fields := (← followUpKeys m o).foldl Filter.noted fields
  let selection := o.apply c ((Selection.ofModel m).select fields)
  let query ← (id.elim selection selection.byId).query
  let draft ← m.relations.foldlM (Draft.joinRelation known m table o)
    { query, layout := { fields }, names := [table] }
  return { query := draft.query, model := m, layout := draft.layout }

end EntityQuery

end RelMapper
