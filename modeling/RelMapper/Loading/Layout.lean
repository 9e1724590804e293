import RelMapper.Entity
import RelMapper.Row
import RelMapper.Sql.Query
namespace RelMapper

/-- The columns of a related row, from `start` on, one for each field of its model. -/
structure RelatedColumns where
  relation : String
  model : Model
  start : Nat

structure AggregateColumn where
  relation : String
  index : Nat
  function : AggregateFunction

/-- What the columns of a result mean: the owner's fields come first, and then the related rows and
the aggregates that were joined. -/
structure Layout where
  fields : List String
  related : List RelatedColumns := []
  aggregates : List AggregateColumn := []

/-- No rows are counted as zero, and all other aggregates of no rows are null. -/
def AggregateFunction.ofResult (f : AggregateFunction) (v : Value) : Value :=
  if v.isNull && f == .count then .bigInt 0 else v

namespace RelatedColumns

def valueAt (row : Row) (i : Nat) : Value :=
  row[i]?.getD .null

/-- The related entity, which is absent if all of its columns are null. -/
def read (c : RelatedColumns) (row : Row) : Except Fault (Option Entity) :=
  let values := (List.range' c.start c.model.fields.length).map (valueAt row)
  if values.all Value.isNull then .ok none
  else some <$> (c.model.fieldNames.zip values).foldlM (fun e (name, v) ↦ e.set name v)
    (Entity.ofModel c.model)

end RelatedColumns

namespace Layout

def width (l : Layout) : Nat :=
  l.related.foldr (fun c n ↦ c.model.fields.length + n) (l.fields.length + l.aggregates.length)

def read (l : Layout) (m : Model) (row : Row) : Except Fault Entity := do
  if row.length < l.width then throw (.ofDatabase (.shortRow m.name row.length l.width))
  let e ← (l.fields.zip row).foldlM (fun e (name, v) ↦ e.set name v) (Entity.ofModel m)
  let e ← l.related.foldlM (fun e c ↦ do e.setLoaded c.relation (.one (← c.read row))) e
  l.aggregates.foldlM (fun e c ↦ e.setLoaded c.relation
    (.aggregate (c.function.ofResult (RelatedColumns.valueAt row c.index)))) e

end Layout

structure EntityQuery where
  query : Query
  model : Model
  layout : Layout

namespace EntityQuery

def plain (m : Model) (q : Query) : EntityQuery :=
  { query := q, model := m, layout := { fields := m.fieldNames } }

def read (q : EntityQuery) (row : Row) : Except Fault Entity :=
  q.layout.read q.model row

def readAll (q : EntityQuery) (rows : List Row) : Except Fault (List Entity) :=
  rows.mapM q.read

end EntityQuery

end RelMapper
