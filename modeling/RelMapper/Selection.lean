import RelMapper.Filter
import RelMapper.Sql.Query
namespace RelMapper

/-- What to read of a model. Rows are restricted in one of three ways (by a predicate, by filters
or by equalities), and besides by id and by a searched text. -/
structure Selection where
  model : Model
  projection : Option (List Expr) := none
  id : Option Value := none
  condition : Option Predicate := none
  filters : Option (List Filter) := none
  equals : List (String × Value) := []
  search : Option (String × Option (List String)) := none
  orderBy : Option (Column × Bool) := none
  page : Option Page := none

namespace Selection

def ofModel (model : Model) : Selection := { model }

/-- A field is read from the model's table, `table.column` from that table, and all other text is
taken as it stands. -/
def item (m : Model) (name : String) : Expr :=
  match m.table, m.field? name with
  | some table, some f => .column (.qualified table f.name)
  | _, _ =>
    if name.toList.contains '.' && !name.toList.any fun c ↦ c == '(' || c == ' ' then .col name
    else .verbatim name

def select (s : Selection) (names : List String) : Selection :=
  { s with projection := some (names.map (item s.model)) }

def selectItems (s : Selection) (items : List Expr) : Selection :=
  { s with projection := some items }

def byId (s : Selection) (id : Value) : Selection :=
  { s with id := some id }

def satisfying (s : Selection) (p : Predicate) : Selection :=
  { s with condition := some (s.condition.elim p fun q ↦ q.and p) }

def filtered (s : Selection) (fs : List Filter) : Selection :=
  { s with filters := some (s.filters.getD [] ++ fs) }

def equalling (s : Selection) (column : String) (v : Value) : Selection :=
  { s with equals := s.equals ++ [(column, v)] }

def searching (s : Selection) (text : String) (columns : Option (List String)) : Selection :=
  { s with search := some (text, columns) }

def sortedBy (s : Selection) (c : Column) (ascending : Bool) : Selection :=
  { s with orderBy := some (c, ascending) }

def paged (s : Selection) (page : Page) : Selection :=
  { s with page := some page }

def modes (s : Selection) : Nat :=
  s.condition.isSome.toNat + s.filters.isSome.toNat + (!s.equals.isEmpty).toNat

/-- Some column contains the text. Without columns given, the model's own are searched. -/
def searchCondition (m : Model) (text : String) (columns : Option (List String)) :
    Except Fault Predicate := do
  let table ← m.tableName
  let columns := columns.getD m.searchColumns
  if columns.isEmpty then throw (.ofMisuse (.noSearchColumns m.name))
  Predicate.any <| columns.map fun c ↦
    .like (.column ((Column.ofText c).orTable table)) (.bound (.text ("%" ++ text ++ "%")))

def equality (m : Model) (e : String × Value) : Except Fault Predicate := do
  let table ← m.tableName
  let column := Column.ofText e.1
  if column.table.isNone && !m.hasField column.name then throw (m.unknownField column.name)
  return .columnIs (column.orTable table) e.2

def touched (m : Model) (p : Predicate) : List String :=
  let relations := m.relations.filter fun r ↦
    match r.junction with
    | some junction => p.columns.any fun c ↦ c.table == some junction
    | none => false
  relations.foldl (fun names r ↦ Filter.noted names r.name) []

/-- Joins the junction table of a relation, unless it has been joined for another one. -/
def joinJunction (m : Model) (source : Source) (relation : String) : Except Fault Source := do
  let table ← m.tableName
  let id ← m.idName
  return (← m.relation relation).junction.elim source fun junction ↦
    if source.joinsTable junction then source
    else source.joinOn .inner (.table { name := junction })
      (.equal (.column (.qualified junction id)) (.column (.qualified table id)))

def sourceAndFilter (s : Selection) : Except Fault (Source × Option Predicate) := do
  let m := s.model
  let table ← m.tableName
  if 1 < s.modes then throw (.ofMisuse .mixedFilters)
  let byId ← s.id.toList.mapM m.idIs
  let (lowered, relations) :=
    (Filter.lowerAll m (s.filters.getD [])).run.run (s.condition.elim [] (touched m))
  let byFilters ← lowered
  let byEquality ← s.equals.mapM (equality m)
  let bySearch ← s.search.toList.mapM fun (text, columns) ↦ searchCondition m text columns
  let source ← relations.foldlM (joinJunction m) (Source.ofTable table)
  let conditions := byId ++ s.condition.toList ++ byFilters ++ byEquality ++ bySearch
  if conditions.isEmpty then return (source, none)
  return (source, some (← Predicate.all conditions))

/-- The statement that reads the selected rows. Without a projection it reads all fields. -/
def query (s : Selection) : Except Fault Query := do
  let table ← s.model.tableName
  let items := s.projection.getD (s.model.fields.map fun f ↦ .column (.qualified table f.name))
  let projection ← Projection.ofItems items
  let (source, filter) ← s.sourceAndFilter
  let orderBy := s.orderBy.map fun (c, ascending) ↦ ⟨.column (c.orTable table), ascending⟩
  return { projection, source, filter, orderBy, page := s.page }

def countQuery (s : Selection) : Except Fault Query := do
  let table ← s.model.tableName
  let id ← s.model.idName
  let projection ← Projection.ofItems [.call "COUNT" [.column (.qualified table id)] none]
  let (source, filter) ← s.sourceAndFilter
  return { projection, source, filter }

end Selection

end RelMapper
