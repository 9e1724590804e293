import RelMapper.Model.Basic
import RelMapper.Sql.Query
namespace RelMapper

structure Insert where
  table : String
  row : List (String × Value)
  row_ne_nil : row ≠ []

namespace Insert

def ofRow (table : String) (row : List (String × Value)) : Except Fault Insert :=
  if h : row = [] then .error (.ofMisuse (.insertWithoutColumns table)) else .ok ⟨table, row, h⟩

def render (i : Insert) : Rendering String := do
  let values ← Clause.renderValues (i.row.map Prod.snd)
  return Clause.insertLine i.table (i.row.map Prod.fst) ++ Fragment.lineSeparator ++ values

def fragment (i : Insert) : Fragment :=
  .text (Clause.insertLine i.table (i.row.map Prod.fst) ++ Fragment.lineSeparator) ::
    Clause.valuesLine (i.row.map Prod.snd)

theorem writes_render (i : Insert) : i.render.Writes i.fragment :=
  (Clause.writes_renderValues _).prepend _

end Insert

structure Update where
  table : String
  assignments : List (String × Value)
  filter : Option Predicate
  assignments_ne_nil : assignments ≠ []

namespace Update

def ofModel (m : Model) (filter : Option Predicate) (assignments : List (String × Value)) :
    Except Fault Update := do
  let table ← m.tableName
  if h : assignments = [] then .error (.ofMisuse (.updateWithoutColumns table))
  else .ok ⟨table, assignments, filter, h⟩

def render (u : Update) : Rendering String := do
  let set ← Clause.renderSet u.assignments
  let filters ← u.filter.toList.mapM Clause.renderWhere
  return String.intercalate Fragment.lineSeparator (Clause.updateLine u.table :: set :: filters)

def fragment (u : Update) : Fragment :=
  Fragment.lines <|
    .ofText (Clause.updateLine u.table) :: Clause.setLine u.assignments ::
      u.filter.toList.map Clause.whereLine

theorem writes_render (u : Update) : u.render.Writes u.fragment := by
  intro binds
  rw [render, Rendering.run_bind, Clause.writes_renderSet, Rendering.run_bind,
    Rendering.writesAll_mapM _ (fun p _ ↦ Clause.writes_renderWhere p), Rendering.run_pure]
  simp [fragment, Fragment.sql_lines, Fragment.binds_lines]

end Update

/-- Rows are only ever deleted under a condition. -/
structure Delete where
  table : String
  filter : Predicate

namespace Delete

def ofFilter (table : String) : Option Predicate → Except Fault Delete
  | some filter => .ok ⟨table, filter⟩
  | none => .error (.ofMisuse (.deleteWithoutCondition table))

def render (d : Delete) : Rendering String := do
  let filter ← Clause.renderWhere d.filter
  return Clause.deleteLine d.table ++ Fragment.lineSeparator ++ filter

def fragment (d : Delete) : Fragment :=
  .text (Clause.deleteLine d.table ++ Fragment.lineSeparator) :: Clause.whereLine d.filter

theorem writes_render (d : Delete) : d.render.Writes d.fragment :=
  (Clause.writes_renderWhere d.filter).prepend _

end Delete

structure ColumnDefinition where
  name : String
  type : String
  primaryKey : Bool := false
  notNull : Bool := false
  unique : Bool := false

namespace ColumnDefinition

def ofField (f : Field) : ColumnDefinition :=
  { name := f.name, type := f.kind.sqlName, primaryKey := f.primaryKey, notNull := f.notNull,
    unique := f.unique }

/-- A primary key is unique anyway, and is not said to be. -/
def sql (c : ColumnDefinition) : String :=
  c.name ++ " " ++ c.type ++ (if c.primaryKey then " PRIMARY KEY" else "") ++
    (if c.notNull then " NOT NULL" else "") ++
    (if c.unique && !c.primaryKey then " UNIQUE" else "")

end ColumnDefinition

structure ForeignKey where
  column : String
  table : String
  foreignColumn : String

def ForeignKey.sql (k : ForeignKey) : String :=
  "FOREIGN KEY (" ++ k.column ++ ") REFERENCES " ++ k.table ++ " (" ++ k.foreignColumn ++ ")"

structure CreateTable where
  table : String
  columns : List ColumnDefinition
  foreignKeys : List ForeignKey
  ifNotExists : Bool
  columns_ne_nil : columns ≠ []

namespace CreateTable

def ofColumns (table : String) (columns : List ColumnDefinition) (foreignKeys : List ForeignKey)
    (ifNotExists : Bool) : Except Fault CreateTable :=
  if h : columns = [] then .error (.ofMisuse (.createWithoutColumns table))
  else .ok ⟨table, columns, foreignKeys, ifNotExists, h⟩

def sql (c : CreateTable) : String :=
  "CREATE TABLE " ++ (if c.ifNotExists then "IF NOT EXISTS " else "") ++ c.table ++ " (" ++
    Fragment.lineSeparator ++
    String.intercalate ("," ++ Fragment.lineSeparator)
      (c.columns.map ColumnDefinition.sql ++ c.foreignKeys.map ForeignKey.sql) ++ "\n)"

def render (c : CreateTable) : Rendering String :=
  return c.sql

def fragment (c : CreateTable) : Fragment :=
  .ofText c.sql

theorem writes_render (c : CreateTable) : c.render.Writes c.fragment :=
  Rendering.writes_pure c.sql

end CreateTable

inductive Statement
  | select (q : Query)
  | insert (i : Insert)
  | update (u : Update)
  | delete (d : Delete)
  | createTable (c : CreateTable)

namespace Statement

def render : Statement → Rendering String
  | select q => q.render
  | insert i => i.render
  | update u => u.render
  | delete d => d.render
  | createTable c => c.render

def fragment : Statement → Fragment
  | select q => q.fragment
  | insert i => i.fragment
  | update u => u.fragment
  | delete d => d.fragment
  | createTable c => c.fragment

theorem writes_render (s : Statement) : s.render.Writes s.fragment := by
  cases s with
  | select q => exact q.writes_render
  | insert i => exact i.writes_render
  | update u => exact u.writes_render
  | delete d => exact d.writes_render
  | createTable c => exact c.writes_render

def sql (s : Statement) : String := s.render.result.1

def binds (s : Statement) : List Value := s.render.result.2

theorem sql_eq (s : Statement) : s.sql = s.fragment.sql := by
  rw [sql, s.writes_render.result_eq]

theorem binds_eq (s : Statement) : s.binds = s.fragment.binds := by
  rw [binds, s.writes_render.result_eq]

end Statement

end RelMapper
