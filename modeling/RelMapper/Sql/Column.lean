import RelMapper.Text.Split
namespace RelMapper

/-- A column, with its table where it is qualified and with the name that a projection gives it. -/
structure Column where
  name : String
  table : Option String := none
  newName : Option String := none

namespace Column

def qualified (table name : String) : Column :=
  { name, table := some table }

/-- Reads `column` or `table.column`; only the first point separates. -/
def ofText (s : String) : Column :=
  match Text.splitFirst '.' s with
  | some (table, name) => qualified table name
  | none => { name := s }

def named (c : Column) (newName : String) : Column :=
  { c with newName := some newName }

def orTable (c : Column) (table : String) : Column :=
  { c with table := some (c.table.getD table) }

def qualifiedName (c : Column) : String :=
  match c.table with
  | some table => table ++ "." ++ c.name
  | none => c.name

/-- Two references mean the same column whatever a projection calls them. -/
instance : BEq Column :=
  ⟨fun c d ↦ c.name == d.name && c.table == d.table⟩

end Column

end RelMapper
