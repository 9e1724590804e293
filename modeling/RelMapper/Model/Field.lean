import RelMapper.Text.Split
namespace RelMapper

inductive FieldKind
  | integer
  | string
  | dateTime
deriving DecidableEq

def FieldKind.sqlName : FieldKind → String
  | integer => "INTEGER"
  | string => "VARCHAR"
  | dateTime => "DATETIME"

/-- A declared column. A foreign key is written `table.column`. -/
structure Field where
  name : String
  kind : FieldKind
  primaryKey : Bool := false
  notNull : Bool := false
  unique : Bool := false
  foreignKey : Option String := none
deriving DecidableEq

def Field.foreignKeyTarget (f : Field) : Option (String × String) :=
  f.foreignKey.bind (Text.splitFirst '.')

end RelMapper
