import RelMapper.Fault
import RelMapper.Model.Field
import RelMapper.Model.Relation
namespace RelMapper

/-- The declared shape of one kind of entity. A model without a table is abstract. -/
structure Model where
  name : String
  table : Option String := none
  fields : List Field := []
  relations : List Relation := []
  /-- Searched when a search names no columns. -/
  searchColumns : List String := []
deriving DecidableEq

namespace Model

def isAbstract (m : Model) : Bool :=
  m.table.isNone

def tableName (m : Model) : Except Fault String :=
  match m.table with
  | some table => .ok table
  | none => .error (.ofMisuse (.noTable m.name))

theorem tableName_eq_ok {m : Model} {table : String} :
    m.tableName = .ok table ↔ m.table = some table := by
  rw [tableName]
  split
  · next heq => rw [heq, Except.ok.injEq, Option.some.injEq]
  · next heq => simp [heq]

def idField (m : Model) : Except Fault Field :=
  match m.fields.filter Field.primaryKey with
  | [field] => .ok field
  | [] => .error (.ofMisuse (.noPrimaryKey m.name))
  | _ => .error (.ofMisuse (.severalPrimaryKeys m.name))

def idName (m : Model) : Except Fault String :=
  m.idField.map Field.name

def field? (m : Model) (name : String) : Option Field :=
  m.fields.find? (·.name == name)

def hasField (m : Model) (name : String) : Bool :=
  (m.field? name).isSome

def fieldNames (m : Model) : List String :=
  m.fields.map Field.name

def relation? (m : Model) (name : String) : Option Relation :=
  m.relations.find? (·.name == name)

def relation (m : Model) (name : String) : Except Fault Relation :=
  match m.relation? name with
  | some r => .ok r
  | none => .error (.relationNotFound m.name name)

def unknownField (m : Model) (name : String) : Fault :=
  .ofMisuse (.unknownField m.name name)

end Model

end RelMapper
