import RelMapper.Sql.Statement
namespace RelMapper

def Field.constraint (table : String) (f : Field) : Except Fault (Option ForeignKey) :=
  match f.foreignKey, f.foreignKeyTarget with
  | _, some (foreignTable, foreignColumn) => .ok (some ⟨f.name, foreignTable, foreignColumn⟩)
  | some reference, none => .error (.ofMisuse (.malformedForeignKey reference table f.name))
  | none, none => .ok none

def CreateTable.ofModel (ifNotExists : Bool) (m : Model) : Except Fault CreateTable := do
  let table ← m.tableName
  discard m.idField
  let foreignKeys ← m.fields.mapM (Field.constraint table)
  CreateTable.ofColumns table (m.fields.map ColumnDefinition.ofField) (foreignKeys.filterMap id)
    ifNotExists

namespace Schema

/-- Every table that the model refers to is there, or is none of ours, or is its own. -/
def isReady (known created : List String) (m : Model) : Bool :=
  m.fields.all fun f ↦
    match f.foreignKeyTarget with
    | none => true
    | some (table, _) => created.contains table || !known.contains table || m.table == some table

def extract {α : Type} (p : α → Bool) : List α → Option (α × List α)
  | [] => none
  | a :: as => if p a then some (a, as) else (extract p as).map fun (b, bs) ↦ (b, a :: bs)

/-- Puts the models in an order in which each comes after those it refers to, as far as there is
one, and tells which models are left. One model is placed in each of the `n` rounds. -/
def arrange (known : List String) : Nat → List String → List Model → List Model × List Model
  | 0, _, pending => ([], pending)
  | n + 1, created, pending =>
    match extract (isReady known created) pending with
    | none => ([], pending)
    | some (m, rest) =>
      let (order, stuck) := arrange known n (m.table.toList ++ created) rest
      (m :: order, stuck)

def creationOrder (models : List Model) : List Model × List Model :=
  arrange (models.filterMap Model.table) models.length [] models

/-- A many-to-many relation seen from both models. -/
structure Junction where
  table : String
  owner : Model
  foreign : Model
  foreignKey : String

def junctions (models : List Model) : List Junction :=
  models.flatMap fun owner ↦ owner.relations.filterMap fun r ↦
    match r.kind with
    | .manyToMany table foreignKey _ =>
      (models.find? (·.name == r.foreignModel)).map fun foreign ↦
        ⟨table, owner, foreign, foreignKey⟩
    | _ => none

def distinctTables : List String → List Junction → List Junction
  | _, [] => []
  | seen, j :: js =>
    if seen.contains j.table then distinctTables seen js
    else j :: distinctTables (j.table :: seen) js

def Junction.create (ifNotExists : Bool) (j : Junction) : Except Fault CreateTable := do
  let ownerKey ← j.owner.idName
  let foreignKey ← j.foreign.idName
  if ownerKey = j.foreignKey then throw (.ofMisuse (.junctionColumnClash j.table ownerKey))
  let ownerTable ← j.owner.tableName
  let foreignTable ← j.foreign.tableName
  CreateTable.ofColumns j.table
    [{ name := ownerKey, type := "INTEGER", notNull := true },
      { name := j.foreignKey, type := "INTEGER", notNull := true }]
    [⟨ownerKey, ownerTable, ownerKey⟩, ⟨j.foreignKey, foreignTable, foreignKey⟩] ifNotExists

/-- Creates the tables of all models that have one, each after those it refers to, and then the
junction tables between them. -/
def create (ifNotExists : Bool) (models : List Model) : Except Fault (List CreateTable) := do
  let models := models.filter fun m ↦ !m.isAbstract
  let (order, stuck) := creationOrder models
  let tables ← order.mapM (CreateTable.ofModel ifNotExists)
  if !stuck.isEmpty then throw (.ofMisuse (.circularForeignKeys (stuck.filterMap Model.table)))
  let links ← (distinctTables [] (junctions models)).mapM (Junction.create ifNotExists)
  return tables ++ links

end Schema

end RelMapper
