import RelMapper.Model.Basic
import RelMapper.Sql.Predicate
namespace RelMapper

namespace Model

def idIs (m : Model) (id : Value) : Except Fault Predicate := do
  let table ← m.tableName
  let name ← m.idName
  return .columnIs (.qualified table name) id

end Model

/-- A restriction in terms of a model's fields and relations, not of tables. -/
inductive Filter
  | field (model field : String) (v : Value) (negated : Bool)
  | manyToOne (model relation : String) (v : Value)
  | manyToMany (model relation : String) (v : Value)
  | any (filters : List Filter)

/-- Lowering collects the relations whose junction tables have to be joined. What was collected
before a failure stays collected. -/
abbrev Lowering := ExceptT Fault (StateM (List String))

namespace Filter

/-- The opposite of a restriction on a field. Other filters stay as they are. -/
def negate : Filter → Filter
  | field model name v negated => field model name v !negated
  | f => f

def checkScope (scope : String) (m : Model) : Except Fault Unit :=
  if scope = m.name then .ok () else .error (.ofMisuse (.filterOutOfScope scope m.name))

def mismatch (m : Model) (relation : String) (expected : RelationShape) : Fault :=
  .ofMisuse (.relationMismatch relation m.name expected)

def lowerField (m : Model) (scope name : String) (v : Value) (negated : Bool) :
    Except Fault Predicate := do
  let table ← m.tableName
  checkScope scope m
  if !m.hasField name then throw (m.unknownField name)
  let p := Predicate.columnIs (.qualified table name) v
  return if negated then p.negate else p

def lowerManyToOne (m : Model) (scope relation : String) (v : Value) : Except Fault Predicate := do
  let table ← m.tableName
  checkScope scope m
  match (← m.relation relation).kind with
  | .manyToOne foreignKey .. => return .columnIs (.qualified table foreignKey) v
  | _ => throw (mismatch m relation .manyToOne)

def lowerManyToMany (m : Model) (scope relation : String) (v : Value) : Except Fault Predicate := do
  discard m.tableName
  checkScope scope m
  match (← m.relation relation).kind with
  | .manyToMany junction foreignKey _ => return .columnIs (.qualified junction foreignKey) v
  | _ => throw (mismatch m relation .manyToMany)

def noted (names : List String) (name : String) : List String :=
  if names.contains name then names else names ++ [name]

theorem mem_noted {names : List String} {name other : String} :
    other ∈ noted names name ↔ other ∈ names ∨ other = name := by
  rw [noted]
  split
  · next h => exact ⟨.inl, fun ho ↦ ho.elim id fun ho ↦ ho ▸ List.contains_iff_mem.mp h⟩
  · rw [List.mem_append, List.mem_singleton]

def note (relation : String) : Lowering Unit :=
  modify (noted · relation)

def liftExcept {α : Type} (r : Except Fault α) : Lowering α :=
  ExceptT.mk (pure r)

mutual

/-- The predicate that a filter means for the rows of `m`. -/
def lower (m : Model) : Filter → Lowering Predicate
  | field scope name v negated => liftExcept (lowerField m scope name v negated)
  | manyToOne scope relation v => liftExcept (lowerManyToOne m scope relation v)
  | manyToMany scope relation v => do
    let p ← liftExcept (lowerManyToMany m scope relation v)
    note relation
    return p
  | any filters => do
    discard (liftExcept m.tableName)
    let ps ← lowerAll m filters
    liftExcept (Predicate.any ps)

def lowerAll (m : Model) : List Filter → Lowering (List Predicate)
  | [] => pure []
  | f :: fs => do
    let p ← lower m f
    let ps ← lowerAll m fs
    return p :: ps

end

end Filter

end RelMapper
