import RelMapper.Json
import RelMapper.Model.Basic
namespace RelMapper

/-- What is known of a relation: nothing, a foreign row or its absence, a collection, or the scalar
that stands for one. -/
inductive Loaded (α : Type)
  | unloaded
  | one (e : Option α)
  | many (es : List α)
  | aggregate (v : Value)

structure Entity where
  model : Model
  fields : Slots Value
  relations : List (String × Loaded Entity)

namespace Entity

def ofModel (m : Model) : Entity :=
  { model := m
    fields := m.fields.map fun f ↦ (f.name, .null)
    relations := m.relations.map fun r ↦ (r.name, .unloaded) }

def get? (e : Entity) (field : String) : Option Value :=
  e.fields.get? field

def set (e : Entity) (field : String) (v : Value) : Except Fault Entity :=
  match e.fields.set? field v with
  | some fields => .ok { e with fields }
  | none => .error (e.model.unknownField field)

def id (e : Entity) : Except Fault Value := do
  let name ← e.model.idName
  match e.get? name with
  | some v => .ok v
  | none => .error (e.model.unknownField name)

def loaded? (e : Entity) (relation : String) : Option (Loaded Entity) :=
  Slots.get? e.relations relation

def setLoaded (e : Entity) (relation : String) (data : Loaded Entity) : Except Fault Entity :=
  match Slots.set? relation data e.relations with
  | some relations => .ok { e with relations }
  | none => .error (.relationNotFound e.model.name relation)

def related? (e : Entity) (relation : String) : Option Entity :=
  match e.loaded? relation with
  | some (.one e) => e
  | _ => none

def collection? (e : Entity) (relation : String) : Option (List Entity) :=
  match e.loaded? relation with
  | some (.many es) => some es
  | _ => none

def aggregate? (e : Entity) (relation : String) : Option Value :=
  match e.loaded? relation with
  | some (.aggregate v) => some v
  | _ => none

def isFresh (e : Entity) : Bool :=
  e.fields.all (·.2.isNull) && e.relations.all fun
    | (_, .unloaded) => true
    | _ => false

mutual

/-- Fields, then loaded relations. A relation takes the place of a field of the same name. -/
def toJson : Entity → Json
  | ⟨_, fields, relations⟩ =>
    .object (addRelations (fields.foldl (fun s p ↦ s.put p.1 p.2.toJson) []) relations)

def addRelations (members : Slots Json) : List (String × Loaded Entity) → Slots Json
  | [] => members
  | (name, data) :: rest =>
    addRelations ((loadedToJson data).elim members fun j ↦ members.put name j) rest

def loadedToJson : Loaded Entity → Option Json
  | .unloaded => none
  | .one none => some .null
  | .one (some e) => some e.toJson
  | .many es => some (.array (listToJson es))
  | .aggregate v => some v.toJson

def listToJson : List Entity → List Json
  | [] => []
  | e :: es => e.toJson :: listToJson es

end

def display (e : Entity) : String :=
  e.model.name ++ "(" ++
    String.intercalate ", " (e.fields.map fun p ↦ p.1 ++ "=" ++ p.2.display) ++ ")"

end Entity

end RelMapper
