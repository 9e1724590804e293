import RelMapper.Links.Plan
import RelMapper.Schema
import RelMapper.Session.Changes
namespace RelMapper.Session

variable {σ : Type} [Database σ]

def fetchInsertId : SessionM σ Value := do
  let sql := (← get).config.lastInsertIdSql
  run sql []
  match (← onStatement sql [] Database.fetchOne).bind List.head? with
  | none | some .null => throw (.ofDatabase (.noInsertId sql))
  | some id =>
    modify fun s ↦ { s with lastInsertId := some id }
    return id

def reconcile (m : Model) (owner : Value) (l : LinkChange) (actual : List Value) :
    SessionM σ Unit := do
  let ops := Links.reconcile l.junction (← m.idName) owner l.foreignKey actual l.wanted
  ops.forM fun op ↦ execute op.statement

def insertLinked (m : Model) (i : Insert) (links : List LinkChange) : SessionM σ Value := do
  execute (.insert i)
  let id ← fetchInsertId
  links.forM fun l ↦ reconcile m id l []
  return id

def create (name : String) (data : List (String × Value)) : SessionM σ Value := do
  let m ← model name
  let changes ← resolve m data
  let insert ← Insert.ofRow (← m.tableName) changes.columns
  transaction (insertLinked m insert changes.links)

/-- The ids that a relation of the owner has now, as the loaded entity or else the junction table
has them. -/
def linkedIds (m : Model) (owner : Value) (loaded : Option Entity) (l : LinkChange) :
    SessionM σ (List Value) :=
  match loaded.bind (·.collection? l.relation) with
  | some es => return es.filterMap fun e ↦ e.id.toOption
  | none => do
    let q ← Query.linkedIds m l.junction l.foreignKey owner
    return (← fetchAll (.select q)).filterMap List.head?

def linkChanges (m : Model) (owner : Option Value) (loaded : Option Entity) :
    List LinkChange → SessionM σ (List (Value × LinkChange × List Value))
  | [] => return []
  | ls => do
    let some id := owner | throw (.ofMisuse (.linksWithoutOwner m.name))
    ls.mapM fun l ↦ return (id, l, ← linkedIds m id loaded l)

def columnUpdate (m : Model) (p : Predicate) :
    List (String × Value) → Except Fault (Option Update)
  | [] => .ok none
  | columns => (Update.ofModel m (some p) columns).map some

def updateLinked (m : Model) (u : Option Update)
    (links : List (Value × LinkChange × List Value)) : SessionM σ Unit := do
  u.forM fun u ↦ execute (.update u)
  links.forM fun (id, l, actual) ↦ reconcile m id l actual

/-- Everything that has to be asked is asked before the transaction begins. -/
def applyUpdate (m : Model) (condition : Predicate) (data : List (String × Value))
    (owner : Option Value) (loaded : Option Entity) : SessionM σ Unit := do
  let changes ← resolve m data
  let links ← linkChanges m owner loaded changes.links
  let update ← columnUpdate m condition changes.columns
  if update.isNone && links.isEmpty then return
  transaction (updateLinked m update links)

def ownerId : Option Entity → Except Fault (Option Value)
  | none => .ok none
  | some e => e.id.map fun id ↦ if id.isNull then none else some id

/-- Updates the rows that satisfy the condition or, without one, the row of the entity `loaded`.
Links are those of that entity. -/
def update (name : String) (condition : Option Predicate) (data : List (String × Value))
    (loaded : Option Entity) : SessionM σ Unit := do
  let m ← model name
  let owner ← ownerId loaded
  match condition, owner with
  | some p, _ => applyUpdate m p data owner loaded
  | none, some id => applyUpdate m (← m.idIs id) data owner loaded
  | none, none => throw (.ofMisuse (.updateWithoutTarget m.name))

def updateById (name : String) (id : Value) (data : List (String × Value)) : SessionM σ Unit := do
  let m ← model name
  applyUpdate m (← m.idIs id) data (some id) none

def delete (name : String) (p : Predicate) : SessionM σ Unit := do
  let m ← model name
  executeAll [.delete ⟨← m.tableName, p⟩]

/-- Deletes the row with this id after its rows in the junction tables. -/
def deleteById (name : String) (id : Value) : SessionM σ Unit := do
  let m ← model name
  let owner ← m.idName
  let links := (m.relations.filterMap Relation.junction).map fun junction ↦
    Statement.delete ⟨junction, .columnIs (.qualified junction owner) id⟩
  let p ← m.idIs id
  executeAll (links ++ [.delete ⟨← m.tableName, p⟩])

def createTables : SessionM σ Unit := do
  let tables ← Schema.create true (← get).registry.models
  executeAll (tables.map .createTable)

end RelMapper.Session
