import RelMapper.Listing
import RelMapper.Loading.FollowUp
import RelMapper.Loading.Lookup
import RelMapper.Session.Basic
namespace RelMapper.Session

variable {σ : Type} [Database σ]

def load (f : FollowUp) : SessionM σ (Loaded Entity) :=
  match f with
  | .known data => return data
  | .one q => do
    match ← fetchOne (.select q.query) with
    | some row => return .one (some (← q.read row))
    | none => return .one none
  | .many q => do
    let rows ← fetchAll (.select q.query)
    return .many (← q.readAll rows)
  | .aggregate q function => do
    let v ← fetchValue (.select q)
    return .aggregate (function.ofResult (v.getD .null))

def followUp (o : FetchOptions) (e : Entity) (r : Relation) : SessionM σ Entity := do
  if !r.needsFollowUp || o.skips r.name then return e
  let data ← load (← FollowUp.ofRelation (← get).registry e r (o.relations.get? r.name))
  e.setLoaded r.name data

def followUps (o : FetchOptions) (e : Entity) : SessionM σ Entity :=
  e.model.relations.foldlM (followUp o) e

def primaryQuery (m : Model) (o : FetchOptions) (id : Option Value) : SessionM σ EntityQuery := do
  let s ← get
  EntityQuery.primary s.registry s.config m o id

def readFirst (m : Model) (o : FetchOptions) (id : Option Value) : SessionM σ (Option Entity) := do
  let q ← primaryQuery m o id
  match ← fetchOne (.select q.query) with
  | none => return none
  | some row => some <$> followUps o (← q.read row)

def findById? (name : String) (id : Value) (o : FetchOptions) : SessionM σ (Option Entity) := do
  readFirst (← model name) o (some id)

def findById (name : String) (id : Value) (o : FetchOptions) : SessionM σ Entity := do
  match ← findById? name id o with
  | some e => return e
  | none => throw (.objectNotFound name id)

def find? (name : String) (o : FetchOptions) : SessionM σ (Option Entity) := do
  readFirst (← model name) o none

/-- All rows are read before anything is loaded for the first of them. -/
def findAll (name : String) (o : FetchOptions) : SessionM σ (List Entity) := do
  let q ← primaryQuery (← model name) o none
  let rows ← fetchAll (.select q.query)
  let entities ← q.readAll rows
  entities.mapM (followUps o)

def countOfRow : Option Row → Except Fault Nat
  | none => .ok 0
  | some row => (Row.getAs .int64 row 0).map fun n ↦ n.toInt.toNat

def count (name : String) (o : FetchOptions) : SessionM σ Nat := do
  let q ← Query.countOf (← model name) o
  countOfRow (← fetchOne (.select q))

def list (name : String) (o : FetchOptions) : SessionM σ Listing := do
  let entities ← findAll name o
  return { entities, count := ← count name o }

def search (name text : String) (o : FetchOptions) : SessionM σ Listing :=
  list name { o with search := some text }

def countRelated (e : Entity) (relation : String) : SessionM σ Nat := do
  let r ← e.model.relation relation
  let q ← Query.countRelated (← get).registry e r
  countOfRow (← fetchOne (.select q))

def lookup (name wanted field : String) (v : Value) : SessionM σ (Option Value) := do
  let q ← Query.lookup (← model name) wanted field v
  fetchValue (.select q)

end RelMapper.Session
