import RelMapper.Links.IdList
import RelMapper.Session.Read
namespace RelMapper

structure LinkChange where
  relation : String
  junction : String
  foreignKey : String
  wanted : List Value

/-- What a write means for one row: the columns to set, and the links to have. -/
structure Changes where
  columns : List (String × Value) := []
  links : List LinkChange := []

namespace Changes

/-- Columns keep the place of their first value and take the last one. -/
def setColumn (c : Changes) (column : String) (v : Value) : Changes :=
  { c with columns := Slots.put column v c.columns }

def addLinks (c : Changes) (l : LinkChange) : Changes :=
  { c with links := c.links ++ [l] }

end Changes

namespace Session

variable {σ : Type} [Database σ]

def foreignId (r : Relation) (foreignColumn : String) (lookupColumn : Option String)
    (loadAll : Bool) (v : Value) : SessionM σ Value :=
  match lookupColumn, loadAll with
  | some column, false => do
    match ← lookup r.foreignModel foreignColumn column v with
    | some id => return id
    | none => throw (.foreignIdNotFound r.name column v)
  | _, _ => return v

/-- Resolves one item of a write. Empty values of anything but a field are passed over. -/
def resolveItem (m : Model) (c : Changes) (item : String × Value) : SessionM σ Changes := do
  let (key, v) := item
  if m.hasField key then return c.setColumn key v
  if !v.isTruthy then return c
  let r ← m.relation key
  match r.kind with
  | .manyToOne foreignKey foreignColumn lookupColumn loadAll =>
    return c.setColumn foreignKey (← foreignId r foreignColumn lookupColumn loadAll v)
  | .manyToMany junction foreignKey _ =>
    return c.addLinks ⟨r.name, junction, foreignKey, ← IdList.read v⟩
  | .oneToMany .. => throw (.ofMisuse (.oneToManyWrite key m.name))

def resolve (m : Model) (data : List (String × Value)) : SessionM σ Changes :=
  data.foldlM (resolveItem m) {}

end Session

end RelMapper
