import RelMapper.Model.Basic
namespace RelMapper

/-- The known models in the order of their names, which compares characters by code point. -/
structure Registry where
  models : List Model := []

namespace Registry

def insertByName (m : Model) : List Model → List Model
  | [] => [m]
  | n :: ns => if m.name < n.name then m :: n :: ns else n :: insertByName m ns

def find? (r : Registry) (name : String) : Option Model :=
  r.models.find? (·.name == name)

def contains (r : Registry) (name : String) : Bool :=
  (r.find? name).isSome

/-- Abstract models and names that are taken are not registered; the flag says whether the model
was. -/
def register (r : Registry) (m : Model) : Bool × Registry :=
  if m.isAbstract || r.contains m.name then (false, r) else (true, ⟨insertByName m r.models⟩)

def observe (r : Registry) (m : Model) : Registry :=
  (r.register m).2

def names (r : Registry) : List String :=
  r.models.map Model.name

def get (r : Registry) (name : String) : Except Fault Model :=
  match r.find? name with
  | some m => .ok m
  | none => .error (.modelNotFound name r.names)

def size (r : Registry) : Nat :=
  r.models.length

end Registry

end RelMapper
