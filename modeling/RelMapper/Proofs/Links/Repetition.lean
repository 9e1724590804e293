import RelMapper.Proofs.Links.Shelf
import RelMapper.Proofs.Links.Writes
import RelMapper.Proofs.Session.Composition
namespace RelMapper

namespace Links

variable {known known' ids : List Value}

end Links

namespace LinkRows

open Links

variable {rows : LinkRows} {owner : Value} {known known' : List Value}

def kept (rows : LinkRows) (owner : Value) (known : List Value) (lists : List (List Value)) :
    LinkRows :=
  rows.filter fun p ↦ lists.all fun wanted ↦ !isStale owner known wanted p

def added (owner : Value) (known : List Value) (lists : List (List Value)) : LinkRows :=
  lists.flatMap fun wanted ↦ (newIds known wanted).map fun id ↦ (owner, id)

variable {lists : List (List Value)}

end LinkRows

namespace JunctionTable

variable (t : JunctionTable)

def isOf (junction foreignKey : String) : Bool :=
  junction == t.name && foreignKey == t.foreignColumn

theorem isOf_iff {t : JunctionTable} {junction foreignKey : String} :
    t.isOf junction foreignKey = true ↔ junction = t.name ∧ foreignKey = t.foreignColumn := by
  simp [isOf]

end JunctionTable

def Model.Declares (m : Model) (l : LinkChange) : Prop :=
  ∃ r ∈ m.relations, r.name = l.relation ∧ ∃ a, r.kind = .manyToMany l.junction l.foreignKey a

open Session

variable {σ : Type} [Database σ] {t : JunctionTable} {links : σ → LinkRows} {m : Model}

namespace Session

end Session

namespace Keeps

end Keeps

end RelMapper
