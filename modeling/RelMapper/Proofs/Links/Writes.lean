import RelMapper.Proofs.Links.Shelf
namespace RelMapper

open Session

variable {σ : Type} [Database σ] {t : JunctionTable} {links : σ → LinkRows}
variable {m : Model} {r : Relation}

namespace JunctionTable

def change (t : JunctionTable) (r : Relation) (wanted : List Value) : LinkChange :=
  ⟨r.name, t.name, t.foreignColumn, wanted⟩

theorem target_reconcile {owner : Value} {actual wanted : List Value} :
    ∀ op ∈ Links.reconcile t.name t.ownerColumn owner t.foreignColumn actual wanted,
      op.target = t.row op.target.owner op.target.foreign := by
  intro op hop
  have htarget := Links.target_reconcile op hop
  rw [htarget]
  rfl

end JunctionTable

theorem Model.mem_of_relation {key : String} (h : m.relation key = .ok r) : r ∈ m.relations :=
  List.mem_of_find?_eq_some (Model.relation_eq_ok.mp h)

/-- Data with one key for the relation `r`, and fields for all other keys. The value for the
relation stands for the wanted ids. -/
structure Names (m : Model) (r : Relation) (wanted : List Value) (data : List (String × Value)) :
    Prop where
  items : ∃ before key v after, data = before ++ (key, v) :: after ∧
    (∀ item ∈ before ++ after, m.hasField item.1 = true) ∧
    m.hasField key = false ∧ m.relation key = .ok r ∧
    v.isTruthy = true ∧ IdList.read v = .ok wanted

theorem Names.mem_relations {wanted : List Value} {data : List (String × Value)}
    (h : Names m r wanted data) : r ∈ m.relations := by
  obtain ⟨before, key, v, after, -, -, -, hrelation, -, -⟩ := h.items
  exact Model.mem_of_relation hrelation

section Resolve

variable (σ)

end Resolve

section Success

open NeverFails

variable {data : List (String × Value)} {wanted : List Value} {owner : Value}

end Success

end RelMapper
