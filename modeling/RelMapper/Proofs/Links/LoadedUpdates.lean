import RelMapper.Proofs.Links.Writes
namespace RelMapper

open Session

variable {σ : Type} [Database σ] {t : JunctionTable} {content : σ → Content} {dialect : Dialect}
variable {m : Model} {r : Relation}
variable {name : String} {data : List (String × Value)} {wanted : List Value} {s u : Session σ}
variable {e : Entity} {id : Value}

theorem Model.idIs_eq {table column : String} (htable : m.tableName = .ok table)
    (hcolumn : m.idName = .ok column) (id : Value) :
    m.idIs id = .ok (.columnIs (.qualified table column) id) :=
  bind_eq_ok.mpr ⟨table, htable, bind_eq_ok.mpr ⟨column, hcolumn, rfl⟩⟩

end RelMapper
