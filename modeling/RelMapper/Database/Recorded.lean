import RelMapper.Database.Basic
namespace RelMapper

inductive DatabaseCall
  | execute (sql : String) (binds : List Value)
  | fetchOne
  | fetchAll
  | commit
  | rollback

/-- A database that remembers which calls it got, and how each of them failed if it did. -/
structure Recorded (σ : Type) where
  database : σ
  history : List (DatabaseCall × Option Fault) := []

namespace Recorded

variable {σ α : Type}

def record (call : DatabaseCall) (x : DatabaseM σ α) : DatabaseM (Recorded σ) α :=
  ExceptT.mk fun s ↦
    match x.run s.database with
    | (.ok a, d) => (.ok a, ⟨d, s.history ++ [(call, none)]⟩)
    | (.error e, d) => (.error e, ⟨d, s.history ++ [(call, some e)]⟩)

instance [Database σ] : Database (Recorded σ) where
  execute sql binds := record (.execute sql binds) (Database.execute sql binds)
  fetchOne := record .fetchOne Database.fetchOne
  fetchAll := record .fetchAll Database.fetchAll
  commit := record .commit Database.commit
  rollback := record .rollback Database.rollback

def calls (s : Recorded σ) : List DatabaseCall :=
  s.history.map Prod.fst

end Recorded

end RelMapper
