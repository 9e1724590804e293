import RelMapper.Row
namespace RelMapper

/-- Computations on a database. What one has done before it fails stays done. -/
abbrev DatabaseM (σ : Type) := ExceptT Fault (StateM σ)

/-- A database with one cursor: rows are fetched from the result of the statement executed last.
Placeholders are filled by position. -/
class Database (σ : Type) where
  execute (sql : String) (binds : List Value) : DatabaseM σ Unit
  fetchOne : DatabaseM σ (Option Row)
  fetchAll : DatabaseM σ (List Row)
  commit : DatabaseM σ Unit
  rollback : DatabaseM σ Unit
  /-- Gives up what the last result still holds. -/
  openCursor : DatabaseM σ Unit := pure ()

end RelMapper
