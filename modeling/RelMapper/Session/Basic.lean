import RelMapper.Config
import RelMapper.Database.Basic
import RelMapper.Registry
import RelMapper.Sql.Statement
namespace RelMapper

/-- A database with the models that are known of it. -/
structure Session (σ : Type) where
  database : σ
  config : Config := {}
  registry : Registry := {}
  /-- The text of the statement executed last, whether or not it failed. -/
  lastSql : Option String := none
  lastInsertId : Option Value := none

/-- Computations in a session. A failure keeps the state that it leaves behind. -/
abbrev SessionM (σ : Type) := ExceptT Fault (StateM (Session σ))

namespace Session

variable {σ α : Type}

def ofConfig (database : σ) (config : Config) : Except Fault (Session σ) :=
  config.check.map fun _ ↦ { database, config }

def model (name : String) : SessionM σ Model := do
  (← get).registry.get name

def register (m : Model) : SessionM σ Bool :=
  modifyGet fun s ↦
    let (registered, registry) := s.registry.register m
    (registered, { s with registry })

def observe (m : Model) : SessionM σ Unit :=
  modify fun s ↦ { s with registry := s.registry.observe m }

def onDatabase (x : DatabaseM σ α) : SessionM σ α :=
  ExceptT.mk fun s ↦
    let (r, database) := x.run s.database
    (r, { s with database })

/-- A failure of the database while it works on a statement is told with that statement. -/
def onStatement (sql : String) (binds : List Value) (x : DatabaseM σ α) : SessionM σ α :=
  (onDatabase x).adapt (Fault.ofStatement sql binds)

theorem run_pure (a : α) (s : Session σ) : (pure a : SessionM σ α).run s = (.ok a, s) := rfl

theorem run_bind {β : Type} (x : SessionM σ α) (f : α → SessionM σ β) (s : Session σ) :
    (x >>= f).run s = match x.run s with
      | (.ok a, t) => (f a).run t
      | (.error e, t) => (.error e, t) := by
  simp only [ExceptT.run, bind, ExceptT.bind, ExceptT.mk, StateT.bind]
  rcases x s with ⟨_ | _, t⟩ <;> rfl

theorem run_tryCatch (x : SessionM σ α) (f : Fault → SessionM σ α) (s : Session σ) :
    (tryCatch x f).run s = match x.run s with
      | (.ok a, t) => (.ok a, t)
      | (.error e, t) => (f e).run t := by
  simp only [ExceptT.run, tryCatch, tryCatchThe, MonadExceptOf.tryCatch, ExceptT.tryCatch,
    ExceptT.mk, bind, StateT.bind]
  rcases x s with ⟨_ | _, t⟩ <;> rfl

theorem run_onDatabase (x : DatabaseM σ α) (s : Session σ) :
    (onDatabase x).run s =
      ((x.run s.database).1, { s with database := (x.run s.database).2 }) := rfl

variable [Database σ]

def run (sql : String) (binds : List Value) : SessionM σ Unit := do
  modify fun s ↦ { s with lastSql := some sql }
  onStatement sql binds (Database.execute sql binds)

def execute (s : Statement) : SessionM σ Unit :=
  run s.sql s.binds

def fetchAll (s : Statement) : SessionM σ (List Row) := do
  execute s
  onStatement s.sql s.binds Database.fetchAll

def fetchOne (s : Statement) : SessionM σ (Option Row) := do
  execute s
  onStatement s.sql s.binds Database.fetchOne

def fetchValue (s : Statement) : SessionM σ (Option Value) := do
  return (← fetchOne s).bind List.head?

/-- Undoes what has not been committed. That this fails is not told: the caller has a failure to
tell already. -/
def rollback : SessionM σ Unit :=
  tryCatch (onDatabase Database.rollback) fun _ ↦ pure ()

/-- Commits what `x` does if it succeeds, and undoes it otherwise, also when committing fails. -/
def transaction (x : SessionM σ α) : SessionM σ α :=
  tryCatch (do let a ← x; onDatabase Database.commit; return a) fun e ↦ do rollback; throw e

def rolledBack (s : Session σ) : Session σ :=
  { s with database := ((Database.rollback : DatabaseM σ Unit).run s.database).2 }

theorem run_rollback (s : Session σ) : rollback.run s = (.ok (), rolledBack s) := by
  rw [rollback, run_tryCatch, run_onDatabase, rolledBack]
  rcases (Database.rollback : DatabaseM σ Unit).run s.database with ⟨_ | _, d⟩ <;> rfl

theorem run_transaction (x : SessionM σ α) (s : Session σ) :
    (transaction x).run s = match x.run s with
      | (.error e, t) => (.error e, rolledBack t)
      | (.ok a, t) =>
        match (onDatabase Database.commit).run t with
        | (.error e, u) => (.error e, rolledBack u)
        | (.ok _, u) => (.ok a, u) := by
  simp only [transaction, run_tryCatch, run_bind, run_rollback]
  rcases x.run s with ⟨_ | a, t⟩
  · rfl
  · simp only
    rcases (onDatabase Database.commit).run t with ⟨_ | _, u⟩ <;> rfl

theorem map_transaction {β : Type} (f : α → β) (x : SessionM σ α) :
    f <$> transaction x = transaction (f <$> x) := by
  rw [← bind_pure_comp, ← bind_pure_comp]
  funext s
  have hrun : (transaction x >>= fun a ↦ pure (f a)).run s =
      (transaction (x >>= fun a ↦ pure (f a))).run s := by
    rw [run_bind, run_transaction, run_transaction, run_bind]
    rcases x.run s with ⟨_ | a, t⟩
    · rfl
    · simp only [run_pure]
      rcases (onDatabase Database.commit).run t with ⟨_ | _, u⟩ <;> rfl
  exact hrun

def executeAll (ss : List Statement) : SessionM σ Unit :=
  transaction (ss.forM execute)

end Session

end RelMapper
