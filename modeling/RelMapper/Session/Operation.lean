import RelMapper.Session.Write
namespace RelMapper

open Session

variable {σ : Type} [Database σ]

inductive Write
  | create (model : String) (data : List (String × Value))
  | update (model : String) (condition : Option Predicate) (data : List (String × Value))
    (loaded : Option Entity)
  | updateById (model : String) (id : Value) (data : List (String × Value))
  | delete (model : String) (p : Predicate)
  | deleteById (model : String) (id : Value)
  | createTables
  | batch (ss : List Statement)

inductive Work
  | insert (m : Model) (i : Insert) (links : List LinkChange)
  | update (m : Model) (u : Option Update) (links : List (Value × LinkChange × List Value))
  | batch (ss : List Statement)

def Work.run : Work → SessionM σ (Option Value)
  | insert m i links => some <$> insertLinked m i links
  | update m u links => do updateLinked m u links; return none
  | batch ss => do ss.forM execute; return none

namespace Write

def run : Write → SessionM σ (Option Value)
  | create model data => some <$> Session.create model data
  | update model condition data loaded => do
    Session.update model condition data loaded
    return none
  | updateById model id data => do Session.updateById model id data; return none
  | delete model p => do Session.delete model p; return none
  | deleteById model id => do Session.deleteById model id; return none
  | createTables => do Session.createTables; return none
  | batch ss => do executeAll ss; return none

def planUpdate (m : Model) (condition : Predicate) (data : List (String × Value))
    (owner : Option Value) (loaded : Option Entity) : SessionM σ (Option Work) := do
  let changes ← resolve m data
  let links ← linkChanges m owner loaded changes.links
  let update ← columnUpdate m condition changes.columns
  if update.isNone && links.isEmpty then return none
  return some (.update m update links)

/-- What a write does before its transaction begins, which is to find out what it has to do. An
update that would change nothing has no transaction. -/
def plan : Write → SessionM σ (Option Work)
  | create name data => do
    let m ← model name
    let changes ← resolve m data
    let insert ← Insert.ofRow (← m.tableName) changes.columns
    return some (.insert m insert changes.links)
  | update name condition data loaded => do
    let m ← model name
    let owner ← ownerId loaded
    match condition, owner with
    | some p, _ => planUpdate m p data owner loaded
    | none, some id => planUpdate m (← m.idIs id) data owner loaded
    | none, none => throw (.ofMisuse (.updateWithoutTarget m.name))
  | updateById name id data => do
    let m ← model name
    planUpdate m (← m.idIs id) data (some id) none
  | delete name p => do
    let m ← model name
    return some (.batch [.delete ⟨← m.tableName, p⟩])
  | deleteById name id => do
    let m ← model name
    let owner ← m.idName
    let links := (m.relations.filterMap Relation.junction).map fun junction ↦
      Statement.delete ⟨junction, .columnIs (.qualified junction owner) id⟩
    let p ← m.idIs id
    return some (.batch (links ++ [.delete ⟨← m.tableName, p⟩]))
  | createTables => do
    let tables ← Schema.create true (← get).registry.models
    return some (.batch (tables.map .createTable))
  | batch ss => return some (.batch ss)

def finish : Option Work → SessionM σ (Option Value)
  | some w => transaction w.run
  | none => return none

theorem applyUpdate_eq (m : Model) (condition : Predicate) (data : List (String × Value))
    (owner : Option Value) (loaded : Option Entity) :
    (do applyUpdate m condition data owner loaded; return none : SessionM σ (Option Value)) =
      planUpdate m condition data owner loaded >>= finish := by
  simp only [applyUpdate, planUpdate, bind_assoc]
  refine bind_congr fun changes ↦ bind_congr fun links ↦ bind_congr fun update ↦ ?_
  split
  · rfl
  · simp [finish, Work.run, map_transaction]

theorem run_eq (w : Write) : (w.run : SessionM σ (Option Value)) = w.plan >>= finish := by
  cases w with
  | create name data =>
    simp [run, plan, finish, Work.run, Session.create, map_transaction]
  | update name condition data loaded =>
    simp only [run, plan, Session.update, bind_assoc]
    refine bind_congr fun m ↦ bind_congr fun owner ↦ ?_
    cases condition with
    | some p => exact applyUpdate_eq m p data owner loaded
    | none =>
      cases owner with
      | some id => simp only [bind_assoc, applyUpdate_eq]
      | none => rfl
  | updateById name id data =>
    simp only [run, plan, Session.updateById, bind_assoc, applyUpdate_eq]
  | delete name p =>
    simp [run, plan, finish, Work.run, Session.delete, executeAll, map_transaction]
  | deleteById name id =>
    simp [run, plan, finish, Work.run, Session.deleteById, executeAll, map_transaction]
  | createTables =>
    simp [run, plan, finish, Work.run, Session.createTables, executeAll, map_transaction]
  | batch ss =>
    simp [run, plan, finish, Work.run, executeAll, map_transaction]

end Write

inductive Reply
  | done
  | id (v : Option Value)
  | row (r : Option Row)
  | rows (rs : List Row)

inductive Call
  | execute (s : Statement)
  | fetchOne (s : Statement)
  | fetchAll (s : Statement)
  | write (w : Write)

def Call.run : Call → SessionM σ Reply
  | execute s => do Session.execute s; return .done
  | fetchOne s => .row <$> Session.fetchOne s
  | fetchAll s => .rows <$> Session.fetchAll s
  | write w => .id <$> w.run

/-- What a caller does with a session until something fails, or until the caller gives up with a
failure of its own. Every step may depend on what the calls before it have told. -/
inductive Program
  | stop (r : Except Fault Reply)
  | call (c : Call) (next : Reply → Program)
  | transaction (inner : Program) (next : Reply → Program)

def Program.run : Program → SessionM σ Reply
  | stop r => r
  | call c next => do (next (← c.run)).run
  | transaction inner next => do (next (← Session.transaction inner.run)).run

end RelMapper
