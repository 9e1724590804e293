import RelMapper.Loading.Lookup
import RelMapper.Proofs.Links.Reconciliation
import RelMapper.Proofs.Session.Columns
namespace RelMapper

/-- A junction table, with the columns that hold the ids of owners and of foreign rows. -/
structure JunctionTable where
  name : String
  ownerColumn : String
  foreignColumn : String
  columns_ne : ownerColumn ≠ foreignColumn

namespace JunctionTable

variable (t : JunctionTable)

def row (owner foreign : Value) : Link :=
  ⟨t.name, t.ownerColumn, owner, t.foreignColumn, foreign⟩

def linkSql : String :=
  (LinkOp.link (t.row .null .null)).statement.sql

def unlinkSql : String :=
  (LinkOp.unlink (t.row .null .null)).statement.sql

/-- The relation pairs ids of `m` and of its foreign model in this table. -/
structure Pairs (m : Model) (r : Relation) : Prop where
  idName : m.idName = .ok t.ownerColumn
  kind : ∃ a, r.kind = .manyToMany t.name t.foreignColumn a

/-- The statements that a write to a row of `m` sends besides those that link and unlink in this
table. They ask, or write the model's own row without its columns being those of the links, or link
and unlink in another table. -/
inductive IsSparedBy (m : Model) : Statement → Prop
  | select (q : Query) : IsSparedBy m (.select q)
  | insert {i : Insert} (htable : m.table = some i.table) (hne : i.table ≠ t.name) :
    IsSparedBy m (.insert i)
  | update {u : Update} (htable : m.table = some u.table)
    (hapart : u.table = t.name → ∀ column ∈ u.assignments.map Prod.fst,
      column ≠ t.ownerColumn ∧ column ≠ t.foreignColumn) : IsSparedBy m (.update u)
  | op {op : LinkOp} (hjunction : op.target.table ∈ m.relations.filterMap Relation.junction)
    (hne : op.target.table ≠ t.name) : IsSparedBy m op.statement

end JunctionTable

open Session

variable {σ : Type} [Database σ] {t : JunctionTable} {m : Model} {links : σ → LinkRows}

/-- The database keeps the rows `links` in the junction table. What the statements of a write to a
row of `m` do, if they succeed, is what they say: rows are linked, unlinked and looked up, and the
statements that spare the table leave them as they are. -/
structure Keeps (t : JunctionTable) (m : Model) (links : σ → LinkRows) : Prop where
  link : ∀ {owner foreign d d'},
    (Database.execute t.linkSql [owner, foreign]).run d = (.ok (), d') →
    links d' = (links d).add owner foreign
  unlink : ∀ {owner foreign d d'},
    (Database.execute t.unlinkSql [owner, foreign]).run d = (.ok (), d') →
    links d' = (links d).remove owner foreign
  linked : ∀ {owner q d d₁ d₂ rows}, m.idName = .ok t.ownerColumn →
    Query.linkedIds m t.name t.foreignColumn owner = .ok q →
    (Database.execute (Statement.select q).sql (Statement.select q).binds).run d = (.ok (), d₁) →
    (Database.fetchAll : DatabaseM σ (List Row)).run d₁ = (.ok rows, d₂) →
    rows.Perm (((links d).foreignIds owner).map fun id ↦ [id])
  spared : ∀ {st d d'}, t.IsSparedBy m st →
    (Database.execute st.sql st.binds).run d = (.ok (), d') → links d' = links d
  fetchOne : ∀ {d row d'},
    (Database.fetchOne : DatabaseM σ (Option Row)).run d = (.ok row, d') → links d' = links d
  fetchAll : ∀ {d rows d'},
    (Database.fetchAll : DatabaseM σ (List Row)).run d = (.ok rows, d') → links d' = links d
  commit : ∀ {d d'},
    (Database.commit : DatabaseM σ Unit).run d = (.ok (), d') → links d' = links d

namespace Keeps

end Keeps

end RelMapper
