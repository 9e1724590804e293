import RelMapper.Sql.Statement
namespace RelMapper

structure Link where
  table : String
  ownerColumn : String
  owner : Value
  foreignColumn : String
  foreign : Value

inductive LinkOp
  | link (l : Link)
  | unlink (l : Link)

namespace LinkOp

def target : LinkOp → Link
  | link l | unlink l => l

def isLink : LinkOp → Bool
  | link _ => true
  | unlink _ => false

def statement : LinkOp → Statement
  | link l =>
    .insert ⟨l.table, [(l.ownerColumn, l.owner), (l.foreignColumn, l.foreign)], by simp⟩
  | unlink l =>
    .delete ⟨l.table, (Predicate.columnIs (.qualified l.table l.ownerColumn) l.owner).and
      (.columnIs (.qualified l.table l.foreignColumn) l.foreign)⟩

theorem binds_statement (op : LinkOp) :
    op.statement.binds = [op.target.owner, op.target.foreign] := by
  rw [Statement.binds_eq]
  cases op <;> rfl

end LinkOp

namespace Links

def containsId (ids : List Value) (id : Value) : Bool :=
  ids.any fun v ↦ v.sameAs id

/-- The ids that are not among `known`, each once, in the order in which they come first. -/
def newIds (known ids : List Value) : List Value :=
  ids.foldl (fun found id ↦
    if containsId known id || containsId found id then found else found ++ [id]) []

/-- The changes that turn the linked ids `actual` of one owner into `wanted`: what is missing is
linked first, and then what is too much is unlinked. -/
def reconcile (table ownerColumn : String) (owner : Value) (foreignColumn : String)
    (actual wanted : List Value) : List LinkOp :=
  let row := Link.mk table ownerColumn owner foreignColumn
  (newIds actual wanted).map (fun id ↦ .link (row id)) ++
    (newIds wanted actual).map fun id ↦ .unlink (row id)

theorem target_reconcile {table ownerColumn foreignColumn : String} {owner : Value}
    {actual wanted : List Value} :
    ∀ op ∈ reconcile table ownerColumn owner foreignColumn actual wanted,
      op.target = ⟨table, ownerColumn, owner, foreignColumn, op.target.foreign⟩ := by
  intro op hop
  rcases List.mem_append.mp hop with hop | hop
  · obtain ⟨id, -, rfl⟩ := List.mem_map.mp hop
    rfl
  · obtain ⟨id, -, rfl⟩ := List.mem_map.mp hop
    rfl

end Links

end RelMapper
