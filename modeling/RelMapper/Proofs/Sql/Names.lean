import RelMapper.Proofs.Sql.Placeholders
import RelMapper.Sql.Statement
namespace RelMapper

/-! The texts that statements take over as they stand: names of tables, columns and functions, new
names, types, and verbatim text. -/

def Column.names (c : Column) : List String :=
  c.name :: (c.table.toList ++ c.newName.toList)

def Literal.names : Literal → List String
  | numeral (.verbatim s) => [s]
  | _ => []

mutual

def Expr.names : Expr → List String
  | .literal l => l.names
  | .bound _ => []
  | .column c => c.names
  | .call function args newName => function :: (argsNames args ++ newName.toList)
  | .verbatim s => [s]

def argsNames : List Expr → List String
  | [] => []
  | e :: es => e.names ++ argsNames es

end

def Predicate.names : Predicate → List String
  | compare _ lhs rhs => lhs.names ++ rhs.names
  | combine _ lhs rhs => lhs.names ++ rhs.names
  | negate p => p.names
  | truth _ => []

def TableName.names (t : TableName) : List String :=
  t.name :: t.newName.toList

def JoinCondition.names : JoinCondition → List String
  | on p => p.names
  | shared columns => columns

def Nesting.names : Nesting → List String
  | derived (some newName) => [newName]
  | _ => []

mutual

def Query.names : Query → List String
  | ⟨projection, source, filter, groupBy, having, orderBy, _, nesting⟩ =>
    projection.items.flatMap Expr.names ++ source.names ++ filter.toList.flatMap Predicate.names ++
      groupBy.toList.flatten.flatMap Expr.names ++ having.toList.flatMap Predicate.names ++
      orderBy.toList.flatMap (fun k ↦ k.expr.names) ++ nesting.names

def Source.names : Source → List String
  | ⟨base, joins⟩ => base.names ++ joinNames joins

def Target.names : Target → List String
  | .table t => t.names
  | .derived q => q.names

def joinNames : List Join → List String
  | [] => []
  | ⟨_, target, condition⟩ :: joins =>
    target.names ++ condition.toList.flatMap JoinCondition.names ++ joinNames joins

end

def ColumnDefinition.names (c : ColumnDefinition) : List String :=
  [c.name, c.type]

def ForeignKey.names (k : ForeignKey) : List String :=
  [k.column, k.table, k.foreignColumn]

def Statement.names : Statement → List String
  | select q => q.names
  | insert i => i.table :: i.row.map Prod.fst
  | update u => u.table :: (u.assignments.map Prod.fst ++ u.filter.toList.flatMap Predicate.names)
  | delete d => d.table :: d.filter.names
  | createTable c =>
    c.table :: (c.columns.flatMap ColumnDefinition.names ++ c.foreignKeys.flatMap ForeignKey.names)

namespace Placeholders

theorem plainChar_of_isDigit {c : Char} (h : c.isDigit = true) : PlainChar c := by
  refine ⟨?_, ?_⟩ <;> rintro rfl <;> revert h <;> decide

theorem plain_repr (n : Nat) : Plain n.repr := by
  intro c hc
  rw [Nat.toList_repr] at hc
  exact plainChar_of_isDigit (Nat.isDigit_of_mem_toDigits (by decide) (by decide) hc)

theorem plain_toString_nat (n : Nat) : Plain (toString n) := by
  rw [Nat.toString_eq_repr]
  exact plain_repr n

theorem plain_toString_int (n : Int) : Plain (toString n) := by
  have hs : Plain "-" := by decide
  rw [Int.toString_eq_repr, Int.repr_eq_if]
  split
  · exact plain_repr _
  · exact hs.append (plain_repr _)

theorem plainChar_of_mem_positional {digits : List Char} (h : ∀ c ∈ digits, PlainChar c)
    (point : Int) : ∀ c ∈ Double.positional digits point, PlainChar c := by
  have hz : PlainChar '0' := by decide
  have hp : PlainChar '.' := by decide
  intro c hc
  unfold Double.positional at hc
  split at hc
  · simp only [List.mem_cons, List.mem_append, List.mem_replicate] at hc
    rcases hc with rfl | rfl | ⟨_, rfl⟩ | hc
    · exact hz
    · exact hp
    · exact hz
    · exact h c hc
  · split at hc
    · simp only [List.mem_append, List.mem_replicate] at hc
      rcases hc with hc | ⟨_, rfl⟩
      · exact h c hc
      · exact hz
    · simp only [List.mem_append, List.mem_cons] at hc
      rcases hc with hc | rfl | hc
      · exact h c (List.mem_of_mem_take hc)
      · exact hp
      · exact h c (List.mem_of_mem_drop hc)

theorem plainChar_of_mem_magnitudeText (x : Double) : ∀ c ∈ x.magnitudeText, PlainChar c := by
  unfold Double.magnitudeText
  split
  · simp [PlainChar]
  split
  · simp [PlainChar]
  refine plainChar_of_mem_positional (fun c hc ↦ plainChar_of_isDigit ?_) _
  have hc := List.mem_reverse.mp ((List.dropWhile_sublist _).mem (List.mem_reverse.mp hc))
  exact Nat.isDigit_of_mem_toDigits (by decide) (by decide) hc

theorem plain_toText (x : Double) : Plain x.toText := by
  unfold Double.toText
  split
  · decide
  intro c hc
  rw [String.toList_ofList] at hc
  rcases List.mem_append.mp hc with hc | hc
  · split at hc
    · rw [List.mem_singleton.mp hc]
      decide
    · cases hc
  · exact plainChar_of_mem_magnitudeText x c hc

end Placeholders

end RelMapper
