import RelMapper.Sql.Clause
namespace RelMapper

structure TableName where
  name : String
  newName : Option String := none

def TableName.sql (t : TableName) : String :=
  match t.newName with
  | some newName => t.name ++ " AS " ++ newName
  | none => t.name

inductive JoinCondition
  | on (p : Predicate)
  | shared (columns : List String)

namespace JoinCondition

def render : JoinCondition → Rendering String
  | on p => do
    let s ← p.render
    return "ON " ++ s
  | shared columns => return "USING (" ++ String.intercalate ", " columns ++ ")"

def fragment : JoinCondition → Fragment
  | on p => .text "ON " :: p.fragment
  | shared columns => .ofText ("USING (" ++ String.intercalate ", " columns ++ ")")

theorem writes_render (c : JoinCondition) : c.render.Writes c.fragment := by
  cases c with
  | on p => exact p.writes_render.prepend "ON "
  | shared columns => exact Rendering.writes_pure _

end JoinCondition

/-- Whether a query stands alone or, in parentheses, for a table of another one. -/
inductive Nesting
  | plain
  | derived (newName : Option String)

namespace Nesting

def encloseText : Nesting → String → String
  | plain, s => s
  | derived (some newName), s => "(" ++ s ++ ") AS " ++ newName
  | derived none, s => "(" ++ s ++ ")"

def enclose : Nesting → Fragment → Fragment
  | plain, f => f
  | derived (some newName), f => .text "(" :: f ++ [.text (") AS " ++ newName)]
  | derived none, f => f.parenthesised

@[simp] theorem sql_enclose (n : Nesting) (f : Fragment) :
    (n.enclose f).sql = n.encloseText f.sql := by
  rcases n with _ | _ | newName <;> simp [enclose, encloseText, String.append_assoc]

@[simp] theorem binds_enclose (n : Nesting) (f : Fragment) : (n.enclose f).binds = f.binds := by
  rcases n with _ | _ | newName <;> simp [enclose]

end Nesting

mutual

structure Query where
  projection : Projection
  source : Source
  filter : Option Predicate := none
  groupBy : Option (List Expr) := none
  having : Option Predicate := none
  orderBy : Option SortKey := none
  page : Option Page := none
  nesting : Nesting := .plain

/-- What a query reads: a table or derived table, and what is joined to it, in order. -/
structure Source where
  base : Target
  joins : List Join

inductive Target
  | table (t : TableName)
  | derived (q : Query)

structure Join where
  kind : JoinKind
  target : Target
  condition : Option JoinCondition

end

namespace Source

def ofTable (name : String) : Source :=
  ⟨.table { name }, []⟩

/-- Joins one more table on the right. A condition has to be there exactly if the kind of join
takes one. -/
def join (s : Source) (kind : JoinKind) (target : Target) (condition : Option JoinCondition) :
    Except Fault Source :=
  match kind.takesCondition, condition with
  | true, none => .error (.ofMisuse (.joinWithoutCondition kind))
  | false, some _ => .error (.ofMisuse (.joinWithCondition kind))
  | _, _ => .ok ⟨s.base, s.joins ++ [⟨kind, target, condition⟩]⟩

def joinOn (s : Source) (kind : JoinKind) (target : Target) (p : Predicate) : Source :=
  ⟨s.base, s.joins ++ [⟨kind, target, some (.on p)⟩]⟩

/-- Whether a join brings in the plain table `table`; the base does not count. -/
def joinsTable (s : Source) (table : String) : Bool :=
  s.joins.any fun j ↦
    match j.target with
    | .table t => t.name == table
    | .derived _ => false

end Source

namespace Join

def renderLine (kind : JoinKind) (target : Rendering String) (condition : Option JoinCondition) :
    Rendering String := do
  let t ← target
  match condition with
  | some c =>
    let s ← c.render
    return kind.keyword ++ " " ++ t ++ " " ++ s
  | none => return kind.keyword ++ " " ++ t

def line (kind : JoinKind) (target : Fragment) (condition : Option JoinCondition) : Fragment :=
  .text (kind.keyword ++ " ") :: target ++
    (condition.elim [] fun c ↦ .text " " :: c.fragment)

theorem writes_renderLine (kind : JoinKind) {target : Rendering String} {f : Fragment}
    (h : target.Writes f) (condition : Option JoinCondition) :
    (renderLine kind target condition).Writes (line kind f condition) := by
  intro binds
  rw [renderLine, Rendering.run_bind, h binds]
  cases condition with
  | none =>
    rw [Rendering.run_pure]
    simp [line, String.append_assoc]
  | some c =>
    simp only
    rw [Rendering.run_bind, c.writes_render, Rendering.run_pure]
    simp [line, String.append_assoc]

end Join

namespace Query

def renderClauses (filter : Option Predicate) (groupBy : Option (List Expr))
    (having : Option Predicate) (orderBy : Option SortKey) (page : Option Page) :
    Rendering (List String) := do
  let filters ← filter.toList.mapM Clause.renderWhere
  let groups ← groupBy.toList.mapM Clause.renderGroupBy
  let havings ← having.toList.mapM Clause.renderHaving
  let orders ← orderBy.toList.mapM SortKey.render
  let pages ← page.toList.mapM Page.render
  return filters ++ groups ++ havings ++ orders ++ pages

def clauses (filter : Option Predicate) (groupBy : Option (List Expr)) (having : Option Predicate)
    (orderBy : Option SortKey) (page : Option Page) : List Fragment :=
  filter.toList.map Clause.whereLine ++ groupBy.toList.map Clause.groupByLine ++
    having.toList.map Clause.havingLine ++ orderBy.toList.map SortKey.fragment ++
    page.toList.map Page.fragment

theorem writesAll_renderClauses (filter : Option Predicate) (groupBy : Option (List Expr))
    (having : Option Predicate) (orderBy : Option SortKey) (page : Option Page) :
    (renderClauses filter groupBy having orderBy page).WritesAll
      (clauses filter groupBy having orderBy page) := by
  intro binds
  rw [renderClauses, Rendering.run_bind,
    Rendering.writesAll_mapM _ (fun p _ ↦ Clause.writes_renderWhere p), Rendering.run_bind,
    Rendering.writesAll_mapM _ (fun es _ ↦ Clause.writes_renderGroupBy es), Rendering.run_bind,
    Rendering.writesAll_mapM _ (fun p _ ↦ Clause.writes_renderHaving p), Rendering.run_bind,
    Rendering.writesAll_mapM _ (fun k _ ↦ k.writes_render), Rendering.run_bind,
    Rendering.writesAll_mapM _ (fun p _ ↦ p.writes_render), Rendering.run_pure]
  simp only [clauses, List.map_append, List.flatMap_append, List.append_assoc]

end Query

mutual

def Query.render : Query → Rendering String
  | ⟨projection, source, filter, groupBy, having, orderBy, page, nesting⟩ => do
    let select ← projection.render
    let tables ← source.renderLines
    let rest ← Query.renderClauses filter groupBy having orderBy page
    return nesting.encloseText <| String.intercalate Fragment.lineSeparator <|
      select :: ("FROM " ++ String.intercalate Fragment.lineSeparator tables) :: rest

def Source.renderLines : Source → Rendering (List String)
  | ⟨base, joins⟩ => do
    let line ← base.render
    let lines ← renderJoins joins
    return line :: lines

def Target.render : Target → Rendering String
  | .table t => return t.sql
  | .derived q => q.render

def renderJoins : List Join → Rendering (List String)
  | [] => return []
  | ⟨kind, target, condition⟩ :: joins => do
    let line ← Join.renderLine kind target.render condition
    let lines ← renderJoins joins
    return line :: lines

end

mutual

def Query.fragment : Query → Fragment
  | ⟨projection, source, filter, groupBy, having, orderBy, page, nesting⟩ =>
    nesting.enclose <| Fragment.lines <|
      projection.fragment :: (.text "FROM " :: Fragment.lines source.lines) ::
        Query.clauses filter groupBy having orderBy page

def Source.lines : Source → List Fragment
  | ⟨base, joins⟩ => base.fragment :: joinLines joins

def Target.fragment : Target → Fragment
  | .table t => .ofText t.sql
  | .derived q => q.fragment

def joinLines : List Join → List Fragment
  | [] => []
  | ⟨kind, target, condition⟩ :: joins =>
    Join.line kind target.fragment condition :: joinLines joins

end

mutual

theorem Query.writes_render (q : Query) : q.render.Writes q.fragment := by
  obtain ⟨projection, source, filter, groupBy, having, orderBy, page, nesting⟩ := q
  intro binds
  rw [Query.render, Rendering.run_bind, projection.writes_render, Rendering.run_bind,
    source.writesAll_renderLines, Rendering.run_bind, Query.writesAll_renderClauses,
    Rendering.run_pure]
  simp [Query.fragment, Fragment.sql_lines, Fragment.binds_lines]

theorem Source.writesAll_renderLines (s : Source) : s.renderLines.WritesAll s.lines := by
  obtain ⟨base, joins⟩ := s
  exact .cons base.writes_render (writesAll_renderJoins joins)

theorem Target.writes_render (t : Target) : t.render.Writes t.fragment := by
  cases t with
  | table t => exact Rendering.writes_pure t.sql
  | derived q => exact q.writes_render

theorem writesAll_renderJoins (js : List Join) : (renderJoins js).WritesAll (joinLines js) := by
  cases js with
  | nil => exact Rendering.writesAll_nil
  | cons j js =>
    obtain ⟨kind, target, condition⟩ := j
    exact .cons (Join.writes_renderLine kind target.writes_render condition)
      (writesAll_renderJoins js)

end

namespace Source

def render (s : Source) : Rendering String := do
  let lines ← s.renderLines
  return "FROM " ++ String.intercalate Fragment.lineSeparator lines

def fragment (s : Source) : Fragment :=
  .text "FROM " :: Fragment.lines s.lines

theorem writes_render (s : Source) : s.render.Writes s.fragment :=
  s.writesAll_renderLines.join "FROM " Fragment.lineSeparator

end Source

namespace Query

def ofSource (projection : Projection) (source : Source) : Query :=
  { projection, source }

def derivedAs (q : Query) (newName : String) : Query :=
  { q with nesting := .derived (some newName) }

end Query

end RelMapper
