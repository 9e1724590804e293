import RelMapper.Proofs.Sql.Truth
import RelMapper.Slots
import RelMapper.Sql.Query
namespace RelMapper

abbrev Record := String → Value

/-- Rows of joined tables, by the names under which the tables are visible. A table that an outer
join has found no row of is left out. -/
abbrev Scope := Slots Record

/-- The tables of a database, and what is read from tables that are derived from them. -/
structure Content where
  table : String → List Record
  derived : Query → List Record

/-- What a database makes of all but qualified columns, bound values and equality. -/
structure Dialect where
  value : Scope → Expr → Value
  compare : Comparison → Value → Value → Truth
  sharesColumns : Option (List String) → Scope → Bool

/-- Equality as databases have it: nothing is equal to null. -/
def Value.equals (v w : Value) : Bool :=
  !v.isNull && !w.isNull && v.sameAs w

theorem Value.equals_iff {v w : Value} :
    v.equals w = true ↔ v.isNull = false ∧ w.isNull = false ∧ v.sameAs w = true := by
  rw [equals, Bool.and_eq_true_iff, Bool.and_eq_true_iff, Bool.not_eq_true', Bool.not_eq_true',
    and_assoc]

namespace Dialect

variable (dialect : Dialect)

def valueOf (s : Scope) : Expr → Value
  | .bound v => v
  | .column ⟨name, some table, _⟩ => (s.get? table).elim .null (· name)
  | e => dialect.value s e

def compareValues : Comparison → Value → Value → Truth
  | .equal, v, w => if v.isNull || w.isNull then none else some (v.sameAs w)
  | op, v, w => dialect.compare op v w

def valuation (s : Scope) : Valuation :=
  fun op lhs rhs ↦ dialect.compareValues op (dialect.valueOf s lhs) (dialect.valueOf s rhs)

def holds (s : Scope) (p : Predicate) : Bool :=
  p.value (dialect.valuation s) == some true

theorem holds_equal (s : Scope) (lhs rhs : Expr) : dialect.holds s (.equal lhs rhs) =
    (dialect.valueOf s lhs).equals (dialect.valueOf s rhs) := by
  have hvalue : (Predicate.equal lhs rhs).value (dialect.valuation s) =
      dialect.compareValues .equal (dialect.valueOf s lhs) (dialect.valueOf s rhs) := rfl
  rw [holds, hvalue, compareValues, Value.equals]
  cases (dialect.valueOf s lhs).isNull <;> cases (dialect.valueOf s rhs).isNull <;> simp

end Dialect

namespace Target

def visibleName : Target → String
  | .table t => t.newName.getD t.name
  | .derived q =>
    match q.nesting with
    | .derived newName => newName.getD ""
    | .plain => ""

def scopes (content : Content) (t : Target) : List Scope :=
  match t with
  | .table n => (content.table n.name).map fun r ↦ [(t.visibleName, r)]
  | .derived q => (content.derived q).map fun r ↦ [(t.visibleName, r)]

end Target

namespace Join

variable (content : Content) (dialect : Dialect)

def fits (j : Join) (s : Scope) : Bool :=
  match j.condition with
  | some (.on p) => dialect.holds s p
  | some (.shared columns) => dialect.sharesColumns (some columns) s
  | none => j.kind != .natural || dialect.sharesColumns none s

def pairs (j : Join) (l : Scope) : List Scope :=
  ((j.target.scopes content).map (l ++ ·)).filter (j.fits dialect)

def unpaired (j : Join) (ls : List Scope) : List Scope :=
  (j.target.scopes content).filter fun r ↦ !ls.any fun l ↦ j.fits dialect (l ++ r)

def orAlone (l : Scope) (ss : List Scope) : List Scope :=
  if ss.isEmpty then [l] else ss

def scopes (ls : List Scope) (j : Join) : List Scope :=
  match j.kind with
  | .inner | .natural | .cross => ls.flatMap (j.pairs content dialect)
  | .leftOuter => ls.flatMap fun l ↦ orAlone l (j.pairs content dialect l)
  | .rightOuter => ls.flatMap (j.pairs content dialect) ++ j.unpaired content dialect ls
  | .fullOuter => ls.flatMap (fun l ↦ orAlone l (j.pairs content dialect l)) ++
      j.unpaired content dialect ls

end Join

def Source.visibleNames (s : Source) : List String :=
  s.base.visibleName :: s.joins.map fun j ↦ j.target.visibleName

theorem Source.visibleNames_append (s : Source) (js : List Join) :
    Source.visibleNames ⟨s.base, s.joins ++ js⟩ =
      s.visibleNames ++ js.map fun j ↦ j.target.visibleName := by
  rw [visibleNames, visibleNames, List.map_append, List.cons_append]

theorem Source.visibleNames_joinOn (s : Source) (kind : JoinKind) (target : Target)
    (p : Predicate) :
    (s.joinOn kind target p).visibleNames = s.visibleNames ++ [target.visibleName] :=
  s.visibleNames_append [⟨kind, target, some (.on p)⟩]

def Source.scopes (content : Content) (dialect : Dialect) (s : Source) : List Scope :=
  s.joins.foldl (Join.scopes content dialect) (s.base.scopes content)

namespace Query

variable (content : Content) (dialect : Dialect)

def scopes (q : Query) : List Scope :=
  (q.source.scopes content dialect).filter fun s ↦ q.filter.all (dialect.holds s)

/-- The rows that a query without groups finds, as they are before they are sorted and cut into
pages. -/
def rows (q : Query) : List (List Value) :=
  (q.scopes content dialect).map fun s ↦ q.projection.items.map (dialect.valueOf s)

end Query

section JoinedPair

variable (content : Content) (dialect : Dialect) {base joined : String} (f j : Record)

def Scope.pair (base : String) (f : Record) (joined : String) (j : Record) : Scope :=
  [(base, f), (joined, j)]

theorem valueOf_pair_base (column : String) :
    dialect.valueOf (.pair base f joined j) (.column (.qualified base column)) = f column := by
  simp [Dialect.valueOf, Column.qualified, Scope.pair, Slots.get?]

theorem valueOf_pair_joined (h : joined ≠ base) (column : String) :
    dialect.valueOf (.pair base f joined j) (.column (.qualified joined column)) = j column := by
  have hne : (joined == base) = false := by simpa using h
  simp [Dialect.valueOf, Column.qualified, Scope.pair, Slots.get?, List.lookup_cons, hne]

theorem Source.scopes_joined (h : joined ≠ base) (column key : String) :
    Source.scopes content dialect ⟨.table { name := base }, [⟨.inner, .table { name := joined },
      some (.on (.equal (.column (.qualified joined column)) (.column (.qualified base key))))⟩]⟩ =
    (content.table base).flatMap fun f ↦
      ((content.table joined).filter fun j ↦ (j column).equals (f key)).map
        (Scope.pair base f joined) := by
  have hpairs (f : Record) : Join.pairs content dialect ⟨.inner, .table { name := joined },
      some (.on (.equal (.column (.qualified joined column)) (.column (.qualified base key))))⟩
      [(base, f)] = ((content.table joined).filter fun j ↦ (j column).equals (f key)).map
        (Scope.pair base f joined) := by
    have hscopes : (Target.table { name := joined }).scopes content =
        (content.table joined).map fun j ↦ [(joined, j)] := rfl
    rw [Join.pairs, hscopes, List.map_map, List.filter_map]
    refine congrArg (List.map _) (List.filter_congr fun j _ ↦ ?_)
    have hfits : Join.fits dialect ⟨.inner, .table { name := joined },
        some (.on (.equal (.column (.qualified joined column)) (.column (.qualified base key))))⟩
        (.pair base f joined j) = dialect.holds (.pair base f joined j)
          (.equal (.column (.qualified joined column)) (.column (.qualified base key))) := rfl
    refine hfits.trans ?_
    rw [dialect.holds_equal, valueOf_pair_joined dialect f j h, valueOf_pair_base dialect f j]
  have hbase : Source.scopes content dialect ⟨.table { name := base }, [⟨.inner,
      .table { name := joined }, some (.on (.equal (.column (.qualified joined column))
        (.column (.qualified base key))))⟩]⟩ =
      ((content.table base).map fun f ↦ [(base, f)]).flatMap _ := rfl
  rw [hbase, List.flatMap_map]
  simp only [hpairs]

/-- The rows of the table `base` that rows of `joined` point at, once for each of them, where the
rows of `joined` are those whose column `owner` has the value `v`. -/
def Content.linked (content : Content) (joined owner : String) (v : Value)
    (column base key : String) : List Record :=
  (content.table base).flatMap fun f ↦ ((content.table joined).filter fun j ↦
    (j column).equals (f key) && (j owner).equals v).map fun _ ↦ f

theorem Query.rows_joined {q : Query} {owner column key : String} {v : Value}
    (h : joined ≠ base) (fields : List String)
    (hsource : q.source = ⟨.table { name := base }, [⟨.inner, .table { name := joined },
      some (.on (.equal (.column (.qualified joined column)) (.column (.qualified base key))))⟩]⟩)
    (hfilter : q.filter = some (.columnIs (.qualified joined owner) v))
    (hitems : q.projection.items = fields.map fun field ↦ .column (.qualified base field)) :
    q.rows content dialect =
      (content.linked joined owner v column base key).map fun f ↦ fields.map f := by
  have howner (f j : Record) : q.filter.all (dialect.holds (.pair base f joined j)) =
      (j owner).equals v := by
    rw [hfilter]
    refine (dialect.holds_equal _ _ _).trans ?_
    rw [valueOf_pair_joined dialect f j h]
    rfl
  have hread (f j : Record) : q.projection.items.map (dialect.valueOf (.pair base f joined j)) =
      fields.map f := by
    rw [hitems, List.map_map]
    exact List.map_congr_left fun field _ ↦ valueOf_pair_base dialect f j field
  rw [rows, scopes, hsource, Source.scopes_joined content dialect h, List.filter_flatMap,
    List.map_flatMap, Content.linked, List.map_flatMap]
  simp only [List.filter_map, List.map_map, List.filter_filter, Function.comp_def, howner, hread,
    Bool.and_comm]

end JoinedPair

end RelMapper
