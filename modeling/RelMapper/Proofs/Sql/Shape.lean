import RelMapper.Sql.Statement
namespace RelMapper

def Piece.shape : Piece → Piece
  | text s => .text s
  | slot _ => .slot .null

namespace Fragment

def shape (f : Fragment) : Fragment :=
  f.map Piece.shape

variable {f g : Fragment}

@[simp] theorem shape_nil : shape [] = [] := rfl

@[simp] theorem shape_text (s : String) (f : Fragment) :
    shape (.text s :: f) = .text s :: f.shape := rfl

@[simp] theorem shape_slot (v : Value) (f : Fragment) :
    shape (.slot v :: f) = .slot .null :: f.shape := rfl

@[simp] theorem shape_ofText (s : String) : shape (ofText s) = ofText s := rfl

@[simp] theorem shape_append (f g : Fragment) : shape (f ++ g) = f.shape ++ g.shape :=
  List.map_append

@[simp] theorem shape_parenthesised (f : Fragment) :
    f.parenthesised.shape = f.shape.parenthesised := by
  simp [parenthesised]

theorem shape_join (separator : String) (fs : List Fragment) :
    (join separator fs).shape = join separator (fs.map shape) := by
  fun_induction join separator fs with
  | case1 => rfl
  | case2 f => rfl
  | case3 f fs hfs ih =>
    obtain ⟨g, gs, rfl⟩ := List.exists_cons_of_ne_nil hfs
    rw [shape_append, shape_text, ih]
    rfl

theorem shape_lines (fs : List Fragment) : (lines fs).shape = lines (fs.map shape) :=
  shape_join _ _

theorem sql_shape (f : Fragment) : f.shape.sql = f.sql := by
  induction f with
  | nil => rfl
  | cons p f ih =>
    cases p with
    | text s => rw [shape_text, sql_text, sql_text, ih]
    | slot v => rw [shape_slot, sql_slot, sql_slot, ih]

theorem binds_shape (f : Fragment) : f.shape.binds = f.binds.map fun _ ↦ .null := by
  induction f with
  | nil => rfl
  | cons p f ih =>
    cases p with
    | text s => rw [shape_text, binds_text, binds_text, ih]
    | slot v => rw [shape_slot, binds_slot, binds_slot, ih, List.map_cons]

end Fragment

namespace Expr

mutual

/-- The expression with null for every bound value. Literals are text and stay. -/
def shape : Expr → Expr
  | literal l => literal l
  | bound _ => bound .null
  | column c => column c
  | call function args newName => call function (argsShape args) newName
  | verbatim s => verbatim s

def argsShape : List Expr → List Expr
  | [] => []
  | e :: es => e.shape :: argsShape es

end

mutual

def parameters : Expr → List Value
  | bound v => [v]
  | call _ args _ => argsParameters args
  | _ => []

def argsParameters : List Expr → List Value
  | [] => []
  | e :: es => e.parameters ++ argsParameters es

end

mutual

theorem fragment_shape (e : Expr) : e.shape.fragment = e.fragment.shape := by
  cases e with
  | call function args newName =>
    rw [shape, fragment, fragment, argsFragment_shape args]
    simp
  | _ => rfl

theorem argsFragment_shape (es : List Expr) :
    argsFragment (argsShape es) = (argsFragment es).shape := by
  match es with
  | [] => rfl
  | [e] => exact fragment_shape e
  | e :: d :: es =>
    change e.shape.fragment ++ .text ", " :: argsFragment (argsShape (d :: es)) = _
    rw [fragment_shape e, argsFragment_shape (d :: es)]
    change _ = Fragment.shape (e.fragment ++ .text ", " :: argsFragment (d :: es))
    simp

theorem binds_fragment (e : Expr) : e.fragment.binds = e.parameters := by
  cases e with
  | call function args newName =>
    rw [fragment, parameters, ← binds_argsFragment args]
    simp
  | _ => rfl

theorem binds_argsFragment (es : List Expr) : (argsFragment es).binds = argsParameters es := by
  match es with
  | [] => rfl
  | [e] => exact (binds_fragment e).trans (List.append_nil _).symm
  | e :: d :: es =>
    change (e.fragment ++ .text ", " :: argsFragment (d :: es)).binds = _
    rw [Fragment.binds_append, Fragment.binds_text, binds_fragment e, binds_argsFragment (d :: es)]
    rfl

theorem columns_shape (e : Expr) : e.shape.columns = e.columns := by
  cases e with
  | call function args newName => exact argsColumns_shape args
  | _ => rfl

theorem argsColumns_shape (es : List Expr) : argsColumns (argsShape es) = argsColumns es := by
  match es with
  | [] => rfl
  | e :: es => rw [argsShape, argsColumns, argsColumns, columns_shape e, argsColumns_shape es]

end

theorem isBlank_shape (e : Expr) : e.shape.isBlank = e.isBlank := by
  cases e <;> rfl

theorem newName_shape (e : Expr) : e.shape.newName = e.newName := by
  cases e <;> rfl

theorem projection_shape (e : Expr) : e.shape.projection = e.projection.shape := by
  rw [projection, projection, newName_shape, fragment_shape]
  cases e.newName <;> simp

theorem binds_projection (e : Expr) : e.projection.binds = e.parameters := by
  rw [projection, ← binds_fragment]
  cases e.newName <;> simp

end Expr

namespace Predicate

def shape : Predicate → Predicate
  | compare op lhs rhs => compare op lhs.shape rhs.shape
  | combine op lhs rhs => combine op lhs.shape rhs.shape
  | negate p => negate p.shape
  | truth t => truth t

def parameters : Predicate → List Value
  | compare _ lhs rhs => lhs.parameters ++ rhs.parameters
  | combine _ lhs rhs => lhs.parameters ++ rhs.parameters
  | negate p => p.parameters
  | truth _ => []

theorem isCombination_shape (p : Predicate) : p.shape.isCombination = p.isCombination := by
  cases p <;> rfl

theorem needsParentheses_shape (op : Connective) (p : Predicate) :
    p.shape.needsParentheses op = p.needsParentheses op := by
  cases p <;> rfl

theorem shape_enclosed (parentheses : Bool) (f : Fragment) :
    (enclosed parentheses f).shape = enclosed parentheses f.shape := by
  cases parentheses <;> simp [enclosed]

theorem fragment_shape (p : Predicate) : p.shape.fragment = p.fragment.shape := by
  induction p with
  | compare op lhs rhs => simp [shape, fragment, Expr.fragment_shape]
  | combine op lhs rhs ihl ihr =>
    simp [shape, fragment, ihl, ihr, needsParentheses_shape, shape_enclosed]
  | negate p ih => simp [shape, fragment, ih, isCombination_shape, shape_enclosed]
  | truth t => rfl

theorem binds_fragment (p : Predicate) : p.fragment.binds = p.parameters := by
  induction p with
  | compare op lhs rhs => simp [fragment, parameters, Expr.binds_fragment]
  | combine op lhs rhs ihl ihr => simp [fragment, parameters, ihl, ihr]
  | negate p ih => simp [fragment, parameters, ih]
  | truth t => rfl

theorem columns_shape (p : Predicate) : p.shape.columns = p.columns := by
  induction p with
  | compare op lhs rhs => rw [shape, columns, columns, lhs.columns_shape, rhs.columns_shape]
  | combine op lhs rhs ihl ihr => rw [shape, columns, columns, ihl, ihr]
  | negate p ih => exact ih
  | truth t => rfl

end Predicate

namespace Projection

def shape (p : Projection) : Projection where
  items := p.items.map Expr.shape
  items_ne_nil := mt List.map_eq_nil_iff.mp p.items_ne_nil
  not_blank := by
    simp only [List.forall_mem_map, Expr.isBlank_shape]
    exact p.not_blank

theorem fragment_shape (p : Projection) : p.shape.fragment = p.fragment.shape := by
  have hitems : p.items.map (Expr.projection ∘ Expr.shape) =
      p.items.map (Fragment.shape ∘ Expr.projection) :=
    List.map_congr_left fun e _ ↦ e.projection_shape
  rw [fragment, fragment, shape, Fragment.shape_text, Fragment.shape_join, List.map_map,
    List.map_map, hitems]

theorem binds_fragment (p : Projection) :
    p.fragment.binds = p.items.flatMap Expr.parameters := by
  rw [fragment, Fragment.binds_text, Fragment.binds_join, List.flatMap_map]
  exact congrArg (p.items.flatMap ·) (funext Expr.binds_projection)

end Projection

def SortKey.shape (k : SortKey) : SortKey :=
  { k with expr := k.expr.shape }

theorem SortKey.fragment_shape (k : SortKey) : k.shape.fragment = k.fragment.shape := by
  rw [fragment, fragment, shape, Expr.fragment_shape, Fragment.shape_append]
  rfl

def JoinCondition.shape : JoinCondition → JoinCondition
  | on p => on p.shape
  | shared columns => shared columns

theorem JoinCondition.fragment_shape (c : JoinCondition) : c.shape.fragment = c.fragment.shape := by
  cases c with
  | on p => simp [fragment, shape, Predicate.fragment_shape]
  | shared columns => rfl

theorem Join.line_shape (kind : JoinKind) (target : Fragment) (condition : Option JoinCondition) :
    (line kind target condition).shape =
      line kind target.shape (condition.map JoinCondition.shape) := by
  cases condition with
  | none => simp [line]
  | some c => simp [line, c.fragment_shape]

theorem Nesting.enclose_shape (n : Nesting) (f : Fragment) :
    (n.enclose f).shape = n.enclose f.shape := by
  rcases n with _ | _ | newName <;> simp [enclose]

theorem Query.clauses_shape (filter : Option Predicate) (groupBy : Option (List Expr))
    (having : Option Predicate) (orderBy : Option SortKey) (page : Option Page) :
    (clauses filter groupBy having orderBy page).map Fragment.shape =
      clauses (filter.map Predicate.shape) (groupBy.map (List.map Expr.shape))
        (having.map Predicate.shape) (orderBy.map SortKey.shape) page := by
  have hgroups (items : List Expr) : (Clause.groupByLine items).shape =
      Clause.groupByLine (items.map Expr.shape) := by
    have hitems : items.map (Fragment.shape ∘ Expr.fragment) =
        items.map (Expr.fragment ∘ Expr.shape) :=
      List.map_congr_left fun e _ ↦ e.fragment_shape.symm
    rw [Clause.groupByLine, Clause.groupByLine, Fragment.shape_text, Fragment.shape_join,
      List.map_map, List.map_map, hitems]
  simp only [clauses, List.map_append, Option.toList_map, List.map_map]
  simp [Function.comp_def, Clause.whereLine, Clause.havingLine, hgroups, Predicate.fragment_shape,
    SortKey.fragment_shape, Page.fragment]

mutual

def Query.shape : Query → Query
  | ⟨projection, source, filter, groupBy, having, orderBy, page, nesting⟩ =>
    ⟨projection.shape, source.shape, filter.map Predicate.shape,
      groupBy.map (List.map Expr.shape), having.map Predicate.shape, orderBy.map SortKey.shape,
      page, nesting⟩

def Source.shape : Source → Source
  | ⟨base, joins⟩ => ⟨base.shape, joinsShape joins⟩

def Target.shape : Target → Target
  | .table t => .table t
  | .derived q => .derived q.shape

def joinsShape : List Join → List Join
  | [] => []
  | ⟨kind, target, condition⟩ :: joins =>
    ⟨kind, target.shape, condition.map JoinCondition.shape⟩ :: joinsShape joins

end

mutual

theorem Query.fragment_shape (q : Query) : q.shape.fragment = q.fragment.shape := by
  obtain ⟨projection, source, filter, groupBy, having, orderBy, page, nesting⟩ := q
  rw [Query.shape, Query.fragment, Query.fragment, Nesting.enclose_shape, Fragment.shape_lines,
    projection.fragment_shape, source.lines_shape, ← Query.clauses_shape]
  simp [Fragment.shape_lines]

theorem Source.lines_shape (s : Source) : s.shape.lines = s.lines.map Fragment.shape := by
  obtain ⟨base, joins⟩ := s
  rw [Source.shape, Source.lines, Source.lines, List.map_cons, base.fragment_shape,
    joinLines_shape joins]

theorem Target.fragment_shape (t : Target) : t.shape.fragment = t.fragment.shape := by
  cases t with
  | table t => rfl
  | derived q => exact q.fragment_shape

theorem joinLines_shape (js : List Join) :
    joinLines (joinsShape js) = (joinLines js).map Fragment.shape := by
  cases js with
  | nil => rfl
  | cons j js =>
    obtain ⟨kind, target, condition⟩ := j
    rw [joinsShape, joinLines, joinLines, List.map_cons, Join.line_shape, target.fragment_shape,
      joinLines_shape js]

end

def columnsOf (row : List (String × Value)) : List (String × Value) :=
  row.map fun a ↦ (a.1, .null)

def Insert.shape (i : Insert) : Insert :=
  { i with
    row := columnsOf i.row
    row_ne_nil := mt List.map_eq_nil_iff.mp i.row_ne_nil }

def Update.shape (u : Update) : Update :=
  { u with
    assignments := columnsOf u.assignments
    filter := u.filter.map Predicate.shape
    assignments_ne_nil := mt List.map_eq_nil_iff.mp u.assignments_ne_nil }

def Delete.shape (d : Delete) : Delete :=
  { d with filter := d.filter.shape }

theorem Insert.fragment_shape (i : Insert) : i.shape.fragment = i.fragment.shape := by
  simp only [fragment, shape, columnsOf, Clause.valuesLine, List.map_map, Fragment.shape_text,
    Fragment.shape_append, Fragment.shape_join]
  rfl

theorem Update.fragment_shape (u : Update) : u.shape.fragment = u.fragment.shape := by
  have hset : (Clause.setLine u.assignments).shape = Clause.setLine (columnsOf u.assignments) := by
    rw [Clause.setLine, Clause.setLine, Fragment.shape_text, Fragment.shape_join, columnsOf,
      List.map_map, List.map_map]
    rfl
  cases hfilter : u.filter with
  | none => simp [fragment, shape, hset, hfilter, Fragment.shape_lines]
  | some p => simp [fragment, shape, hset, hfilter, Fragment.shape_lines, Clause.whereLine,
      Predicate.fragment_shape]

theorem Insert.binds_fragment (i : Insert) : i.fragment.binds = i.row.map Prod.snd := by
  rw [fragment, Clause.valuesLine, Fragment.binds_text, Fragment.binds_append, Fragment.binds_text,
    Fragment.binds_join, List.flatMap_map]
  exact (List.append_nil _).trans (List.flatMap_singleton' _)

theorem Update.binds_fragment (u : Update) : u.fragment.binds =
    u.assignments.map Prod.snd ++ u.filter.elim [] Predicate.parameters := by
  have hset : (Clause.setLine u.assignments).binds = u.assignments.map Prod.snd := by
    rw [Clause.setLine, Fragment.binds_text, Fragment.binds_join, List.flatMap_map]
    exact List.map_eq_flatMap.symm
  rw [fragment, Fragment.binds_lines, List.flatMap_cons, List.flatMap_cons, hset]
  cases u.filter with
  | none => rfl
  | some p => simp [Clause.whereLine, Predicate.binds_fragment]

theorem Delete.fragment_shape (d : Delete) : d.shape.fragment = d.fragment.shape := by
  simp [fragment, shape, Clause.whereLine, Predicate.fragment_shape]

namespace Statement

def shape : Statement → Statement
  | select q => select q.shape
  | insert i => insert i.shape
  | update u => update u.shape
  | delete d => delete d.shape
  | createTable c => createTable c

theorem fragment_shape (s : Statement) : s.shape.fragment = s.fragment.shape := by
  cases s with
  | select q => exact q.fragment_shape
  | insert i => exact i.fragment_shape
  | update u => exact u.fragment_shape
  | delete d => exact d.fragment_shape
  | createTable c => rfl

theorem sql_shape (s : Statement) : s.shape.sql = s.sql := by
  rw [sql_eq, sql_eq, fragment_shape, Fragment.sql_shape]

theorem binds_shape (s : Statement) : s.shape.binds = s.binds.map fun _ ↦ .null := by
  rw [binds_eq, binds_eq, fragment_shape, Fragment.binds_shape]

end Statement

end RelMapper
