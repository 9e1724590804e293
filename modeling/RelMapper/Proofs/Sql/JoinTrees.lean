import RelMapper.Proofs.Except
import RelMapper.Sql.Query
namespace RelMapper

namespace Join

def isProper (j : Join) : Bool :=
  j.condition.isSome == j.kind.takesCondition

def refusal (j : Join) : Fault :=
  .ofMisuse (if j.kind.takesCondition then .joinWithoutCondition j.kind
    else .joinWithCondition j.kind)

def isOf (table : String) (j : Join) : Bool :=
  match j.target with
  | .table t => t.name == table
  | .derived _ => false

theorem isOf_iff {table : String} {j : Join} :
    j.isOf table = true ↔ ∃ newName, j.target = .table ⟨table, newName⟩ := by
  obtain ⟨kind, target, condition⟩ := j
  cases target with
  | table t =>
    obtain ⟨name, newName⟩ := t
    simp [isOf]
  | derived q => simp [isOf]

def text (j : Join) : String :=
  j.kind.keyword ++ " " ++ j.target.render.result.1 ++
    j.condition.elim "" fun c ↦ " " ++ c.render.result.1

def boundValues (j : Join) : List Value :=
  j.target.render.result.2 ++ j.condition.elim [] fun c ↦ c.render.result.2

def fragment (j : Join) : Fragment :=
  line j.kind j.target.fragment j.condition

theorem sql_fragment (j : Join) : j.fragment.sql = j.text := by
  rw [text, j.target.writes_render.result_eq, fragment, line]
  cases j.condition with
  | none => simp
  | some c => simp [c.writes_render.result_eq, String.append_assoc]

theorem binds_fragment (j : Join) : j.fragment.binds = j.boundValues := by
  rw [boundValues, j.target.writes_render.result_eq, fragment, line]
  cases j.condition with
  | none => simp
  | some c => simp [c.writes_render.result_eq]

end Join

theorem joinLines_eq_map (js : List Join) : joinLines js = js.map Join.fragment := by
  induction js with
  | nil => rw [joinLines, List.map_nil]
  | cons j js ih =>
    obtain ⟨kind, target, condition⟩ := j
    rw [joinLines, ih, List.map_cons, Join.fragment]

namespace Source

variable {j : Join} {calls : List Join} {e : Fault}

theorem joinsTable_eq (s : Source) (table : String) :
    s.joinsTable table = s.joins.any (Join.isOf table) := rfl

def joinAll (s : Source) (calls : List Join) : Except Fault Source :=
  calls.foldlM (fun s j ↦ s.join j.kind j.target j.condition) s

theorem join_eq (s : Source) (j : Join) : s.join j.kind j.target j.condition =
    if j.isProper then .ok ⟨s.base, s.joins ++ [j]⟩ else .error j.refusal := by
  obtain ⟨kind, target, condition⟩ := j
  rw [join.eq_def]
  cases h : kind.takesCondition <;> cases condition <;> simp [h, Join.isProper, Join.refusal]

theorem join_eq_error {s : Source} :
    s.join j.kind j.target j.condition = .error e ↔ j.isProper = false ∧ e = j.refusal := by
  rw [join_eq]
  cases j.isProper <;> simp [eq_comm]

/-- Calls fail at the first that is not proper, and else join all targets in their order. -/
theorem joinAll_eq (s : Source) (calls : List Join) : s.joinAll calls =
    (calls.find? fun j ↦ !j.isProper).elim (.ok ⟨s.base, s.joins ++ calls⟩) (.error ·.refusal) := by
  induction calls generalizing s with
  | nil =>
    obtain ⟨base, joins⟩ := s
    simp [joinAll, pure, Except.pure]
  | cons j calls ih =>
    have hcons : s.joinAll (j :: calls) =
        s.join j.kind j.target j.condition >>= (joinAll · calls) := List.foldlM_cons
    rw [hcons, join_eq, List.find?_cons]
    cases j.isProper with
    | true =>
      refine (ih _).trans ?_
      simp
    | false => rfl

theorem joinAll_eq_error {s : Source} : s.joinAll calls = .error e ↔
    ∃ j, (calls.find? fun j ↦ !j.isProper) = some j ∧ e = j.refusal := by
  rw [joinAll_eq]
  cases calls.find? fun j ↦ !j.isProper <;> simp [eq_comm]

theorem joinAll_eq_ok {s t : Source} : s.joinAll calls = .ok t ↔
    (∀ j ∈ calls, j.isProper = true) ∧ t = ⟨s.base, s.joins ++ calls⟩ := by
  have hall : (calls.find? fun j ↦ !j.isProper) = none ↔ ∀ j ∈ calls, j.isProper = true := by simp
  rw [joinAll_eq, ← hall]
  cases calls.find? fun j ↦ !j.isProper <;> simp [eq_comm]

theorem mk_base_joins (s : Source) : ⟨s.base, s.joins⟩ = s := by
  obtain ⟨base, joins⟩ := s
  rfl

theorem lines_append (s : Source) (js : List Join) :
    lines ⟨s.base, s.joins ++ js⟩ = s.lines ++ js.map Join.fragment := by
  obtain ⟨base, joins⟩ := s
  rw [lines, lines, joinLines_eq_map, joinLines_eq_map, List.map_append, List.cons_append]

theorem run_renderLines (base : Target) (js : List Join) (binds : List Value) :
    (renderLines ⟨base, js⟩).run binds = (base.render.result.1 :: js.map Join.text,
      binds ++ (base.render.result.2 ++ js.flatMap Join.boundValues)) := by
  have htexts : (js.map Join.fragment).map Fragment.sql = js.map Join.text := by
    rw [List.map_map]
    exact List.map_congr_left fun j _ ↦ j.sql_fragment
  have hbinds : (js.map Join.fragment).flatMap Fragment.binds = js.flatMap Join.boundValues := by
    rw [List.flatMap_map]
    exact List.flatMap_congr fun j _ ↦ j.binds_fragment
  rw [writesAll_renderLines, lines, joinLines_eq_map, List.map_cons, List.flatMap_cons, htexts,
    hbinds, base.writes_render.result_eq]

end Source

/-- A FROM as a tree, in which each join has on its left all that was joined before it. -/
inductive JoinTree
  | base (t : Target)
  | join (left : JoinTree) (j : Join)

namespace JoinTree

def renderLines : JoinTree → Rendering (List String)
  | base t => do
    let line ← t.render
    return [line]
  | join left j => do
    let lines ← left.renderLines
    let line ← Join.renderLine j.kind j.target.render j.condition
    return lines ++ [line]

def joinsTable (table : String) : JoinTree → Bool
  | base _ => false
  | join left j => j.isOf table || left.joinsTable table

def flatten : JoinTree → Source
  | base t => ⟨t, []⟩
  | join left j => ⟨left.flatten.base, left.flatten.joins ++ [j]⟩

theorem writesAll_renderLines (t : JoinTree) : t.renderLines.WritesAll t.flatten.lines := by
  induction t with
  | base t => exact Rendering.WritesAll.cons t.writes_render Rendering.writesAll_nil
  | join left j ih =>
    intro binds
    have hline := Join.writes_renderLine j.kind j.target.writes_render j.condition
    rw [renderLines, Rendering.run_bind, ih, Rendering.run_bind, hline, Rendering.run_pure, flatten,
      Source.lines_append]
    simp [Join.fragment]

theorem renderLines_eq (t : JoinTree) : t.renderLines = t.flatten.renderLines := by
  funext binds
  exact (t.writesAll_renderLines binds).trans (t.flatten.writesAll_renderLines binds).symm

theorem joinsTable_eq (t : JoinTree) (table : String) :
    t.joinsTable table = t.flatten.joinsTable table := by
  induction t with
  | base t => rfl
  | join left j ih =>
    rw [joinsTable, ih, Source.joinsTable_eq, Source.joinsTable_eq, flatten, List.any_append]
    simp [Bool.or_comm]

theorem flatten_foldl (t : JoinTree) (js : List Join) :
    (js.foldl join t).flatten = ⟨t.flatten.base, t.flatten.joins ++ js⟩ := by
  induction js generalizing t with
  | nil => rw [List.foldl_nil, List.append_nil, Source.mk_base_joins]
  | cons j js ih => simp [ih, flatten]

end JoinTree

def Source.tree (s : Source) : JoinTree :=
  s.joins.foldl .join (.base s.base)

theorem Source.flatten_tree (s : Source) : s.tree.flatten = s := by
  rw [tree, JoinTree.flatten_foldl]
  exact s.mk_base_joins

/-- Joining fails just where a condition is missing or is too much. A FROM that is joined call by
call has a line for its base and one for each call, in the order of the calls, and so are the values
that it binds; and it joins the plain tables that calls name, whatever else these are called. The
tree with each join on top of those before it has these lines and joins these tables, too. -/
theorem joins_flatten_in_order (base : Target) (calls : List Join) :
    (∀ (s : Source) (j : Join) e, s.join j.kind j.target j.condition = .error e ↔
      j.condition.isSome ≠ j.kind.takesCondition ∧ e = j.refusal) ∧
    (∀ e, Source.joinAll ⟨base, []⟩ calls = .error e ↔
      ∃ j, (calls.find? fun j ↦ !j.isProper) = some j ∧ e = j.refusal) ∧
    ((∃ s, Source.joinAll ⟨base, []⟩ calls = .ok s) ↔
      ∀ j ∈ calls, j.condition.isSome = j.kind.takesCondition) ∧
    ∀ s, Source.joinAll ⟨base, []⟩ calls = .ok s →
      (∀ binds, s.renderLines.run binds = (base.render.result.1 :: calls.map Join.text,
        binds ++ (base.render.result.2 ++ calls.flatMap Join.boundValues))) ∧
      (∀ table, s.joinsTable table = true ↔
        ∃ j ∈ calls, ∃ newName, j.target = .table ⟨table, newName⟩) ∧
      s.tree = calls.foldl .join (.base base) ∧ s.tree.renderLines = s.renderLines ∧
      ∀ table, s.tree.joinsTable table = s.joinsTable table := by
  have hproper (j : Join) : j.isProper = true ↔ j.condition.isSome = j.kind.takesCondition :=
    beq_iff_eq
  have hok (s : Source) : Source.joinAll ⟨base, []⟩ calls = .ok s ↔
      (∀ j ∈ calls, j.condition.isSome = j.kind.takesCondition) ∧ s = ⟨base, calls⟩ := by
    simp only [← hproper]
    exact Source.joinAll_eq_ok
  refine ⟨fun s j e ↦ ?_, fun e ↦ Source.joinAll_eq_error, ?_, fun s h ↦ ?_⟩
  · rw [Source.join_eq_error, Join.isProper, beq_eq_false_iff_ne]
  · simp [hok]
  · obtain ⟨-, rfl⟩ := (hok s).mp h
    refine ⟨Source.run_renderLines base calls, fun table ↦ ?_, rfl, ?_, fun table ↦ ?_⟩
    · simp only [Source.joinsTable_eq, List.any_eq_true, Join.isOf_iff]
    · rw [JoinTree.renderLines_eq, Source.flatten_tree]
    · rw [JoinTree.joinsTable_eq, Source.flatten_tree]

/-- What a derived table reads itself does not count as joined. -/
theorem joins_flatten_in_order_stock :
    let stock : Query :=
      { projection := ⟨[.verbatim "film_id"], by simp, List.forall_mem_singleton.mpr rfl⟩
        source := (Source.ofTable "inventory").joinOn .inner (.table { name := "store" })
          (.columnIs (.qualified "store" "open") (.bigInt 1))
        nesting := .derived (some "stock") }
    let calls : List Join :=
      [⟨.leftOuter, .derived stock,
          some (.on (.columnIs (.qualified "film" "rating") (.text "PG")))⟩,
        ⟨.natural, .table ⟨"film_text", some "t"⟩, none⟩]
    ∃ s, Source.joinAll ⟨.table { name := "film" }, []⟩ calls = .ok s ∧
      s.renderLines.run [.bigInt 0] = (["film",
        "LEFT OUTER JOIN (SELECT film_id\n    FROM inventory\n" ++
          "    INNER JOIN store ON store.open = ?) AS stock ON film.rating = ?",
        "NATURAL JOIN film_text AS t"],
        [.bigInt 0, .bigInt 1, .text "PG"]) ∧
      s.joinsTable "film_text" = true ∧ s.joinsTable "store" = false ∧
      s.joinsTable "film" = false := by
  intro stock calls
  obtain ⟨-, -, hok, hall⟩ := joins_flatten_in_order (.table { name := "film" }) calls
  obtain ⟨s, hs⟩ := hok.mpr (by simp [calls, JoinKind.takesCondition])
  obtain ⟨hlines, htable, -⟩ := hall s hs
  refine ⟨s, hs, (hlines [.bigInt 0]).trans ?_, ?_, ?_, ?_⟩
  · exact Prod.ext (by decide +kernel) rfl
  · exact (htable "film_text").mpr ⟨_, .tail _ (.head _), some "t", rfl⟩
  · refine Bool.eq_false_iff.mpr fun h ↦ ?_
    simpa [calls] using (htable "store").mp h
  · refine Bool.eq_false_iff.mpr fun h ↦ ?_
    simpa [calls] using (htable "film").mp h

end RelMapper
