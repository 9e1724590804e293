import RelMapper.Proofs.Sql.Truth
import RelMapper.Sql.Query
namespace RelMapper

namespace Fragment

variable {separator : String} {f : Fragment} {fs gs : List Fragment}

theorem join_cons (separator : String) (f : Fragment) (fs : List Fragment) :
    join separator (f :: fs) = f ++ fs.flatMap (.text separator :: ·) := by
  induction fs generalizing f with
  | nil => exact (List.append_nil f).symm
  | cons g fs ih =>
    rw [join, ih g, List.flatMap_cons]
    · rfl
    · exact List.cons_ne_nil g fs

theorem join_append (separator : String) (hf : fs ≠ []) (hg : gs ≠ []) :
    join separator (fs ++ gs) = join separator fs ++ .text separator :: join separator gs := by
  obtain ⟨f, fs, rfl⟩ := List.exists_cons_of_ne_nil hf
  obtain ⟨g, gs, rfl⟩ := List.exists_cons_of_ne_nil hg
  rw [List.cons_append, join_cons, join_cons, join_cons, List.flatMap_append, List.flatMap_cons,
    List.append_assoc, List.cons_append]

end Fragment

namespace Predicate

variable {op : Connective} {p q r : Predicate}

def operandFragment (op : Connective) (p : Predicate) : Fragment :=
  enclosed (p.needsParentheses op) p.fragment

/-- However a chain of one connective is nested, it is written as its operands in a row. -/
theorem operandFragment_eq (op : Connective) (p : Predicate) :
    p.operandFragment op =
      Fragment.join (" " ++ op.keyword ++ " ") ((operands op p).map (operandFragment op)) := by
  induction p with
  | combine op' l r ihl ihr =>
    rw [operands]
    split
    · next h =>
      subst h
      rw [List.map_append, Fragment.join_append _ (by simpa using operands_ne_nil op' l)
        (by simpa using operands_ne_nil op' r), ← ihl, ← ihr, operandFragment, needsParentheses,
        bne_self_eq_false]
      rfl
    · rfl
  | compare op' l r => rfl
  | negate p ih => rfl
  | truth t => rfl

theorem operands_combine (op : Connective) (p q : Predicate) :
    operands op (combine op p q) = operands op p ++ operands op q := by
  rw [operands, if_pos rfl]

theorem operands_foldl (op : Connective) (ps : List Predicate) (p : Predicate) :
    operands op (ps.foldl (combine op) p) = (p :: ps).flatMap (operands op) := by
  induction ps generalizing p with
  | nil => exact (List.flatMap_singleton (operands op) p).symm
  | cons q ps ih =>
    rw [List.foldl_cons, ih, List.flatMap_cons, operands_combine, List.append_assoc,
      ← List.flatMap_cons, ← List.flatMap_cons]

theorem operands_combine_ne_singleton : operands op (combine op p q) ≠ [r] := by
  intro h
  have hlength := congrArg List.length h
  have hp := List.length_pos_iff.mpr (operands_ne_nil op p)
  have hq := List.length_pos_iff.mpr (operands_ne_nil op q)
  rw [operands_combine, List.length_append, List.length_singleton] at hlength
  omega

theorem exists_combine_or_operands (op : Connective) (p : Predicate) :
    (∃ l r, p = combine op l r) ∨ operands op p = [p] := by
  cases p with
  | combine op' l r =>
    by_cases h : op' = op
    · exact .inl ⟨l, r, h ▸ rfl⟩
    · exact .inr (by rw [operands, if_neg h])
  | compare op' l r => exact .inr rfl
  | negate p => exact .inr rfl
  | truth t => exact .inr rfl

theorem fragment_combine (op : Connective) (p q : Predicate) :
    (combine op p q).operandFragment op = (combine op p q).fragment := by
  rw [operandFragment, needsParentheses, bne_self_eq_false]
  rfl

theorem fragment_congr (h : operands op p = operands op q) : p.fragment = q.fragment := by
  have hoperand : p.operandFragment op = q.operandFragment op := by
    rw [operandFragment_eq, operandFragment_eq, h]
  rcases exists_combine_or_operands op p with ⟨l, r, rfl⟩ | hp <;>
    rcases exists_combine_or_operands op q with ⟨l', r', rfl⟩ | hq
  · rwa [fragment_combine, fragment_combine] at hoperand
  · exact absurd (h.trans hq) operands_combine_ne_singleton
  · exact absurd (h.symm.trans hp) operands_combine_ne_singleton
  · rw [hp, hq] at h
    rw [(List.cons.inj h).1]

end Predicate

namespace Query

def result (q : Query) : String × List Value :=
  q.render.result

theorem result_eq (q : Query) : q.result = (q.fragment.sql, q.fragment.binds) :=
  q.writes_render.result_eq

theorem clauses_congr {filter filter' : Option Predicate}
    (h : filter.map Predicate.fragment = filter'.map Predicate.fragment)
    (groupBy : Option (List Expr)) (having : Option Predicate) (orderBy : Option SortKey)
    (page : Option Page) :
    clauses filter groupBy having orderBy page = clauses filter' groupBy having orderBy page := by
  have hlines (filter : Option Predicate) : filter.toList.map Clause.whereLine =
      (filter.map Predicate.fragment).toList.map fun f ↦ .text "WHERE " :: f := by
    cases filter <;> rfl
  rw [clauses, clauses, hlines, hlines, h]

theorem fragment_eq {projection : Projection} {source : Source} {filter : Option Predicate}
    {groupBy : Option (List Expr)} {having : Option Predicate} {orderBy : Option SortKey}
    {page : Option Page} :
    (⟨projection, source, filter, groupBy, having, orderBy, page, .plain⟩ : Query).fragment =
      projection.fragment ++ [.text Fragment.lineSeparator, .text "FROM "] ++
        source.base.fragment ++
        (joinLines source.joins ++ clauses filter groupBy having orderBy page).flatMap
          (.text Fragment.lineSeparator :: ·) := by
  obtain ⟨base, joins⟩ := source
  rw [fragment, Nesting.enclose, Fragment.lines, Fragment.join_cons, List.flatMap_cons,
    Source.lines, Fragment.lines, Fragment.join_cons, List.flatMap_append]
  simp

end Query

structure Heading where
  projection : Projection
  orderBy : Option SortKey := none
  page : Option Page := none

namespace Heading

def query (h : Heading) (r : Source × Option Predicate) : Query :=
  ⟨h.projection, r.1, r.2, none, none, h.orderBy, h.page, .plain⟩

variable {source : Source} {base : Target} {joins : List Join} {filter filter' : Option Predicate}

theorem result_congr (h : Heading)
    (hfilter : filter.map Predicate.fragment = filter'.map Predicate.fragment) :
    (h.query (source, filter)).result = (h.query (source, filter')).result := by
  rw [Query.result_eq, Query.result_eq, query, query, Query.fragment_eq, Query.fragment_eq,
    Query.clauses_congr hfilter]

theorem result_ne_of_joined (h : Heading) (hjoins : joins ≠ []) :
    (h.query (⟨base, []⟩, filter)).result ≠ (h.query (⟨base, joins⟩, filter)).result := by
  obtain ⟨j, joins, rfl⟩ := List.exists_cons_of_ne_nil hjoins
  intro hsame
  rw [Query.result_eq, Query.result_eq, query, query, Query.fragment_eq, Query.fragment_eq]
    at hsame
  have hlength := congrArg (fun r ↦ r.1.length) hsame
  obtain ⟨kind, target, condition⟩ := j
  have hseparator : 0 < Fragment.lineSeparator.length := by decide
  simp only [joinLines, List.nil_append, List.cons_append, List.flatMap_cons, List.flatMap_append,
    Fragment.sql_append, Fragment.sql_text, String.length_append] at hlength
  omega

end Heading

end RelMapper
