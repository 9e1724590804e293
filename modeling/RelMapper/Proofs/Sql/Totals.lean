import Mathlib.Data.Multiset.MapFold
import RelMapper.Loading.Layout
import RelMapper.Proofs.Sql.Groups
import RelMapper.Proofs.Sql.LeftJoins
namespace RelMapper

/-- What a database computes of the arguments of a call in a number of rows, whose order has no say.
Of no rows there is the number zero and nothing else. -/
structure Aggregator where
  value : String → Multiset (List Value) → Value
  ofNone : ∀ f : AggregateFunction, value f.sqlName 0 = if f = .count then .bigInt 0 else .null

/-- What an item is in the result of a number of rows; it is a call or the same in all of them. -/
def Aggregator.valueOf (agg : Aggregator) (dialect : Dialect) (rows : List Scope) : Expr → Value
  | .call function args _ =>
    agg.value function (Multiset.ofList (rows.map fun s ↦ args.map (dialect.valueOf s)))
  | e => rows.head?.elim .null (dialect.valueOf · e)

/-- The one row that a query of calls finds without groups, also when there is nothing to find. -/
def Query.totals (content : Content) (dialect : Dialect) (agg : Aggregator) (q : Query) : Row :=
  q.projection.items.map (agg.valueOf dialect (q.scopes content dialect))

/-- What is read from a table that is derived by a query with groups is one row for each group, with
the values that calls have in the group. -/
def Content.Aggregates (content : Content) (dialect : Dialect) (agg : Aggregator) (q : Query) :
    Prop :=
  ∀ keys, q.groupBy = some keys → q.having = none → q.page = none →
    ∃ groups, q.GroupedInto content dialect keys groups ∧
      List.Forall₂ (fun g r ↦ q.Summarizes dialect keys g r ∧
        ∀ name function args newName, q.item? name = some (.call function args newName) →
          r name = agg.valueOf dialect g (.call function args newName)) groups (content.derived q)

def Content.NamesColumns (content : Content) : Prop :=
  ∀ table, ∀ row ∈ content.table table, row "" = .null

variable {content : Content} {dialect : Dialect} {agg : Aggregator} {q : Query} {d : Expr} {v : Value}

theorem Aggregator.valueOf_perm {rows rows' : List Scope} (h : rows.Perm rows') (function : String)
    (args : List Expr) (newName : Option String) :
    agg.valueOf dialect rows (.call function args newName) =
      agg.valueOf dialect rows' (.call function args newName) :=
  congrArg (agg.value function) (Multiset.coe_eq_coe.mpr (h.map _))

theorem Value.Alike.equals {u w : Value} (h : Alike u w) (hu : u.equals v = true) :
    w.equals v = true := by
  obtain rfl | hsame := h
  · exact hu
  · obtain ⟨hnull, hv, huv⟩ := equals_iff.mp hu
    exact equals_iff.mpr
      ⟨(isNull_eq_of_sameAs hsame).symm.trans hnull, hv, sameAs_trans (sameAs_symm hsame) huv⟩

theorem Value.alike_of_equals {u w : Value} (hu : u.equals v = true) (hw : w.equals v = true) :
    Alike u w :=
  .inr (equals_iff.mp (equals_trans hu (equals_symm hw))).2.2

namespace Query.GroupedInto

variable {groups : List (List Scope)} {g : List Scope} {s : Scope}

theorem perm_filter (h : q.GroupedInto content dialect [d] groups) (hg : g ∈ groups) (hs : s ∈ g)
    (hv : (dialect.valueOf s d).equals v = true) :
    g.Perm ((q.scopes content dialect).filter fun t ↦ (dialect.valueOf t d).equals v) := by
  have hall : g.filter (fun t ↦ (dialect.valueOf t d).equals v) = g :=
    List.filter_eq_self.mpr fun t ht ↦ (sameGroup_singleton.mp (h.together g hg s hs t ht)).equals hv
  obtain ⟨before, after, rfl⟩ := List.append_of_mem hg
  obtain ⟨-, hpairs, hbefore⟩ := List.pairwise_append.mp h.apart
  -- Rows of other groups differ from `s` in the key, and so they do not have its value.
  have hnone {others : List (List Scope)}
      (hothers : ∀ g' ∈ others, ∀ t ∈ g', ¬SameGroup dialect [d] t s) :
      others.flatten.filter (fun t ↦ (dialect.valueOf t d).equals v) = [] := by
    refine List.filter_eq_nil_iff.mpr fun t ht hequals ↦ ?_
    obtain ⟨g', hg', ht⟩ := List.mem_flatten.mp ht
    exact hothers g' hg' t ht (sameGroup_singleton.mpr (Value.alike_of_equals hequals hv))
  have hfirst := hnone fun g' hg' t ht ↦ hbefore g' hg' g List.mem_cons_self t ht s hs
  have hlast := hnone fun g' hg' t ht hsame ↦
    (List.pairwise_cons.mp hpairs).1 g' hg' s hs t ht
      (sameGroup_singleton.mpr (sameGroup_singleton.mp hsame).symm)
  have hfilter := h.perm.filter fun t ↦ (dialect.valueOf t d).equals v
  rwa [List.flatten_append, List.flatten_cons, List.filter_append, List.filter_append, hfirst, hall,
    hlast, List.append_nil, List.nil_append] at hfilter

end Query.GroupedInto

namespace Content.Aggregates

variable {key : String}

/-- The row with a given key has the aggregates of all rows with that key. -/
theorem eq_of_row (h : content.Aggregates dialect agg q) (hgroup : q.groupBy = some [d])
    (hhaving : q.having = none) (hpage : q.page = none)
    (hitem : ∀ e, q.item? key = some e → ∀ s, dialect.valueOf s e = dialect.valueOf s d)
    {r : Record} (hr : r ∈ content.derived q) (hv : (r key).equals v = true)
    {name function : String} {args : List Expr} {newName : Option String}
    (hcall : q.item? name = some (.call function args newName)) :
    r name = agg.valueOf dialect
      ((q.scopes content dialect).filter fun t ↦ (dialect.valueOf t d).equals v)
      (.call function args newName) := by
  obtain ⟨groups, hgroups, hrows⟩ := h [d] hgroup hhaving hpage
  obtain ⟨g, hg, hsummary, hcalls⟩ := exists_of_forall₂ hrows hr
  rw [hcalls name function args newName hcall]
  cases hkey : q.item? key with
  | none =>
    rw [hsummary.missing key hkey] at hv
    cases hv
  | some e =>
    obtain ⟨s, hs, hvalue⟩ := hsummary.key key e hkey d (List.mem_singleton_self d) (hitem e hkey)
    exact Aggregator.valueOf_perm (hgroups.perm_filter hg hs (hvalue ▸ hv)) function args newName

theorem eq_nil_of_no_row (h : content.Aggregates dialect agg q) (hgroup : q.groupBy = some [d])
    (hhaving : q.having = none) (hpage : q.page = none) {e : Expr} (hkey : q.item? key = some e)
    (hitem : ∀ s, dialect.valueOf s e = dialect.valueOf s d)
    (hnone : ∀ r ∈ content.derived q, (r key).equals v = false) :
    (q.scopes content dialect).filter (fun t ↦ (dialect.valueOf t d).equals v) = [] := by
  obtain ⟨groups, hgroups, hrows⟩ := h [d] hgroup hhaving hpage
  refine List.filter_eq_nil_iff.mpr fun t ht hequals ↦ ?_
  obtain ⟨g, hg, ht⟩ := List.mem_flatten.mp (hgroups.perm.mem_iff.mpr ht)
  obtain ⟨r, hr, hsummary, -⟩ := exists_of_forall₂ hrows.flip hg
  obtain ⟨s, hs, hvalue⟩ := hsummary.key key e hkey d (List.mem_singleton_self d) hitem
  have hsame := Query.sameGroup_singleton.mp (hgroups.together g hg t ht s hs)
  have hrow := hnone r hr
  rw [hvalue, hsame.equals hequals] at hrow
  cases hrow

end Content.Aggregates

end RelMapper
