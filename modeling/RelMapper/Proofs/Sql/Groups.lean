import RelMapper.Proofs.Except
import RelMapper.Proofs.Sql.Joins
import RelMapper.Loading.Collection
namespace RelMapper

def Expr.resultName : Expr → Option String
  | .column c => some (c.newName.getD c.name)
  | e => e.newName

namespace Query

def item? (q : Query) (name : String) : Option Expr :=
  q.projection.items.find? fun e ↦ e.resultName == some name

section Groups

variable (content : Content) (dialect : Dialect) (q : Query) (keys : List Expr)

/-- The rows are in one group: their keys are the same, where also null is the same as null. -/
def SameGroup (s t : Scope) : Prop :=
  ∀ e ∈ keys, (dialect.valueOf s e).Alike (dialect.valueOf t e)

structure GroupedInto (groups : List (List Scope)) : Prop where
  perm : groups.flatten.Perm (q.scopes content dialect)
  nonempty : [] ∉ groups
  together : ∀ g ∈ groups, ∀ s ∈ g, ∀ t ∈ g, SameGroup dialect keys s t
  apart : groups.Pairwise fun g h ↦ ∀ s ∈ g, ∀ t ∈ h, ¬SameGroup dialect keys s t

/-- The record is the result of a group: a key has the value that it has in the group, and there is
nothing in columns that the query does not give. What aggregates are, only the database knows. -/
structure Summarizes (g : List Scope) (r : Record) : Prop where
  key : ∀ name e, q.item? name = some e → ∀ d ∈ keys,
    (∀ s, dialect.valueOf s e = dialect.valueOf s d) → ∃ s ∈ g, r name = dialect.valueOf s d
  missing : ∀ name, q.item? name = none → r name = .null

end Groups

end Query

/-- What is read from a table that is derived by a query with groups, all of which it gives, is one
row for each group. -/
def Content.Derives (content : Content) (dialect : Dialect) (q : Query) : Prop :=
  ∀ keys, q.groupBy = some keys → q.having = none → q.page = none →
    ∃ groups, q.GroupedInto content dialect keys groups ∧
      List.Forall₂ (q.Summarizes dialect keys) groups (content.derived q)

namespace Query

variable {content : Content} {dialect : Dialect} {q : Query} {name : String} {d : Expr}

theorem sameGroup_singleton {s t : Scope} : SameGroup dialect [d] s t ↔
    (dialect.valueOf s d).Alike (dialect.valueOf t d) :=
  List.forall_mem_singleton

theorem groupedInto_of_keys {groups : List (List Scope)} {vs : List Value}
    (hperm : groups.flatten.Perm (q.scopes content dialect))
    (hgroups : List.Forall₂ (fun g v ↦ g ≠ [] ∧ ∀ s ∈ g, dialect.valueOf s d = v) groups vs)
    (hvs : vs.Pairwise fun v w ↦ ¬v.Alike w) : q.GroupedInto content dialect [d] groups where
  perm := hperm
  nonempty hnil := by
    obtain ⟨v, -, hne, -⟩ := exists_of_forall₂ hgroups.flip hnil
    exact hne rfl
  together g hg s hs t ht := by
    obtain ⟨v, -, -, hv⟩ := exists_of_forall₂ hgroups.flip hg
    rw [sameGroup_singleton, hv s hs, hv t ht]
    exact .refl v
  apart := by
    refine List.pairwise_iff_getElem.mpr fun i j hi hj hij s hs t ht hsame ↦ ?_
    have hi' : i < vs.length := hgroups.length_eq ▸ hi
    have hj' : j < vs.length := hgroups.length_eq ▸ hj
    obtain ⟨-, hfirst⟩ := hgroups.get hi hi'
    obtain ⟨-, hsecond⟩ := hgroups.get hj hj'
    rw [sameGroup_singleton, hfirst s hs, hsecond t ht] at hsame
    exact List.pairwise_iff_getElem.mp hvs i j hi' hj' hij hsame

/-- The key that rows are grouped by is different in all rows of the result. A column that is
missing there is null in all of them, and so equal in none. -/
theorem isKey_of_groupBy (hgroup : q.groupBy = some [d]) (hhaving : q.having = none)
    (hpage : q.page = none)
    (hitem : ∀ e, q.item? name = some e → ∀ s, dialect.valueOf s e = dialect.valueOf s d)
    (h : content.Derives dialect q) : IsKey name (content.derived q) := by
  obtain ⟨groups, hgroups, hrows⟩ := h [d] hgroup hhaving hpage
  refine List.pairwise_iff_getElem.mpr fun i j hi hj hij ↦ ?_
  have hi' : i < groups.length := hrows.length_eq ▸ hi
  have hj' : j < groups.length := hrows.length_eq ▸ hj
  have hfirst : q.Summarizes dialect [d] groups[i] (content.derived q)[i] := hrows.get hi' hi
  have hsecond : q.Summarizes dialect [d] groups[j] (content.derived q)[j] := hrows.get hj' hj
  cases hname : q.item? name with
  | none =>
    rw [hfirst.missing name hname]
    rfl
  | some e =>
    have hd : d ∈ [d] := List.mem_singleton_self d
    obtain ⟨s, hs, hsvalue⟩ := hfirst.key name e hname d hd (hitem e hname)
    obtain ⟨t, ht, htvalue⟩ := hsecond.key name e hname d hd (hitem e hname)
    have hapart := List.pairwise_iff_getElem.mp hgroups.apart i j hi' hj' hij s hs t ht
    rw [hsvalue, htvalue, Bool.eq_false_iff]
    refine fun hequals ↦ hapart fun e' he' ↦ ?_
    rw [List.mem_singleton.mp he']
    exact .inr (Value.equals_iff.mp hequals).2.2

end Query

namespace Relation

variable {content : Content} {dialect : Dialect} {known : Registry} {m : Model} {r : Relation}
variable {a : Aggregation} {query : Query}

theorem aggregateCall_eq_ok {newName : Option String} {call : Expr}
    (h : r.aggregateCall known a newName = .ok call) :
    ∃ args, call = .call a.function.sqlName args newName ∧
      ∀ other, r.aggregateCall known a other = .ok (.call a.function.sqlName args other) := by
  rw [aggregateCall] at h
  split at h
  · next hcolumn =>
    refine ⟨[.star], (Except.ok.inj h).symm, fun other ↦ ?_⟩
    rw [aggregateCall, hcolumn]
  · next column hcolumn =>
    obtain ⟨foreign, hforeign, h⟩ := bind_eq_ok.mp h
    obtain ⟨table, htable, h⟩ := bind_eq_ok.mp h
    refine ⟨[.column (.qualified table column)], (pure_eq_ok.mp h).symm, fun other ↦ ?_⟩
    rw [aggregateCall, hcolumn]
    exact bind_eq_ok.mpr ⟨foreign, hforeign, bind_eq_ok.mpr ⟨table, htable, rfl⟩⟩

def aggregateItems (c : CollectionTable) (function : String) (args : List Expr) : List Expr :=
  [.column (c.owner.named ownerKeyName), .call function args (some aggregateName)].filter
    fun e ↦ !e.isBlank

section Items

variable {c : CollectionTable} {function : String} {args : List Expr}

theorem eq_of_item?_ownerKeyName (hitems : query.projection.items = aggregateItems c function args)
    {e : Expr} (he : query.item? ownerKeyName = some e) :
    e = .column (c.owner.named ownerKeyName) := by
  have hname : e.resultName = some ownerKeyName := by simpa using List.find?_some he
  have hmem : e ∈ query.projection.items := List.mem_of_find?_eq_some he
  rw [hitems] at hmem
  obtain rfl | rfl := List.mem_pair.mp (List.mem_filter.mp hmem).1
  · rfl
  · have hname : some aggregateName = some ownerKeyName := hname
    exact absurd hname (by decide)

theorem item?_ownerKeyName (hitems : query.projection.items = aggregateItems c function args)
    (hc : c.ownerColumn ≠ "") :
    query.item? ownerKeyName = some (.column (c.owner.named ownerKeyName)) := by
  rw [Query.item?, hitems, aggregateItems]
  simp [Expr.isBlank, CollectionTable.owner, Column.named, Column.qualified, hc, Expr.resultName]

theorem item?_aggregateName (hitems : query.projection.items = aggregateItems c function args) :
    query.item? aggregateName = some (.call function args (some aggregateName)) := by
  rw [Query.item?, hitems, aggregateItems]
  by_cases hc : c.ownerColumn = ""
  · simp [Expr.isBlank, CollectionTable.owner, Column.named, Column.qualified, hc, Expr.resultName,
      Expr.newName]
  · simp [Expr.isBlank, CollectionTable.owner, Column.named, Column.qualified, hc, Expr.resultName,
      Expr.newName, ownerKeyName, aggregateName]

end Items

theorem aggregateQuery_eq_ok (h : r.aggregateQuery known m a = .ok query) :
    ∃ c args source, CollectionTable.ofRelation known m r = .ok c ∧
      (∀ other, r.aggregateCall known a other = .ok (.call a.function.sqlName args other)) ∧
      r.aggregateSource known c a = .ok source ∧
      query.projection.items = aggregateItems c a.function.sqlName args ∧
      query = { projection := query.projection, source, groupBy := some [.column c.owner] } := by
  obtain ⟨c, hc, h⟩ := bind_eq_ok.mp h
  obtain ⟨call, hcall, h⟩ := bind_eq_ok.mp h
  obtain ⟨projection, hprojection, h⟩ := bind_eq_ok.mp h
  obtain ⟨source, hsource, h⟩ := bind_eq_ok.mp h
  obtain rfl := pure_eq_ok.mp h
  obtain ⟨args, rfl, hcalls⟩ := aggregateCall_eq_ok hcall
  exact ⟨c, args, source, hc, hcalls, hsource, Projection.items_ofItems hprojection, rfl⟩

/-- A row of aggregates has the key of the rows that it is about and nothing but the two columns, if
the database does not read a call as a column. -/
theorem summarizes_of_key {c : CollectionTable} (hquery : r.aggregateQuery known m a = .ok query)
    (hc : CollectionTable.ofRelation known m r = .ok c) (hnamed : c.ownerColumn ≠ "")
    (hnull : ∀ s e, dialect.value s e = .null) {newName : String} {g : List Scope} {s : Scope}
    (hs : s ∈ g) {row : Record} (hkey : row ownerKeyName = dialect.valueOf s (.column c.owner))
    (hother : ∀ name, name ≠ ownerKeyName → name ≠ aggregateName → row name = .null) :
    (query.derivedAs newName).Summarizes dialect [.column c.owner] g row := by
  obtain ⟨c', args, source, hc', -, -, hitems, -⟩ := aggregateQuery_eq_ok hquery
  obtain rfl := Except.ok.inj (hc.symm.trans hc')
  have hitems : (query.derivedAs newName).projection.items = _ := hitems
  constructor
  case key =>
    intro name e he d hd hvalue
    obtain rfl := List.mem_singleton.mp hd
    have hname : e.resultName = some name := by simpa using List.find?_some he
    have hmem : e ∈ (query.derivedAs newName).projection.items := List.mem_of_find?_eq_some he
    rw [hitems] at hmem
    obtain rfl | rfl := List.mem_pair.mp (List.mem_filter.mp hmem).1
    · cases hname
      exact ⟨s, hs, hkey⟩
    · let owned : Scope := [(c.table, fun _ ↦ .bigInt 0)]
      have howner := (hnull owned _).symm.trans (hvalue owned)
      rw [CollectionTable.owner, dialect.valueOf_qualified] at howner
      simp [owned, Slots.get?] at howner
  case missing =>
    intro name hnone
    apply hother
    · rintro rfl
      cases hnone.symm.trans (item?_ownerKeyName hitems hnamed)
    · rintro rfl
      cases hnone.symm.trans (item?_aggregateName hitems)

theorem isKey_ownerKeyName (h : r.aggregateQuery known m a = .ok query) {newName : String}
    (hderives : content.Derives dialect (query.derivedAs newName)) :
    IsKey ownerKeyName (content.derived (query.derivedAs newName)) := by
  obtain ⟨c, args, source, -, -, -, hitems, hquery⟩ := aggregateQuery_eq_ok h
  have hgroup : (query.derivedAs newName).groupBy = some [.column c.owner] := by rw [hquery]; rfl
  refine Query.isKey_of_groupBy hgroup (by rw [hquery]; rfl) (by rw [hquery]; rfl)
    (fun e he s ↦ ?_) hderives
  have hitems : (query.derivedAs newName).projection.items = _ := hitems
  rw [eq_of_item?_ownerKeyName hitems he]
  rfl

end Relation

end RelMapper
