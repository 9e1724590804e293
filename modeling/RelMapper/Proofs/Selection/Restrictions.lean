import RelMapper.FetchOptions
import RelMapper.Proofs.Selection.Junctions
namespace RelMapper

def Predicate.conjunction : List Predicate → Option Predicate
  | [] => none
  | p :: ps => some (ps.foldl (combine .and) p)

namespace Filter

mutual

def relations : Filter → List String
  | field .. => []
  | manyToOne .. => []
  | manyToMany _ relation _ => [relation]
  | any filters => relationsOfAll filters

def relationsOfAll : List Filter → List String
  | [] => []
  | f :: fs => f.relations ++ relationsOfAll fs

end

mutual

def predicate (m : Model) : Filter → Except Fault Predicate
  | field scope name v negated => lowerField m scope name v negated
  | manyToOne scope relation v => lowerManyToOne m scope relation v
  | manyToMany scope relation v => lowerManyToMany m scope relation v
  | any filters => do
    discard m.tableName
    let ps ← predicates m filters
    Predicate.any ps

def predicates (m : Model) : List Filter → Except Fault (List Predicate)
  | [] => .ok []
  | f :: fs => do
    let p ← f.predicate m
    let ps ← predicates m fs
    return p :: ps

end

theorem relationsOfAll_eq (fs : List Filter) : relationsOfAll fs = fs.flatMap relations := by
  induction fs with
  | nil => rfl
  | cons f fs ih => rw [relationsOfAll, ih, List.flatMap_cons]

theorem predicates_eq (m : Model) (fs : List Filter) : predicates m fs = fs.mapM (predicate m) := by
  induction fs with
  | nil => rfl
  | cons f fs ih => rw [predicates, ih, List.mapM_cons]

end Filter

namespace Lowering

variable {α β : Type} {x : Lowering α} {r : Except Fault α} {names added : List String}

/-- Whatever is collected already, the outcome of `x` is `r`, and on success the names `added` are
collected besides. -/
def Computes (x : Lowering α) (r : Except Fault α) (added : List String) : Prop :=
  ∀ names, (x.run.run names).1 = r ∧
    ∀ a, r = .ok a → (x.run.run names).2 = added.foldl Filter.noted names

theorem run_bind (x : Lowering α) (f : α → Lowering β) (names : List String) :
    (x >>= f).run.run names =
      (ExceptT.bindCont f (x.run.run names).1).run (x.run.run names).2 := rfl

theorem computes_lift (r : Except Fault α) : Computes (Filter.liftExcept r) r [] :=
  fun _ ↦ ⟨rfl, fun _ _ ↦ rfl⟩

theorem computes_discard (r : Except Fault α) :
    Computes (discard (Filter.liftExcept r)) (discard r) [] := by
  cases r <;> exact fun _ ↦ ⟨rfl, fun _ _ ↦ rfl⟩

theorem computes_note (name : String) : Computes (Filter.note name) (.ok ()) [name] :=
  fun _ ↦ ⟨rfl, fun _ _ ↦ rfl⟩

theorem computes_pure (a : α) : Computes (pure a) (.ok a) [] :=
  fun _ ↦ ⟨rfl, fun _ _ ↦ rfl⟩

theorem Computes.bind {f : α → Lowering β} {g : α → Except Fault β} {more : List String}
    (hx : Computes x r added) (hf : ∀ a, Computes (f a) (g a) more) :
    Computes (x >>= f) (r >>= g) (added ++ more) := by
  intro names
  obtain ⟨hresult, hnames⟩ := hx names
  rw [run_bind, hresult]
  cases r with
  | error e => exact ⟨rfl, nofun⟩
  | ok a =>
    rw [hnames a rfl, List.foldl_append]
    exact hf a _

end Lowering

namespace Filter

open Lowering

variable (m : Model)

mutual

theorem computes_lower (f : Filter) : Computes (f.lower m) (f.predicate m) f.relations := by
  cases f with
  | field scope name v negated => exact computes_lift _
  | manyToOne scope relation v => exact computes_lift _
  | manyToMany scope relation v =>
    have hall : Computes ((manyToMany scope relation v).lower m)
        (lowerManyToMany m scope relation v >>= pure) [relation] :=
      (computes_lift _).bind fun p ↦ (computes_note relation).bind fun _ ↦ computes_pure p
    rwa [bind_pure] at hall
  | any filters =>
    have hall := (computes_discard m.tableName).bind fun _ ↦
      (computes_lowerAll filters).bind fun ps ↦ computes_lift (Predicate.any ps)
    rwa [List.nil_append, List.append_nil] at hall

theorem computes_lowerAll (fs : List Filter) :
    Computes (lowerAll m fs) (predicates m fs) (relationsOfAll fs) := by
  cases fs with
  | nil => exact computes_pure []
  | cons f fs =>
    have hall := (computes_lower f).bind fun p ↦
      (computes_lowerAll fs).bind fun ps ↦ computes_pure (p :: ps)
    rwa [List.append_nil] at hall

end

end Filter

/-- Whether rows are restricted by a relation over the junction table, or by a column of that
table. -/
def Model.Joins (m : Model) (condition : Option Predicate) (filters : Option (List Filter))
    (junction : String) : Prop :=
  ∃ r ∈ m.relations, r.junction = some junction ∧
    ((∃ p, condition = some p ∧ ∃ c ∈ p.columns, c.table = some junction) ∨
      ∃ f ∈ filters.getD [], r.name ∈ f.relations)

namespace Selection

/-- What rows have to meet, in the order of the query's text. -/
def conditions (s : Selection) : Except Fault (List Predicate) := do
  let byId ← s.id.toList.mapM s.model.idIs
  let byFilters ← (s.filters.getD []).mapM (Filter.predicate s.model)
  let byEquality ← s.equals.mapM (equality s.model)
  let bySearch ← s.search.toList.mapM fun (text, columns) ↦ searchCondition s.model text columns
  return byId ++ s.condition.toList ++ byFilters ++ byEquality ++ bySearch

def joinedRelations (s : Selection) : List String :=
  ((s.filters.getD []).flatMap Filter.relations).foldl Filter.noted
    (s.condition.elim [] (touched s.model))

def source (s : Selection) : Except Fault Source := do
  let table ← s.model.tableName
  s.joinedRelations.foldlM (joinJunction s.model) (.ofTable table)

theorem conjunction_all (source : Source) (ps : List Predicate) :
    (if ps.isEmpty then return (source, none)
      else return (source, some (← Predicate.all ps)) : Except Fault (Source × Option Predicate)) =
      .ok (source, Predicate.conjunction ps) := by
  cases ps <;> rfl

theorem sourceAndFilter_eq (s : Selection) : s.sourceAndFilter = do
    let _ ← s.model.tableName
    if 1 < s.modes then throw (.ofMisuse .mixedFilters)
    let ps ← s.conditions
    let source ← s.source
    return (source, Predicate.conjunction ps) := by
  have hlower := Filter.computes_lowerAll s.model (s.filters.getD [])
    (s.condition.elim [] (touched s.model))
  rw [Filter.predicates_eq, Filter.relationsOfAll_eq] at hlower
  obtain ⟨hfilters, hrelations⟩ := hlower
  rw [sourceAndFilter, conditions, source, joinedRelations]
  dsimp only
  generalize hrun : ((Filter.lowerAll s.model (s.filters.getD [])).run.run
    (s.condition.elim [] (touched s.model))) = run at hfilters hrelations ⊢
  obtain ⟨lowered, relations⟩ := run
  dsimp only at hfilters hrelations ⊢
  subst hfilters
  cases s.model.tableName with
  | error e => rfl
  | ok table =>
  change (if 1 < s.modes then _ else _) = if 1 < s.modes then _ else _
  by_cases hmodes : 1 < s.modes
  · rw [if_pos hmodes, if_pos hmodes]
    rfl
  rw [if_neg hmodes, if_neg hmodes]
  -- What fails first fails on both sides, and the relations are asked for only after the filters.
  cases s.id.toList.mapM s.model.idIs with
  | error e => rfl
  | ok byId =>
  cases hall : (s.filters.getD []).mapM (Filter.predicate s.model) with
  | error e => rfl
  | ok byFilters =>
  rw [hrelations byFilters hall]
  cases s.equals.mapM (equality s.model) with
  | error e => rfl
  | ok byEquality =>
  cases s.search.toList.mapM fun (text, columns) ↦ searchCondition s.model text columns with
  | error e => rfl
  | ok bySearch =>
  exact bind_congr fun source ↦ conjunction_all source _

theorem sourceAndFilter_eq_ok {s : Selection} {r : Source × Option Predicate} :
    s.sourceAndFilter = .ok r ↔ s.modes ≤ 1 ∧ ∃ source ps,
      s.source = .ok source ∧ s.conditions = .ok ps ∧ r = (source, Predicate.conjunction ps) := by
  rw [sourceAndFilter_eq]
  constructor
  · intro h
    obtain ⟨table, -, h⟩ := bind_eq_ok.mp h
    split at h
    · cases h
    · next hmodes =>
      obtain ⟨ps, hps, h⟩ := bind_eq_ok.mp h
      obtain ⟨source, hsource, h⟩ := bind_eq_ok.mp h
      exact ⟨Nat.le_of_not_lt hmodes, source, ps, hsource, hps, (pure_eq_ok.mp h).symm⟩
  · rintro ⟨hmodes, source, ps, hsource, hps, rfl⟩
    obtain ⟨table, htable, -⟩ := bind_eq_ok.mp hsource
    refine bind_eq_ok.mpr ⟨table, htable, ?_⟩
    rw [if_neg (Nat.not_lt_of_le hmodes)]
    exact bind_eq_ok.mpr ⟨ps, hps, bind_eq_ok.mpr ⟨source, hsource, rfl⟩⟩

theorem query_eq_ok {s : Selection} {q : Query} (h : s.query = .ok q) :
    ∃ table projection source filter, s.model.tableName = .ok table ∧
      Projection.ofItems (s.projection.getD
        (s.model.fields.map fun f ↦ .column (.qualified table f.name))) = .ok projection ∧
      s.sourceAndFilter = .ok (source, filter) ∧
      q = { projection, source, filter, page := s.page,
            orderBy := s.orderBy.map fun (c, ascending) ↦
              ⟨.column (c.orTable table), ascending⟩ } := by
  obtain ⟨table, htable, h⟩ := bind_eq_ok.mp h
  obtain ⟨projection, hprojection, h⟩ := bind_eq_ok.mp h
  obtain ⟨⟨source, filter⟩, hread, h⟩ := bind_eq_ok.mp h
  exact ⟨table, projection, source, filter, htable, hprojection, hread, (pure_eq_ok.mp h).symm⟩

theorem countQuery_eq_ok {s : Selection} {q : Query} (h : s.countQuery = .ok q) :
    ∃ table id projection source filter, s.model.tableName = .ok table ∧
      s.model.idName = .ok id ∧
      Projection.ofItems [.call "COUNT" [.column (.qualified table id)] none] = .ok projection ∧
      s.sourceAndFilter = .ok (source, filter) ∧ q = { projection, source, filter } := by
  obtain ⟨table, htable, h⟩ := bind_eq_ok.mp h
  obtain ⟨id, hid, h⟩ := bind_eq_ok.mp h
  obtain ⟨projection, hprojection, h⟩ := bind_eq_ok.mp h
  obtain ⟨⟨source, filter⟩, hread, h⟩ := bind_eq_ok.mp h
  exact ⟨table, id, projection, source, filter, htable, hid, hprojection, hread,
    (pure_eq_ok.mp h).symm⟩

theorem sourceAndFilter_of_query {s : Selection} {q : Query} (h : s.query = .ok q) :
    s.sourceAndFilter = .ok (q.source, q.filter) ∧ q.groupBy = none ∧ q.having = none := by
  obtain ⟨table, projection, source, filter, -, -, hread, rfl⟩ := query_eq_ok h
  exact ⟨hread, rfl, rfl⟩

theorem source_of_query {s : Selection} {q : Query} (h : s.query = .ok q) :
    s.source = .ok q.source := by
  obtain ⟨-, source, ps, hsource, -, hr⟩ :=
    sourceAndFilter_eq_ok.mp (sourceAndFilter_of_query h).1
  exact (Prod.mk.inj hr).1 ▸ hsource

def junctions (s : Selection) : List String :=
  (s.joinedRelations.filterMap s.model.junctionOf).foldl Filter.noted []

theorem nodup_junctions (s : Selection) : s.junctions.Nodup :=
  Filter.nodup_foldl_noted _ .nil

theorem mem_joinedRelations {s : Selection} {name : String} : name ∈ s.joinedRelations ↔
    (∃ p, s.condition = some p ∧ name ∈ touched s.model p) ∨
      ∃ f ∈ s.filters.getD [], name ∈ f.relations := by
  rw [joinedRelations, Filter.mem_foldl_noted, List.mem_flatMap]
  refine or_congr_left ?_
  cases s.condition <;> simp

theorem mem_junctions {s : Selection} (hs : (s.model.relations.map Relation.name).Nodup)
    {junction : String} :
    junction ∈ s.junctions ↔ s.model.Joins s.condition s.filters junction := by
  rw [junctions, Filter.mem_foldl_noted, List.mem_filterMap]
  simp only [List.not_mem_nil, false_or, mem_joinedRelations, Model.Joins]
  constructor
  · rintro ⟨name, hname, hjunction⟩
    obtain ⟨r, hr, rfl, hover⟩ := Model.exists_of_junctionOf hjunction
    refine ⟨r, hr, hover, hname.imp_left ?_⟩
    rintro ⟨p, hp, htouched⟩
    obtain ⟨q, hq, hname, other, hother, hmentions⟩ := mem_touched.mp htouched
    have hsame : some other = some junction := by
      rw [← hother, ← Model.junctionOf_of_nodup hs hq, hname, hjunction]
    exact ⟨p, hp, Option.some.inj hsame ▸ hmentions⟩
  · rintro ⟨r, hr, hover, hmentions⟩
    refine ⟨r.name, hmentions.imp_left ?_, (Model.junctionOf_of_nodup hs hr).trans hover⟩
    rintro ⟨p, hp, hmentions⟩
    exact ⟨p, hp, mem_touched.mpr ⟨r, hr, rfl, junction, hover, hmentions⟩⟩

theorem mem_junctions_eq {s : Selection} (hs : (s.model.relations.map Relation.name).Nodup) :
    (· ∈ s.junctions) = s.model.Joins s.condition s.filters :=
  funext fun _ ↦ propext (mem_junctions hs)

end Selection

namespace Selection

/-- A query reads the model's table, and joins each junction table once. -/
theorem source_eq_ok {s : Selection} {source : Source} (h : s.source = .ok source) :
    ∃ table id, s.model.tableName = .ok table ∧
      (s.joinedRelations ≠ [] → s.model.idName = .ok id) ∧
      source = ⟨.table { name := table }, s.junctions.map fun j ↦ .ofJunction j id table id⟩ := by
  obtain ⟨table, htable, h⟩ := bind_eq_ok.mp h
  by_cases hnone : s.joinedRelations = []
  · rw [hnone] at h
    obtain rfl := pure_eq_ok.mp h
    refine ⟨table, "", htable, fun hsome ↦ absurd hnone hsome, ?_⟩
    rw [junctions, hnone]
    rfl
  · obtain ⟨id, hid⟩ := idName_of_joined h hnone
    exact ⟨table, id, htable, fun _ ↦ hid, joined_eq htable hid h⟩

end Selection

namespace FetchOptions

variable {m : Model} {projection : Option (List Expr)}

theorem foldl_equalling (es : List (String × Value)) (s : Selection) :
    es.foldl (fun s (column, v) ↦ s.equalling column v) s =
      { s with equals := s.equals ++ es } := by
  induction es generalizing s with
  | nil => rw [List.foldl_nil, List.append_nil]
  | cons e es ih =>
    rw [List.foldl_cons, ih]
    simp only [Selection.equalling, List.append_assoc, List.singleton_append]

theorem restrict_eq (o : FetchOptions) :
    o.restrict { model := m, projection } = { model := m, projection,
                                              condition := o.condition, filters := o.filters,
                                              equals := o.equals,
                                              search := o.search.map (·, o.searchColumns) } := by
  rw [restrict]
  cases o.condition <;> cases o.filters <;> cases o.search <;> rw [foldl_equalling] <;> rfl

theorem apply_eq (o : FetchOptions) (c : Config) (id : Option Value) : ∃ orderBy page,
    id.elim (o.apply c { model := m, projection }) (o.apply c { model := m, projection }).byId =
      { model := m, projection, id, condition := o.condition, filters := o.filters,
        equals := o.equals, search := o.search.map (·, o.searchColumns), orderBy, page } := by
  rw [apply, restrict_eq]
  cases o.orderBy <;> cases o.page c.defaultPageSize <;> cases id <;> exact ⟨_, _, rfl⟩

end FetchOptions

end RelMapper
