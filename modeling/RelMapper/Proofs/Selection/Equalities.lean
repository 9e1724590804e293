import Mathlib.Data.List.TakeWhile
import RelMapper.Proofs.Loading.Collections
import RelMapper.Proofs.Selection.Qualifiers
import RelMapper.Proofs.Sql.Wording
namespace RelMapper

theorem Column.table_ofText {text : String} (h : '.' ∈ text.toList) :
    ∃ table, (Column.ofText text).table = some table := by
  rw [Column.ofText, Text.splitFirst]
  cases hrest : text.toList.dropWhile (· != '.') with
  | nil => exact absurd (List.dropWhile_eq_nil_iff.mp hrest '.' h) (by decide)
  | cons c rest => exact ⟨_, rfl⟩

namespace Predicate

def ofPair (e : String × Value) : Predicate :=
  .columnIs (.ofText e.1) e.2

theorem conjunction_congr {ps qs : List Predicate}
    (h : ps.flatMap (operands .and) = qs.flatMap (operands .and)) :
    (conjunction ps).map fragment = (conjunction qs).map fragment := by
  have hnone {ps : List Predicate} (h : ps.flatMap (operands .and) = []) : ps = [] := by
    cases ps with
    | nil => rfl
    | cons p ps =>
      rw [List.flatMap_cons] at h
      exact absurd (List.append_eq_nil_iff.mp h).1 (operands_ne_nil .and p)
  cases ps with
  | nil => rw [hnone h.symm]
  | cons p ps =>
    cases qs with
    | nil => cases hnone h
    | cons q qs =>
      rw [← operands_foldl, ← operands_foldl] at h
      exact congrArg some (fragment_congr h)

end Predicate

namespace Selection

variable {s : Selection} {es : List (String × Value)}

def equallingAll (s : Selection) (es : List (String × Value)) : Selection :=
  es.foldl (fun s (column, v) ↦ s.equalling column v) s

def satisfyingAll (s : Selection) (es : List (String × Value)) : Selection :=
  (es.map .ofPair).foldl satisfying s

theorem equallingAll_eq (s : Selection) (es : List (String × Value)) :
    s.equallingAll es = { s with equals := s.equals ++ es } :=
  FetchOptions.foldl_equalling es s

theorem satisfyingAll_eq (hs : s.condition = none) :
    s.satisfyingAll es = { s with condition := Predicate.conjunction (es.map .ofPair) } := by
  have hmore (ps : List Predicate) (s : Selection) (p : Predicate) (hp : s.condition = some p) :
      ps.foldl satisfying s = { s with condition := some (ps.foldl (.combine .and) p) } := by
    induction ps generalizing s p with
    | nil => rw [List.foldl_nil, List.foldl_nil, ← hp]
    | cons q ps ih =>
      rw [List.foldl_cons, ih (s.satisfying q) (p.and q)]
      · rfl
      · rw [satisfying, hp]
        rfl
  rw [satisfyingAll]
  cases es with
  | nil => exact congrArg (fun condition ↦ { s with condition }) hs
  | cons e es =>
    rw [List.map_cons, List.foldl_cons, hmore _ _ (.ofPair e) (by rw [satisfying, hs]; rfl)]
    rfl

theorem modes_eq_zero_iff :
    s.modes = 0 ↔ s.condition = none ∧ s.filters = none ∧ s.equals = [] := by
  rw [modes]
  cases s.condition <;> cases s.filters <;> cases s.equals <;> simp

theorem equality_of_qualified {m : Model} {table : String} {e : String × Value}
    (htable : m.tableName = .ok table) (he : '.' ∈ e.1.toList) :
    equality m e = .ok (.ofPair e) := by
  obtain ⟨own, hown⟩ := Column.table_ofText he
  rw [equality, htable, Predicate.ofPair]
  generalize Column.ofText e.1 = c at hown
  obtain ⟨name, _, newName⟩ := c
  cases hown
  rfl

def heading (s : Selection) : Except Fault Heading := do
  let table ← s.model.tableName
  let items := s.projection.getD (s.model.fields.map fun f ↦ .column (.qualified table f.name))
  let projection ← Projection.ofItems items
  let orderBy := s.orderBy.map fun (c, ascending) ↦ ⟨.column (c.orTable table), ascending⟩
  return { projection, orderBy, page := s.page }

def countHeading (s : Selection) : Except Fault Heading := do
  let table ← s.model.tableName
  let id ← s.model.idName
  let projection ← Projection.ofItems [.call "COUNT" [.column (.qualified table id)] none]
  return { projection }

def completed (heading : Except Fault Heading) (read : Except Fault (Source × Option Predicate)) :
    Except Fault Query := do
  let h ← heading
  let r ← read
  return h.query r

theorem query_eq (s : Selection) : s.query = completed s.heading s.sourceAndFilter := by
  simp only [query, completed, heading, bind_assoc, pure_bind]
  rfl

theorem countQuery_eq (s : Selection) :
    s.countQuery = completed s.countHeading s.sourceAndFilter := by
  simp only [countQuery, completed, countHeading, bind_assoc, pure_bind]
  rfl

/-- What is read of a source of the model's table and restricted by the id, then by `ps` and then by
the search. -/
def restrictedTo (s : Selection) (ps : List Predicate) (source : String → Except Fault Source) :
    Except Fault (Source × Option Predicate) := do
  let table ← s.model.tableName
  let byId ← s.id.toList.mapM s.model.idIs
  let bySearch ← s.search.toList.mapM fun (text, columns) ↦ searchCondition s.model text columns
  let source ← source table
  return (source, Predicate.conjunction (byId ++ ps ++ bySearch))

/-- Where one way to restrict rows is in use and gives `ps`, only these and what they ask for to be
joined tell it from the others. -/
theorem sourceAndFilter_of_mode (ps : List Predicate) (hmodes : s.modes ≤ 1)
    (hps : ∀ table, s.model.tableName = .ok table → ∃ byFilters byEquality,
      (s.filters.getD []).mapM (Filter.predicate s.model) = .ok byFilters ∧
      s.equals.mapM (equality s.model) = .ok byEquality ∧
      s.condition.toList ++ byFilters ++ byEquality = ps) :
    s.sourceAndFilter = s.restrictedTo ps fun table ↦
      s.joinedRelations.foldlM (joinJunction s.model) (.ofTable table) := by
  rw [sourceAndFilter_eq, conditions, source, restrictedTo, if_neg (Nat.not_lt_of_le hmodes)]
  cases htable : s.model.tableName with
  | error e => rfl
  | ok table =>
    obtain ⟨byFilters, byEquality, hfilters, hequality, rfl⟩ := hps table htable
    rw [hfilters, hequality]
    cases s.id.toList.mapM s.model.idIs with
    | error e => rfl
    | ok byId =>
      cases s.search.toList.mapM fun (text, columns) ↦ searchCondition s.model text columns with
      | error e => rfl
      | ok bySearch =>
        simp only [← List.append_assoc]
        rfl

theorem sourceAndFilter_equallingAll (hs : s.modes = 0) (hes : ∀ e ∈ es, '.' ∈ e.1.toList) :
    (s.equallingAll es).sourceAndFilter =
      s.restrictedTo (es.map .ofPair) fun table ↦ .ok (.ofTable table) := by
  obtain ⟨hcondition, hfilters, hequals⟩ := modes_eq_zero_iff.mp hs
  have hmodes : (s.equallingAll es).modes ≤ 1 := by
    rw [equallingAll_eq, modes, hcondition, hfilters]
    exact (Nat.zero_add _).trans_le (Bool.toNat_le _)
  rw [sourceAndFilter_of_mode (es.map .ofPair) hmodes fun table htable ↦ ?_, joinedRelations,
    equallingAll_eq, hcondition, hfilters]
  · rfl
  · rw [equallingAll_eq] at htable ⊢
    refine ⟨[], es.map .ofPair, by rw [hfilters]; rfl, ?_, by rw [hcondition]; rfl⟩
    rw [hequals, List.nil_append, mapM_eq_ok, List.forall₂_map_right_iff]
    exact List.forall₂_same.mpr fun e he ↦ equality_of_qualified htable (hes e he)

theorem sourceAndFilter_of_predicate {p : Predicate} (hcondition : s.condition = some p)
    (hfilters : s.filters = none) (hequals : s.equals = []) :
    s.sourceAndFilter = s.restrictedTo [p] fun table ↦
      (touched s.model p).foldlM (joinJunction s.model) (.ofTable table) := by
  have hmodes : s.modes ≤ 1 := by
    rw [modes, hcondition, hfilters, hequals]
    exact Nat.le_refl 1
  rw [sourceAndFilter_of_mode [p] hmodes fun table htable ↦ ?_, joinedRelations, hcondition,
    hfilters]
  · rfl
  · exact ⟨[], [], by rw [hfilters]; rfl, by rw [hequals]; rfl, by rw [hcondition]; rfl⟩

theorem sourceAndFilter_satisfyingAll (hs : s.modes = 0) {p : Predicate}
    (hp : Predicate.conjunction (es.map .ofPair) = some p) :
    (s.satisfyingAll es).sourceAndFilter = s.restrictedTo [p] fun table ↦
      (touched s.model p).foldlM (joinJunction s.model) (.ofTable table) := by
  obtain ⟨hcondition, hfilters, hequals⟩ := modes_eq_zero_iff.mp hs
  rw [satisfyingAll_eq hcondition]
  exact sourceAndFilter_of_predicate hp hfilters hequals

theorem sourceAndFilter_filtered_link (hs : s.modes = 0) {r : Relation}
    {junction foreignKey : String} {a : Option Aggregation} {v : Value}
    (hr : s.model.relation r.name = .ok r) (hkind : r.kind = .manyToMany junction foreignKey a) :
    (s.filtered [.manyToMany s.model.name r.name v]).sourceAndFilter =
      s.restrictedTo [.columnIs (.qualified junction foreignKey) v] fun table ↦
        [r.name].foldlM (joinJunction s.model) (.ofTable table) := by
  obtain ⟨hcondition, hfilters, hequals⟩ := modes_eq_zero_iff.mp hs
  have hfiltered : s.filtered [.manyToMany s.model.name r.name v] =
      { s with filters := some [.manyToMany s.model.name r.name v] } := by
    rw [filtered, hfilters]
    rfl
  have hmodes : (s.filtered [.manyToMany s.model.name r.name v]).modes ≤ 1 := by
    rw [hfiltered, modes, hcondition, hequals]
    exact Nat.le_refl 1
  rw [sourceAndFilter_of_mode [.columnIs (.qualified junction foreignKey) v] hmodes
    fun table htable ↦ ?_, joinedRelations, hfiltered, hcondition]
  · rfl
  · rw [hfiltered] at htable ⊢
    refine ⟨[.columnIs (.qualified junction foreignKey) v], [], ?_, by rw [hequals]; rfl,
      by rw [hcondition]; rfl⟩
    have hlowered : Filter.lowerManyToMany s.model s.model.name r.name v =
        .ok (.columnIs (.qualified junction foreignKey) v) := by
      rw [Filter.lowerManyToMany, htable, Filter.checkScope, if_pos rfl, hr]
      obtain ⟨name, foreignModel, kind, lazy⟩ := r
      obtain rfl := hkind
      rfl
    exact mapM_eq_ok.mpr (.cons hlowered .nil)

def joinTouched (m : Model) (p : Predicate) (r : Source × Option Predicate) :
    Except Fault (Source × Option Predicate) := do
  let source ← (touched m p).foldlM (joinJunction m) r.1
  return (source, r.2)

def wording (r : Source × Option Predicate) : Source × Option Fragment :=
  (r.1, r.2.map Predicate.fragment)

theorem agree_satisfyingAll (hs : s.modes = 0) (hes : ∀ e ∈ es, '.' ∈ e.1.toList)
    {p : Predicate} (hp : Predicate.conjunction (es.map .ofPair) = some p) :
    AgreeOn wording (s.satisfyingAll es).sourceAndFilter
      ((s.equallingAll es).sourceAndFilter >>= joinTouched s.model p) := by
  rw [sourceAndFilter_satisfyingAll hs hp, sourceAndFilter_equallingAll hs hes, restrictedTo,
    restrictedTo]
  simp only [bind_assoc, pure_bind]
  refine .bind_self _ fun table ↦ .bind_self _ fun byId ↦ .bind_self _ fun bySearch ↦
    .bind_self _ fun source ↦ .pure ?_
  have hoperands : [p].flatMap (Predicate.operands .and) =
      (es.map Predicate.ofPair).flatMap (Predicate.operands .and) := by
    cases es with
    | nil => cases hp
    | cons e es =>
      obtain rfl := Option.some.inj hp
      rw [List.flatMap_singleton, Predicate.operands_foldl, List.map_cons]
  have hconditions : (byId ++ [p] ++ bySearch).flatMap (Predicate.operands .and) =
      (byId ++ es.map Predicate.ofPair ++ bySearch).flatMap (Predicate.operands .and) := by
    simp only [List.flatMap_append, hoperands]
  exact congrArg (Prod.mk source) (Predicate.conjunction_congr hconditions)

/-- Some pair is about a column of the junction table of a relation of the model. -/
def NamesJunction (m : Model) (es : List (String × Value)) : Prop :=
  ∃ e ∈ es, ∃ r ∈ m.relations, ∃ junction, r.junction = some junction ∧
    (Column.ofText e.1).table = some junction

theorem touched_eq_nil_iff {m : Model} {p : Predicate}
    (hp : Predicate.conjunction (es.map .ofPair) = some p) :
    touched m p = [] ↔ ¬ NamesJunction m es := by
  rw [List.eq_nil_iff_forall_not_mem]
  simp only [mem_touched]
  have hnames (junction : String) : p.Names junction ↔
      ∃ e ∈ es, (Column.ofText e.1).table = some junction := by
    simp only [Predicate.names_conjunction hp, List.mem_map, exists_exists_and_eq_and]
    exact exists_congr fun e ↦ and_congr_right fun _ ↦ Predicate.names_compare_column
  constructor
  · rintro h ⟨e, he, r, hr, junction, hjunction, htable⟩
    exact h r.name ⟨r, hr, rfl, junction, hjunction, (hnames junction).mpr ⟨e, he, htable⟩⟩
  · rintro h name ⟨r, hr, -, junction, hjunction, hp⟩
    obtain ⟨e, he, htable⟩ := (hnames junction).mp hp
    exact h ⟨e, he, r, hr, junction, hjunction, htable⟩

theorem result_ne_of_touched {m : Model} (hnames : (m.relations.map Relation.name).Nodup)
    {p : Predicate} (hp : touched m p ≠ []) {table : String} (htable : m.tableName = .ok table)
    {filter : Option Predicate} {r : Source × Option Predicate}
    (hr : joinTouched m p (.ofTable table, filter) = .ok r) (h : Heading) :
    (h.query (.ofTable table, filter)).result ≠ (h.query r).result := by
  obtain ⟨source, hsource, hr⟩ := bind_eq_ok.mp hr
  obtain rfl := pure_eq_ok.mp hr
  obtain ⟨id, hid⟩ := idName_of_joined hsource hp
  rw [joined_eq htable hid hsource]
  refine h.result_ne_of_joined ?_
  obtain ⟨name, hname⟩ := List.exists_mem_of_ne_nil _ hp
  obtain ⟨r, hr, rfl, junction, hjunction, -⟩ := mem_touched.mp hname
  have hjoined : junction ∈ ((touched m p).filterMap m.junctionOf).foldl Filter.noted [] :=
    Filter.mem_foldl_noted.mpr (.inr (List.mem_filterMap.mpr
      ⟨r.name, hname, (Model.junctionOf_of_nodup hnames hr).trans hjunction⟩))
  exact fun hnil ↦ List.ne_nil_of_mem hjoined (List.map_eq_nil_iff.mp hnil)

theorem completed_agree (heading : Except Fault Heading)
    {x y : Except Fault (Source × Option Predicate)} (h : AgreeOn wording x y) :
    AgreeOn Query.result (completed heading x) (completed heading y) := by
  refine .bind_self _ fun heading ↦ h.bind fun (source, filter) (source', filter') hsame ↦ .pure ?_
  obtain ⟨rfl, hfilter⟩ := Prod.ext_iff.mp hsame
  exact heading.result_congr hfilter

/-- Two ways to restrict rows of which the second joins junction tables besides build the same text,
if there is anything to build, exactly if there is nothing to join. -/
theorem agree_completed_iff {m : Model} (hnames : (m.relations.map Relation.name).Nodup)
    {p : Predicate} {x y : Except Fault (Source × Option Predicate)}
    (hx : ∀ r, x = .ok r → ∃ table, m.tableName = .ok table ∧ r.1 = .ofTable table)
    (hy : AgreeOn wording y (x >>= joinTouched m p)) (heading : Except Fault Heading) :
    AgreeOn Query.result (completed heading x) (completed heading y) ↔
      (∃ e, completed heading x = .error e) ∨ touched m p = [] := by
  rw [AgreeOn, completed_agree heading hy]
  cases heading with
  | error e => exact ⟨fun _ ↦ .inl ⟨e, rfl⟩, fun _ ↦ rfl⟩
  | ok h =>
  cases x with
  | error e => exact ⟨fun _ ↦ .inl ⟨e, rfl⟩, fun _ ↦ rfl⟩
  | ok r =>
  obtain ⟨source, filter⟩ := r
  obtain ⟨table, htable, rfl⟩ := hx _ rfl
  constructor
  · intro hsame
    by_contra hnone
    have htouched : touched m p ≠ [] := fun h ↦ hnone (.inr h)
    obtain ⟨q, hq, hresult⟩ := map_eq_ok.mp hsame.symm
    obtain ⟨h', hh, hq⟩ := bind_eq_ok.mp hq
    obtain rfl := Except.ok.inj hh
    obtain ⟨r, hr, hq⟩ := bind_eq_ok.mp hq
    obtain rfl := pure_eq_ok.mp hq
    exact result_ne_of_touched hnames htouched htable hr h hresult.symm
  · rintro (⟨e, he⟩ | htouched)
    · cases he
    · have hjoin : joinTouched m p (.ofTable table, filter) = .ok (.ofTable table, filter) := by
        rw [joinTouched, htouched]
        rfl
      change _ = Query.result <$> completed (.ok h) (joinTouched m p (.ofTable table, filter))
      rw [hjoin]

section Link

variable {m : Model} {r : Relation} {junction foreignKey table : String} {a : Option Aggregation}
  {v : Value}

theorem joined_touched (hnames : (m.relations.map Relation.name).Nodup) (hr : r ∈ m.relations)
    (hjunction : r.junction = some junction) (htable : m.tableName = .ok table) :
    (touched m (.columnIs (.qualified junction foreignKey) v)).foldlM (joinJunction m)
      (.ofTable table) = [r.name].foldlM (joinJunction m) (.ofTable table) := by
  have htouched : r.name ∈ touched m (.columnIs (.qualified junction foreignKey) v) :=
    mem_touched_columnIs.mpr ⟨r, hr, rfl, hjunction⟩
  cases hid : m.idName with
  | error e =>
    rw [foldlM_joinJunction_of_error htable hid (List.ne_nil_of_mem htouched),
      foldlM_joinJunction_of_error htable hid (List.cons_ne_nil _ _)]
  | ok id =>
    have hrelation {q : Relation} (hq : q ∈ m.relations) : m.relation q.name = .ok q :=
      Model.relation_eq_ok.mpr (Model.relation?_of_nodup hnames hq)
    have hall (name) (hname : name ∈ touched m (.columnIs (.qualified junction foreignKey) v)) :
        ∃ q, m.relation name = .ok q := by
      obtain ⟨q, hq, rfl, -⟩ := mem_touched_columnIs.mp hname
      exact ⟨q, hrelation hq⟩
    obtain ⟨source, hsource⟩ := exists_joined htable hid hall (.ofTable table)
    have hone : ∀ name ∈ [r.name], ∃ q, m.relation name = .ok q :=
      List.forall_mem_singleton.mpr ⟨r, hrelation hr⟩
    obtain ⟨source', hsource'⟩ := exists_joined htable hid hone (.ofTable table)
    have hof : m.junctionOf r.name = some junction :=
      (Model.junctionOf_of_nodup hnames hr).trans hjunction
    have hreaches : m.reaches junction = true :=
      List.any_eq_true.mpr ⟨r, hr, beq_iff_eq.mpr hof⟩
    rw [hsource, hsource', source_touched htable hid hnames hsource, if_pos hreaches,
      joined_eq htable hid hsource', List.filterMap_cons, hof]
    rfl

theorem sourceAndFilter_satisfying_link (hs : s.modes = 0)
    (hnames : (s.model.relations.map Relation.name).Nodup) (hr : r ∈ s.model.relations)
    (hkind : r.kind = .manyToMany junction foreignKey a) :
    (s.satisfying (.columnIs (.qualified junction foreignKey) v)).sourceAndFilter =
      (s.filtered [.manyToMany s.model.name r.name v]).sourceAndFilter := by
  obtain ⟨hcondition, hfilters, hequals⟩ := modes_eq_zero_iff.mp hs
  have hjunction : r.junction = some junction := by rw [Relation.junction, hkind]
  have hrelation : s.model.relation r.name = .ok r :=
    Model.relation_eq_ok.mpr (Model.relation?_of_nodup hnames hr)
  have hsatisfying : (s.satisfying (.columnIs (.qualified junction foreignKey) v)).condition =
      some (.columnIs (.qualified junction foreignKey) v) := by
    rw [satisfying, hcondition]
    rfl
  rw [sourceAndFilter_of_predicate hsatisfying hfilters hequals,
    sourceAndFilter_filtered_link hs hrelation hkind, restrictedTo, restrictedTo]
  change (s.model.tableName >>= _) = (s.model.tableName >>= _)
  cases htable : s.model.tableName with
  | error e => rfl
  | ok table =>
    change (s.id.toList.mapM s.model.idIs >>= _) = (s.id.toList.mapM s.model.idIs >>= _)
    refine bind_congr fun byId ↦ bind_congr fun bySearch ↦ ?_
    exact congrArg (bind · _) (joined_touched hnames hr hjunction htable)

end Link

/-- Where nothing else restricts the rows, pairs of a qualified column and a value that are given by
keyword and as predicates either both fail or build the same text with the same values, if and only
if no pair is about a junction table of the model or the equalities by keyword fail anyway: a
predicate on a junction table joins it, as a filter on a relation does, and an equality by keyword
does not. -/
theorem equalling_agrees_iff (hs : s.modes = 0)
    (hnames : (s.model.relations.map Relation.name).Nodup) (hes : es ≠ [])
    (hqualified : ∀ e ∈ es, '.' ∈ e.1.toList) :
    (AgreeOn Query.result (s.equallingAll es).query (s.satisfyingAll es).query ↔
      (∃ e, (s.equallingAll es).query = .error e) ∨ ¬ NamesJunction s.model es) ∧
    (AgreeOn Query.result (s.equallingAll es).countQuery (s.satisfyingAll es).countQuery ↔
      (∃ e, (s.equallingAll es).countQuery = .error e) ∨ ¬ NamesJunction s.model es) ∧
    ∀ r ∈ s.model.relations, ∀ junction foreignKey a,
      r.kind = .manyToMany junction foreignKey a →
      ∀ column v, Column.ofText column = .qualified junction foreignKey →
        (s.satisfyingAll [(column, v)]).query =
          (s.filtered [.manyToMany s.model.name r.name v]).query ∧
        (s.satisfyingAll [(column, v)]).countQuery =
          (s.filtered [.manyToMany s.model.name r.name v]).countQuery := by
  obtain ⟨hcondition, hfilters, hequals⟩ := modes_eq_zero_iff.mp hs
  obtain ⟨p, hp⟩ : ∃ p, Predicate.conjunction (es.map .ofPair) = some p := by
    obtain ⟨e, es, rfl⟩ := List.exists_cons_of_ne_nil hes
    exact ⟨_, rfl⟩
  have hread (r) (hr : (s.equallingAll es).sourceAndFilter = .ok r) :
      ∃ table, s.model.tableName = .ok table ∧ r.1 = .ofTable table := by
    rw [sourceAndFilter_equallingAll hs hqualified, restrictedTo] at hr
    obtain ⟨table, htable, hr⟩ := bind_eq_ok.mp hr
    obtain ⟨byId, -, hr⟩ := bind_eq_ok.mp hr
    obtain ⟨bySearch, -, hr⟩ := bind_eq_ok.mp hr
    obtain rfl := pure_eq_ok.mp hr
    exact ⟨table, htable, rfl⟩
  have hiff := agree_completed_iff hnames hread (agree_satisfyingAll hs hqualified hp)
  rw [touched_eq_nil_iff hp] at hiff
  have hheading : (s.satisfyingAll es).heading = (s.equallingAll es).heading ∧
      (s.satisfyingAll es).countHeading = (s.equallingAll es).countHeading := by
    rw [satisfyingAll_eq hcondition, equallingAll_eq]
    exact ⟨rfl, rfl⟩
  refine ⟨?_, ?_, fun r hr junction foreignKey a hkind column v hcolumn ↦ ?_⟩
  · rw [query_eq, query_eq, hheading.1]
    exact hiff _
  · rw [countQuery_eq, countQuery_eq, hheading.2]
    exact hiff _
  · have hlink := sourceAndFilter_satisfying_link (v := v) hs hnames hr hkind
    have hone : s.satisfyingAll [(column, v)] =
        s.satisfying (.columnIs (.qualified junction foreignKey) v) := by
      rw [← hcolumn]
      rfl
    rw [hone, query_eq, query_eq, countQuery_eq, countQuery_eq, hlink]
    exact ⟨rfl, rfl⟩

theorem equalling_agrees_iff_film :
    let film : Model := { name := "Film", table := some "film",
                          fields := [{ name := "film_id", kind := .integer, primaryKey := true },
                            { name := "title", kind := .string }],
                          relations := [.manyToMany "actors" "Actor" "film_actor" "actor_id"] }
    let cast : String × Value := ("film_actor.actor_id", .bigInt 1)
    let es := [cast, ("film.title", .text "Ran")]
    let s := (ofModel film).sortedBy (.ofText "title") true
    s.modes = 0 ∧ (film.relations.map Relation.name).Nodup ∧ es ≠ [] ∧
      (∀ e ∈ es, '.' ∈ e.1.toList) ∧
      ¬ AgreeOn Query.result (s.equallingAll es).query (s.satisfyingAll es).query ∧
      ¬ AgreeOn Query.result (s.equallingAll es).countQuery (s.satisfyingAll es).countQuery ∧
      (s.satisfyingAll [cast]).query = (s.filtered [.manyToMany "Film" "actors" cast.2]).query := by
  intro film cast es s
  have hnames : (film.relations.map Relation.name).Nodup := by decide
  have hqualified : ∀ e ∈ es, '.' ∈ e.1.toList := by decide +kernel
  have hes : es ≠ [] := List.cons_ne_nil _ _
  obtain ⟨hquery, hcount, hlink⟩ := equalling_agrees_iff (s := s) rfl hnames hes hqualified
  have hsplit : Text.splitFirst '.' cast.1 = some ("film_actor", "actor_id") := by decide +kernel
  have hcolumn : Column.ofText cast.1 = .qualified "film_actor" "actor_id" := by
    rw [Column.ofText, hsplit]
  have hactor : NamesJunction film es :=
    ⟨cast, List.mem_cons_self, _, List.mem_singleton_self _, "film_actor", rfl,
      by rw [hcolumn]; rfl⟩
  have hbuilt : (s.equallingAll es).query.toOption.any (fun _ ↦ true) = true := by decide +kernel
  have hcounted : (s.equallingAll es).countQuery.toOption.any (fun _ ↦ true) = true := by
    decide +kernel
  refine ⟨rfl, hnames, hes, hqualified, fun hagree ↦ ?_, fun hagree ↦ ?_, ?_⟩
  · obtain ⟨q, hq, -⟩ := exists_eq_ok hbuilt
    rcases hquery.mp hagree with ⟨e, he⟩ | hnone
    · cases hq.symm.trans he
    · exact hnone hactor
  · obtain ⟨q, hq, -⟩ := exists_eq_ok hcounted
    rcases hcount.mp hagree with ⟨e, he⟩ | hnone
    · cases hq.symm.trans he
    · exact hnone hactor
  · exact (hlink _ (List.mem_singleton_self _) "film_actor" "actor_id" _ rfl _ _ hcolumn).1

end Selection

end RelMapper
