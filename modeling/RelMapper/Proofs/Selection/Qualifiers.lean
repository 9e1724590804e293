import RelMapper.Proofs.Selection.Restrictions
namespace RelMapper

theorem Column.table_orTable {c : Column} {table own : String} :
    (c.orTable own).table = some table ↔ c.table = some table ∨ c.table = none ∧ table = own := by
  rw [orTable]
  cases c.table with
  | none => simp [eq_comm]
  | some other => simp

namespace Predicate

def Names (p : Predicate) (table : String) : Prop :=
  ∃ c ∈ p.columns, c.table = some table

variable {op : Connective} {ps : List Predicate} {p : Predicate} {table : String}

theorem names_compare_column {op : Comparison} {c : Column} {v : Value} :
    (compare op (.column c) (.bound v)).Names table ↔ c.table = some table := by
  have hcolumns : (compare op (.column c) (.bound v)).columns = [c] := rfl
  rw [Names, hcolumns]
  exact ⟨fun ⟨d, hd, h⟩ ↦ List.mem_singleton.mp hd ▸ h, fun h ↦ ⟨c, List.mem_singleton_self c, h⟩⟩

theorem columns_foldl (op : Connective) (ps : List Predicate) (p : Predicate) :
    (ps.foldl (combine op) p).columns = p.columns ++ ps.flatMap columns := by
  induction ps generalizing p with
  | nil => exact (List.append_nil _).symm
  | cons q ps ih => rw [List.foldl_cons, ih, columns, List.flatMap_cons, List.append_assoc]

theorem names_foldl (op : Connective) (ps : List Predicate) (p : Predicate) :
    (ps.foldl (combine op) p).Names table ↔ ∃ q ∈ p :: ps, q.Names table := by
  rw [Names, columns_foldl, ← List.flatMap_cons]
  constructor
  · rintro ⟨c, hc, h⟩
    obtain ⟨q, hq, hc⟩ := List.mem_flatMap.mp hc
    exact ⟨q, hq, c, hc, h⟩
  · rintro ⟨q, hq, c, hc, h⟩
    exact ⟨c, List.mem_flatMap.mpr ⟨q, hq, hc⟩, h⟩

theorem names_concat (h : concat op ps = .ok p) : p.Names table ↔ ∃ q ∈ ps, q.Names table := by
  cases ps with
  | nil => cases h
  | cons q ps =>
    obtain rfl := Except.ok.inj h
    exact names_foldl op ps q

theorem names_conjunction (h : conjunction ps = some p) :
    p.Names table ↔ ∃ q ∈ ps, q.Names table := by
  cases ps with
  | nil => cases h
  | cons q ps =>
    obtain rfl := Option.some.inj h
    exact names_foldl .and ps q

end Predicate

namespace Filter

variable {m : Model} {own table : String}

theorem names_lowerField {scope name : String} {v : Value} {negated : Bool} {p : Predicate}
    (hown : m.tableName = .ok own) (h : lowerField m scope name v negated = .ok p)
    (hp : p.Names table) : table = own := by
  obtain ⟨own', hown', h⟩ := bind_eq_ok.mp h
  obtain rfl := Except.ok.inj (hown.symm.trans hown')
  obtain ⟨-, -, h⟩ := bind_eq_ok.mp h
  cases hfield : m.hasField name with
  | false =>
    rw [hfield] at h
    cases h
  | true =>
    rw [hfield] at h
    obtain rfl := pure_eq_ok.mp h
    have hp : (Predicate.columnIs (.qualified own name) v).Names table := by
      cases negated <;> exact hp
    exact (Option.some.inj (Predicate.names_compare_column.mp hp)).symm

theorem names_lowerManyToOne {scope relation : String} {v : Value} {p : Predicate}
    (hown : m.tableName = .ok own) (h : lowerManyToOne m scope relation v = .ok p)
    (hp : p.Names table) : table = own := by
  obtain ⟨own', hown', h⟩ := bind_eq_ok.mp h
  obtain rfl := Except.ok.inj (hown.symm.trans hown')
  obtain ⟨-, -, h⟩ := bind_eq_ok.mp h
  obtain ⟨r, -, h⟩ := bind_eq_ok.mp h
  split at h
  · obtain rfl := pure_eq_ok.mp h
    exact (Option.some.inj (Predicate.names_compare_column.mp hp)).symm
  · cases h

theorem names_lowerManyToMany {scope relation : String} {v : Value} {p : Predicate}
    (h : lowerManyToMany m scope relation v = .ok p) (hp : p.Names table) :
    m.junctionOf relation = some table := by
  obtain ⟨-, -, h⟩ := bind_eq_ok.mp h
  obtain ⟨-, -, h⟩ := bind_eq_ok.mp h
  obtain ⟨r, hr, h⟩ := bind_eq_ok.mp h
  split at h
  · next junction foreignKey _ hkind =>
    obtain rfl := pure_eq_ok.mp h
    have hjunction : r.junction = some junction := by rw [Relation.junction, hkind]
    rw [Model.junctionOf, Model.relation_eq_ok.mp hr, Option.bind_some, hjunction]
    exact Predicate.names_compare_column.mp hp
  · cases h

mutual

theorem names_predicate (hown : m.tableName = .ok own) (f : Filter) {p : Predicate}
    (h : f.predicate m = .ok p) (hp : p.Names table) :
    table = own ∨ ∃ relation ∈ f.relations, m.junctionOf relation = some table := by
  cases f with
  | field scope name v negated => exact .inl (names_lowerField hown h hp)
  | manyToOne scope relation v => exact .inl (names_lowerManyToOne hown h hp)
  | manyToMany scope relation v =>
    exact .inr ⟨relation, List.mem_singleton_self _, names_lowerManyToMany h hp⟩
  | any filters =>
    obtain ⟨-, -, h⟩ := bind_eq_ok.mp h
    obtain ⟨ps, hps, h⟩ := bind_eq_ok.mp h
    obtain ⟨q, hq, hp⟩ := (Predicate.names_concat h).mp hp
    exact names_predicates hown filters hps hq hp

theorem names_predicates (hown : m.tableName = .ok own) (fs : List Filter) {ps : List Predicate}
    (h : predicates m fs = .ok ps) {p : Predicate} (hmem : p ∈ ps) (hp : p.Names table) :
    table = own ∨ ∃ relation ∈ relationsOfAll fs, m.junctionOf relation = some table := by
  cases fs with
  | nil =>
    cases h
    cases hmem
  | cons f fs =>
    obtain ⟨q, hq, h⟩ := bind_eq_ok.mp h
    obtain ⟨qs, hqs, h⟩ := bind_eq_ok.mp h
    obtain rfl := pure_eq_ok.mp h
    rcases List.mem_cons.mp hmem with rfl | hmem
    · refine (names_predicate hown f hq hp).imp_right ?_
      exact fun ⟨relation, hr, h⟩ ↦ ⟨relation, List.mem_append_left _ hr, h⟩
    · refine (names_predicates hown fs hqs hmem hp).imp_right ?_
      exact fun ⟨relation, hr, h⟩ ↦ ⟨relation, List.mem_append_right _ hr, h⟩

end

end Filter

namespace Selection

variable {m : Model} {own table : String} {p : Predicate}

theorem names_equality {e : String × Value} (hown : m.tableName = .ok own)
    (h : equality m e = .ok p) : p.Names table ↔
      (Column.ofText e.1).table = some table ∨
        (Column.ofText e.1).table = none ∧ table = own := by
  obtain ⟨own', hown', h⟩ := bind_eq_ok.mp h
  obtain rfl := Except.ok.inj (hown.symm.trans hown')
  dsimp only at h
  split at h
  · cases h
  · obtain rfl := pure_eq_ok.mp h
    exact Predicate.names_compare_column.trans Column.table_orTable

theorem names_searchCondition {text : String} {columns : Option (List String)}
    (hown : m.tableName = .ok own) (h : searchCondition m text columns = .ok p) :
    p.Names table ↔ ∃ column ∈ columns.getD m.searchColumns,
      (Column.ofText column).table = some table ∨
        (Column.ofText column).table = none ∧ table = own := by
  obtain ⟨own', hown', h⟩ := bind_eq_ok.mp h
  obtain rfl := Except.ok.inj (hown.symm.trans hown')
  dsimp only at h
  split at h
  · cases h
  · rw [Predicate.names_concat h]
    simp only [List.mem_map, exists_exists_and_eq_and]
    exact exists_congr fun column ↦ and_congr_right fun _ ↦
      Predicate.names_compare_column.trans Column.table_orTable

end Selection

namespace FetchOptions

/-- What a read and its count have in common. -/
def restriction (o : FetchOptions) (m : Model) : Selection :=
  { model := m, condition := o.condition, filters := o.filters, equals := o.equals,
    search := o.search.map (·, o.searchColumns) }

/-- The options themselves name the table: in the predicate, or where a column is given with its
table. -/
inductive Mentions (o : FetchOptions) (m : Model) (table : String) : Prop
  | condition {p : Predicate} (hp : o.condition = some p) (h : p.Names table) : Mentions o m table
  | equality {e : String × Value} (he : e ∈ o.equals)
      (h : (Column.ofText e.1).table = some table) : Mentions o m table
  | search {text column : String} (htext : o.search = some text)
      (hcolumn : column ∈ o.searchColumns.getD m.searchColumns)
      (h : (Column.ofText column).table = some table) : Mentions o m table

variable {o : FetchOptions} {m : Model} {own table : String} {ps : List Predicate}

theorem conditions_restriction (hps : (o.restriction m).conditions = .ok ps) :
    ∃ byFilters byEquality bySearch,
      (o.filters.getD []).mapM (Filter.predicate m) = .ok byFilters ∧
      o.equals.mapM (Selection.equality m) = .ok byEquality ∧
      (o.search.map (·, o.searchColumns)).toList.mapM
        (fun (text, columns) ↦ Selection.searchCondition m text columns) = .ok bySearch ∧
      ps = o.condition.toList ++ byFilters ++ byEquality ++ bySearch := by
  obtain ⟨byId, hbyId, hps⟩ := bind_eq_ok.mp hps
  obtain rfl := pure_eq_ok.mp hbyId
  obtain ⟨byFilters, hfilters, hps⟩ := bind_eq_ok.mp hps
  obtain ⟨byEquality, hequality, hps⟩ := bind_eq_ok.mp hps
  obtain ⟨bySearch, hsearch, hps⟩ := bind_eq_ok.mp hps
  obtain rfl := pure_eq_ok.mp hps
  exact ⟨byFilters, byEquality, bySearch, hfilters, hequality, hsearch, rfl⟩

theorem Mentions.exists_names (hown : m.tableName = .ok own)
    (hps : (o.restriction m).conditions = .ok ps) (h : o.Mentions m table) :
    ∃ p ∈ ps, p.Names table := by
  obtain ⟨byFilters, byEquality, bySearch, -, hequality, hsearch, rfl⟩ :=
    conditions_restriction hps
  simp only [List.mem_append, Option.mem_toList]
  cases h with
  | condition hp h => exact ⟨_, .inl (.inl (.inl hp)), h⟩
  | equality he h =>
    obtain ⟨p, hp⟩ := exists_of_mapM hequality he
    exact ⟨p, .inl (.inr ((mem_iff_of_mapM hequality).mpr ⟨_, he, hp⟩)),
      (Selection.names_equality hown hp).mpr (.inl h)⟩
  | search htext hcolumn h =>
    rw [htext] at hsearch
    obtain ⟨p, hp⟩ := exists_of_mapM hsearch (List.mem_singleton_self _)
    exact ⟨p, .inr ((mem_iff_of_mapM hsearch).mpr ⟨_, List.mem_singleton_self _, hp⟩),
      (Selection.names_searchCondition hown hp).mpr ⟨_, hcolumn, .inl h⟩⟩

theorem mentions_of_names (hown : m.tableName = .ok own)
    (hps : (o.restriction m).conditions = .ok ps) {p : Predicate} (hp : p ∈ ps)
    (h : p.Names table) :
    table = own ∨ table ∈ (o.restriction m).junctions ∨ o.Mentions m table := by
  obtain ⟨byFilters, byEquality, bySearch, hfilters, hequality, hsearch, rfl⟩ :=
    conditions_restriction hps
  simp only [List.mem_append, Option.mem_toList] at hp
  rcases hp with ((hp | hp) | hp) | hp
  · exact .inr (.inr (.condition hp h))
  · obtain ⟨f, hf, hp⟩ := (mem_iff_of_mapM hfilters).mp hp
    refine (Filter.names_predicate hown f hp h).imp_right fun ⟨relation, hr, hjunction⟩ ↦ .inl ?_
    rw [Selection.junctions, Filter.mem_foldl_noted, List.mem_filterMap]
    exact .inr ⟨relation, Selection.mem_joinedRelations.mpr (.inr ⟨f, hf, hr⟩), hjunction⟩
  · obtain ⟨e, he, hp⟩ := (mem_iff_of_mapM hequality).mp hp
    obtain h | ⟨-, rfl⟩ := (Selection.names_equality hown hp).mp h
    · exact .inr (.inr (.equality he h))
    · exact .inl rfl
  · obtain ⟨⟨text, columns⟩, hmem, hp⟩ := (mem_iff_of_mapM hsearch).mp hp
    obtain ⟨text', htext, heq⟩ := Option.map_eq_some_iff.mp (Option.mem_toList.mp hmem)
    obtain ⟨rfl, rfl⟩ := Prod.mk.inj heq
    obtain ⟨column, hcolumn, h | ⟨-, rfl⟩⟩ := (Selection.names_searchCondition hown hp).mp h
    · exact .inr (.inr (.search htext hcolumn h))
    · exact .inl rfl

end FetchOptions

end RelMapper
