import RelMapper.Proofs.Loading.SourceNames
namespace RelMapper

namespace Draft

variable {known : Registry} {m : Model} {table : String} {o : FetchOptions} {d d' d'' : Draft}
variable {r : Relation} {rs : List Relation}

structure Grows (d d' : Draft) : Prop where
  fields : d'.layout.fields = d.layout.fields
  related : d.layout.related <+: d'.layout.related
  aggregates : d.layout.aggregates <+: d'.layout.aggregates
  items : d.query.projection.items <+: d'.query.projection.items
  joins : d.query.source.joins <+: d'.query.source.joins

theorem Grows.refl (d : Draft) : d.Grows d where
  fields := rfl
  related := List.prefix_rfl
  aggregates := List.prefix_rfl
  items := List.prefix_rfl
  joins := List.prefix_rfl

theorem Grows.trans (h : d.Grows d') (h' : d'.Grows d'') : d.Grows d'' where
  fields := h'.fields.trans h.fields
  related := h.related.trans h'.related
  aggregates := h.aggregates.trans h'.aggregates
  items := h.items.trans h'.items
  joins := h.joins.trans h'.joins

theorem prefix_foldl_push (items : List Expr) (p : Projection) :
    p.items <+: (items.foldl Projection.push p).items := by
  rw [items_foldl_push]
  exact List.prefix_append _ _

theorem Joins.grows (h : d.Joins known m table r d') : d.Grows d' := by
  cases h with
  | foreign _ _ _ _ =>
    exact ⟨rfl, List.prefix_append _ _, List.prefix_rfl, prefix_foldl_push _ _,
      List.prefix_append _ _⟩
  | aggregates _ _ _ _ =>
    exact ⟨rfl, List.prefix_rfl, List.prefix_append _ _, prefix_foldl_push _ _,
      List.prefix_append _ _⟩

theorem grows_joinRelation (hrun : d.joinRelation known m table o r = .ok d') : d.Grows d' := by
  cases halong : r.comesAlong o with
  | false =>
    obtain rfl := joinRelation_of_not_along halong hrun
    exact .refl d'
  | true => exact (joins_of_along halong hrun).grows

theorem grows_joinRelations (hrun : rs.foldlM (joinRelation known m table o) d = .ok d') :
    d.Grows d' :=
  foldlM_keeps (P := d.Grows) (fun _ h hstep ↦ h.trans (grows_joinRelation hstep)) (.refl d) hrun

theorem exists_turn (hr : r ∈ rs)
    (hrun : rs.foldlM (joinRelation known m table o) d = .ok d') :
    ∃ d₁ d₂, joinRelation known m table o d₁ r = .ok d₂ ∧ d₂.Grows d' := by
  obtain ⟨before, after, rfl⟩ := List.append_of_mem hr
  rw [List.foldlM_append] at hrun
  obtain ⟨d₁, -, hrun⟩ := bind_eq_ok.mp hrun
  rw [List.foldlM_cons] at hrun
  obtain ⟨d₂, hturn, hrun⟩ := bind_eq_ok.mp hrun
  exact ⟨d₁, d₂, hturn, grows_joinRelations hrun⟩

/-- A many-to-one relation that comes along has its columns in one stretch, and they are those of
the table that is joined by its keys. -/
theorem exists_related {foreignKey foreignColumn : String} {lookupColumn : Option String}
    {loadAll : Bool} (hr : r ∈ rs) (halong : r.comesAlong o = true)
    (hkind : r.kind = .manyToOne foreignKey foreignColumn lookupColumn loadAll)
    (hrun : rs.foldlM (joinRelation known m table o) d = .ok d') :
    ∃ foreign foreignTable newName start, known.get r.foreignModel = .ok foreign ∧
      foreign.tableName = .ok foreignTable ∧ ⟨r.name, foreign, start⟩ ∈ d'.layout.related ∧
      ⟨.leftOuter, .table ⟨foreignTable, newName⟩, some (.on (Relation.sameColumns
        (.qualified table foreignKey) (.qualified (newName.getD foreignTable) foreignColumn)))⟩ ∈
          d'.query.source.joins ∧
      (foreign.fieldNames.map fun field ↦ Expr.column (.qualified (newName.getD foreignTable)
        field)).filter (fun e ↦ !e.isBlank) <+: d'.query.projection.items.drop start := by
  obtain ⟨d₁, d₂, hturn, hgrows⟩ := exists_turn hr hrun
  cases joins_of_along halong hturn with
  | @foreign _ _ foreignTable _ newName _ foreign hkind' hforeign htable _ =>
    cases hkind.symm.trans hkind'
    refine ⟨foreign, foreignTable, newName, d₁.query.projection.items.length, hforeign, htable,
      hgrows.related.subset (List.mem_append_right _ (List.mem_singleton_self _)),
      hgrows.joins.subset (List.mem_append_right _ (List.mem_singleton_self _)), ?_⟩
    obtain ⟨rest, hrest⟩ := hgrows.items
    rw [← hrest]
    simp only [leftJoin, items_foldl_push, List.append_assoc, List.drop_left]
    exact List.prefix_append _ _
  | aggregates hone _ _ _ => cases hone.symm.trans (Relation.isManyToOne_of_kind hkind)

theorem exists_aggregate {a : Aggregation} (hr : r ∈ rs) (halong : r.comesAlong o = true)
    (hone : r.isManyToOne = false) (ha : r.aggregation = some a)
    (hrun : rs.foldlM (joinRelation known m table o) d = .ok d') :
    ∃ query id index, r.aggregateQuery known m a = .ok query ∧ m.idName = .ok id ∧
      ⟨r.name, index, a.function⟩ ∈ d'.layout.aggregates ∧
      ⟨.leftOuter, .derived (query.derivedAs (r.generatedName table)), some (.on
        (Relation.sameColumns (.qualified (r.generatedName table) Relation.ownerKeyName)
          (.qualified table id)))⟩ ∈ d'.query.source.joins ∧
      d'.query.projection.items[index]? =
        some (.column (.qualified (r.generatedName table) Relation.aggregateName)) := by
  obtain ⟨d₁, d₂, hturn, hgrows⟩ := exists_turn hr hrun
  cases joins_of_along halong hturn with
  | foreign hkind _ _ _ => cases hone.symm.trans (Relation.isManyToOne_of_kind hkind)
  | @aggregates _ query id _ ha' hquery hid =>
    cases ha.symm.trans ha'
    refine ⟨query, id, d₁.query.projection.items.length, hquery, hid,
      hgrows.aggregates.subset (List.mem_append_right _ (List.mem_singleton_self _)),
      hgrows.joins.subset (List.mem_append_right _ (List.mem_singleton_self _)), ?_⟩
    obtain ⟨rest, hrest⟩ := hgrows.items
    rw [← hrest]
    simp only [leftJoin, items_foldl_push, List.append_assoc]
    rw [List.getElem?_append_right (Nat.le_refl _), Nat.sub_self]
    rfl

theorem Joins.relationNames {along : List Relation} (hjoins : d.Joins known m table r d')
    (h : d.layout.relationNames.Perm (along.map Relation.name)) :
    d'.layout.relationNames.Perm ((along ++ [r]).map Relation.name) := by
  rw [List.map_append]
  cases hjoins with
  | foreign _ _ _ _ => exact (d.layout.relationNames_addRelated _).trans (h.append_right _)
  | aggregates _ _ _ _ =>
    exact (List.Perm.of_eq (d.layout.relationNames_addAggregate _)).trans (h.append_right _)

theorem relationNames_joinRelations (h : d.layout.relationNames = [])
    (hrun : rs.foldlM (joinRelation known m table o) d = .ok d') :
    d'.layout.relationNames.Perm ((rs.filter (·.comesAlong o)).map Relation.name) := by
  let P (along : List Relation) (d : Draft) : Prop :=
    d.layout.relationNames.Perm (along.map Relation.name)
  have hnone : P [] d := .of_eq h
  exact along_joinRelations (P := P)
    (fun _ halong h hstep ↦ (joins_of_along halong hstep).relationNames h) hnone hrun

end Draft

namespace EntityQuery

variable {known : Registry} {c : Config} {m : Model} {o : FetchOptions} {id : Option Value}
variable {q : EntityQuery} {r : Relation}

theorem exists_draft (h : primary known c m o id = .ok q) : ∃ table fields keys query d,
    m.tableName = .ok table ∧ followUpKeys m o = .ok keys ∧ keys ⊆ fields ∧
      fields ⊆ m.fieldNames ∧ ("" ∉ m.fieldNames → query.projection.items =
        fields.map fun field ↦ .column (.qualified table field)) ∧
      m.relations.foldlM (Draft.joinRelation known m table o)
        ⟨query, { fields }, [table]⟩ = .ok d ∧
      q = { query := d.query, model := m, layout := d.layout } := by
  obtain ⟨table, asked, keys, query, d, orderBy, page, htable, hasked, hkeys, hquery, hd, hq⟩ :=
    primary_eq_ok h
  have hdeclared : keys.foldl Filter.noted asked ⊆ m.fieldNames := by
    intro field hfield
    obtain hfield | hfield := Filter.mem_foldl_noted.mp hfield
    · exact (OwnFields.of_projection hasked).1 hfield
    · exact OwnFields.followUpKeys_subset hkeys hfield
  refine ⟨table, _, keys, query, d, htable, hkeys,
    fun key hkey ↦ Filter.mem_foldl_noted.mpr (.inr hkey), hdeclared, fun hblank ↦ ?_, hd, hq⟩
  have hcolumns : (keys.foldl Filter.noted asked).map (Selection.item m) =
      (keys.foldl Filter.noted asked).map fun field ↦ .column (.qualified table field) :=
    List.map_congr_left fun field hfield ↦ Selection.item_field htable (hdeclared hfield)
  exact Selection.items_query (congrArg some hcolumns)
    (Draft.isBlank_qualified (mt (@hdeclared "") hblank) table) hquery

theorem suits_primary (h : primary known c m o id = .ok q) : q.layout.Suits m := by
  obtain ⟨table, fields, keys, query, d, -, -, -, hdeclared, -, hd, rfl⟩ := exists_draft h
  refine ⟨?_, fun name hname ↦ ?_⟩
  · rw [(Draft.grows_joinRelations hd).fields]
    exact hdeclared
  · obtain ⟨r, hr, rfl⟩ := List.mem_map.mp
      ((Draft.relationNames_joinRelations rfl hd).mem_iff.mp hname)
    exact ⟨r, List.mem_of_mem_filter hr, rfl⟩

theorem read_eq_ok (h : primary known c m o id = .ok q) {row : Row} {e : Entity} :
    q.read row = .ok e ↔ q.layout.width ≤ row.length ∧ e = q.layout.entity m row := by
  rw [read, (model_of_primary h).1]
  exact Layout.read_eq_ok (suits_primary h)

theorem model_of_read (h : primary known c m o id = .ok q) {row : Row} {e : Entity}
    (he : q.read row = .ok e) : e.model = m := by
  obtain ⟨-, rfl⟩ := (read_eq_ok h).mp he
  rfl

end EntityQuery

end RelMapper
