import RelMapper.Database.Script
import RelMapper.Proofs.Loading.Aggregates
import RelMapper.Proofs.Loading.ForeignRows
import RelMapper.Proofs.Loading.Paths
import RelMapper.Proofs.Session.Log
import RelMapper.Proofs.Session.Runs
import RelMapper.Session.Read
namespace RelMapper

/-- The database executes the query, and what it finds then is one of the rows, or nothing if there
are none. -/
def Database.Finds {σ : Type} [Database σ] (d : σ) (q : Query) (rows : List Row) : Prop :=
  ∃ d₁ found d₂,
    (execute (Statement.select q).sql (Statement.select q).binds).run d = (.ok (), d₁) ∧
      (fetchOne : DatabaseM σ (Option Row)).run d₁ = (.ok found, d₂) ∧
      found.elim (rows = []) (· ∈ rows)

theorem Script.isSelect_select {q : Query} (hq : q.nesting = .plain) :
    isSelect (Statement.select q).sql = true := by
  obtain ⟨projection, source, filter, groupBy, having, orderBy, page, nesting⟩ := q
  obtain rfl : nesting = .plain := hq
  rw [Statement.sql_eq, Statement.fragment, Query.fragment, Nesting.sql_enclose, Fragment.sql_lines,
    List.map_cons, Projection.fragment, Fragment.sql_text, String.intercalate_cons_append,
    Nesting.encloseText, isSelect, String.toList_append]
  rfl

theorem Script.finds {q : Query} (hq : q.nesting = .plain) (row : Row) :
    Database.Finds ({ results := [[row]], rules := [] } : Script) q [row] := by
  have hselect := isSelect_select hq
  refine ⟨{ results := [], rules := [], rows := [row], past := [.execute] }, some row,
    { results := [], rules := [], past := [.fetchOne, .execute] }, ?_, rfl,
    List.mem_singleton_self row⟩
  have hadvance (past : List CallKind) : advance (Statement.select q).sql
      { results := [[row]], rules := [], past } = { results := [], rules := [], rows := [row], past } :=
    if_pos hselect
  exact congrArg (Except.ok (), ·) (hadvance [.execute])

namespace Session

variable {σ : Type} [Database σ] {t : Session σ} {q : Query} {rows : List Row}

theorem exists_run_fetchOne (h : Database.Finds t.database q rows) : ∃ found u,
    (fetchOne (.select q)).run t = (.ok found, u) ∧ found.elim (rows = []) (· ∈ rows) := by
  obtain ⟨d₁, found, d₂, hexecute, hfetch, hfound⟩ := h
  let t₁ : Session σ := { t with lastSql := some (Statement.select q).sql, database := d₁ }
  have hrun : (execute (.select q)).run t = (.ok (), t₁) :=
    run_bind_eq_ok.mpr ⟨(), { t with lastSql := some (Statement.select q).sql }, rfl,
      run_onStatement_of_ok hexecute⟩
  exact ⟨found, { t₁ with database := d₂ },
    run_bind_eq_ok.mpr ⟨(), t₁, hrun, run_onStatement_of_ok hfetch⟩, hfound⟩

theorem exists_run_load_one {foreign : Model} {fs : List Record} (hone : fs.length ≤ 1)
    (h : Database.Finds t.database q (fs.map fun f ↦ foreign.fieldNames.map f)) :
    ∃ u, (load (.one (.plain foreign q))).run t =
      (.ok (.one (fs.head?.map foreign.entityOf)), u) := by
  obtain ⟨found, u, hfetch, hfound⟩ := exists_run_fetchOne h
  refine ⟨u, run_bind_eq_ok.mpr ⟨found, u, hfetch, ?_⟩⟩
  cases found with
  | none =>
    rw [List.map_eq_nil_iff.mp hfound]
    rfl
  | some row =>
    obtain ⟨f, hf, rfl⟩ := List.mem_map.mp hfound
    have hsingle : fs = [f] := by
      match fs, hone, hf with
      | [g], _, hf => rw [List.mem_singleton.mp hf]
    have hread : (EntityQuery.plain foreign q).read (foreign.fieldNames.map f) =
        .ok (foreign.entityOf f) :=
      EntityQuery.read_plain_eq_ok.mpr ⟨by simp, rfl⟩
    rw [hsingle]
    exact run_bind_eq_ok.mpr ⟨_, u, run_lift_eq_ok.mpr ⟨hread, rfl⟩, rfl⟩

theorem exists_run_load_aggregate {function : AggregateFunction} {v : Value}
    (h : Database.Finds t.database q [[v]]) :
    ∃ u, (load (.aggregate q function)).run t = (.ok (.aggregate (function.ofResult v)), u) := by
  obtain ⟨found, u, hfetch, hfound⟩ := exists_run_fetchOne h
  cases found with
  | none => cases hfound
  | some row =>
    obtain rfl := List.mem_singleton.mp hfound
    have hvalue : (fetchValue (.select q)).run t = (.ok (some v), u) :=
      run_bind_eq_ok.mpr ⟨some [v], u, hfetch, rfl⟩
    exact ⟨u, run_bind_eq_ok.mpr ⟨some v, u, hvalue, rfl⟩⟩

variable {known : Registry} {c : Config} {m foreign : Model} {o : FetchOptions} {id : Option Value}
variable {e : EntityQuery} {r : Relation}

/-- A foreign row that comes with its owner's row is the one that is loaded later for the owner. -/
theorem foreignRow_joined_eq_loaded (σ : Type) [Database σ] {foreignKey foreignColumn : String}
    {lookupColumn : Option String} {loadAll : Bool}
    (he : EntityQuery.primary known c m o id = .ok e) (hr : r ∈ m.relations)
    (hkind : r.kind = .manyToOne foreignKey foreignColumn lookupColumn loadAll)
    (hlazy : r.lazy = false) (hskips : o.skips r.name = false)
    (hforeign : known.get r.foreignModel = .ok foreign) (hnonempty : "" ∉ foreign.fieldNames)
    (hcolumn : foreignColumn ∈ foreign.fieldNames)
    (hjunction : ∀ p ∈ foreign.relations, p.junction ≠ foreign.table)
    (hnames : e.query.source.visibleNames.Nodup) :
    ∃ table foreignTable, m.tableName = .ok table ∧ foreign.tableName = .ok foreignTable ∧
      ∃ columns ∈ e.layout.related, columns.relation = r.name ∧
        ∀ content dialect, IsKey foreignColumn (content.table foreignTable) →
          ∀ s ∈ e.query.scopes content dialect, ∃ own ∈ content.table table,
            s.get? table = some own ∧ ∃ found,
              columns.read (e.query.projection.items.map (dialect.valueOf s)) = .ok found ∧
              ((m.relations.map Relation.name).Nodup → ∀ entity,
                e.read (e.query.projection.items.map (dialect.valueOf s)) = .ok entity →
                  entity.loaded? r.name = some (.one found)) ∧
              ∀ owner : Entity, owner.get? foreignKey = some (own foreignKey) →
                ∀ options, ∃ f,
                  FollowUp.ofRelation known owner (r.withLazy true) options = .ok f ∧
                  ∀ t : Session σ, (∀ lookup, f = .one lookup → Database.Finds t.database
                      lookup.query (lookup.query.rows content dialect)) →
                    ∃ u, (load f).run t = (.ok (.one found), u) := by
  have hone := Relation.isManyToOne_of_kind hkind
  have halong : r.comesAlong o = true := Relation.comesAlong_iff.mpr ⟨hlazy, hskips, .inl hone⟩
  obtain ⟨table, foreignTable, start, htable, hforeignTable, hc, hrow⟩ :=
    EntityQuery.entity?_of_row he hr halong hkind hforeign hnonempty hcolumn hnames
  refine ⟨table, foreignTable, htable, hforeignTable, _, hc, rfl,
    fun content dialect hkey s hs ↦ ?_⟩
  obtain ⟨own, hown, hget, hentity⟩ := hrow content dialect hkey s hs
  refine ⟨own, hown, hget, _, RelatedColumns.read_eq _ _, fun hdistinct entity hread ↦ ?_,
    fun owner howner options ↦ ?_⟩
  · obtain ⟨-, rfl⟩ := (EntityQuery.read_eq_ok he).mp hread
    exact Layout.loaded?_entity_related (EntityQuery.nodup_relationNames hdistinct he).1 hc
  · rw [Model.tableName_eq_ok.mp hforeignTable] at hjunction
    obtain ⟨f, hf, hcases⟩ :=
      FollowUp.exists_foreignRow hforeignTable hnonempty hcolumn hjunction howner
    have hplan : FollowUp.ofRelation known owner (r.withLazy true) options = .ok f := by
      have hkind : (r.withLazy true).kind = _ := hkind
      have htable : discard foreign.tableName = .ok () := by rw [hforeignTable]; rfl
      refine bind_eq_ok.mpr ⟨foreign, hforeign, bind_eq_ok.mpr ⟨(), htable, ?_⟩⟩
      rw [hkind]
      exact hf
    refine ⟨f, hplan, fun t hfinds ↦ ?_⟩
    rw [hentity]
    obtain ⟨hnull, rfl⟩ | ⟨-, lookup, rfl, hrows⟩ := hcases
    -- A null key is not looked up, and the join finds nothing by it either.
    · rw [Content.rowsWith_of_isNull hnull]
      exact ⟨t, rfl⟩
    · have hfinds := hfinds _ rfl
      rw [EntityQuery.plain, hrows] at hfinds
      exact exists_run_load_one (Content.length_rowsWith_le_one hkey _) hfinds

/-- A film and its original language, which is not the language that it is shown in. The table of
languages is there twice. -/
theorem foreignRow_joined_eq_loaded_film :
    let language : Relation :=
      (Relation.manyToOne "language" "Language" "language_id" "language_id").withLazy false
    let original : Relation :=
      (Relation.manyToOne "original" "Language" "original_id" "language_id").withLazy false
    let languages : Model :=
      { name := "Language", table := some "language",
        fields := [{ name := "language_id", kind := .integer, primaryKey := true },
          { name := "name", kind := .string }] }
    let film : Model := { name := "Film", table := some "film",
                          fields := [{ name := "film_id", kind := .integer, primaryKey := true },
                            { name := "language_id", kind := .integer },
                            { name := "original_id", kind := .integer }],
                          relations := [language, original] }
    let known : Registry := ⟨[film, languages]⟩
    let row (columns : List (String × Value)) : Record :=
      fun name ↦ (columns.lookup name).getD .null
    let tables : List (String × List Record) :=
      [("film",
          [row [("film_id", .bigInt 7), ("language_id", .bigInt 5), ("original_id", .bigInt 4)],
            row [("film_id", .bigInt 8), ("language_id", .bigInt 4)]]),
        ("language", [row [("language_id", .bigInt 4), ("name", .text "French")],
          row [("language_id", .bigInt 5), ("name", .text "English")]])]
    let content : Content :=
      { table := fun name ↦ (tables.lookup name).getD [], derived := fun _ ↦ [] }
    let dialect : Dialect :=
      { value := fun _ _ ↦ .null, compare := fun _ _ _ ↦ none, sharesColumns := fun _ _ ↦ false }
    let owner : Entity := { model := film, fields := [("original_id", .bigInt 4)], relations := [] }
    let t : Session Script :=
      { database := { results := [[[.bigInt 4, .text "French"]]], rules := [] }, registry := known }
    ∃ e columns row found f u, EntityQuery.primary known {} film {} none = .ok e ∧
      columns ∈ e.layout.related ∧ columns.relation = "original" ∧
      row ∈ e.query.rows content dialect ∧ columns.read row = .ok found ∧ found.isSome = true ∧
      FollowUp.ofRelation known owner (original.withLazy true) none = .ok f ∧
      (load f).run t = (.ok (.one found), u) := by
  intro language original languages film known row tables content dialect owner t
  have hquery : (EntityQuery.primary known {} film {} none).toOption.any (fun e ↦
      decide e.query.source.visibleNames.Nodup && (e.query.scopes content dialect).any fun s ↦
        ((s.get? "film").any fun own ↦ (own "original_id").asInteger == some 4) &&
          e.layout.related.all fun c ↦ c.relation != "original" ||
            (c.read (e.query.projection.items.map (dialect.valueOf s))).toOption.any
              Option.isSome) = true := by decide +kernel
  obtain ⟨e, he, hchecks⟩ := exists_eq_ok hquery
  obtain ⟨hnames, hscopes⟩ := Bool.and_eq_true_iff.mp hchecks
  obtain ⟨s, hs, hfilm⟩ := List.any_eq_true.mp hscopes
  obtain ⟨hfilm, hsome⟩ := Bool.and_eq_true_iff.mp hfilm
  obtain ⟨table, foreignTable, htable, hforeignTable, columns, hcolumns, hname, hagrees⟩ :=
    foreignRow_joined_eq_loaded Script he (r := original) (by decide) rfl rfl rfl
      (show known.get "Language" = .ok languages from rfl) (by decide) (by decide) nofun
      (of_decide_eq_true hnames)
  cases htable
  cases hforeignTable
  have hkey : IsKey "language_id" (content.table "language") := by
    have hapart : (Value.bigInt 4).equals (.bigInt 5) = false := by decide +kernel
    exact List.pairwise_pair.mpr hapart
  obtain ⟨own, hown, hget, found, hread, -, hloads⟩ := hagrees content dialect hkey s hs
  rw [hget] at hfilm
  have hfound := List.all_eq_true.mp hsome columns hcolumns
  rw [hname, hread] at hfound
  obtain rfl | rfl := List.mem_pair.mp hown
  · obtain ⟨f, hf, hload⟩ := hloads owner rfl none
    cases hf
    obtain ⟨u, hu⟩ := hload t fun lookup hlookup ↦ by
      cases hlookup
      exact Script.finds rfl _
    exact ⟨e, columns, _, found, _, u, he, hcolumns, hname, List.mem_map_of_mem hs, hread, hfound,
      rfl, hu⟩
  · exact absurd hfilm (by decide +kernel)

/-- An aggregate that comes with its owner's row is the one that is loaded later for the owner, if
the database sees no order in the rows that it aggregates. -/
theorem aggregate_joined_eq_loaded (σ : Type) [Database σ] {a : Aggregation}
    (he : EntityQuery.primary known c m o id = .ok e) (hr : r ∈ m.relations)
    (ha : r.aggregation = some a) (hlazy : r.lazy = false) (hskips : o.skips r.name = false)
    (hnames : e.query.source.visibleNames.Nodup) :
    ∃ table key grouped, m.tableName = .ok table ∧ m.idName = .ok key ∧
      r.aggregateQuery known m a = .ok grouped ∧
      ∃ column ∈ e.layout.aggregates, column.relation = r.name ∧
        ∀ content dialect agg, content.NamesColumns →
          content.Aggregates dialect agg (grouped.derivedAs (r.generatedName table)) →
          ∀ s ∈ e.query.scopes content dialect, ∃ own ∈ content.table table,
            s.get? table = some own ∧ ∃ v,
              column.value (e.query.projection.items.map (dialect.valueOf s)) = v ∧
              (∀ entity, e.read (e.query.projection.items.map (dialect.valueOf s)) = .ok entity →
                entity.loaded? r.name = some (.aggregate v)) ∧
              ∀ (owner : Entity) (options : Option RelationOptions) (f : FollowUp),
                owner.model.idName = .ok key → owner.id = .ok (own key) →
                FollowUp.ofRelation known owner (r.withLazy true) options = .ok f →
                ∀ t : Session σ, (∀ q function, f = .aggregate q function →
                    Database.Finds t.database q [q.totals content dialect agg]) →
                  ∃ u, (load f).run t = (.ok (.aggregate v), u) := by
  have hone := Relation.isManyToOne_of_aggregation ha
  have halong : r.comesAlong o = true :=
    Relation.comesAlong_iff.mpr ⟨hlazy, hskips, .inr (by rw [ha]; rfl)⟩
  obtain ⟨table, fields, keys, query, d, htable, -, -, -, -, hd, rfl⟩ := EntityQuery.exists_draft he
  obtain ⟨grouped, key, index, hgrouped, hkey, hc, hj, hitem⟩ :=
    Draft.exists_aggregate hr halong hone ha hd
  refine ⟨table, key, grouped, htable, hkey, hgrouped, _, hc, rfl,
    fun content dialect agg hnamed hagg s hs ↦ ?_⟩
  obtain ⟨own, hown, hget, hfound⟩ := EntityQuery.joined_row he htable hnames hj (.inr rfl) hs
  refine ⟨own, hown, hget, _, rfl, fun entity hread ↦ ?_,
    fun owner options f hid howner hf t hfinds ↦ ?_⟩
  · obtain ⟨-, rfl⟩ := (EntityQuery.read_eq_ok he).mp hread
    exact Layout.loaded?_entity_aggregate (EntityQuery.nodup_aggregates he hnames) hc
  · have hshown : AggregateColumn.value ⟨r.name, index, a.function⟩
        (d.query.projection.items.map (dialect.valueOf s)) = a.function.ofResult
          ((s.get? (r.generatedName table)).elim .null (· Relation.aggregateName)) := by
      rw [AggregateColumn.value, RelatedColumns.valueAt, List.getElem?_map, hitem]
      rfl
    rw [hshown]
    have ha' : (r.withLazy true).aggregation = some a := ha
    obtain ⟨v, hv, hcases⟩ := FollowUp.ofRelation_aggregation ha' hf
    obtain rfl := Except.ok.inj (howner.symm.trans hv)
    have hjoined : (∃ row ∈ content.derived (grouped.derivedAs (r.generatedName table)),
        s.get? (r.generatedName table) = some row ∧
          (row Relation.ownerKeyName).equals (own key) = true) ∨
        s.get? (r.generatedName table) = none ∧
          ∀ row ∈ content.derived (grouped.derivedAs (r.generatedName table)),
            (row Relation.ownerKeyName).equals (own key) = false := hfound
    obtain ⟨hnull, rfl⟩ | ⟨-, collection, call, source, lookup, hcollection, hcall, hsource, rfl,
      htotals⟩ := hcases
    -- Nor is there a group for an owner without an id.
    · have hleft : s.get? (r.generatedName table) = none := by
        obtain ⟨row, -, -, hequals⟩ | ⟨hleft, -⟩ := hjoined
        · rw [(Value.equals_iff.mp hequals).2.1] at hnull
          cases hnull
        · exact hleft
      rw [hleft]
      exact ⟨t, rfl⟩
    · have hcollection : CollectionTable.ofRelation known m r = .ok collection :=
        (CollectionTable.ofRelation_congr ha (hkey.trans hid.symm)).trans hcollection
      rw [Relation.ofResult_joined hgrouped hcollection hsource hcall hnamed hagg hjoined]
      have hfinds := hfinds lookup a.function rfl
      rw [htotals] at hfinds
      exact exists_run_load_aggregate hfinds

/-- A film is counted to have two tags. -/
theorem aggregate_joined_eq_loaded_film :
    let tags : Relation :=
      ((Relation.manyToMany "tags" "Tag" "film_tag" "tag_id").aggregated ⟨.count, none⟩).withLazy
        false
    let film : Model := { name := "Film", table := some "film",
                          fields := [{ name := "film_id", kind := .integer, primaryKey := true }],
                          relations := [tags] }
    let tag : Model := { name := "Tag", table := some "tag" }
    let known : Registry := ⟨[film, tag]⟩
    let content : Content :=
      { table := fun table ↦ List.replicate (if table = "film_tag" then 2 else 1) fun column ↦
          if column = "" then .null else .bigInt 7,
        derived := fun _ ↦ [fun column ↦ if column = "owner_pk" then .bigInt 7 else
          if column = "aggr" then .bigInt 2 else .null] }
    let dialect : Dialect :=
      { value := fun _ _ ↦ .null, compare := fun _ _ _ ↦ none, sharesColumns := fun _ _ ↦ false }
    let owner : Entity := { model := film, fields := [("film_id", .bigInt 7)], relations := [] }
    let t : Session Script :=
      { database := { results := [[[.bigInt 2]]], rules := [] }, registry := known }
    ∃ e column row v f u, EntityQuery.primary known {} film {} none = .ok e ∧
      column ∈ e.layout.aggregates ∧ column.relation = "tags" ∧
      row ∈ e.query.rows content dialect ∧ column.value row = v ∧ v.asInteger = some 2 ∧
      FollowUp.ofRelation known owner (tags.withLazy true) none = .ok f ∧
      (load f).run t = (.ok (.aggregate v), u) := by
  intro tags film tag known content dialect owner t
  have hquery : (EntityQuery.primary known {} film {} none).toOption.any (fun e ↦
      decide e.query.source.visibleNames.Nodup && (e.query.scopes content dialect).any fun s ↦
        e.layout.aggregates.all fun c ↦
          (c.value (e.query.projection.items.map (dialect.valueOf s))).asInteger == some 2) =
            true := by decide +kernel
  obtain ⟨e, he, hchecks⟩ := exists_eq_ok hquery
  obtain ⟨hnames, hscopes⟩ := Bool.and_eq_true_iff.mp hchecks
  obtain ⟨s, hs, htwo⟩ := List.any_eq_true.mp hscopes
  let agg : Aggregator :=
    { value := fun function args ↦
        if function = "COUNT" then .bigInt (Int64.ofNat args.card) else .null
      ofNone := fun f ↦ by cases f <;> rfl }
  obtain ⟨table, key, grouped, htable, hkey, hgrouped, column, hcolumn, hname, hagrees⟩ :=
    aggregate_joined_eq_loaded Script he (r := tags) (m := film) (by decide) rfl rfl rfl
      (of_decide_eq_true hnames)
  cases htable
  cases hkey
  have hnamed : content.NamesColumns := by
    intro table row hrow
    rw [List.eq_of_mem_replicate hrow]
    rfl
  have hagg : content.Aggregates dialect agg (grouped.derivedAs (tags.generatedName "film")) := by
    let linked : Scope := [("film_tag", fun column ↦ if column = "" then .null else .bigInt 7)]
    let counted : Record := fun column ↦ if column = "owner_pk" then .bigInt 7 else
      if column = "aggr" then .bigInt 2 else .null
    have hsummary : (grouped.derivedAs (tags.generatedName "film")).Summarizes dialect
        [.column (.qualified "film_tag" "film_id")] [linked, linked] counted :=
      Relation.summarizes_of_key hgrouped rfl (by decide) (fun _ _ ↦ rfl) List.mem_cons_self rfl
        fun name howner haggregate ↦ (if_neg howner).trans (if_neg haggregate)
    cases hgrouped
    intro keys hkeys _ _
    cases hkeys
    refine ⟨[[linked, linked]], Query.groupedInto_of_keys (.refl _) (.cons ⟨nofun, ?_⟩ .nil)
      (List.pairwise_singleton _ (.bigInt 7)), .cons ⟨hsummary, ?_⟩ .nil⟩
    · intro s hs
      obtain rfl | rfl := List.mem_pair.mp hs <;> rfl
    · intro name function args newName hcall
      have hname : (Expr.call function args newName).resultName = some name := by
        simpa using List.find?_some hcall
      rcases List.mem_pair.mp (List.mem_of_find?_eq_some hcall) with hcolumn | hcall
      · cases hcolumn
      · cases hcall
        cases hname
        rfl
  obtain ⟨own, hown, -, v, hv, -, hloads⟩ := hagrees content dialect agg hnamed hagg s hs
  have htwo := List.all_eq_true.mp htwo column hcolumn
  rw [hv, beq_iff_eq] at htwo
  have hown : own = fun column ↦ if column = "" then .null else .bigInt 7 :=
    List.eq_of_mem_replicate hown
  obtain ⟨u, hu⟩ := hloads owner none _ rfl (hown ▸ rfl) rfl t fun q function hq ↦ by
    cases hq
    exact Script.finds rfl _
  exact ⟨e, column, _, v, _, u, he, hcolumn, hname, List.mem_map_of_mem hs, hv, htwo, rfl, hu⟩

end Session

end RelMapper
