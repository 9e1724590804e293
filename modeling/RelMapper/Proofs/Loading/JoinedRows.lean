import RelMapper.Proofs.Loading.Counting
import RelMapper.Proofs.Loading.Growth
import RelMapper.Proofs.Sql.LeftJoins
namespace RelMapper

variable {known : Registry} {c : Config} {m : Model} {o : FetchOptions} {id : Option Value}
variable {q : EntityQuery} {table : String} {content : Content} {dialect : Dialect} {s : Scope}

namespace Draft

theorem generatedNames_sublist {rs : List Relation} {d d' : Draft}
    (h : d.layout.aggregates = [])
    (hrun : rs.foldlM (joinRelation known m table o) d = .ok d') :
    (d'.layout.aggregates.map fun c ↦ table ++ "_" ++ c.relation).Sublist
      d'.query.source.visibleNames := by
  let P (d : Draft) : Prop := (d.layout.aggregates.map fun c ↦ table ++ "_" ++ c.relation).Sublist
    d.query.source.visibleNames
  have hnone : P d := by
    simp only [P, h]
    exact List.nil_sublist _
  refine foldlM_keeps (P := P) (fun {d r d'} _ hd hstep ↦ ?_) hnone hrun
  cases halong : r.comesAlong o with
  | false => exact joinRelation_of_not_along halong hstep ▸ hd
  | true =>
    cases joins_of_along halong hstep with
    | foreign _ _ _ _ =>
      simp only [P, leftJoin, Source.visibleNames_joinOn]
      exact hd.trans (List.sublist_append_left _ _)
    | aggregates _ _ _ _ =>
      simp only [P, leftJoin, Source.visibleNames_joinOn, List.map_append]
      exact hd.append (.refl _)

end Draft

namespace EntityQuery

theorem source_primary (hq : primary known c m o id = .ok q) : ∃ table, m.tableName = .ok table ∧
    q.query.source.base = .table { name := table } ∧
    ∀ j ∈ q.query.source.joins, j.kind = .inner ∨ j.kind = .leftOuter := by
  obtain ⟨table, asked, keys, query, d, orderBy, page, htable, -, -, hquery, hd, rfl⟩ :=
    primary_eq_ok hq
  obtain ⟨table', key, htable', -, hsource⟩ :=
    Selection.source_eq_ok (Selection.source_of_query hquery)
  obtain rfl := Except.ok.inj (htable.symm.trans htable')
  obtain ⟨joins, hextends⟩ := Draft.extends_joinRelations hd
  have hwhole : d.query.source = ⟨query.source.base, query.source.joins ++ joins⟩ :=
    hextends.source
  refine ⟨table, htable, ?_, fun j hj ↦ ?_⟩
  · rw [hwhole, hsource]
  · rw [hwhole, hsource] at hj
    obtain hj | hj := List.mem_append.mp hj
    · obtain ⟨junction, -, rfl⟩ := List.mem_map.mp hj
      exact .inl rfl
    · obtain ⟨r, -, hjoined⟩ := hextends.exists_of_mem hj
      cases hjoined <;> exact .inr rfl

theorem nodup_aggregates (hq : primary known c m o id = .ok q)
    (hnames : q.query.source.visibleNames.Nodup) :
    (q.layout.aggregates.map AggregateColumn.relation).Nodup := by
  obtain ⟨table, fields, keys, query, d, -, -, -, -, -, hd, rfl⟩ := exists_draft hq
  have hgenerated := hnames.sublist (Draft.generatedNames_sublist rfl hd)
  refine List.Nodup.of_map (fun name ↦ table ++ "_" ++ name) ?_
  rw [List.map_map]
  exact hgenerated

theorem joined_row {target : Target} {own column : String} {p : Predicate}
    (hq : primary known c m o id = .ok q) (htable : m.tableName = .ok table)
    (hnames : q.query.source.visibleNames.Nodup)
    (hj : ⟨.leftOuter, target, some (.on p)⟩ ∈ q.query.source.joins)
    (hp : p = Relation.sameColumns (.qualified table own) (.qualified target.visibleName column) ∨
      p = Relation.sameColumns (.qualified target.visibleName column) (.qualified table own))
    (hs : s ∈ q.query.scopes content dialect) :
    ∃ base ∈ content.table table, s.get? table = some base ∧
      ((∃ r ∈ target.rows content, s.get? target.visibleName = some r ∧
          (r column).equals (base own) = true) ∨
        s.get? target.visibleName = none ∧
          ∀ r ∈ target.rows content, (r column).equals (base own) = false) := by
  obtain ⟨table', htable', hbase, hkinds⟩ := source_primary hq
  obtain rfl := Except.ok.inj (htable.symm.trans htable')
  have hname : q.query.source.base.visibleName = table := by rw [hbase]; rfl
  have hrows : q.query.source.base.rows content = content.table table := by rw [hbase]; rfl
  rw [← hname] at hp
  have hrow := Source.joined_row hkinds hnames hj hp (List.mem_filter.mp hs).1
  rwa [hname, hrows] at hrow

end EntityQuery

end RelMapper
