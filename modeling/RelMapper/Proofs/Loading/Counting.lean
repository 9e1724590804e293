import RelMapper.Loading.Lookup
import RelMapper.Proofs.Loading.SourceNames
import RelMapper.Proofs.Selection.Qualifiers
import RelMapper.Proofs.Sql.Groups
namespace RelMapper

/-- What the statement that counts rows reports: how many rows have a value that is not null. -/
def Query.counted (content : Content) (dialect : Dialect) (q : Query) : Option Nat :=
  match q.projection.items with
  | [.call "COUNT" [e] _] =>
    some ((q.scopes content dialect).countP fun s ↦ !(dialect.valueOf s e).isNull)
  | _ => none

/-- The table that a relation brings along: the foreign row of a many-to-one relation by its keys,
or the aggregates of a collection by the owner's id. -/
inductive Relation.JoinedBy (known : Registry) (m : Model) (table : String) (r : Relation) :
    Join → Prop
  | foreign {foreignKey foreignColumn foreignTable : String} {lookupColumn newName : Option String}
      {loadAll : Bool} {foreign : Model}
      (hkind : r.kind = .manyToOne foreignKey foreignColumn lookupColumn loadAll)
      (hforeign : known.get r.foreignModel = .ok foreign)
      (htable : foreign.tableName = .ok foreignTable)
      (hname : newName = none ∨ newName = some (r.generatedName table)) :
      JoinedBy known m table r ⟨.leftOuter, .table ⟨foreignTable, newName⟩,
        some (.on (sameColumns (.qualified table foreignKey)
          (.qualified (newName.getD foreignTable) foreignColumn)))⟩
  | aggregates {a : Aggregation} {query : Query} {id : String} (hone : r.isManyToOne = false)
      (ha : r.aggregation = some a) (hquery : r.aggregateQuery known m a = .ok query)
      (hid : m.idName = .ok id) :
      JoinedBy known m table r ⟨.leftOuter, .derived (query.derivedAs (r.generatedName table)),
        some (.on (sameColumns (.qualified (r.generatedName table) ownerKeyName)
          (.qualified table id)))⟩

/-- The query finds the rows of `n`, extended on the right for the relations `along`. -/
structure Query.Extends (known : Registry) (m : Model) (table : String) (along : List Relation)
    (joins : List Join) (n q : Query) : Prop where
  joined : List.Forall₂ (Relation.JoinedBy known m table) along joins
  source : q.source = ⟨n.source.base, n.source.joins ++ joins⟩
  filter : q.filter = n.filter
  groupBy : q.groupBy = n.groupBy
  having : q.having = n.having

theorem Query.Extends.refl (known : Registry) (m : Model) (table : String) (q : Query) :
    q.Extends known m table [] [] q := by
  refine ⟨.nil, ?_, rfl, rfl, rfl⟩
  rw [List.append_nil]
  cases q.source
  rfl

theorem Query.Extends.exists_of_mem {known : Registry} {m : Model} {table : String}
    {along : List Relation} {joins : List Join} {n q : Query}
    (h : n.Extends known m table along joins q) {j : Join} (hj : j ∈ joins) :
    ∃ r ∈ along, r.JoinedBy known m table j :=
  exists_of_forall₂ h.joined hj

namespace Draft

variable {known : Registry} {m : Model} {table : String} {along : List Relation} {d d' : Draft}
variable {r : Relation} {joins : List Join} {n : Query}

theorem extends_joins (h : ∃ joins, n.Extends known m table along joins d.query)
    (hjoins : d.Joins known m table r d') :
    ∃ joins, n.Extends known m table (along ++ [r]) joins d'.query := by
  obtain ⟨joins, h⟩ := h
  have hjoin {j : Join} (hj : r.JoinedBy known m table j) :
      List.Forall₂ (Relation.JoinedBy known m table) (along ++ [r]) (joins ++ [j]) :=
    List.rel_append h.joined (.cons hj .nil)
  have hsource (j : Join) : (⟨d.query.source.base, d.query.source.joins ++ [j]⟩ : Source) =
      ⟨n.source.base, n.source.joins ++ (joins ++ [j])⟩ := by
    rw [h.source, List.append_assoc]
  cases hjoins with
  | foreign hkind hget htable hname =>
    have hname := hname ▸ (ite_eq_or_eq _ _ _).symm
    exact ⟨_, hjoin (.foreign hkind hget htable hname), hsource _, h.filter, h.groupBy, h.having⟩
  | aggregates hone ha hquery hid =>
    exact ⟨_, hjoin (.aggregates hone ha hquery hid), hsource _, h.filter, h.groupBy, h.having⟩

theorem extends_joinRelations {o : FetchOptions} {rs : List Relation}
    (hrun : rs.foldlM (joinRelation known m table o) d = .ok d') :
    ∃ joins, d.query.Extends known m table (rs.filter (·.comesAlong o)) joins d'.query := by
  let P (along : List Relation) (d' : Draft) : Prop :=
    ∃ joins, d.query.Extends known m table along joins d'.query
  have hnone : P [] d := ⟨[], .refl known m table d.query⟩
  exact along_joinRelations (P := P)
    (fun _ halong h hstep ↦ extends_joins h (joins_of_along halong hstep)) hnone hrun

end Draft

section Count

variable {known : Registry} {c : Config} {m : Model} {o : FetchOptions} {q : EntityQuery}
variable {n : Query}

theorem Query.countOf_eq_ok (h : countOf m o = .ok n) : ∃ table id, m.tableName = .ok table ∧
    m.idName = .ok id ∧ (o.restriction m).sourceAndFilter = .ok (n.source, n.filter) ∧
    n.projection.items = [.call "COUNT" [.column (.qualified table id)] none] ∧
    n.groupBy = none ∧ n.having = none := by
  rw [countOf, Selection.ofModel, o.restrict_eq] at h
  obtain ⟨table, id, projection, source, filter, htable, hid, hprojection, hread, rfl⟩ :=
    Selection.countQuery_eq_ok h
  exact ⟨table, id, htable, hid, hread, Projection.items_ofItems hprojection, rfl, rfl⟩

theorem Query.source_countOf {table : String} (htable : m.tableName = .ok table)
    (h : countOf m o = .ok n) : n.source.base = .table { name := table } ∧
      (∀ j ∈ n.source.joins, j.kind = .inner) ∧
      n.source.visibleNames = table :: (o.restriction m).junctions := by
  obtain ⟨-, -, -, -, hread, -⟩ := countOf_eq_ok h
  obtain ⟨-, source, ps, hsource, -, hr⟩ := Selection.sourceAndFilter_eq_ok.mp hread
  rw [← (Prod.mk.inj hr).1] at hsource
  obtain ⟨table', htable', hvisible⟩ := Selection.visibleNames_source hsource
  obtain rfl := Except.ok.inj (htable.symm.trans htable')
  obtain ⟨table', id, htable', -, hjoined⟩ := Selection.source_eq_ok hsource
  obtain rfl := Except.ok.inj (htable.symm.trans htable')
  refine ⟨hjoined ▸ rfl, fun j hj ↦ ?_, hvisible⟩
  rw [hjoined] at hj
  obtain ⟨junction, -, rfl⟩ := List.mem_map.mp hj
  rfl

/-- A read and its count are restricted alike, and the read only joins what its relations bring
along, each by a left join, after the tables of the count. -/
theorem EntityQuery.extends_count (hq : primary known c m o none = .ok q)
    (hn : Query.countOf m o = .ok n) : ∃ table joins, m.tableName = .ok table ∧
      n.Extends known m table (m.relations.filter (·.comesAlong o)) joins q.query := by
  obtain ⟨table, asked, keys, query, d, orderBy, page, htable, -, -, hquery, hd, rfl⟩ :=
    primary_eq_ok hq
  obtain ⟨-, -, -, -, hread, -, hgroupBy, hhaving⟩ := Query.countOf_eq_ok hn
  obtain ⟨joins, h⟩ := Draft.extends_joinRelations hd
  obtain ⟨hread', hgroupBy', hhaving'⟩ := Selection.sourceAndFilter_of_query hquery
  obtain ⟨hsource, hfilter⟩ := Prod.mk.inj (Except.ok.inj (hread'.symm.trans hread))
  refine ⟨table, joins, htable, h.joined, ?_, h.filter.trans hfilter,
    h.groupBy.trans (hgroupBy'.trans hgroupBy.symm), h.having.trans (hhaving'.trans hhaving.symm)⟩
  exact hsource ▸ h.source

/-- Many-to-one relations find their foreign rows by a column that no two of these agree in. -/
def Content.HasKeys (content : Content) (known : Registry) (rs : List Relation) : Prop :=
  ∀ r ∈ rs, ∀ foreignKey foreignColumn lookupColumn loadAll foreign foreignTable,
    r.kind = .manyToOne foreignKey foreignColumn lookupColumn loadAll →
    known.get r.foreignModel = .ok foreign → foreign.tableName = .ok foreignTable →
    IsKey foreignColumn (content.table foreignTable)

variable {content : Content} {dialect : Dialect}

theorem Relation.JoinedBy.isSingle {rs : List Relation} {r : Relation} {table : String} {j : Join}
    (h : r.JoinedBy known m table j) (hr : r ∈ rs) (hname : j.target.visibleName ≠ table)
    (hkeys : content.HasKeys known rs)
    (hderives : ∀ d, j.target = .derived d → content.Derives dialect d) :
    j.IsSingle content dialect := by
  cases h with
  | foreign hkind hforeign htable _ =>
    have hkey := hkeys r hr _ _ _ _ _ _ hkind hforeign htable
    exact Join.isSingle_of_isKey (.inl rfl) hname hkey
  | aggregates _ _ hquery _ =>
    exact Join.isSingle_of_isKey (.inr rfl) hname (isKey_ownerKeyName hquery (hderives _ rfl))

/-- A read without its page finds as many rows as its count reports, if names, keys and restrictions
mean what they should: no table is read under the name of another one, ids are not null, foreign
rows have keys, and rows are restricted only by tables that both statements read. -/
theorem EntityQuery.rows_counted (hq : primary known c m o none = .ok q)
    (hn : Query.countOf m o = .ok n) : ∃ table id joins, m.tableName = .ok table ∧
      m.idName = .ok id ∧
      n.Extends known m table (m.relations.filter (·.comesAlong o)) joins q.query ∧
      n.groupBy = none ∧ n.having = none ∧
      ∀ content dialect, q.query.source.visibleNames.Nodup →
        (∀ row ∈ content.table table, (row id).isNull = false) →
        content.HasKeys known (m.relations.filter (·.comesAlong o)) →
        (∀ j ∈ joins, ∀ d, j.target = .derived d → content.Derives dialect d) →
        (∀ p, n.filter = some p → p.TellsOf dialect n.source.visibleNames) →
        n.counted content dialect = some (q.query.rows content dialect).length := by
  obtain ⟨table, id, htable, hid, -, hitems, hgroupBy, hhaving⟩ := Query.countOf_eq_ok hn
  obtain ⟨table', joins, htable', h⟩ := extends_count hq hn
  obtain rfl := Except.ok.inj (htable.symm.trans htable')
  refine ⟨table, id, joins, htable, hid, h, hgroupBy, hhaving,
    fun content dialect hnames hids hkeys hderives htells ↦ ?_⟩
  obtain ⟨hbase, hinner, -⟩ := Query.source_countOf htable hn
  have hsingle : ∀ j ∈ joins, j.IsSingle content dialect := by
    intro j hj
    have hname : j.target.visibleName ≠ table := by
      rw [h.source, hbase, Source.visibleNames, List.nodup_cons] at hnames
      exact fun heq ↦ hnames.1 (List.mem_map.mpr ⟨j, List.mem_append_right _ hj, heq⟩)
    obtain ⟨r, hr, hjoined⟩ := h.exists_of_mem hj
    exact hjoined.isSingle hr hname hkeys (hderives j hj)
  have hlength := Query.length_scopes_eq h.source h.filter hinner hsingle hnames htells
  have hcounted : ∀ s ∈ n.scopes content dialect,
      (!(dialect.valueOf s (.column (.qualified table id))).isNull) = true := by
    intro s hs
    obtain ⟨-, row, hrow, hget⟩ := Source.keys_scopes_inner hinner (List.mem_filter.mp hs).1
    rw [hbase] at hrow hget
    have hget : s.get? table = some row := hget
    rw [dialect.valueOf_qualified, hget, Option.elim_some, hids row hrow]
    rfl
  rw [Query.counted, hitems, Query.rows, List.length_map, hlength]
  exact congrArg some (List.countP_eq_length.mpr hcounted)

/-- Two of three films are counted by an actor, with the languages and the numbers of tags that a
list of them has besides. -/
theorem EntityQuery.rows_counted_film :
    let actors : Relation := .manyToMany "actors" "Actor" "film_actor" "actor_id"
    let language : Relation :=
      (Relation.manyToOne "language" "Language" "language_id" "language_id").withLazy false
    let tags : Relation :=
      ((Relation.manyToMany "tags" "Tag" "film_tag" "tag_id").aggregated ⟨.count, none⟩).withLazy
        false
    let languages : Model :=
      { name := "Language", table := some "language",
        fields := [{ name := "language_id", kind := .integer, primaryKey := true }] }
    let film : Model := { name := "Film", table := some "film",
                          fields := [{ name := "film_id", kind := .integer, primaryKey := true },
                            { name := "language_id", kind := .integer }],
                          relations := [actors, language, tags] }
    let o : FetchOptions :=
      { filters := some [.manyToMany "Film" "actors" (.bigInt 3)], pageSize := some 1 }
    let row (column : String) (v : Value) (other : String) (w : Value) : Record :=
      fun name ↦ if name = column then v else if name = other then w else .null
    let tables : List (String × List Record) :=
      [("film", [row "film_id" (.bigInt 7) "language_id" (.bigInt 1),
          row "film_id" (.bigInt 8) "language_id" (.bigInt 2),
          row "film_id" (.bigInt 9) "language_id" (.bigInt 2)]),
        ("film_actor", [row "film_id" (.bigInt 7) "actor_id" (.bigInt 3),
          row "film_id" (.bigInt 7) "actor_id" (.bigInt 4),
          row "film_id" (.bigInt 8) "actor_id" (.bigInt 3),
          row "film_id" (.bigInt 9) "actor_id" (.bigInt 4)]),
        ("language", [row "language_id" (.bigInt 1) "name" (.text "English"),
          row "language_id" (.bigInt 2) "name" (.text "French")]),
        ("film_tag", [row "film_id" (.bigInt 7) "tag_id" (.bigInt 1),
          row "film_id" (.bigInt 7) "tag_id" (.bigInt 2),
          row "film_id" (.bigInt 9) "tag_id" (.bigInt 1)])]
    let content : Content :=
      { table := fun name ↦ (tables.lookup name).getD [],
        derived := fun _ ↦ [row "owner_pk" (.bigInt 7) "aggr" (.bigInt 2),
          row "owner_pk" (.bigInt 9) "aggr" (.bigInt 1)] }
    let dialect : Dialect :=
      { value := fun _ _ ↦ .null, compare := fun _ _ _ ↦ none, sharesColumns := fun _ _ ↦ false }
    ∃ q n, primary ⟨[film, languages]⟩ {} film o none = .ok q ∧ Query.countOf film o = .ok n ∧
      n.counted content dialect = some 2 ∧ (q.query.rows content dialect).length = 2 := by
  intro actors language tags languages film o row tables content dialect
  have hnames : (primary ⟨[film, languages]⟩ {} film o none).toOption.any
      (fun q ↦ decide q.query.source.visibleNames.Nodup) = true := by decide +kernel
  have hcount : (Query.countOf film o).toOption.any
      (fun n ↦ n.counted content dialect == some 2) = true := by decide +kernel
  obtain ⟨q, hq, hnames⟩ := exists_eq_ok hnames
  obtain ⟨n, hn, htwo⟩ := exists_eq_ok hcount
  obtain ⟨table, id, joins, htable, hid, h, -, -, hrows⟩ := rows_counted hq hn
  cases htable
  cases hid
  have hids : ∀ row ∈ content.table "film", (row "film_id").isNull = false := by decide +kernel
  have halong : ∀ r ∈ film.relations.filter (·.comesAlong o), r = language ∨ r = tags :=
    fun r hr ↦ List.mem_pair.mp hr
  have hkeys : content.HasKeys ⟨[film, languages]⟩ (film.relations.filter (·.comesAlong o)) := by
    intro r hr _ _ _ _ _ _ hkind hforeign htable
    obtain rfl | rfl := halong r hr
    · cases hkind
      cases hforeign
      cases htable
      have hapart : (Value.bigInt 1).equals (.bigInt 2) = false := by decide +kernel
      exact List.pairwise_pair.mpr hapart
    · cases hkind
  have htells : ∀ p, n.filter = some p → p.TellsOf dialect n.source.visibleNames := by
    intro p hp
    obtain ⟨-, -, -, -, hread, -⟩ := Query.countOf_eq_ok hn
    obtain ⟨-, source, ps, -, hps, hr⟩ := Selection.sourceAndFilter_eq_ok.mp hread
    cases hps
    cases hp.symm.trans (Prod.mk.inj hr).2
    obtain ⟨-, -, hvisible⟩ := Query.source_countOf rfl hn
    have hmem : "film_actor" ∈ n.source.visibleNames := hvisible ▸ by decide
    exact ⟨hmem, trivial⟩
  have hderives : ∀ j ∈ joins, ∀ d, j.target = .derived d → content.Derives dialect d := by
    intro j hj d hd
    obtain ⟨r, hr, hjoined⟩ := h.exists_of_mem hj
    cases hjoined with
    | foreign => cases hd
    | @aggregates _ query _ hone ha hquery hid =>
      obtain rfl : r = tags := (halong r hr).resolve_left fun h ↦ by rw [h] at hone; cases hone
      cases ha
      cases hd
      have hsummary {g : List Scope} {s : Scope} (hs : s ∈ g) {v : Value}
          (hv : v = dialect.valueOf s (.column (.qualified "film_tag" "film_id"))) (w : Value) :
          (query.derivedAs (tags.generatedName "film")).Summarizes dialect
            [.column (.qualified "film_tag" "film_id")] g (row "owner_pk" v "aggr" w) :=
        Relation.summarizes_of_key hquery rfl (by decide) (fun _ _ ↦ rfl) hs hv
          fun name howner haggregate ↦ (if_neg howner).trans (if_neg haggregate)
      cases hquery
      intro keys hkeys _ _
      cases hkeys
      let tagged (id tag : Int64) : Scope :=
        [("film_tag", row "film_id" (.bigInt id) "tag_id" (.bigInt tag))]
      have hapart : [Value.bigInt 7, .bigInt 9].Pairwise fun v w ↦ ¬v.Alike w :=
        List.pairwise_pair.mpr fun hsame ↦ by
          rw [Value.alike_iff rfl] at hsame
          revert hsame
          decide +kernel
      refine ⟨[[tagged 7 1, tagged 7 2], [tagged 9 1]],
        Query.groupedInto_of_keys (.refl _) (.cons ⟨nofun, ?_⟩ (.cons ⟨nofun, ?_⟩ .nil)) hapart,
        .cons (hsummary List.mem_cons_self rfl _) (.cons (hsummary List.mem_cons_self rfl _) .nil)⟩
      · intro s hs
        obtain rfl | rfl := List.mem_pair.mp hs <;> rfl
      · intro s hs
        rw [List.mem_singleton.mp hs]
        rfl
  have hall := hrows content dialect (of_decide_eq_true hnames) hids hkeys hderives htells
  have htwo : n.counted content dialect = some 2 := by simpa using htwo
  exact ⟨q, n, hq, hn, htwo, (Option.some.inj (htwo.symm.trans hall)).symm⟩

def Query.InScope (q : Query) : Prop :=
  ∀ p, q.filter = some p → ∀ table, p.Names table → table ∈ q.source.visibleNames

/-- What is in scope is decided by the tables that the options themselves name. All others come from
fields and filters, and are read by the count and by what extends it. -/
theorem Query.inScope_iff {q : Query} (hn : countOf m o = .ok n) (hfilter : q.filter = n.filter)
    (hvisible : n.source.visibleNames ⊆ q.source.visibleNames) :
    q.InScope ↔ ∀ table, o.Mentions m table → table ∈ q.source.visibleNames := by
  obtain ⟨own, -, hown, -, hread, -⟩ := countOf_eq_ok hn
  obtain ⟨-, source, ps, -, hps, hr⟩ := Selection.sourceAndFilter_eq_ok.mp hread
  have hconjunction : q.filter = Predicate.conjunction ps := hfilter.trans (Prod.mk.inj hr).2
  obtain ⟨-, -, hnames⟩ := source_countOf hown hn
  rw [hnames, List.cons_subset] at hvisible
  constructor
  · intro h table hmentions
    obtain ⟨p, hp, hnamed⟩ := hmentions.exists_names hown hps
    obtain ⟨all, hall⟩ : ∃ all, Predicate.conjunction ps = some all := by
      obtain ⟨first, rest, rfl⟩ := List.exists_cons_of_ne_nil (List.ne_nil_of_mem hp)
      exact ⟨_, rfl⟩
    exact h all (hconjunction.trans hall) table
      ((Predicate.names_conjunction hall).mpr ⟨p, hp, hnamed⟩)
  · intro h all hall table hnamed
    obtain ⟨p, hp, hnamed⟩ :=
      (Predicate.names_conjunction (hconjunction.symm.trans hall)).mp hnamed
    obtain rfl | hjunction | hmentions := FetchOptions.mentions_of_names hown hps hp hnamed
    · exact hvisible.1
    · exact hvisible.2 hjunction
    · exact h table hmentions

/-- A count of what was read in scope is in scope exactly if no table that the options name is read
only because a relation brings it along. -/
theorem EntityQuery.count_inScope_iff (hq : primary known c m o none = .ok q)
    (hn : Query.countOf m o = .ok n) : ∃ table joins, m.tableName = .ok table ∧
      n.Extends known m table (m.relations.filter (·.comesAlong o)) joins q.query ∧
      (q.query.InScope → (n.InScope ↔ ∀ j ∈ joins,
        o.Mentions m j.target.visibleName → j.target.visibleName ∈ n.source.visibleNames)) ∧
      ((m.relations.map Relation.name).Nodup → ∀ name, name ∈ n.source.visibleNames ↔
        name = table ∨ m.Joins o.condition o.filters name) := by
  obtain ⟨table, joins, htable, h⟩ := extends_count hq hn
  have hvisible : q.query.source.visibleNames =
      n.source.visibleNames ++ joins.map fun j ↦ j.target.visibleName :=
    h.source ▸ n.source.visibleNames_append joins
  have hlist := Query.inScope_iff hn h.filter (hvisible ▸ List.subset_append_left _ _)
  have hcount := Query.inScope_iff hn rfl (List.Subset.refl _)
  refine ⟨table, joins, htable, h, fun hscope ↦ hcount.trans ⟨fun hall j _ ↦ hall _, ?_⟩, ?_⟩
  · intro hjoins name hmentions
    rw [hlist, hvisible] at hscope
    refine (List.mem_append.mp (hscope name hmentions)).elim id fun hname ↦ ?_
    obtain ⟨j, hj, rfl⟩ := List.mem_map.mp hname
    exact hjoins j hj hmentions
  · intro hm name
    obtain ⟨-, -, hnames⟩ := Query.source_countOf htable hn
    rw [hnames, List.mem_cons]
    exact or_congr_right (Selection.mem_junctions (s := o.restriction m) hm)

/-- Films are restricted by the name of a language that only the list reads. -/
theorem EntityQuery.count_inScope_film :
    let language : Model :=
      { name := "Language", table := some "language",
        fields := [{ name := "language_id", kind := .integer, primaryKey := true },
          { name := "name", kind := .string }] }
    let film : Model := { name := "Film", table := some "film",
                          fields := [{ name := "film_id", kind := .integer, primaryKey := true },
                            { name := "language_id", kind := .integer }],
                          relations := [(Relation.manyToOne "language" "Language" "language_id"
                            "language_id").withLazy false] }
    let english : Predicate := .columnIs (.qualified "language" "name") (.text "English")
    let o : FetchOptions := { condition := some english }
    ∃ q n, primary ⟨[film, language]⟩ {} film o none = .ok q ∧ Query.countOf film o = .ok n ∧
      q.query.InScope ∧ ¬n.InScope := by
  intro language film english o
  have hlist : (primary ⟨[film, language]⟩ {} film o none).toOption.any
      (fun q ↦ q.query.source.visibleNames == ["film", "language"]) = true := by decide +kernel
  have hcount : (Query.countOf film o).toOption.any
      (fun n ↦ n.source.visibleNames == ["film"]) = true := by decide +kernel
  obtain ⟨q, hq, hlist⟩ := exists_eq_ok hlist
  obtain ⟨n, hn, hcount⟩ := exists_eq_ok hcount
  have hlist : q.query.source.visibleNames = ["film", "language"] := by simpa using hlist
  have hcount : n.source.visibleNames = ["film"] := by simpa using hcount
  obtain ⟨table, joins, htable, h, hscope, -⟩ := count_inScope_iff hq hn
  have hinScope : q.query.InScope := by
    refine (Query.inScope_iff hn h.filter (by simp [hlist, hcount])).mpr fun name hname ↦ ?_
    cases hname with
    | condition hp hname =>
      cases hp
      rw [← Option.some.inj (Predicate.names_compare_column.mp hname), hlist]
      decide
    | equality he => cases he
    | search htext => cases htext
  have hmentions : o.Mentions film "language" :=
    .condition rfl (Predicate.names_compare_column.mpr rfl)
  have hjoins : "language" ∈ joins.map fun j ↦ j.target.visibleName := by
    have hvisible := h.source ▸ n.source.visibleNames_append joins
    rw [hlist, hcount, List.singleton_append] at hvisible
    rw [← (List.cons.inj hvisible).2]
    exact List.mem_singleton_self _
  obtain ⟨j, hj, hname⟩ := List.mem_map.mp hjoins
  refine ⟨q, n, hq, hn, hinScope, fun hn' ↦ ?_⟩
  have hread := (hscope hinScope).mp hn' j hj (hname ▸ hmentions)
  rw [hname, hcount] at hread
  exact absurd hread (by decide)

end Count

end RelMapper
