import RelMapper.Proofs.Links.Sameness
import RelMapper.Proofs.Loading.FollowUps
import RelMapper.Proofs.Selection.Restrictions
import RelMapper.Proofs.Sql.Rows
namespace RelMapper

namespace Selection

variable {m : Model} {p : Predicate} {orderBy : Option (Column × Bool)} {page : Option Page}
variable {q : Query}

theorem sourceAndFilter_of_condition :
    ({ model := m, condition := some p, orderBy, page } : Selection).sourceAndFilter = do
      let table ← m.tableName
      let source ← (touched m p).foldlM (joinJunction m) (.ofTable table)
      return (source, some p) := rfl

theorem query_of_condition
    (h : ({ model := m, condition := some p, orderBy, page } : Selection).query = .ok q) :
    ∃ table, m.tableName = .ok table ∧
      q.projection.items = (m.fieldNames.map fun field ↦
        Expr.column (.qualified table field)).filter (fun e ↦ !e.isBlank) ∧
      q.filter = some p ∧ q.page = page ∧ (q.groupBy = none ∧ q.having = none) ∧
      (touched m p).foldlM (joinJunction m) (.ofTable table) = .ok q.source := by
  obtain ⟨table, projection, source, filter, htable, hp, hread, rfl⟩ := query_eq_ok h
  rw [sourceAndFilter_of_condition] at hread
  obtain ⟨table', htable', hread⟩ := bind_eq_ok.mp hread
  obtain rfl := Except.ok.inj (htable.symm.trans htable')
  obtain ⟨source', hsource, hread⟩ := bind_eq_ok.mp hread
  cases pure_eq_ok.mp hread
  refine ⟨table, htable, ?_, rfl, rfl, ⟨rfl, rfl⟩, hsource⟩
  rw [Projection.items_ofItems hp, Option.getD_none, Model.fieldNames, List.map_map]
  rfl

end Selection

theorem RelationOptions.apply_eq (o : Option RelationOptions) (s : Selection) : ∃ orderBy page,
    o.elim s (·.apply s) = { s with orderBy, page } ∧
      (o.bind RelationOptions.pageSize = none → page = s.page) := by
  rcases o with _ | ⟨_ | orderBy, _ | size, number, skip⟩
  · exact ⟨s.orderBy, s.page, rfl, fun _ ↦ rfl⟩
  · exact ⟨s.orderBy, s.page, rfl, fun _ ↦ rfl⟩
  · exact ⟨s.orderBy, _, rfl, nofun⟩
  · exact ⟨_, s.page, rfl, fun _ ↦ rfl⟩
  · exact ⟨_, _, rfl, nofun⟩

namespace Selection

variable {m : Model} {junction table id : String}

theorem mem_touched_columnIs {column : String} {v : Value} {name : String} :
    name ∈ touched m (.columnIs (.qualified junction column) v) ↔
      ∃ r ∈ m.relations, r.name = name ∧ r.junction = some junction := by
  have hcolumns : (Predicate.columnIs (.qualified junction column) v).columns =
      [.qualified junction column] := rfl
  rw [mem_touched, hcolumns]
  refine exists_congr fun r ↦ and_congr_right fun _ ↦ and_congr_right fun _ ↦ ?_
  simp [Column.qualified, eq_comm]

theorem contains_touched {column : String} {v : Value} :
    (((touched m (.columnIs (.qualified junction column) v)).filterMap m.junctionOf).foldl
      Filter.noted []).contains junction = m.reaches junction := by
  rw [Bool.eq_iff_iff, List.contains_iff_mem, Filter.mem_foldl_noted, List.mem_filterMap,
    Model.reaches, List.any_eq_true]
  simp only [List.not_mem_nil, false_or]
  constructor
  · rintro ⟨name, hname, hjunction⟩
    obtain ⟨r, hr, rfl, -⟩ := mem_touched_columnIs.mp hname
    exact ⟨r, hr, by simpa using hjunction⟩
  · rintro ⟨r, -, hjunction⟩
    have hjunction : m.junctionOf r.name = some junction := by simpa using hjunction
    obtain ⟨q, hq, hname, hover⟩ := Model.exists_of_junctionOf hjunction
    exact ⟨r.name, mem_touched_columnIs.mpr ⟨q, hq, hname, hover⟩, hjunction⟩

section Touched

variable {column : String} {v : Value} {s : Source}

theorem joins_touched (htable : m.tableName = .ok table) (hid : m.idName = .ok id)
    (h : (touched m (.columnIs (.qualified junction column) v)).foldlM (joinJunction m)
      (.ofTable table) = .ok s) :
    if m.reaches junction then s.JoinsOnce junction id table id
    else s.joins.filter (Join.isOf junction) = [] := by
  rw [joined_eq htable hid h, Source.JoinsOnce,
    Source.filter_ofJunctions (Filter.nodup_foldl_noted _ .nil), contains_touched]
  cases m.reaches junction <;> rfl

theorem source_touched (htable : m.tableName = .ok table) (hid : m.idName = .ok id)
    (hm : (m.relations.map Relation.name).Nodup)
    (h : (touched m (.columnIs (.qualified junction column) v)).foldlM (joinJunction m)
      (.ofTable table) = .ok s) :
    s = if m.reaches junction then ⟨.table { name := table }, [.ofJunction junction id table id]⟩
      else .ofTable table := by
  have honly : s.joins.filter (Join.isOf junction) = s.joins := by
    rw [joined_eq htable hid h, List.filter_eq_self, List.forall_mem_map]
    intro j hj
    obtain hj | hj := Filter.mem_foldl_noted.mp hj
    · cases hj
    obtain ⟨name, hname, hj⟩ := List.mem_filterMap.mp hj
    obtain ⟨r, hr, rfl, hover⟩ := mem_touched_columnIs.mp hname
    rw [Model.junctionOf_of_nodup hm hr, hover] at hj
    exact beq_iff_eq.mpr (Option.some.inj hj).symm
  have hjoins := joins_touched htable hid h
  rw [Source.JoinsOnce, honly] at hjoins
  have hbase : s = ⟨.table { name := table }, s.joins⟩ := by
    rw [joined_eq htable hid h]
  rw [hbase]
  by_cases hreaches : m.reaches junction = true
  · rw [if_pos hreaches] at hjoins ⊢
    rw [hjoins]
  · rw [if_neg hreaches] at hjoins ⊢
    rw [hjoins, Source.ofTable]

end Touched

end Selection

namespace FollowUp

open Selection

variable {foreign : Model} {r : Relation} {junction foreignKey ownerColumn table key : String}
variable {a : Option Aggregation} {id : Value} {q q' : Query}

theorem joinJunction_of_joined (hkind : r.kind = .manyToMany junction foreignKey a)
    (hjoined : q.source.joinsTable junction = true) (h : joinJunction foreign r q = .ok q') :
    q' = q := by
  rw [joinJunction, hkind] at h
  simp only [hjoined, if_true] at h
  exact (Except.ok.inj h).symm

theorem joinJunction_of_not_joined (hkind : r.kind = .manyToMany junction foreignKey a)
    (hnew : q.source.joinsTable junction = false) (h : joinJunction foreign r q = .ok q') :
    ∃ table key, foreign.tableName = .ok table ∧ foreign.idName = .ok key ∧
      q' = { q with source := ⟨q.source.base,
        q.source.joins ++ [.ofJunction junction foreignKey table key]⟩ } := by
  rw [joinJunction, hkind] at h
  simp only [hnew, Bool.false_eq_true, if_false] at h
  obtain ⟨table, htable, h⟩ := bind_eq_ok.mp h
  obtain ⟨key, hkey, h⟩ := bind_eq_ok.mp h
  exact ⟨table, key, htable, hkey, (pure_eq_ok.mp h).symm⟩

theorem exists_idName (hkind : r.kind = .manyToMany junction foreignKey a) {relations : List String}
    (hsource : relations.foldlM (Selection.joinJunction foreign) (.ofTable table) = .ok q.source)
    (h : joinJunction foreign r q = .ok q') : ∃ key, foreign.idName = .ok key := by
  -- Whoever joins the junction asks for the id: this relation, or the first that is touched.
  cases relations with
  | nil =>
    have hnew : q.source.joinsTable junction = false := by
      rw [← pure_eq_ok.mp hsource]
      rfl
    obtain ⟨-, key, -, hkey, -⟩ := joinJunction_of_not_joined hkind hnew h
    exact ⟨key, hkey⟩
  | cons relation relations => exact idName_of_joined hsource (List.cons_ne_nil _ _)

/-- The column of the junction table by which foreign rows are found: the relation's own key, unless
a relation of the foreign model is over the same junction. Then it is the column with the name of
the foreign id. -/
def linkColumn (foreign : Model) (junction foreignKey key : String) : String :=
  if foreign.reaches junction then key else foreignKey

theorem source_joinJunction (htable : foreign.tableName = .ok table)
    (hkey : foreign.idName = .ok key) (hkind : r.kind = .manyToMany junction foreignKey a)
    (hsource : (touched foreign (.columnIs (.qualified junction ownerColumn) id)).foldlM
      (Selection.joinJunction foreign) (.ofTable table) = .ok q.source)
    (h : joinJunction foreign r q = .ok q') :
    q' = { q with source := q'.source } ∧
    q'.source.JoinsOnce junction (linkColumn foreign junction foreignKey key) table key ∧
    ((foreign.relations.map Relation.name).Nodup → q'.source = ⟨.table { name := table },
      [.ofJunction junction (linkColumn foreign junction foreignKey key) table key]⟩) := by
  have honce := joins_touched htable hkey hsource
  have hwhole := fun hm ↦ source_touched htable hkey hm hsource
  rw [linkColumn]
  cases hreaches : foreign.reaches junction with
  | true =>
    rw [hreaches, if_pos rfl] at honce
    have hjoined : q.source.joinsTable junction = true := by
      have hmem : Join.ofJunction junction key table key ∈
          q.source.joins.filter (Join.isOf junction) := honce ▸ List.mem_singleton_self _
      obtain ⟨hj, hof⟩ := List.mem_filter.mp hmem
      exact List.any_eq_true.mpr ⟨_, hj, hof⟩
    obtain rfl := joinJunction_of_joined hkind hjoined h
    refine ⟨by cases q'; rfl, honce, fun hm ↦ ?_⟩
    rw [hwhole hm, hreaches, if_pos rfl]
    rfl
  | false =>
    rw [hreaches, if_neg Bool.false_ne_true] at honce
    have hnew : q.source.joinsTable junction = false := by
      rw [Source.joinsTable_eq, List.any_eq_false]
      exact List.filter_eq_nil_iff.mp honce
    obtain ⟨table', key', htable', hkey', rfl⟩ := joinJunction_of_not_joined hkind hnew h
    obtain rfl := Except.ok.inj (htable.symm.trans htable')
    obtain rfl := Except.ok.inj (hkey.symm.trans hkey')
    refine ⟨rfl, ?_, fun hm ↦ ?_⟩
    · have hof : (Join.ofJunction junction foreignKey table key).isOf junction = true :=
        beq_self_eq_true junction
      rw [Source.JoinsOnce, List.filter_append, honce, List.filter_cons_of_pos hof]
      rfl
    · rw [hwhole hm, hreaches, if_neg Bool.false_ne_true]
      rfl

variable {known : Registry} {owner : Entity} {o : Option RelationOptions} {e : EntityQuery}

/-- A query that finds the foreign rows that rows of a junction table point at by one of its
columns, where those are the rows of one owner. -/
structure FindsLinked (foreign : Model) (table key junction ownerColumn column : String)
    (id : Value) (q : Query) : Prop where
  filter : q.filter = some (.columnIs (.qualified junction ownerColumn) id)
  joinsOnce : q.source.JoinsOnce junction column table key
  ungrouped : q.groupBy = none ∧ q.having = none
  rows : (foreign.relations.map Relation.name).Nodup → junction ≠ table →
    ∀ content dialect, q.rows content dialect =
      (content.linked junction ownerColumn id column table key).map fun f ↦
        (foreign.fieldNames.filter (· != "")).map f

theorem ofRelation_manyToMany {f : FollowUp} (hkind : r.kind = .manyToMany junction foreignKey a)
    (h : ofRelation known owner r o = .ok f) :
    ∃ foreign id, known.get r.foreignModel = .ok foreign ∧ owner.id = .ok id ∧
      (id.isNull = true ∧ f = .known (ofNoOwner r) ∨
        id.isNull = false ∧ Asks known owner.model r foreign id o f) := by
  obtain ⟨foreign, id, hforeign, hid, hcases⟩ := ofRelation_eq_ok h
  rw [Entity.keyOf, hkind] at hid
  rw [ofNoKey, Relation.isManyToOne, hkind, if_neg Bool.false_ne_true] at hcases
  exact ⟨foreign, id, hforeign, hid, hcases⟩

theorem isNull_of_known (hkind : r.kind = .manyToMany junction foreignKey a)
    {data : Loaded Entity} (h : ofRelation known owner r o = .ok (.known data))
    (hid : owner.id = .ok id) : id.isNull = true := by
  obtain ⟨foreign, id', -, hid', ⟨hnull, -⟩ | ⟨-, hasks⟩⟩ := ofRelation_manyToMany hkind h
  · obtain rfl := Except.ok.inj (hid.symm.trans hid')
    exact hnull
  · cases hasks

theorem ofRelation_many (hkind : r.kind = .manyToMany junction foreignKey a)
    (h : ofRelation known owner r o = .ok (.many e)) :
    ∃ foreign table key ownerColumn id, known.get r.foreignModel = .ok foreign ∧
      foreign.tableName = .ok table ∧ foreign.idName = .ok key ∧
      owner.model.idName = .ok ownerColumn ∧ owner.id = .ok id ∧ id.isNull = false ∧
      e = .plain foreign e.query ∧ (o.bind RelationOptions.pageSize = none → e.query.page = none) ∧
      FindsLinked foreign table key junction ownerColumn
        (linkColumn foreign junction foreignKey key) id e.query := by
  obtain ⟨foreign, id, hforeign, hid, ⟨-, hknown⟩ | ⟨hnull, hasks⟩⟩ :=
    ofRelation_manyToMany hkind h
  · cases hknown
  · cases hasks with
    | @collection c q q' hone ha hc hq hq' =>
      rw [CollectionTable.ofRelation, hkind] at hc
      obtain ⟨ownerColumn, howner, hc⟩ := bind_eq_ok.mp hc
      obtain rfl := pure_eq_ok.mp hc
      obtain ⟨orderBy, page, hselection, hpage⟩ := RelationOptions.apply_eq o
        ((Selection.ofModel foreign).satisfying
          (CollectionTable.belongsTo ⟨junction, ownerColumn⟩ id))
      rw [hselection] at hq
      obtain ⟨table, htable, hitems, hfilter, hqpage, hungrouped, hsource⟩ :=
        query_of_condition hq
      obtain ⟨key, hkey⟩ := exists_idName hkind hsource hq'
      obtain ⟨hsame, honce, hwhole⟩ := source_joinJunction htable hkey hkind hsource hq'
      rw [List.filter_map] at hitems
      refine ⟨foreign, table, key, ownerColumn, id, hforeign, htable, hkey, howner, hid, hnull,
        rfl, fun ho ↦ ?_, ?_, honce, ?_, fun hm hne content dialect ↦ ?_⟩
      · exact (congrArg Query.page hsame).trans (hqpage.trans (hpage ho))
      · exact (congrArg Query.filter hsame).trans hfilter
      · exact ⟨(congrArg Query.groupBy hsame).trans hungrouped.1,
          (congrArg Query.having hsame).trans hungrouped.2⟩
      · exact Query.rows_joined content dialect hne _ (hwhole hm)
          ((congrArg Query.filter hsame).trans hfilter)
          ((congrArg (·.projection.items) hsame).trans hitems)

/-- Which column of the junction table counts shows in the rows that are found. -/
theorem exists_linked_ne (hne : junction ≠ table) (hcolumn : key ≠ foreignKey)
    (hnull : id.isNull = false) (hid : id.isNaNFree = true) : ∃ content : Content,
      (content.linked junction ownerColumn id key table key).length ≠
        (content.linked junction ownerColumn id foreignKey table key).length := by
  obtain ⟨w, hw, hwn, hs⟩ := id.exists_not_sameAs
  have hs' : w.sameAs id = false := Bool.eq_false_iff.mpr fun h ↦
    Bool.eq_false_iff.mp hs (Value.sameAs_symm h)
  -- One link, which differs in the two columns and belongs to the owner, and one foreign row with
  -- the id that the link has in `foreignKey`. The owner's column may be any of the two.
  let j : Record := fun column ↦ if column = key ↔ ownerColumn = key then id else w
  let f : Record := fun _ ↦ j foreignKey
  let content : Content := ⟨fun name ↦ if name = table then [f] else [j], fun _ ↦ []⟩
  have hself {v : Value} (hv : v.isNull = false) (hn : v.isNaNFree = true) :
      v.equals v = true := by
    rw [Value.equals, hv, Value.sameAs_self hn]
    rfl
  have hlinked (column : String) : content.linked junction ownerColumn id column table key =
      if (j column).equals (j foreignKey) then [f] else [] := by
    have htable : content.table table = [f] := if_pos rfl
    have hjunction : content.table junction = [j] := if_neg hne
    have howner : j ownerColumn = id := if_pos Iff.rfl
    rw [Content.linked, htable, hjunction, List.flatMap_singleton]
    simp only [List.filter_cons, List.filter_nil, howner, hself hnull hid, Bool.and_true, f]
    split <;> rfl
  have hforeign : (j foreignKey).equals (j foreignKey) = true := by
    simp only [j]
    split
    · exact hself hnull hid
    · exact hself hw hwn
  have hkey : (j key).equals (j foreignKey) = false := by
    have hiff : (foreignKey = key ↔ ownerColumn = key) ↔ ¬ownerColumn = key := by
      simp [Ne.symm hcolumn]
    simp only [j, hiff, true_iff]
    by_cases howner : ownerColumn = key
    · simp [howner, Value.equals, hs]
    · simp [howner, Value.equals, hs']
  refine ⟨content, ?_⟩
  rw [hlinked, hlinked, hkey, hforeign]
  exact Nat.zero_ne_one

theorem joinsOnce_iff {s : Source} {column column' : String}
    (h : s.JoinsOnce junction column table key) :
    s.JoinsOnce junction column' table key ↔ column = column' := by
  constructor
  · intro h'
    cases h.symm.trans h'
    rfl
  · rintro rfl
    exact h

theorem linkColumn_eq_iff : linkColumn foreign junction foreignKey key = foreignKey ↔
    (foreign.reaches junction = true → key = foreignKey) := by
  rw [linkColumn]
  cases foreign.reaches junction <;> simp

/-- A collection that a junction table links to its owner is read by the relation's own key, and so
is what the junction table says, exactly if the foreign model has no relation over the same junction
or its id is named like that key. -/
theorem collection_linked_iff (hkind : r.kind = .manyToMany junction foreignKey none)
    (h : ofRelation known owner r o = .ok (.many e)) :
    ∃ foreign table key ownerColumn id, known.get r.foreignModel = .ok foreign ∧
      foreign.tableName = .ok table ∧ foreign.idName = .ok key ∧
      owner.model.idName = .ok ownerColumn ∧ owner.id = .ok id ∧ id.isNull = false ∧
      FindsLinked foreign table key junction ownerColumn
        (linkColumn foreign junction foreignKey key) id e.query ∧
      (e.query.source.JoinsOnce junction foreignKey table key ↔
        (foreign.reaches junction = true → key = foreignKey)) ∧
      ((foreign.relations.map Relation.name).Nodup → junction ≠ table → id.isNaNFree = true →
        ((∀ content dialect, e.query.rows content dialect =
          (content.linked junction ownerColumn id foreignKey table key).map fun f ↦
            (foreign.fieldNames.filter (· != "")).map f) ↔
          (foreign.reaches junction = true → key = foreignKey))) := by
  obtain ⟨foreign, table, key, ownerColumn, id, hforeign, htable, hkey, howner, hid, hnull, -, -,
    hfinds⟩ := ofRelation_many hkind h
  refine ⟨foreign, table, key, ownerColumn, id, hforeign, htable, hkey, howner, hid, hnull, hfinds,
    (joinsOnce_iff hfinds.joinsOnce).trans linkColumn_eq_iff, fun hm hne hn ↦ ⟨?_, ?_⟩⟩
  · intro hrows hreaches
    by_contra hcolumn
    obtain ⟨content, hlength⟩ := exists_linked_ne hne hcolumn hnull hn
    have hrows := hrows content ⟨fun _ _ ↦ .null, fun _ _ _ ↦ none, fun _ _ ↦ true⟩
    rw [hfinds.rows hm hne, linkColumn, hreaches, if_pos rfl] at hrows
    have heq := congrArg List.length hrows
    rw [List.length_map, List.length_map] at heq
    exact hlength heq
  · intro hcolumn content dialect
    rw [hfinds.rows hm hne, linkColumn_eq_iff.mpr hcolumn]

def many? : FollowUp → Option EntityQuery
  | many q => some q
  | _ => none

/-- The sequel of a film is another film, but what is found is the film itself. -/
theorem collection_linked_sequels :
    let sequels : Relation := .manyToMany "sequels" "Film" "film_sequel" "sequel_id"
    let film : Model := { name := "Film", table := some "film",
                          fields := [{ name := "film_id", kind := .integer, primaryKey := true }],
                          relations := [sequels] }
    let owner : Entity := { Entity.ofModel film with fields := [("film_id", .bigInt 7)] }
    let sequel : Record := fun column ↦ if column = "sequel_id" then .bigInt 8 else .bigInt 7
    let content : Content :=
      ⟨fun name ↦ if name = "film" then [fun _ ↦ .bigInt 7, fun _ ↦ .bigInt 8] else [sequel],
        fun _ ↦ []⟩
    ∃ e, ofRelation ⟨[film]⟩ owner sequels none = .ok (.many e) ∧
      ¬e.query.source.JoinsOnce "film_sequel" "sequel_id" "film" "film_id" ∧
      (∀ dialect, e.query.rows content dialect = [[.bigInt 7]]) ∧
      (content.linked "film_sequel" "film_id" (.bigInt 7) "sequel_id" "film" "film_id").map
        (fun f ↦ f "film_id") = [.bigInt 8] := by
  intro sequels film owner sequel content
  have hmany : (ofRelation ⟨[film]⟩ owner sequels none).toOption.any
      (fun f ↦ f.many?.isSome) = true := by decide +kernel
  obtain ⟨f, hf, hmany⟩ := exists_eq_ok hmany
  cases f with
  | known data => cases hmany
  | one e => cases hmany
  | aggregate q function => cases hmany
  | many e =>
    obtain ⟨foreign, table, key, ownerColumn, id, hforeign, htable, hkey, howner, hid, -, hfinds,
      honce, -⟩ := collection_linked_iff rfl hf
    cases hforeign
    cases htable
    cases hkey
    cases howner
    cases hid
    have hreaches : film.reaches "film_sequel" = true := by decide
    refine ⟨e, hf, fun h ↦ absurd (honce.mp h hreaches) (by decide), fun dialect ↦ ?_, rfl⟩
    have hm : (film.relations.map Relation.name).Nodup := by decide
    exact hfinds.rows hm (by decide) content dialect

end FollowUp

end RelMapper
