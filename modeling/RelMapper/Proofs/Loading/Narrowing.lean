import RelMapper.Proofs.Loading.FollowUps
import RelMapper.Proofs.Loading.Growth
import RelMapper.Proofs.Sql.Rows
namespace RelMapper

namespace EntityQuery

variable {known : Registry} {c : Config} {m : Model} {o : FetchOptions} {id : Option Value}
variable {q : EntityQuery} {r : Relation} {table : String} {own : Record} {row : Row} {e : Entity}

/-- The row has the values of the record in all columns that the query reads of the owner's table. -/
def Holds (q : EntityQuery) (table : String) (own : Record) (row : Row) : Prop :=
  ∀ (i : Nat) (field : String),
    q.query.projection.items[i]? = some (.column (.qualified table field)) →
      row[i]? = some (own field)

theorem get?_of_holds (hm : "" ∉ m.fieldNames) (hq : primary known c m o id = .ok q)
    (htable : m.tableName = .ok table) (hrow : q.Holds table own row)
    (he : q.read row = .ok e) {field : String} (hfield : field ∈ q.layout.fields) :
    e.get? field = some (own field) := by
  obtain ⟨hlong, rfl⟩ := (read_eq_ok hq).mp he
  obtain ⟨table', fields, keys, query, d, htable', -, -, -, hitems, hd, rfl⟩ := exists_draft hq
  obtain rfl := Except.ok.inj (htable.symm.trans htable')
  have hgrows := Draft.grows_joinRelations hd
  have hfields : d.layout.fields = fields := hgrows.fields
  refine Slots.get?_putAll ?_ fun p hp hname ↦ ?_
  · rw [Layout.map_fst_zip_row hlong]
    exact hfield
  · obtain ⟨i, hi⟩ := List.mem_iff_getElem?.mp hp
    obtain ⟨hown, hvalue⟩ := List.getElem?_zip_eq_some.mp hi
    -- The columns of the owner are the first ones, and those of relations come behind them.
    have hitem : d.query.projection.items[i]? = some (.column (.qualified table p.1)) := by
      obtain ⟨rest, hrest⟩ := hgrows.items
      have hown : fields[i]? = some p.1 := hfields ▸ hown
      rw [← hrest]
      refine (List.getElem?_append_left ?_).trans ?_
      · rw [hitems hm, List.length_map]
        exact (List.getElem?_eq_some_iff.mp hown).1
      · rw [hitems hm, List.getElem?_map, hown]
        rfl
    have hheld := (hrow i p.1 hitem).symm.trans hvalue
    rw [← hname]
    exact (Option.some.inj hheld).symm

theorem get?_of_not_declared (hq : primary known c m o id = .ok q) (he : q.read row = .ok e)
    {field : String} (hfield : field ∉ m.fieldNames) : e.get? field = none := by
  obtain ⟨hlong, rfl⟩ := (read_eq_ok hq).mp he
  refine (Slots.get?_putAll_of_notMem ?_).trans (Entity.get?_ofModel_of_notMem hfield)
  rw [Layout.map_fst_zip_row hlong]
  exact fun h ↦ hfield ((suits_primary hq).fields field h)

theorem followUpKey_mem (hq : primary known c m o id = .ok q) (hr : r ∈ m.relations)
    (hneeds : r.needsFollowUp = true) (hskips : o.skips r.name = false) :
    ∃ key?, followUpKey m r = .ok key? ∧ ∀ key, key? = some key → key ∈ q.layout.fields := by
  obtain ⟨table, fields, keys, query, d, -, hkeys, hread, -, -, hd, rfl⟩ := exists_draft hq
  obtain ⟨found, hfound, hkeys⟩ := bind_eq_ok.mp hkeys
  obtain rfl := pure_eq_ok.mp hkeys
  have hasked : r ∈ m.relations.filter fun r ↦ r.needsFollowUp && !o.skips r.name := by
    simp [hr, hneeds, hskips]
  obtain ⟨key?, hkey⟩ := exists_of_mapM hfound hasked
  refine ⟨key?, hkey, fun key hsome ↦ ?_⟩
  rw [(Draft.grows_joinRelations hd).fields]
  have hmem : key? ∈ found := (mem_iff_of_mapM hfound).mpr ⟨r, hasked, hkey⟩
  exact hread (List.mem_filterMap.mpr ⟨key?, hmem, hsome⟩)

theorem keyOf_of_holds (hm : "" ∉ m.fieldNames) (hq : primary known c m o id = .ok q)
    (htable : m.tableName = .ok table) (hrow : q.Holds table own row) (he : q.read row = .ok e)
    (hr : r ∈ m.relations) (hneeds : r.needsFollowUp = true) (hskips : o.skips r.name = false) :
    ∃ key?, followUpKey m r = .ok key? ∧ e.keyOf r = .ok (key?.elim .null own) := by
  obtain ⟨key?, hkey, hread⟩ := followUpKey_mem hq hr hneeds hskips
  refine ⟨key?, hkey, ?_⟩
  have hmodel := model_of_read hq he
  rw [followUpKey] at hkey
  rw [Entity.keyOf]
  cases hkind : r.kind with
  | manyToOne foreignKey foreignColumn lookupColumn loadAll =>
    rw [hkind] at hkey
    obtain rfl := Except.ok.inj hkey
    refine congrArg Except.ok ?_
    split at hread
    · next hdeclared =>
      rw [if_pos hdeclared, get?_of_holds hm hq htable hrow he (hread foreignKey rfl)]
      rfl
    · next hdeclared =>
      have hunknown : foreignKey ∉ m.fieldNames := fun h ↦ hdeclared (Model.hasField_of_mem h)
      rw [if_neg hdeclared, get?_of_not_declared hq he hunknown]
      rfl
  | oneToMany _ _ | manyToMany _ _ _ =>
    rw [hkind] at hkey
    obtain ⟨column, hid, rfl⟩ := map_eq_ok.mp hkey
    exact Entity.id_of_get? (hmodel ▸ hid) (get?_of_holds hm hq htable hrow he (hread column rfl))

/-- Two reads of one record, one of which asks for fewer fields, load the same later. -/
theorem ofRelation_narrowed {names : List String} {n : EntityQuery} {row' : Row} {e' : Entity}
    (hm : "" ∉ m.fieldNames) (htable : m.tableName = .ok table)
    (hq : primary known c m o id = .ok q)
    (hn : primary known c m { o with fields := some names } id = .ok n)
    (hrow : q.Holds table own row) (hrow' : n.Holds table own row')
    (he : q.read row = .ok e) (he' : n.read row' = .ok e') :
    ∀ r ∈ m.relations, r.needsFollowUp = true → o.skips r.name = false →
      (∃ key?, followUpKey m r = .ok key? ∧ e.keyOf r = .ok (key?.elim .null own)) ∧
      ∀ options, FollowUp.ofRelation known e' r options = FollowUp.ofRelation known e r options := by
  intro r hr hneeds hskips
  obtain ⟨key?, hkey, hwide⟩ := keyOf_of_holds hm hq htable hrow he hr hneeds hskips
  obtain ⟨key?', hkey', hnarrow⟩ := keyOf_of_holds hm hn htable hrow' he' hr hneeds hskips
  obtain rfl := Except.ok.inj (hkey.symm.trans hkey')
  have hmodel : e'.model = e.model := (model_of_read hn he').trans (model_of_read hq he).symm
  exact ⟨⟨key?, hkey, hwide⟩, fun options ↦
    FollowUp.ofRelation_congr hmodel (hnarrow.trans hwide.symm)⟩

/-- A film of which only the title is asked for has its language and its actors all the same. -/
theorem ofRelation_narrowed_film :
    let actors : Relation := .manyToMany "actors" "Actor" "film_actor" "actor_id"
    let language : Relation := .manyToOne "language" "Language" "language_id" "language_id"
    let actor : Model := { name := "Actor", table := some "actor",
                           fields := [{ name := "actor_id", kind := .integer, primaryKey := true }] }
    let languages : Model :=
      { name := "Language", table := some "language",
        fields := [{ name := "language_id", kind := .integer, primaryKey := true }] }
    let film : Model := { name := "Film", table := some "film",
                          fields := [{ name := "film_id", kind := .integer, primaryKey := true },
                            { name := "title", kind := .string },
                            { name := "language_id", kind := .integer }],
                          relations := [actors, language] }
    let known : Registry := ⟨[actor, film, languages]⟩
    let own : Record := fun name ↦
      if name = "title" then .text "Ran" else .int (if name = "film_id" then 7 else 4)
    let row (q : EntityQuery) : Row :=
      q.query.projection.items.map fun item ↦ item.asColumn.elim .null fun c ↦ own c.name
    ∃ q n e e', primary known {} film {} none = .ok q ∧
      primary known {} film { fields := some ["title"] } none = .ok n ∧
      q.read (row q) = .ok e ∧ n.read (row n) = .ok e' ∧
      e.keyOf actors = .ok (.int 7) ∧ e.keyOf language = .ok (.int 4) ∧
      ∀ r ∈ [actors, language],
        FollowUp.ofRelation known e' r none = FollowUp.ofRelation known e r none := by
  intro actors language actor languages film known own row
  have hread : (primary known {} film {} none).toOption.any
      (fun q ↦ (q.read (row q)).toOption.any fun _ ↦ true) = true := by decide +kernel
  have hread' : (primary known {} film { fields := some ["title"] } none).toOption.any
      (fun n ↦ (n.read (row n)).toOption.any fun _ ↦ true) = true := by decide +kernel
  obtain ⟨q, hq, he⟩ := exists_eq_ok hread
  obtain ⟨e, he, -⟩ := exists_eq_ok he
  obtain ⟨n, hn, he'⟩ := exists_eq_ok hread'
  obtain ⟨e', he', -⟩ := exists_eq_ok he'
  have hholds (q : EntityQuery) : q.Holds "film" own (row q) := by
    intro i field hitem
    simp only [row, List.getElem?_map, hitem]
    rfl
  have hsame := ofRelation_narrowed (o := {}) (by decide) rfl hq hn (hholds q) (hholds n) he he'
  obtain ⟨⟨_, hactors, hactorsKey⟩, -⟩ := hsame actors (by decide) rfl rfl
  obtain ⟨⟨_, hlanguage, hlanguageKey⟩, -⟩ := hsame language (by decide) rfl rfl
  cases hactors
  cases hlanguage
  refine ⟨q, n, e, e', hq, hn, he, he', hactorsKey, hlanguageKey, fun r hr ↦ ?_⟩
  have hlazy : ∀ r ∈ film.relations, r.needsFollowUp = true := by decide
  exact (hsame r hr (hlazy r hr) rfl).2 none

end EntityQuery

end RelMapper
