import RelMapper.Proofs.Links.Junction
import RelMapper.Proofs.Loading.Collections
import RelMapper.Proofs.Session.Reads
namespace RelMapper

open Session

def Entity.ids (es : List Entity) : List Value :=
  es.filterMap fun e ↦ e.id.toOption

namespace EntityQuery

variable {foreign : Model} {q : Query} {key : String} {e : Entity} {es : List Entity}

theorem id_read_plain (hkey : foreign.idName = .ok key) {f : Record}
    (h : (plain foreign q).read ((foreign.fieldNames.filter (· != "")).map f) = .ok e) :
    e.id = .ok (f key) := by
  obtain ⟨hlong, rfl⟩ := read_plain_eq_ok.mp h
  have hall : foreign.fieldNames.filter (· != "") = foreign.fieldNames := by
    rw [List.length_map] at hlong
    exact List.filter_sublist.eq_of_length_le hlong
  rw [hall]
  have hzip : foreign.fieldNames.zip (foreign.fieldNames.map f) =
      foreign.fieldNames.map fun field ↦ (field, f field) := by
    rw [← List.zip_map', List.map_id']
  have hkeyed : Slots.get? (Slots.putAll (foreign.fieldNames.zip (foreign.fieldNames.map f))
      (Entity.ofModel foreign).fields) key = some (f key) := by
    rw [hzip]
    refine Slots.get?_putAll ?_ fun p hp hk ↦ ?_
    · rw [List.map_map]
      simpa using Model.mem_fieldNames_of_idName hkey
    · obtain ⟨field, -, rfl⟩ := List.mem_map.mp hp
      exact congrArg f hk
  exact Entity.id_of_get? hkey hkeyed

theorem ids_readAll (hkey : foreign.idName = .ok key) {rows : List Row} {fs : List Record}
    (hrows : rows ⊆ fs.map fun f ↦ (foreign.fieldNames.filter (· != "")).map f)
    (h : (plain foreign q).readAll rows = .ok es) :
    (∀ v ∈ Entity.ids es, ∃ f ∈ fs, f key = v) ∧
      ∀ f : Record, (foreign.fieldNames.filter (· != "")).map f ∈ rows → f key ∈ Entity.ids es := by
  constructor
  · intro v hv
    obtain ⟨e, he, hid⟩ := List.mem_filterMap.mp hv
    obtain ⟨row, hrow, hread⟩ := (mem_iff_of_mapM h).mp he
    obtain ⟨f, hf, rfl⟩ := List.mem_map.mp (hrows hrow)
    rw [id_read_plain hkey hread] at hid
    exact ⟨f, hf, Option.some.inj hid⟩
  · intro f hrow
    obtain ⟨e, hread⟩ := exists_of_mapM h hrow
    refine List.mem_filterMap.mpr ⟨e, (mem_iff_of_mapM h).mpr ⟨_, hrow, hread⟩, ?_⟩
    rw [id_read_plain hkey hread]
    rfl

end EntityQuery

structure Relation.LeadsTo (known : Registry) (r : Relation) (foreign : Model)
    (table key : String) : Prop where
  get : known.get r.foreignModel = .ok foreign
  tableName : foreign.tableName = .ok table
  idName : foreign.idName = .ok key

namespace JunctionTable

/-- The rows of the foreign table that an owner is linked to, once for each link. -/
def foreignRows (t : JunctionTable) (c : Content) (table key : String) (owner : Value) :
    List Record :=
  c.linked t.name t.ownerColumn owner t.foreignColumn table key

/-- The foreign rows stand in a table of their own, and are found by the column that the links hold
them in. -/
structure Finds (t : JunctionTable) (foreign : Model) (table key : String) : Prop where
  ne_table : t.name ≠ table
  nodup : (foreign.relations.map Relation.name).Nodup
  ownKey : foreign.reaches t.name = true → key = t.foreignColumn

end JunctionTable

variable {σ : Type} [Database σ] {t : JunctionTable} {content : σ → Content} {dialect : Dialect}
variable {m : Model} {r : Relation} {known : Registry}

/-- What the database gives for the query is among the rows that the query finds in its tables, and
is all of them if no page is asked for. -/
def Answers (content : σ → Content) (dialect : Dialect) (q : Query) : Prop :=
  ∀ d d₁ d₂ rows,
    (Database.execute (Statement.select q).sql (Statement.select q).binds).run d = (.ok (), d₁) →
    (Database.fetchAll : DatabaseM σ (List Row)).run d₁ = (.ok rows, d₂) →
    rows ⊆ q.rows (content d) dialect ∧ (q.page = none → q.rows (content d) dialect ⊆ rows)

theorem Relation.LeadsTo.unique {foreign foreign' : Model} {table table' key key' : String}
    (h : r.LeadsTo known foreign table key) (h' : r.LeadsTo known foreign' table' key') :
    foreign = foreign' ∧ table = table' ∧ key = key' := by
  obtain rfl := Except.ok.inj (h.get.symm.trans h'.get)
  exact ⟨rfl, Except.ok.inj (h.tableName.symm.trans h'.tableName),
    Except.ok.inj (h.idName.symm.trans h'.idName)⟩

theorem JunctionTable.Pairs.query (hp : t.Pairs m r) {owner : Entity} (hm : owner.model = m)
    {id : Value} (hid : owner.id = .ok id) {o : Option RelationOptions} {q : EntityQuery}
    (hq : FollowUp.ofRelation known owner r o = .ok (.many q)) :
    ∃ foreign table key, r.LeadsTo known foreign table key ∧ q = .plain foreign q.query ∧
      (o.bind RelationOptions.pageSize = none → q.query.page = none) ∧
      (t.Finds foreign table key → ∀ c dialect, q.query.rows c dialect =
        (t.foreignRows c table key id).map fun f ↦
          (foreign.fieldNames.filter (· != "")).map f) := by
  obtain ⟨a, hkind⟩ := hp.kind
  obtain ⟨foreign, table, key, ownerColumn, id', hget, htable, hkey, howner, hid', -, hplain, hpage,
    hlinked⟩ := FollowUp.ofRelation_many hkind hq
  obtain rfl := Except.ok.inj (hid.symm.trans hid')
  rw [hm, hp.idName] at howner
  obtain rfl := Except.ok.inj howner
  refine ⟨foreign, table, key, ⟨hget, htable, hkey⟩, hplain, hpage, fun hfinds c dialect ↦ ?_⟩
  rw [hlinked.rows hfinds.nodup hfinds.ne_table, FollowUp.linkColumn_eq_iff.mpr hfinds.ownKey]
  rfl

theorem Session.Shows.collection {o : FetchOptions} {s : Session σ} {e : Entity}
    (hshows : Shows content m o r s e)
    (hanswers : ∀ q, FollowUp.ofRelation s.registry e r (o.relations.get? r.name) = .ok (.many q) →
      Answers content dialect q.query)
    (hp : t.Pairs m r) (hfinds : ∀ foreign table key,
      r.LeadsTo s.registry foreign table key → t.Finds foreign table key)
    {id : Value} (hid : e.id = .ok id) (hnull : id.isNull = false) {es : List Entity}
    (hes : e.collection? r.name = some es) :
    ∃ foreign table key, r.LeadsTo s.registry foreign table key ∧
      (∀ v ∈ Entity.ids es, ∃ f ∈ t.foreignRows (content s.database) table key id, f key = v) ∧
      ((o.relations.get? r.name).bind RelationOptions.pageSize = none →
        ∀ f ∈ t.foreignRows (content s.database) table key id, f key ∈ Entity.ids es) := by
  obtain ⟨f, s₁, s₂, hf, hsame, hload⟩ := hshows.loaded es hes
  rcases load_many hload with rfl | ⟨q, rows, s₂, rfl, hfetch, hread⟩
  · obtain ⟨a, hkind⟩ := hp.kind
    rw [FollowUp.isNull_of_known hkind hf hid] at hnull
    cases hnull
  · obtain ⟨foreign, table, key, hleads, hplain, hpage, hfound⟩ := hp.query hshows.model hid hf
    obtain ⟨d, hexecute, hrows, -⟩ := run_fetch_eq_ok hfetch
    obtain ⟨hsome, hall⟩ := hanswers q hf _ _ _ _ hexecute hrows
    rw [hfound (hfinds foreign table key hleads), hsame.content] at hsome hall
    rw [hplain] at hread
    obtain ⟨hshown, hids⟩ := EntityQuery.ids_readAll hleads.idName hsome hread
    refine ⟨foreign, table, key, hleads, hshown, fun ho f hf ↦ ?_⟩
    exact hids f (hall (hpage ho) (List.mem_map_of_mem hf))

section Rows

variable {c : Content} {table key : String} {id : Value} {ids : List Value}

end Rows

end RelMapper
