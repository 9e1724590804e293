import RelMapper.Loading.Eager
import RelMapper.Proofs.Loading.Positions
import RelMapper.Proofs.Selection.Restrictions
namespace RelMapper

def Relation.comesAlong (o : FetchOptions) (r : Relation) : Bool :=
  !r.lazy && !o.skips r.name && (r.isManyToOne || r.aggregation.isSome)

theorem Relation.comesAlong_iff {o : FetchOptions} {r : Relation} : r.comesAlong o = true ↔
    r.lazy = false ∧ o.skips r.name = false ∧
      (r.isManyToOne = true ∨ r.aggregation.isSome = true) := by
  simp [comesAlong, and_assoc]

def RelatedColumns.AreOf (known : Registry) (m : Model) (table : String) (joins : List Join)
    (c : RelatedColumns) (name : String) : Prop :=
  ∃ r ∈ m.relations, ∃ foreignKey foreignColumn lookupColumn loadAll foreignTable newName,
    r.name = c.relation ∧ r.kind = .manyToOne foreignKey foreignColumn lookupColumn loadAll ∧
    known.get r.foreignModel = .ok c.model ∧ c.model.tableName = .ok foreignTable ∧
    name = newName.getD foreignTable ∧
    ⟨.leftOuter, .table ⟨foreignTable, newName⟩, some (.on (Relation.sameColumns
      (.qualified table foreignKey) (.qualified name foreignColumn)))⟩ ∈ joins

def AggregateColumn.IsOf (known : Registry) (m : Model) (table : String) (joins : List Join)
    (c : AggregateColumn) (name : String) : Prop :=
  ∃ r ∈ m.relations, ∃ a query id,
    r.name = c.relation ∧ r.aggregation = some a ∧ a.function = c.function ∧
    r.aggregateQuery known m a = .ok query ∧ m.idName = .ok id ∧
    ⟨.leftOuter, .derived (query.derivedAs name), some (.on (Relation.sameColumns
      (.qualified name Relation.ownerKeyName) (.qualified table id)))⟩ ∈ joins

/-- The item of a projection that is read as the slot says. -/
def Slot.StandsFor (known : Registry) (m : Model) (table : String) (joins : List Join) :
    Slot → Expr → Prop
  | own field, e => e = .column (.qualified table field)
  | related c field, e =>
    ∃ name, c.AreOf known m table joins name ∧ e = .column (.qualified name field)
  | aggregate c, e => ∃ name, c.IsOf known m table joins name ∧
    e = .column (.qualified name Relation.aggregateName)

theorem Slot.StandsFor.mono {known : Registry} {m : Model} {table : String}
    {joins joins' : List Join} (hjoins : joins ⊆ joins') {slot : Slot} {e : Expr}
    (h : slot.StandsFor known m table joins e) : slot.StandsFor known m table joins' e := by
  cases slot with
  | own field => exact h
  | related c field =>
    obtain ⟨name, ⟨r, hr, fk, fc, lookup, all, ft, newName, h₁, h₂, h₃, h₄, h₅, hj⟩, he⟩ := h
    exact ⟨name, ⟨r, hr, fk, fc, lookup, all, ft, newName, h₁, h₂, h₃, h₄, h₅, hjoins hj⟩, he⟩
  | aggregate c =>
    obtain ⟨name, ⟨r, hr, a, query, id, h₁, h₂, h₃, h₄, h₅, hj⟩, he⟩ := h
    exact ⟨name, ⟨r, hr, a, query, id, h₁, h₂, h₃, h₄, h₅, hjoins hj⟩, he⟩

structure Model.HasDistinctFields (m : Model) : Prop where
  nodup : m.fieldNames.Nodup
  nonempty : "" ∉ m.fieldNames

namespace Draft

/-- What has been laid out so far: the owner's fields, and what comes with the relations `along`.
Every item has one place that it is read from, and the place says what the item is. -/
structure Fits (known : Registry) (m : Model) (table : String) (fields : List String)
    (along : List Relation) (d : Draft) : Prop where
  fields : d.layout.fields = fields
  relations : d.layout.relationNames.Perm (along.map Relation.name)
  related : ∀ c ∈ d.layout.related,
    ∃ r ∈ along, r.isManyToOne = true ∧ known.get r.foreignModel = .ok c.model
  covers : (d.layout.positions.map Prod.snd).Perm (List.range d.query.projection.items.length)
  stands : ∀ p ∈ d.layout.positions, ∃ e, d.query.projection.items[p.2]? = some e ∧
    p.1.StandsFor known m table d.query.source.joins e

variable {known : Registry} {m : Model} {table : String} {fields : List String}
variable {along : List Relation} {d d' : Draft} {r : Relation}

theorem joinRelation_of_not_along {o : FetchOptions} (halong : r.comesAlong o = false)
    (hrun : d.joinRelation known m table o r = .ok d') : d' = d := by
  rw [joinRelation] at hrun
  split at hrun
  · exact (Except.ok.inj hrun).symm
  · next hskip =>
    obtain ⟨hlazy, hskips⟩ : r.lazy = false ∧ o.skips r.name = false := by simpa using hskip
    rw [Relation.comesAlong, hlazy, hskips] at halong
    split at hrun
    · next hkind => simp [Relation.isManyToOne, hkind] at halong
    · next ha _ => simp [ha] at halong
    · exact (Except.ok.inj hrun).symm

theorem joinRelation_of_along (known : Registry) (m : Model) (table : String) (d : Draft)
    {o : FetchOptions} (halong : r.comesAlong o = true) :
    (∃ foreignKey foreignColumn lookupColumn loadAll,
      r.kind = .manyToOne foreignKey foreignColumn lookupColumn loadAll ∧
        d.joinRelation known m table o r =
          d.joinForeign known table r foreignKey foreignColumn) ∨
    ∃ a, r.isManyToOne = false ∧ r.aggregation = some a ∧
      d.joinRelation known m table o r = d.joinAggregate known m table r a := by
  obtain ⟨hlazy, hskips, hwhat⟩ := Relation.comesAlong_iff.mp halong
  rw [joinRelation, hlazy, hskips]
  cases hkind : r.kind with
  | manyToOne foreignKey foreignColumn lookupColumn loadAll =>
    exact .inl ⟨foreignKey, foreignColumn, lookupColumn, loadAll, rfl, rfl⟩
  | oneToMany _ a | manyToMany _ _ a =>
    simp only [Relation.isManyToOne, Relation.aggregation, hkind, Bool.false_eq_true,
      false_or] at hwhat ⊢
    obtain ⟨a, rfl⟩ := Option.isSome_iff_exists.mp hwhat
    exact .inr ⟨a, trivial, rfl, rfl⟩

/-- What a relation that comes along makes of a draft: a foreign row is joined by the keys of the
relation, and aggregates by the owner's id. -/
inductive Joins (known : Registry) (m : Model) (table : String) (d : Draft) (r : Relation) :
    Draft → Prop
  | foreign {foreignKey foreignColumn foreignTable : String} {lookupColumn newName : Option String}
      {loadAll : Bool} {foreign : Model}
      (hkind : r.kind = .manyToOne foreignKey foreignColumn lookupColumn loadAll)
      (hget : known.get r.foreignModel = .ok foreign)
      (htable : foreign.tableName = .ok foreignTable)
      (hname : newName =
        if d.names.contains foreignTable then some (table ++ "_" ++ r.name) else none) :
      Joins known m table d r
        { d.leftJoin (newName.getD foreignTable) (.table ⟨foreignTable, newName⟩)
            (Relation.sameColumns (.qualified table foreignKey)
              (.qualified (newName.getD foreignTable) foreignColumn))
            (foreign.fieldNames.map fun field ↦
              .column (.qualified (newName.getD foreignTable) field)) with
          layout := { d.layout with
            related := d.layout.related ++ [⟨r.name, foreign, d.query.projection.items.length⟩] } }
  | aggregates {a : Aggregation} {query : Query} {id : String} (hone : r.isManyToOne = false)
      (ha : r.aggregation = some a) (hquery : r.aggregateQuery known m a = .ok query)
      (hid : m.idName = .ok id) :
      Joins known m table d r
        { d.leftJoin (table ++ "_" ++ r.name) (.derived (query.derivedAs (table ++ "_" ++ r.name)))
            (Relation.sameColumns (.qualified (table ++ "_" ++ r.name) Relation.ownerKeyName)
              (.qualified table id))
            [.column (.qualified (table ++ "_" ++ r.name) Relation.aggregateName)] with
          layout := { d.layout with
            aggregates :=
              d.layout.aggregates ++ [⟨r.name, d.query.projection.items.length, a.function⟩] } }

theorem joins_of_along {o : FetchOptions} (halong : r.comesAlong o = true)
    (hrun : d.joinRelation known m table o r = .ok d') : d.Joins known m table r d' := by
  obtain ⟨foreignKey, foreignColumn, lookupColumn, loadAll, hkind, hjoin⟩ | ⟨a, hone, ha, hjoin⟩ :=
    joinRelation_of_along known m table d halong
  · rw [hjoin] at hrun
    obtain ⟨foreign, hget, hrun⟩ := bind_eq_ok.mp hrun
    obtain ⟨foreignTable, htable, hrun⟩ := bind_eq_ok.mp hrun
    obtain rfl := pure_eq_ok.mp hrun
    exact .foreign hkind hget htable rfl
  · rw [hjoin] at hrun
    obtain ⟨query, hquery, hrun⟩ := bind_eq_ok.mp hrun
    obtain ⟨id, hid, hrun⟩ := bind_eq_ok.mp hrun
    obtain rfl := pure_eq_ok.mp hrun
    exact .aggregates hone ha hquery hid

theorem along_joinRelations {o : FetchOptions} {P : List Relation → Draft → Prop}
    {rs : List Relation}
    (hstep : ∀ {along d d' r}, r ∈ rs → r.comesAlong o = true → P along d →
      d.joinRelation known m table o r = .ok d' → P (along ++ [r]) d')
    (h : P along d) (hrun : rs.foldlM (Draft.joinRelation known m table o) d = .ok d') :
    P (along ++ rs.filter (·.comesAlong o)) d' := by
  induction rs generalizing along d with
  | nil =>
    obtain rfl := pure_eq_ok.mp hrun
    rw [List.filter_nil, List.append_nil]
    exact h
  | cons r rs ih =>
    rw [List.foldlM_cons] at hrun
    obtain ⟨d₁, hd, hrest⟩ := bind_eq_ok.mp hrun
    cases halong : r.comesAlong o with
    | true =>
      have hall := ih (fun hr ↦ hstep (List.mem_cons_of_mem r hr))
        (hstep List.mem_cons_self halong h hd) hrest
      rwa [List.append_assoc, List.singleton_append, ← List.filter_cons_of_pos halong] at hall
    | false =>
      obtain rfl := joinRelation_of_not_along halong hd
      rw [List.filter_cons_of_neg (by rw [halong]; exact Bool.false_ne_true)]
      exact ih (fun hr ↦ hstep (List.mem_cons_of_mem r hr)) h hrest

theorem Fits.extend (h : Fits known m table fields along d) (new : List (Slot × Expr))
    (hfields : d'.layout.fields = d.layout.fields)
    (hnames : d'.layout.relationNames.Perm (d.layout.relationNames ++ [r.name]))
    (hrelated : ∀ c ∈ d'.layout.related, c ∈ d.layout.related ∨
      r.isManyToOne = true ∧ known.get r.foreignModel = .ok c.model)
    (hpositions : d'.layout.positions.Perm
      (d.layout.positions ++ (new.map Prod.fst).zipIdx d.query.projection.items.length))
    (hitems : d'.query.projection.items = d.query.projection.items ++ new.map Prod.snd)
    (hjoins : d.query.source.joins ⊆ d'.query.source.joins)
    (hnew : ∀ p ∈ new, p.1.StandsFor known m table d'.query.source.joins p.2) :
    Fits known m table fields (along ++ [r]) d' where
  fields := hfields.trans h.fields
  relations := by
    rw [List.map_append]
    exact hnames.trans (h.relations.append_right _)
  related := by
    intro c hc
    rcases hrelated c hc with hc | hc
    · obtain ⟨r, hr, h⟩ := h.related c hc
      exact ⟨r, List.mem_append_left _ hr, h⟩
    · exact ⟨r, List.mem_append_right _ (List.mem_singleton_self r), hc⟩
  covers := by
    -- The new places are numbered on from where the old items end.
    have hsnd : (d'.layout.positions.map Prod.snd).Perm (d.layout.positions.map Prod.snd ++
        List.range' d.query.projection.items.length new.length) := by
      have hmap := hpositions.map Prod.snd
      rwa [List.map_append, List.zipIdx_map_snd, List.length_map] at hmap
    rw [hitems, List.length_append, List.length_map, List.range_add, ← List.range'_eq_map_range]
    exact hsnd.trans (h.covers.append_right _)
  stands := by
    intro p hp
    rcases List.mem_append.mp (hpositions.mem_iff.mp hp) with hp | hp
    · obtain ⟨e, he, hs⟩ := h.stands p hp
      refine ⟨e, ?_, hs.mono hjoins⟩
      rw [hitems, List.getElem?_append_left]
      · exact he
      · exact (List.getElem?_eq_some_iff.mp he).1
    · obtain ⟨slot, i⟩ := p
      obtain ⟨hi, hslot⟩ := List.mem_zipIdx_iff_le_and_getElem?_sub.mp hp
      rw [List.getElem?_map] at hslot
      obtain ⟨⟨slot, e⟩, hat, rfl⟩ := Option.map_eq_some_iff.mp hslot
      refine ⟨e, ?_, hnew _ (List.mem_of_getElem? hat)⟩
      rw [hitems, List.getElem?_append_right hi, List.getElem?_map, hat]
      rfl

theorem items_foldl_push (items : List Expr) (p : Projection) :
    (items.foldl Projection.push p).items = p.items ++ items.filter fun e ↦ !e.isBlank := by
  induction items generalizing p with
  | nil => exact (List.append_nil p.items).symm
  | cons e items ih =>
    rw [List.foldl_cons, ih, Projection.items_push, List.append_assoc, ← List.filter_append,
      List.singleton_append]

theorem items_foldl_push_of_not_blank {items : List Expr} (h : ∀ e ∈ items, e.isBlank = false)
    (p : Projection) : (items.foldl Projection.push p).items = p.items ++ items := by
  have hkept : (items.filter fun e ↦ !e.isBlank) = items :=
    List.filter_eq_self.mpr fun e he ↦ by simp [h e he]
  rw [items_foldl_push, hkept]

theorem isBlank_qualified {fields : List String} (h : "" ∉ fields) (table : String) :
    ∀ e ∈ fields.map (fun field ↦ Expr.column (.qualified table field)), e.isBlank = false := by
  intro e he
  obtain ⟨field, hf, rfl⟩ := List.mem_map.mp he
  have hne : field ≠ "" := fun heq ↦ h (heq ▸ hf)
  simpa [Expr.isBlank, Column.qualified] using hne

theorem fits_joins (h : Fits known m table fields along d) (hr : r ∈ m.relations)
    (hforeign : r.isManyToOne = true →
      ∀ foreign, known.get r.foreignModel = .ok foreign → "" ∉ foreign.fieldNames)
    (hjoins : d.Joins known m table r d') : Fits known m table fields (along ++ [r]) d' := by
  cases hjoins with
  | @foreign foreignKey foreignColumn foreignTable lookupColumn newName loadAll foreign hkind hget
      htable hname =>
    have hone := Relation.isManyToOne_of_kind hkind
    have hblank := isBlank_qualified (hforeign hone foreign hget) (newName.getD foreignTable)
    let c : RelatedColumns := ⟨r.name, foreign, d.query.projection.items.length⟩
    let places := foreign.fieldNames.map fun field ↦
      (Slot.related c field, Expr.column (.qualified (newName.getD foreignTable) field))
    have hslots : places.map Prod.fst = c.model.fieldNames.map (Slot.related c) := by
      simp [places, c]
    have hitems : places.map Prod.snd = foreign.fieldNames.map fun field ↦
        Expr.column (.qualified (newName.getD foreignTable) field) := by
      simp [places]
    refine h.extend places rfl (d.layout.relationNames_addRelated c) (fun c' hc' ↦ ?_) ?_ ?_
      (List.subset_append_left _ _) fun p hp ↦ ?_
    · refine (List.mem_append.mp hc').imp_right fun hc' ↦ ?_
      rw [List.mem_singleton.mp hc']
      exact ⟨hone, hget⟩
    · rw [hslots]
      exact d.layout.positions_addRelated c
    · rw [hitems]
      exact items_foldl_push_of_not_blank hblank _
    · obtain ⟨field, -, rfl⟩ := List.mem_map.mp hp
      refine ⟨newName.getD foreignTable, ⟨r, hr, foreignKey, foreignColumn, lookupColumn, loadAll,
        foreignTable, newName, rfl, hkind, hget, htable, rfl, ?_⟩, rfl⟩
      exact List.mem_append_right _ (List.mem_singleton_self _)
  | @aggregates a query id hone ha hquery hid =>
    let c : AggregateColumn := ⟨r.name, d.query.projection.items.length, a.function⟩
    refine h.extend [(.aggregate c, .column (.qualified (table ++ "_" ++ r.name)
      Relation.aggregateName))] rfl (.of_eq (d.layout.relationNames_addAggregate c))
      (fun _ ↦ .inl) (.of_eq (d.layout.positions_addAggregate c))
      (items_foldl_push_of_not_blank ?_ _)
      (List.subset_append_left _ _) fun p hp ↦ ?_
    · intro e he
      rw [List.mem_singleton.mp he]
      rfl
    · rw [List.mem_singleton.mp hp]
      refine ⟨table ++ "_" ++ r.name, ⟨r, hr, a, query, id, rfl, ha, rfl, hquery, hid, ?_⟩, rfl⟩
      exact List.mem_append_right _ (List.mem_singleton_self _)

theorem fits_joinRelations {o : FetchOptions} {rs : List Relation} (hrs : rs ⊆ m.relations)
    (h : Fits known m table fields along d)
    (hforeign : ∀ r ∈ rs, r.isManyToOne = true → r.comesAlong o = true →
      ∀ foreign, known.get r.foreignModel = .ok foreign → "" ∉ foreign.fieldNames)
    (hrun : rs.foldlM (Draft.joinRelation known m table o) d = .ok d') :
    Fits known m table fields (along ++ rs.filter (·.comesAlong o)) d' :=
  along_joinRelations (P := fun along d ↦ Fits known m table fields along d)
    (fun hr halong h hstep ↦ fits_joins h (hrs hr) (hforeign _ hr · halong)
      (joins_of_along halong hstep)) h hrun

end Draft

namespace Model

variable {m : Model} {name : String}

theorem mem_fieldNames_of_hasField (h : m.hasField name = true) : name ∈ m.fieldNames := by
  obtain ⟨f, hf⟩ := Option.isSome_iff_exists.mp h
  have hname : f.name = name := by simpa using List.find?_some hf
  exact hname ▸ List.mem_map_of_mem (List.mem_of_find?_eq_some hf)

theorem hasField_of_mem (h : name ∈ m.fieldNames) : m.hasField name = true := by
  obtain ⟨f, hf, rfl⟩ := List.mem_map.mp h
  exact List.find?_isSome.mpr ⟨f, hf, by simp⟩

theorem mem_fieldNames_of_idName (h : m.idName = .ok name) : name ∈ m.fieldNames := by
  obtain ⟨f, hf, rfl⟩ := map_eq_ok.mp h
  rw [idField] at hf
  split at hf
  · next g heq =>
    have hm : g ∈ m.fields.filter Field.primaryKey := heq ▸ List.mem_singleton_self g
    rw [← Except.ok.inj hf]
    exact List.mem_map_of_mem (List.mem_of_mem_filter hm)
  · cases hf
  · cases hf

end Model

def FetchOptions.HasDistinctFields (o : FetchOptions) : Prop :=
  ∀ names, o.fields = some names → names.Nodup

structure OwnFields (m : Model) (fields : List String) : Prop where
  declared : fields ⊆ m.fieldNames
  nodup : fields.Nodup

namespace OwnFields

variable {m : Model} {o : FetchOptions} {fields keys : List String}

theorem of_projection (h : o.projection m = .ok fields) :
    fields ⊆ m.fieldNames ∧ (fields = m.fieldNames ∨ o.fields = some fields) := by
  rw [FetchOptions.projection] at h
  split at h
  · obtain rfl := Except.ok.inj h
    exact ⟨List.Subset.refl _, .inl rfl⟩
  · next names hnames =>
    have hchecked {name field : String} (hf : (if m.hasField name then Except.ok name
        else .error (m.unknownField name)) = .ok field) :
        name = field ∧ m.hasField name = true := by
      split at hf
      · exact ⟨Except.ok.inj hf, ‹_›⟩
      · cases hf
    have hsame : names = fields := by
      have hall := (mapM_eq_ok.mp h).imp fun _ _ hf ↦ (hchecked hf).1
      rwa [List.forall₂_eq_eq_eq] at hall
    refine ⟨fun field hfield ↦ ?_, .inr (hsame ▸ hnames)⟩
    obtain ⟨name, -, hname⟩ := (mem_iff_of_mapM h).mp hfield
    obtain ⟨rfl, hdeclared⟩ := hchecked hname
    exact Model.mem_fieldNames_of_hasField hdeclared

theorem ofProjection (hm : m.HasDistinctFields) (ho : o.HasDistinctFields)
    (h : o.projection m = .ok fields) : OwnFields m fields := by
  obtain ⟨hdeclared, rfl | hnames⟩ := of_projection h
  · exact ⟨hdeclared, hm.nodup⟩
  · exact ⟨hdeclared, ho fields hnames⟩

theorem foldl_noted (h : OwnFields m fields) (hkeys : keys ⊆ m.fieldNames) :
    OwnFields m (keys.foldl Filter.noted fields) := by
  induction keys generalizing fields with
  | nil => exact h
  | cons key keys ih =>
    obtain ⟨hkey, hkeys⟩ := List.cons_subset.mp hkeys
    exact ih ⟨Filter.noted_subset h.declared hkey, Filter.nodup_noted key h.nodup⟩ hkeys

theorem followUpKeys_subset (h : EntityQuery.followUpKeys m o = .ok keys) :
    keys ⊆ m.fieldNames := by
  obtain ⟨found, hfound, h⟩ := bind_eq_ok.mp h
  obtain rfl := pure_eq_ok.mp h
  intro key hkey
  obtain ⟨key?, hmem, rfl⟩ := List.mem_filterMap.mp hkey
  obtain ⟨r, -, hr⟩ := (mem_iff_of_mapM hfound).mp hmem
  rw [EntityQuery.followUpKey] at hr
  split at hr
  · split at hr
    · next hfield =>
      cases Except.ok.inj hr
      exact Model.mem_fieldNames_of_hasField hfield
    · cases hr
  · obtain ⟨name, hname, heq⟩ := map_eq_ok.mp hr
    cases heq
    exact Model.mem_fieldNames_of_idName hname

end OwnFields

theorem Selection.items_query {s : Selection} {items : List Expr} {q : Query}
    (hs : s.projection = some items) (hitems : ∀ e ∈ items, e.isBlank = false)
    (h : s.query = .ok q) : q.projection.items = items := by
  obtain ⟨table, p, source, filter, -, hp, -, rfl⟩ := query_eq_ok h
  rw [hs, Option.getD_some] at hp
  rw [Projection.items_ofItems hp]
  exact List.filter_eq_self.mpr fun e he ↦ by simp [hitems e he]

theorem Selection.item_field {m : Model} {table name : String} (htable : m.tableName = .ok table)
    (hname : name ∈ m.fieldNames) : item m name = .column (.qualified table name) := by
  obtain ⟨f, hf⟩ := Option.isSome_iff_exists.mp (Model.hasField_of_mem hname)
  have hfname : f.name = name := by simpa using List.find?_some hf
  rw [Model.tableName] at htable
  split at htable
  · next heq =>
    obtain rfl := Except.ok.inj htable
    rw [item, heq, hf, ← hfname]
  · cases htable

namespace EntityQuery

variable {known : Registry} {c : Config} {m : Model} {o : FetchOptions} {id : Option Value}
variable {q : EntityQuery} {table : String}

open Draft

theorem primary_eq_ok (h : primary known c m o id = .ok q) :
    ∃ table asked keys query d orderBy page, m.tableName = .ok table ∧
      o.projection m = .ok asked ∧ followUpKeys m o = .ok keys ∧
      Selection.query { model := m,
                        projection := some ((keys.foldl Filter.noted asked).map (Selection.item m)),
                        id, condition := o.condition, filters := o.filters, equals := o.equals,
                        search := o.search.map (·, o.searchColumns), orderBy, page } = .ok query ∧
      m.relations.foldlM (joinRelation known m table o)
        ⟨query, { fields := keys.foldl Filter.noted asked }, [table]⟩ = .ok d ∧
      q = { query := d.query, model := m, layout := d.layout } := by
  obtain ⟨table, htable, h⟩ := bind_eq_ok.mp h
  obtain ⟨asked, hasked, h⟩ := bind_eq_ok.mp h
  obtain ⟨keys, hkeys, h⟩ := bind_eq_ok.mp h
  obtain ⟨query, hquery, h⟩ := bind_eq_ok.mp h
  obtain ⟨d, hd, h⟩ := bind_eq_ok.mp h
  obtain ⟨orderBy, page, hselection⟩ := o.apply_eq c id
  have hquery := (congrArg Selection.query hselection).symm.trans hquery
  exact ⟨table, asked, keys, query, d, orderBy, page, htable, hasked, hkeys, hquery, hd,
    (pure_eq_ok.mp h).symm⟩

theorem model_of_primary (h : primary known c m o id = .ok q) :
    q.model = m ∧ ∃ table, m.tableName = .ok table := by
  obtain ⟨table, -, -, -, d, -, -, htable, -, -, -, -, rfl⟩ := primary_eq_ok h
  exact ⟨rfl, table, htable⟩

theorem fits_own {fields : List String} {query : Query} (names : List String)
    (h : query.projection.items = fields.map fun field ↦ .column (.qualified table field)) :
    Fits known m table fields [] { query, layout := { fields }, names } where
  fields := rfl
  relations := .nil
  related := nofun
  covers := by
    simp [Layout.positions, h, List.range_eq_range']
  stands := by
    intro p hp
    simp only [Layout.positions, List.flatMap_nil, List.map_nil, List.append_nil] at hp
    obtain ⟨slot, i⟩ := p
    have hslot := List.mem_zipIdx_iff_getElem?.mp hp
    rw [List.getElem?_map] at hslot
    obtain ⟨field, hfield, rfl⟩ := Option.map_eq_some_iff.mp hslot
    refine ⟨.column (.qualified table field), ?_, rfl⟩
    rw [h, List.getElem?_map, hfield]
    rfl

theorem fits_primary (hm : m.HasDistinctFields) (ho : o.HasDistinctFields)
    (hf : ∀ r ∈ m.relations, r.isManyToOne = true → r.comesAlong o = true →
      ∀ foreign, known.get r.foreignModel = .ok foreign → "" ∉ foreign.fieldNames)
    (htable : m.tableName = .ok table) (h : primary known c m o id = .ok q) :
    q.model = m ∧ ∃ fields names, OwnFields m fields ∧
      Fits known m table fields (m.relations.filter (·.comesAlong o))
        ⟨q.query, q.layout, names⟩ := by
  obtain ⟨table', asked, keys, query, d, orderBy, page, htable', hasked, hkeys, hquery, hd, rfl⟩ :=
    primary_eq_ok h
  obtain rfl := Except.ok.inj (htable.symm.trans htable')
  have hown : OwnFields m (keys.foldl Filter.noted asked) :=
    (OwnFields.ofProjection hm ho hasked).foldl_noted (OwnFields.followUpKeys_subset hkeys)
  generalize keys.foldl Filter.noted asked = fields at hown hquery hd
  have hcolumns : fields.map (Selection.item m) =
      fields.map fun field ↦ .column (.qualified table field) :=
    List.map_congr_left fun field hfield ↦ Selection.item_field htable (hown.declared hfield)
  have hblank := isBlank_qualified (mt (@hown.declared "") hm.nonempty) table
  have hitems : query.projection.items =
      fields.map fun field ↦ .column (.qualified table field) :=
    Selection.items_query (congrArg some hcolumns) hblank hquery
  exact ⟨rfl, fields, d.names, hown,
    fits_joinRelations (List.Subset.refl _) (fits_own [table] hitems) hf hd⟩

/-- Every column of the rows is read into one place of the entity, which is the place of what the
column holds, and every place that has no column is left empty. -/
theorem primary_read (hm : m.HasDistinctFields) (hr : (m.relations.map Relation.name).Nodup)
    (ho : o.HasDistinctFields) (hf : ∀ r ∈ m.relations, r.isManyToOne = true →
      r.comesAlong o = true → ∀ foreign, known.get r.foreignModel = .ok foreign →
        foreign.HasDistinctFields)
    (h : primary known c m o id = .ok q) :
    q.layout.width = q.query.projection.items.length ∧
    (q.layout.positions.map Prod.snd).Perm (List.range q.query.projection.items.length) ∧
    (∃ table, m.tableName = .ok table ∧ ∀ p ∈ q.layout.positions, ∃ e,
      q.query.projection.items[p.2]? = some e ∧
        p.1.StandsFor known m table q.query.source.joins e) ∧
    q.layout.relationNames.Perm ((m.relations.filter (·.comesAlong o)).map Relation.name) ∧
    ∀ row, ((∃ e, q.read row = .ok e) ↔ q.query.projection.items.length ≤ row.length) ∧
      ∀ e, q.read row = .ok e → q.layout.Reads m row e := by
  have hblank := fun r hr h₁ h₂ foreign hget ↦ (hf r hr h₁ h₂ foreign hget).nonempty
  obtain ⟨table, htable, -⟩ := bind_eq_ok.mp h
  obtain ⟨hmodel, fields, names, hown, hfits⟩ := fits_primary hm ho hblank htable h
  have hwidth : q.layout.width = q.query.projection.items.length := by
    have hlength := hfits.covers.length_eq
    rwa [List.length_map, List.length_range, Layout.length_positions] at hlength
  refine ⟨hwidth, hfits.covers, ⟨table, htable, hfits.stands⟩, hfits.relations, fun row ↦ ?_⟩
  have hsuits : q.layout.Suits m := by
    refine ⟨fun field hfield ↦ hown.declared (hfits.fields ▸ hfield), fun name hname ↦ ?_⟩
    obtain ⟨r, hr, rfl⟩ := List.mem_map.mp (hfits.relations.mem_iff.mp hname)
    exact ⟨r, List.mem_of_mem_filter hr, rfl⟩
  have hdistinct : q.layout.IsDistinct := by
    refine ⟨hfits.fields.symm ▸ hown.nodup, ?_, fun c hc ↦ ?_⟩
    · refine hfits.relations.nodup_iff.mpr (hr.sublist ?_)
      exact List.filter_sublist.map _
    · obtain ⟨r, hr, hone, hget⟩ := hfits.related c hc
      obtain ⟨hr, halong⟩ := List.mem_filter.mp hr
      exact (hf r hr hone halong c.model hget).nodup
  have hin : ∀ p ∈ q.layout.positions, p.2 < q.layout.width := by
    intro p hp
    rw [hwidth]
    exact List.mem_range.mp (hfits.covers.mem_iff.mp (List.mem_map_of_mem hp))
  rw [← hwidth, read, hmodel]
  rcases Nat.lt_or_ge row.length q.layout.width with hshort | hlong
  · rw [Layout.read_of_short hshort]
    exact ⟨⟨nofun, fun hlong ↦ absurd hlong (Nat.not_le_of_lt hshort)⟩, nofun⟩
  · rw [Layout.read_of_long hsuits hlong]
    refine ⟨⟨fun _ ↦ hlong, fun _ ↦ ⟨_, rfl⟩⟩, fun e he ↦ ?_⟩
    exact Except.ok.inj he ▸ Layout.reads_entity hdistinct hin hlong

/-- The keys of what is loaded later are read besides the fields that are asked for. -/
theorem primary_read_film :
    let language : Model :=
      { name := "Language", table := some "language",
        fields := [{ name := "language_id", kind := .integer, primaryKey := true },
          { name := "name", kind := .string }] }
    let film : Model := { name := "Film", table := some "film",
                          fields := [{ name := "film_id", kind := .integer, primaryKey := true },
                            { name := "title", kind := .string },
                            { name := "language_id", kind := .integer }],
                          relations := [(Relation.manyToOne "language" "Language" "language_id"
                              "language_id").withLazy false,
                            .manyToMany "actors" "Actor" "film_actor" "actor_id",
                            ((Relation.manyToMany "tags" "Tag" "film_tag" "tag_id").aggregated
                              ⟨.count, none⟩).withLazy false] }
    let known : Registry := ⟨[film, language]⟩
    let o : FetchOptions := { fields := some ["title"] }
    let row : Row := [.text "Alien", .bigInt 7, .bigInt 1, .text "English", .null]
    ∃ q e, primary known {} film o (some (.bigInt 7)) = .ok q ∧
      q.query.projection.items.length = row.length ∧ q.read row = .ok e ∧
      q.layout.Reads film row e := by
  intro language film known o row
  have hquery : ((primary known {} film o (some (.bigInt 7))).toOption.any
      fun q ↦ q.query.projection.items.length == row.length) = true := by decide +kernel
  obtain ⟨q, hq, hlength⟩ := exists_eq_ok hquery
  have hlength : q.query.projection.items.length = row.length := eq_of_beq hlength
  have hforeign : ∀ r ∈ film.relations, r.isManyToOne = true → r.comesAlong o = true →
      ∀ foreign, known.get r.foreignModel = .ok foreign → foreign.HasDistinctFields := by
    intro r hr hone _ foreign hget
    simp only [film, List.mem_cons, List.not_mem_nil, or_false] at hr
    rcases hr with rfl | rfl | rfl
    · have hlanguage : known.get "Language" = .ok language := rfl
      cases hlanguage.symm.trans hget
      exact ⟨by decide, by decide⟩
    · cases hone
    · cases hone
  have hdistinct : o.HasDistinctFields := by
    intro names hnames
    cases hnames
    decide
  obtain ⟨-, -, -, -, hread⟩ :=
    primary_read ⟨by decide, by decide⟩ (by decide) hdistinct hforeign hq
  obtain ⟨hok, hreads⟩ := hread row
  obtain ⟨e, he⟩ := hok.mpr (Nat.le_of_eq hlength)
  exact ⟨q, e, hq, hlength, he, hreads e he⟩

end EntityQuery

end RelMapper
