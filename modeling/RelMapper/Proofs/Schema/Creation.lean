import RelMapper.Proofs.Except
import RelMapper.Proofs.Schema.Order
namespace RelMapper

theorem CreateTable.ofColumns_eq_ok {table : String} {columns : List ColumnDefinition}
    {foreignKeys : List ForeignKey} {ifNotExists : Bool} (h : columns ≠ []) :
    CreateTable.ofColumns table columns foreignKeys ifNotExists =
      .ok ⟨table, columns, foreignKeys, ifNotExists, h⟩ :=
  dif_neg h

namespace Model

/-- Exactly one field is the primary key, and every foreign key says which column it refers to. -/
structure IsCreatable (m : Model) : Prop where
  keyed : ∃ key, m.fields.filter Field.primaryKey = [key]
  wellFormed : ∀ f ∈ m.fields, f.foreignKey.isSome = true → f.foreignKeyTarget.isSome = true

variable {m : Model} {table : String}

theorem IsCreatable.exists_idField (h : m.IsCreatable) : ∃ key, m.idField = .ok key := by
  obtain ⟨key, hkey⟩ := h.keyed
  rw [idField, hkey]
  exact ⟨key, rfl⟩

theorem IsCreatable.exists_idName (h : m.IsCreatable) : ∃ name, m.idName = .ok name := by
  obtain ⟨key, hkey⟩ := h.exists_idField
  rw [idName, hkey]
  exact ⟨key.name, rfl⟩

theorem exists_constraint {f : Field}
    (h : f.foreignKey.isSome = true → f.foreignKeyTarget.isSome = true) :
    ∃ k, f.constraint table = .ok k := by
  rw [Field.constraint]
  cases htarget : f.foreignKeyTarget with
  | some target => exact ⟨_, rfl⟩
  | none =>
    cases hkey : f.foreignKey with
    | none => exact ⟨none, rfl⟩
    | some reference =>
      rw [hkey, htarget] at h
      exact nomatch h rfl

theorem IsCreatable.exists_ofModel (h : m.IsCreatable) (htable : m.table = some table)
    (ifNotExists : Bool) : ∃ c, CreateTable.ofModel ifNotExists m = .ok c := by
  obtain ⟨key, hkey⟩ := h.exists_idField
  obtain ⟨foreignKeys, hconstraints⟩ : ∃ ks, m.fields.mapM (Field.constraint table) = .ok ks :=
    exists_mapM fun f hf ↦ exists_constraint (h.wellFormed f hf)
  have hcolumns : m.fields.map ColumnDefinition.ofField ≠ [] := by
    intro hnil
    obtain ⟨key, hfilter⟩ := h.keyed
    rw [List.map_eq_nil_iff.mp hnil] at hfilter
    cases hfilter
  have hid : discard m.idField = .ok PUnit.unit := map_eq_ok.mpr ⟨key, hkey, rfl⟩
  exact ⟨_, bind_eq_ok.mpr ⟨table, tableName_eq_ok.mpr htable, bind_eq_ok.mpr ⟨⟨⟩, hid,
    bind_eq_ok.mpr ⟨foreignKeys, hconstraints, CreateTable.ofColumns_eq_ok hcolumns⟩⟩⟩⟩

theorem ofModel_eq_ok {ifNotExists : Bool} {c : CreateTable}
    (h : CreateTable.ofModel ifNotExists m = .ok c) :
    m.table = some c.table ∧ ∀ k ∈ c.foreignKeys, ∃ f ∈ m.fields,
      f.foreignKeyTarget = some (k.table, k.foreignColumn) := by
  obtain ⟨table, htable, h⟩ := bind_eq_ok.mp h
  obtain ⟨⟨⟩, -, h⟩ := bind_eq_ok.mp h
  obtain ⟨foreignKeys, hconstraints, h⟩ := bind_eq_ok.mp h
  rw [CreateTable.ofColumns] at h
  split at h
  · cases h
  · cases h
    refine ⟨tableName_eq_ok.mp htable, fun k hk ↦ ?_⟩
    obtain ⟨_, hk', rfl⟩ := List.mem_filterMap.mp hk
    obtain ⟨f, hf, hconstraint⟩ := (mem_iff_of_mapM hconstraints).mp hk'
    refine ⟨f, hf, ?_⟩
    rw [Field.constraint] at hconstraint
    split at hconstraint
    · next htarget =>
      cases hconstraint
      exact htarget
    · cases hconstraint
    · cases hconstraint

end Model

namespace Schema

def concrete (models : List Model) : List Model :=
  models.filter fun m ↦ !m.isAbstract

theorem mem_concrete {models : List Model} {m : Model} :
    m ∈ concrete models ↔ m ∈ models ∧ m.table.isSome = true := by
  rw [concrete, List.mem_filter, Model.isAbstract]
  cases m.table <;> simp

theorem filterMap_table_concrete (models : List Model) :
    (concrete models).filterMap Model.table = models.filterMap Model.table := by
  induction models with
  | nil => rfl
  | cons m models ih =>
    rw [concrete, List.filter_cons, Model.isAbstract, List.filterMap_cons, ← ih]
    cases htable : m.table with
    | none => rfl
    | some table => exact List.filterMap_cons_some htable

theorem cyclic_concrete {models : List Model} : Cyclic (concrete models) ↔ Cyclic models := by
  have hrefers : Refers (concrete models) = Refers models := by
    funext table other
    rw [Refers, Refers, filterMap_table_concrete]
    refine propext (exists_congr fun m ↦ and_congr_left fun h ↦ ?_)
    rw [mem_concrete, h.1]
    exact and_iff_left rfl
  rw [Cyclic, Cyclic, hrefers]

section Junctions

variable {models : List Model} {j : Junction}

theorem mem_junctions : j ∈ junctions models ↔ j.owner ∈ models ∧ ∃ r ∈ j.owner.relations,
    (∃ a, r.kind = .manyToMany j.table j.foreignKey a) ∧
      models.find? (·.name == r.foreignModel) = some j.foreign := by
  obtain ⟨table, owner, foreign, foreignKey⟩ := j
  simp only [junctions, List.mem_flatMap, List.mem_filterMap]
  constructor
  · rintro ⟨m, hm, r, hr, h⟩
    split at h
    · next junction key a hkind =>
      obtain ⟨n, hn, heq⟩ := Option.map_eq_some_iff.mp h
      cases heq
      exact ⟨hm, r, hr, ⟨a, hkind⟩, hn⟩
    · cases h
  · rintro ⟨hm, r, hr, ⟨a, hkind⟩, hforeign⟩
    refine ⟨owner, hm, r, hr, ?_⟩
    rw [hkind]
    exact Option.map_eq_some_iff.mpr ⟨foreign, hforeign, rfl⟩

theorem mem_models_of_junction (h : j ∈ junctions models) :
    j.owner ∈ models ∧ j.foreign ∈ models := by
  obtain ⟨howner, r, -, -, hforeign⟩ := mem_junctions.mp h
  exact ⟨howner, List.mem_of_find?_eq_some hforeign⟩

theorem mem_tables_junctions {name : String} :
    name ∈ (junctions models).map Junction.table ↔ ∃ m ∈ models, ∃ r ∈ m.relations,
      r.junction = some name ∧ ∃ foreign ∈ models, foreign.name = r.foreignModel := by
  rw [List.mem_map]
  constructor
  · rintro ⟨j, hj, rfl⟩
    obtain ⟨hm, r, hr, ⟨a, hkind⟩, hforeign⟩ := mem_junctions.mp hj
    refine ⟨j.owner, hm, r, hr, by rw [Relation.junction, hkind], j.foreign,
      List.mem_of_find?_eq_some hforeign, ?_⟩
    simpa using List.find?_some hforeign
  · rintro ⟨m, hm, r, hr, hjunction, foreign, hforeign, hname⟩
    obtain ⟨found, hfound⟩ : ∃ n, models.find? (·.name == r.foreignModel) = some n := by
      rw [← Option.isSome_iff_exists, List.find?_isSome]
      exact ⟨foreign, hforeign, by simpa using hname⟩
    rw [Relation.junction] at hjunction
    split at hjunction
    · next junction key a hkind =>
      cases hjunction
      exact ⟨⟨name, m, found, key⟩, mem_junctions.mpr ⟨hm, r, hr, ⟨a, hkind⟩, hfound⟩, rfl⟩
    · cases hjunction

def IsFirst (js : List Junction) (j : Junction) : Prop :=
  ∃ before after, js = before ++ j :: after ∧ j.table ∉ before.map Junction.table

theorem IsFirst.mem {js : List Junction} (h : IsFirst js j) : j ∈ js := by
  obtain ⟨before, after, rfl, -⟩ := h
  exact List.mem_append_right _ List.mem_cons_self

theorem isFirst_cons {k : Junction} {js : List Junction} (h : j.table ≠ k.table) :
    IsFirst (k :: js) j ↔ IsFirst js j := by
  constructor
  · rintro ⟨before, after, heq, hbefore⟩
    cases before with
    | nil =>
      cases heq
      exact absurd rfl h
    | cons k' before =>
      cases heq
      exact ⟨before, after, rfl, fun hmem ↦ hbefore (List.mem_cons_of_mem _ hmem)⟩
  · rintro ⟨before, after, rfl, hbefore⟩
    refine ⟨k :: before, after, rfl, ?_⟩
    rw [List.map_cons, List.mem_cons, not_or]
    exact ⟨h, hbefore⟩

theorem isFirst_cons_self {k : Junction} {js : List Junction} (h : j.table = k.table) :
    IsFirst (k :: js) j ↔ j = k := by
  constructor
  · rintro ⟨before, after, heq, hbefore⟩
    cases before with
    | nil =>
      cases heq
      rfl
    | cons k' before =>
      cases heq
      exact absurd (h ▸ List.mem_cons_self) hbefore
  · rintro rfl
    exact ⟨[], js, rfl, nofun⟩

theorem mem_distinctTables {seen : List String} {js : List Junction} :
    j ∈ distinctTables seen js ↔ j.table ∉ seen ∧ IsFirst js j := by
  induction js generalizing seen with
  | nil => simp [distinctTables, IsFirst]
  | cons k js ih =>
    rw [distinctTables]
    split
    · next hseen =>
      rw [ih]
      refine and_congr_right fun hnot ↦ (isFirst_cons fun heq ↦ hnot ?_).symm
      exact heq ▸ List.contains_iff_mem.mp hseen
    · next hseen =>
      have hnew : k.table ∉ seen := fun hmem ↦ hseen (List.contains_iff_mem.mpr hmem)
      rw [List.mem_cons, ih, List.mem_cons, not_or]
      by_cases heq : j.table = k.table
      · rw [isFirst_cons_self heq]
        exact ⟨fun h ↦ h.elim (fun h ↦ ⟨heq ▸ hnew, h⟩) fun h ↦ absurd heq h.1.1,
          fun h ↦ .inl h.2⟩
      · rw [isFirst_cons heq, and_iff_right heq]
        exact ⟨fun h ↦ h.elim (fun h ↦ absurd (congrArg Junction.table h) heq) id, .inr⟩

theorem mem_tables_distinctTables {seen : List String} {js : List Junction} {name : String} :
    name ∈ (distinctTables seen js).map Junction.table ↔
      name ∈ js.map Junction.table ∧ name ∉ seen := by
  induction js generalizing seen with
  | nil => simp [distinctTables]
  | cons k js ih =>
    rw [distinctTables]
    split
    · next hseen =>
      have hin := List.contains_iff_mem.mp hseen
      rw [ih, List.map_cons, List.mem_cons]
      refine and_congr_left fun hnot ↦ (or_iff_right fun heq ↦ ?_).symm
      exact hnot (heq ▸ hin)
    · next hseen =>
      have hnew : k.table ∉ seen := fun hmem ↦ hseen (List.contains_iff_mem.mpr hmem)
      rw [List.map_cons, List.mem_cons, ih, List.map_cons, List.mem_cons, List.mem_cons, not_or]
      by_cases heq : name = k.table
      · simp [heq, hnew]
      · simp [heq]

theorem nodup_tables_distinctTables (seen : List String) (js : List Junction) :
    ((distinctTables seen js).map Junction.table).Nodup := by
  induction js generalizing seen with
  | nil => exact .nil
  | cons k js ih =>
    rw [distinctTables]
    split
    · exact ih seen
    · rw [List.map_cons, List.nodup_cons, mem_tables_distinctTables]
      exact ⟨fun h ↦ h.2 List.mem_cons_self, ih _⟩

theorem Junction.exists_create (howner : j.owner.IsCreatable) (hforeign : j.foreign.IsCreatable)
    (hownerTable : j.owner.table.isSome = true) (hforeignTable : j.foreign.table.isSome = true)
    (hclash : ∀ key, j.owner.idName = .ok key → key ≠ j.foreignKey) (ifNotExists : Bool) :
    ∃ c, j.create ifNotExists = .ok c := by
  obtain ⟨key, hkey⟩ := howner.exists_idName
  obtain ⟨foreignKey, hforeignKey⟩ := hforeign.exists_idName
  obtain ⟨ownerTable, hot⟩ := Option.isSome_iff_exists.mp hownerTable
  obtain ⟨foreignTable, hft⟩ := Option.isSome_iff_exists.mp hforeignTable
  rw [create, hkey, hforeignKey, Model.tableName_eq_ok.mpr hot, Model.tableName_eq_ok.mpr hft]
  have hne := hclash key hkey
  exact ⟨_, (if_neg hne).trans (CreateTable.ofColumns_eq_ok (List.cons_ne_nil _ _))⟩

theorem Junction.create_eq_ok {ifNotExists : Bool} {c : CreateTable}
    (h : j.create ifNotExists = .ok c) : c.table = j.table ∧
      ∀ k ∈ c.foreignKeys, j.owner.table = some k.table ∨ j.foreign.table = some k.table := by
  obtain ⟨key, -, h⟩ := bind_eq_ok.mp h
  obtain ⟨foreignKey, -, h⟩ := bind_eq_ok.mp h
  split at h
  · cases h
  · obtain ⟨ownerTable, hot, h⟩ := bind_eq_ok.mp h
    obtain ⟨foreignTable, hft, h⟩ := bind_eq_ok.mp h
    rw [CreateTable.ofColumns_eq_ok (List.cons_ne_nil _ _)] at h
    cases h
    refine ⟨rfl, fun k hk ↦ ?_⟩
    rcases List.mem_pair.mp hk with rfl | rfl
    · exact .inl (Model.tableName_eq_ok.mp hot)
    · exact .inr (Model.tableName_eq_ok.mp hft)

end Junctions

/-- What the models have to be for their tables to be created, were it not for the order: no two of
them share a table, each can be created, and no junction table would name its columns alike. -/
structure AreDeclared (models : List Model) : Prop where
  distinct : (models.filterMap Model.table).Nodup
  creatable : ∀ m ∈ concrete models, m.IsCreatable
  unclashed : ∀ j, IsFirst (junctions (concrete models)) j →
    ∀ key, j.owner.idName = .ok key → key ≠ j.foreignKey

/-- The statements `tables` create the models' tables, each after those it refers to, and the
statements `links` create one table for every junction between models of the list. -/
structure Creates (ifNotExists : Bool) (models : List Model) (tables links : List CreateTable) :
    Prop where
  ofModels : ∃ order : List Model, order.Perm (concrete models) ∧
    order.mapM (CreateTable.ofModel ifNotExists) = .ok tables
  ordered : ∀ before c after, tables = before ++ c :: after → ∀ k ∈ c.foreignKeys,
    k.table ≠ c.table → k.table ∈ tables.map CreateTable.table →
    k.table ∈ before.map CreateTable.table
  distinct : (links.map CreateTable.table).Nodup
  ofRelations : ∀ name, name ∈ links.map CreateTable.table ↔
    ∃ m ∈ concrete models, ∃ r ∈ m.relations, r.junction = some name ∧
      ∃ foreign ∈ concrete models, foreign.name = r.foreignModel
  linked : ∀ c ∈ links, ∀ k ∈ c.foreignKeys, k.table ∈ tables.map CreateTable.table

section Creation

variable {models order : List Model} {ifNotExists : Bool} {tables links : List CreateTable}

theorem filterMap_table_of_mapM
    (h : order.mapM (CreateTable.ofModel ifNotExists) = .ok tables) :
    order.filterMap Model.table = tables.map CreateTable.table := by
  have hall := mapM_eq_ok.mp h
  clear h
  induction hall with
  | nil => rfl
  | cons hm _ ih =>
    rw [List.filterMap_cons_some (Model.ofModel_eq_ok hm).1, ih, List.map_cons]

theorem InOrder.mem_tables {known : List String} (horder : InOrder known [] order)
    (h : order.mapM (CreateTable.ofModel ifNotExists) = .ok tables)
    {before after : List CreateTable} {c : CreateTable} (hsplit : tables = before ++ c :: after)
    {k : ForeignKey} (hk : k ∈ c.foreignKeys) (hother : k.table ≠ c.table)
    (hknown : k.table ∈ known) : k.table ∈ before.map CreateTable.table := by
  have hall := mapM_eq_ok.mp h
  rw [hsplit] at hall
  have hbefore := List.forall₂_take_append _ _ _ hall
  obtain ⟨m, rest, hm, -, hrest⟩ :=
    List.forall₂_cons_right_iff.mp (List.forall₂_drop_append _ _ _ hall)
  obtain ⟨htable, hrefers⟩ := Model.ofModel_eq_ok hm
  obtain ⟨f, hf, htarget⟩ := hrefers k hk
  have hneeds : Needs known m k.table := by
    refine ⟨hknown, ?_, f, hf, k.foreignColumn, htarget⟩
    rw [htable]
    exact fun heq ↦ hother (Option.some.inj heq).symm
  rw [← List.take_append_drop before.length order, hrest] at horder
  have hplaced := horder.mem_before hneeds
  rwa [List.append_nil, filterMap_table_of_mapM (mapM_eq_ok.mpr hbefore)] at hplaced

theorem isSome_table_concrete : ∀ m ∈ concrete models, m.table.isSome = true :=
  fun _ hm ↦ (mem_concrete.mp hm).2

theorem AreDeclared.exists_tables (h : AreDeclared models) (horder : order ⊆ concrete models)
    (ifNotExists : Bool) : ∃ tables, order.mapM (CreateTable.ofModel ifNotExists) = .ok tables := by
  refine exists_mapM fun m hm ↦ ?_
  obtain ⟨table, htable⟩ := Option.isSome_iff_exists.mp (isSome_table_concrete m (horder hm))
  exact (h.creatable m (horder hm)).exists_ofModel htable ifNotExists

theorem AreDeclared.exists_links (h : AreDeclared models) (ifNotExists : Bool) : ∃ links,
    (distinctTables [] (junctions (concrete models))).mapM (Junction.create ifNotExists) =
      .ok links := by
  refine exists_mapM fun j hj ↦ ?_
  have hfirst := (mem_distinctTables.mp hj).2
  obtain ⟨howner, hforeign⟩ := mem_models_of_junction hfirst.mem
  exact Junction.exists_create (h.creatable _ howner) (h.creatable _ hforeign)
    (isSome_table_concrete _ howner) (isSome_table_concrete _ hforeign)
    (h.unclashed j hfirst) ifNotExists

theorem map_table_of_mapM {js : List Junction}
    (h : js.mapM (Junction.create ifNotExists) = .ok links) :
    links.map CreateTable.table = js.map Junction.table := by
  have hall := mapM_eq_ok.mp h
  clear h
  induction hall with
  | nil => rfl
  | cons hj _ ih => rw [List.map_cons, List.map_cons, (Junction.create_eq_ok hj).1, ih]

theorem creates_of_mapM (hperm : order.Perm (concrete models))
    (horder : InOrder ((concrete models).filterMap Model.table) [] order)
    (htables : order.mapM (CreateTable.ofModel ifNotExists) = .ok tables)
    (hlinks : (distinctTables [] (junctions (concrete models))).mapM
      (Junction.create ifNotExists) = .ok links) :
    Creates ifNotExists models tables links where
  ofModels := ⟨order, hperm, htables⟩
  ordered _ _ _ hsplit _ hk hother hcreated := by
    refine horder.mem_tables htables hsplit hk hother ?_
    rwa [← (hperm.filterMap Model.table).mem_iff, filterMap_table_of_mapM htables]
  distinct := by
    rw [map_table_of_mapM hlinks]
    exact nodup_tables_distinctTables _ _
  ofRelations name := by
    rw [map_table_of_mapM hlinks, mem_tables_distinctTables, and_iff_left (List.not_mem_nil),
      mem_tables_junctions]
  linked c hc k hk := by
    obtain ⟨j, hj, hcreate⟩ := (mem_iff_of_mapM hlinks).mp hc
    obtain ⟨howner, hforeign⟩ :=
      mem_models_of_junction (mem_distinctTables.mp hj).2.mem
    rw [← filterMap_table_of_mapM htables, List.mem_filterMap]
    rcases (Junction.create_eq_ok hcreate).2 k hk with htable | htable
    · exact ⟨j.owner, hperm.mem_iff.mpr howner, htable⟩
    · exact ⟨j.foreign, hperm.mem_iff.mpr hforeign, htable⟩

theorem create_eq (ifNotExists : Bool) (models : List Model) : create ifNotExists models = do
    let tables ← (creationOrder (concrete models)).1.mapM (CreateTable.ofModel ifNotExists)
    if !(creationOrder (concrete models)).2.isEmpty then
      throw (.ofMisuse (.circularForeignKeys
        ((creationOrder (concrete models)).2.filterMap Model.table)))
    let links ← (distinctTables [] (junctions (concrete models))).mapM
      (Junction.create ifNotExists)
    return tables ++ links := rfl

/-- Whatever is created, it is the tables of all models and after them one for every junction. -/
theorem create_eq_ok {cs : List CreateTable} (h : create ifNotExists models = .ok cs) :
    ∃ (order : List Model) (tables links : List CreateTable), order.Perm (concrete models) ∧
      order.mapM (CreateTable.ofModel ifNotExists) = .ok tables ∧
      (distinctTables [] (junctions (concrete models))).mapM (Junction.create ifNotExists) =
        .ok links ∧
      cs = tables ++ links := by
  rw [create_eq] at h
  obtain ⟨tables, htables, h⟩ := bind_eq_ok.mp h
  split at h
  · cases h
  · next hstuck =>
    obtain ⟨links, hlinks, h⟩ := bind_eq_ok.mp h
    have hperm := (arranged_creationOrder (concrete models)).perm
    have hnone : (creationOrder (concrete models)).2 = [] := by simpa using hstuck
    rw [hnone, List.append_nil] at hperm
    exact ⟨_, tables, links, hperm, htables, hlinks, (pure_eq_ok.mp h).symm⟩

variable (ifNotExists)

theorem AreDeclared.create_of_cyclic (h : AreDeclared models) (hcyclic : Cyclic models) :
    ∃ tables, create ifNotExists models = .error (.ofMisuse (.circularForeignKeys tables)) := by
  have harranged := arranged_creationOrder (concrete models)
  have hstuck : (creationOrder (concrete models)).2 ≠ [] := fun hnil ↦ by
    rw [creationOrder_stuck_iff isSome_table_concrete
      (filterMap_table_concrete models ▸ h.distinct), cyclic_concrete] at hnil
    exact hnil hcyclic
  obtain ⟨tables, htables⟩ := h.exists_tables
    (fun m hm ↦ harranged.perm.mem_iff.mp (List.mem_append_left _ hm)) ifNotExists
  have hleft : (!(creationOrder (concrete models)).2.isEmpty) = true := by simpa using hstuck
  refine ⟨(creationOrder (concrete models)).2.filterMap Model.table, ?_⟩
  rw [create_eq, htables]
  exact if_pos hleft

theorem AreDeclared.create_of_not_cyclic (h : AreDeclared models) (hcyclic : ¬Cyclic models) :
    ∃ tables links, create ifNotExists models = .ok (tables ++ links) ∧
      Creates ifNotExists models tables links := by
  have harranged := arranged_creationOrder (concrete models)
  have hstuck : (creationOrder (concrete models)).2 = [] := by
    rwa [creationOrder_stuck_iff isSome_table_concrete
      (filterMap_table_concrete models ▸ h.distinct), cyclic_concrete]
  have hperm : (creationOrder (concrete models)).1.Perm (concrete models) := by
    have hperm := harranged.perm
    rwa [hstuck, List.append_nil] at hperm
  obtain ⟨tables, htables⟩ := h.exists_tables hperm.subset ifNotExists
  obtain ⟨links, hlinks⟩ := h.exists_links ifNotExists
  refine ⟨tables, links, ?_, creates_of_mapM hperm harranged.inOrder htables hlinks⟩
  rw [create_eq, htables, hlinks, hstuck]
  rfl

/-- Creating the tables of models fails, for circular references, exactly if there are some, and
creates all of them otherwise. -/
theorem created_unless_cyclic (h : AreDeclared models) :
    (Cyclic models ↔ ∃ stuck,
      create ifNotExists models = .error (.ofMisuse (.circularForeignKeys stuck))) ∧
    (¬Cyclic models → ∃ tables links, create ifNotExists models = .ok (tables ++ links) ∧
      Creates ifNotExists models tables links) := by
  refine ⟨⟨h.create_of_cyclic ifNotExists, ?_⟩, h.create_of_not_cyclic ifNotExists⟩
  rintro ⟨stuck, herror⟩
  by_contra hno
  obtain ⟨tables, links, hok, -⟩ := h.create_of_not_cyclic ifNotExists hno
  rw [herror] at hok
  cases hok

end Creation

/-- Films refer to languages and to other films, and to prices that are kept elsewhere. -/
theorem created_unless_cyclic_film :
    let language : Model := { name := "Language", table := some "language",
                              fields := [{ name := "language_id", kind := .integer,
                                           primaryKey := true }] }
    let film : Model := { name := "Film", table := some "film",
                          fields := [{ name := "film_id", kind := .integer, primaryKey := true },
                            { name := "language_id", kind := .integer,
                              foreignKey := some "language.language_id" },
                            { name := "sequel_of", kind := .integer,
                              foreignKey := some "film.film_id" },
                            { name := "price_id", kind := .integer,
                              foreignKey := some "price.price_id" }],
                          relations := [.manyToMany "languages" "Language" "dubbing" "language_id",
                            .manyToMany "subtitles" "Language" "dubbing" "film_id",
                            .manyToMany "actors" "Actor" "film_actor" "actor_id"] }
    let base : Model := { name := "Base" }
    let models := [film, base, language]
    AreDeclared models ∧ ∃ tables links, create true models = .ok (tables ++ links) ∧
      Creates true models tables links := by
  intro language film base models
  have hdeclared : AreDeclared models := by
    refine ⟨by decide, fun m hm ↦ ?_, fun j hj key hkey ↦ ?_⟩
    · have hconcrete : concrete models = [film, language] := rfl
      rw [hconcrete] at hm
      rcases List.mem_pair.mp hm with rfl | rfl <;> exact ⟨⟨_, rfl⟩, by decide⟩
    · have hclash : (distinctTables [] (junctions (concrete models))).all
          (fun j ↦ j.owner.idName.toOption.all (· != j.foreignKey)) = true := by decide +kernel
      have hfirst := List.all_eq_true.mp hclash j (mem_distinctTables.mpr ⟨List.not_mem_nil, hj⟩)
      rw [hkey] at hfirst
      exact bne_iff_ne.mp hfirst
  have hok : (create true models).toOption.any (fun _ ↦ true) = true := by decide +kernel
  obtain ⟨cs, hcs, -⟩ := exists_eq_ok hok
  obtain ⟨hcyclic, hcreates⟩ := created_unless_cyclic true hdeclared
  refine ⟨hdeclared, hcreates fun h ↦ ?_⟩
  obtain ⟨stuck, herror⟩ := hcyclic.mp h
  rw [hcs] at herror
  cases herror

end Schema

end RelMapper
