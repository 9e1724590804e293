import RelMapper.Proofs.Schema.Creation
import RelMapper.Proofs.Session.Runs
namespace RelMapper

def ForeignKey.definition (k : ForeignKey) : ColumnDefinition :=
  { name := k.column, type := "INTEGER", notNull := true }

/-- The table has the column of the foreign key, and constrains it by that key. -/
def CreateTable.Declares (c : CreateTable) (k : ForeignKey) : Prop :=
  k.definition ∈ c.columns ∧ k ∈ c.foreignKeys

namespace Schema

open Session

namespace Junction

variable {j : Junction} {ifNotExists : Bool} {c : CreateTable}

/-- How a row of the junction refers to the owner: by a column named like the owner's id. -/
def ownerKey (j : Junction) : Except Fault ForeignKey := do
  let key ← j.owner.idName
  return ⟨key, ← j.owner.tableName, key⟩

def foreignRowKey (j : Junction) : Except Fault ForeignKey := do
  let key ← j.foreign.idName
  return ⟨j.foreignKey, ← j.foreign.tableName, key⟩

/-- A junction table has the columns of its own junction, each with its key, and nothing else. -/
theorem lists_of_create (h : j.create ifNotExists = .ok c) : ∃ owner foreign,
    j.ownerKey = .ok owner ∧ j.foreignRowKey = .ok foreign ∧ owner.column ≠ foreign.column ∧
      c.columns = [owner.definition, foreign.definition] ∧ c.foreignKeys = [owner, foreign] := by
  obtain ⟨key, hkey, h⟩ := bind_eq_ok.mp h
  obtain ⟨foreignKey, hforeignKey, h⟩ := bind_eq_ok.mp h
  split at h
  · cases h
  · next hne =>
    obtain ⟨ownerTable, hownerTable, h⟩ := bind_eq_ok.mp h
    obtain ⟨foreignTable, hforeignTable, h⟩ := bind_eq_ok.mp h
    rw [CreateTable.ofColumns_eq_ok (List.cons_ne_nil _ _)] at h
    cases h
    refine ⟨⟨key, ownerTable, key⟩, ⟨j.foreignKey, foreignTable, foreignKey⟩, ?_, ?_, hne, rfl, rfl⟩
    · exact bind_eq_ok.mpr ⟨key, hkey, bind_eq_ok.mpr ⟨ownerTable, hownerTable, rfl⟩⟩
    · exact bind_eq_ok.mpr ⟨foreignKey, hforeignKey,
        bind_eq_ok.mpr ⟨foreignTable, hforeignTable, rfl⟩⟩

theorem declares_iff {owner foreign : ForeignKey}
    (hcolumns : c.columns = [owner.definition, foreign.definition])
    (hkeys : c.foreignKeys = [owner, foreign]) (k : ForeignKey) :
    c.Declares k ↔ k ∈ [owner, foreign] := by
  rw [CreateTable.Declares, hcolumns, hkeys]
  apply and_iff_right_of_imp
  intro hk
  rcases List.mem_pair.mp hk with rfl | rfl
  · simp
  · simp

end Junction

/-- How a session addresses the rows of a relation's junction table: it finds the rows of an owner
by one column, and has the ids of foreign rows in the other one. -/
structure Addresses (m : Model) (r : Relation) (junction ownerColumn foreignColumn : String) :
    Prop where
  collects : ∀ known, CollectionTable.ofRelation known m r = .ok ⟨junction, ownerColumn⟩
  reads : ∀ owner q, Query.linkedIds m junction foreignColumn owner = .ok q →
    q.projection.items = [.column (.qualified junction foreignColumn)] ∧
      q.filter = some (.columnIs (.qualified junction ownerColumn) owner)
  writes : ∀ (σ : Type) [Database σ] owner actual wanted,
    (Session.reconcile m owner ⟨r.name, junction, foreignColumn, wanted⟩ actual :
      SessionM σ Unit) =
    (Links.reconcile junction ownerColumn owner foreignColumn actual wanted).forM fun op ↦
      Session.execute op.statement
  deletes : ∀ (σ : Type) [Database σ] (s : Session σ) name id, s.registry.get name = .ok m →
    ∃ ss, (Write.deleteById name id).plan.run s = (.ok (some (.batch ss)), s) ∧
      .delete ⟨junction, .columnIs (.qualified junction ownerColumn) id⟩ ∈ ss

section Declared

variable {models : List Model} {ifNotExists : Bool} {cs : List CreateTable}
variable {m foreign : Model} {r : Relation} {junction foreignKey : String}
variable {a : Option Aggregation}

theorem addresses (hr : r ∈ m.relations) (hkind : r.kind = .manyToMany junction foreignKey a)
    {key table : String} (hkey : m.idName = .ok key) (htable : m.tableName = .ok table) :
    Addresses m r junction key foreignKey where
  collects known := by
    rw [CollectionTable.ofRelation, hkind, hkey]
    rfl
  reads owner q h := by
    obtain ⟨p, hp, h⟩ := bind_eq_ok.mp h
    rw [hkey] at h
    obtain rfl := pure_eq_ok.mp h
    have hitems := Projection.items_ofItems hp
    refine ⟨?_, rfl⟩
    cases hblank : (Expr.column (.qualified junction foreignKey)).isBlank with
    | false => rwa [List.filter_singleton, hblank] at hitems
    | true =>
      rw [List.filter_singleton, hblank] at hitems
      exact absurd hitems p.items_ne_nil
  writes σ _ owner actual wanted := by
    rw [Session.reconcile, hkey]
    rfl
  deletes σ _ s name id hget := by
    have hid : m.idIs id = .ok (.columnIs (.qualified table key) id) :=
      bind_eq_ok.mpr ⟨table, htable, bind_eq_ok.mpr ⟨key, hkey, rfl⟩⟩
    refine ⟨_ ++ [_], run_bind_eq_ok.mpr ⟨m, s, run_model_eq_ok.mpr ⟨hget, rfl⟩,
      run_bind_eq_ok.mpr ⟨key, s, run_lift_eq_ok.mpr ⟨hkey, rfl⟩,
      run_bind_eq_ok.mpr ⟨_, s, run_lift_eq_ok.mpr ⟨hid, rfl⟩,
      run_bind_eq_ok.mpr ⟨table, s, run_lift_eq_ok.mpr ⟨htable, rfl⟩, rfl⟩⟩⟩⟩, ?_⟩
    have hjunction : r.junction = some junction := by rw [Relation.junction, hkind]
    exact List.mem_append_left _ (List.mem_map_of_mem (List.mem_filterMap.mpr ⟨r, hr, hjunction⟩))

theorem exists_key_of_create (h : create ifNotExists models = .ok cs) (hm : m ∈ concrete models) :
    ∃ key table, m.idName = .ok key ∧ m.tableName = .ok table := by
  obtain ⟨order, tables, links, hperm, htables, -, -⟩ := create_eq_ok h
  obtain ⟨c, hc⟩ := exists_of_mapM htables (hperm.mem_iff.mpr hm)
  obtain ⟨table, htable, hc⟩ := bind_eq_ok.mp hc
  obtain ⟨⟨⟩, hid, -⟩ := bind_eq_ok.mp hc
  obtain ⟨field, hfield, -⟩ := map_eq_ok.mp hid
  exact ⟨field.name, table, map_eq_ok.mpr ⟨field, hfield, rfl⟩, htable⟩

theorem filter_table_eq {cs : List CreateTable} {c : CreateTable}
    (h : (cs.map CreateTable.table).Nodup) (hc : c ∈ cs) :
    cs.filter (·.table == c.table) = [c] := by
  induction cs with
  | nil => cases hc
  | cons d cs ih =>
    obtain ⟨hd, hcs⟩ := List.nodup_cons.mp h
    rcases List.mem_cons.mp hc with rfl | hc
    · rw [List.filter_cons_of_pos (by simp), List.filter_eq_nil_iff.mpr fun e he hsame ↦ ?_]
      exact hd (eq_of_beq hsame ▸ List.mem_map_of_mem he)
    · have hne : d.table ≠ c.table := fun hsame ↦ hd (hsame ▸ List.mem_map_of_mem hc)
      rw [List.filter_cons_of_neg (by simpa using hne), ih hcs hc]

/-- There is one statement for a table that is not the table of a model, and it is that of the first
junction over the table. -/
theorem exists_create_first (h : create ifNotExists models = .ok cs)
    (hjunction : junction ∈ (junctions (concrete models)).map Junction.table)
    (hfree : junction ∉ models.filterMap Model.table) :
    ∃ first c, IsFirst (junctions (concrete models)) first ∧ first.table = junction ∧
      first.create ifNotExists = .ok c ∧ cs.filter (·.table == junction) = [c] := by
  obtain ⟨order, tables, links, hperm, htables, hlinks, rfl⟩ := create_eq_ok h
  obtain ⟨first, hfirst, rfl⟩ :=
    List.mem_map.mp (mem_tables_distinctTables.mpr ⟨hjunction, List.not_mem_nil⟩)
  obtain ⟨c, hc⟩ := exists_of_mapM hlinks hfirst
  have htable : c.table = first.table := (Junction.create_eq_ok hc).1
  have hnone : tables.filter (·.table == first.table) = [] := by
    refine List.filter_eq_nil_iff.mpr fun d hd hsame ↦ hfree ?_
    rw [← filterMap_table_concrete, ← (hperm.filterMap Model.table).mem_iff,
      filterMap_table_of_mapM htables, ← eq_of_beq hsame]
    exact List.mem_map_of_mem hd
  have hdistinct : (links.map CreateTable.table).Nodup := by
    rw [map_table_of_mapM hlinks]
    exact nodup_tables_distinctTables _ _
  have hlink : c ∈ links := (mem_iff_of_mapM hlinks).mpr ⟨first, hfirst, hc⟩
  refine ⟨first, c, (mem_distinctTables.mp hfirst).2, rfl, hc, ?_⟩
  rw [List.filter_append, hnone, List.nil_append, ← htable]
  exact filter_table_eq hdistinct hlink

theorem IsFirst.unique {js : List Junction} {j k : Junction} (hj : IsFirst js j)
    (hk : IsFirst js k) (h : j.table = k.table) : j = k :=
  List.inj_on_of_nodup_map (nodup_tables_distinctTables [] js)
    (mem_distinctTables.mpr ⟨List.not_mem_nil, hj⟩)
    (mem_distinctTables.mpr ⟨List.not_mem_nil, hk⟩) h

/-- The table in which a relation between models of the list pairs their rows, if it is not the
table of a model, has the columns of the two keys of the first junction over it and no others. So it
has those of the relation, which are the ones that a session uses, exactly if these are the keys of
the first junction too. -/
theorem declares_keys_iff (h : create ifNotExists models = .ok cs) (hm : m ∈ concrete models)
    (hr : r ∈ m.relations) (hkind : r.kind = .manyToMany junction foreignKey a)
    (hforeign : (concrete models).find? (·.name == r.foreignModel) = some foreign)
    (hfree : junction ∉ models.filterMap Model.table) :
    ∃ own other, Junction.ownerKey ⟨junction, m, foreign, foreignKey⟩ = .ok own ∧
      Junction.foreignRowKey ⟨junction, m, foreign, foreignKey⟩ = .ok other ∧
      Addresses m r junction own.column other.column ∧
      ∃ first c k k', IsFirst (junctions (concrete models)) first ∧ first.table = junction ∧
        cs.filter (·.table == junction) = [c] ∧
        first.ownerKey = .ok k ∧ first.foreignRowKey = .ok k' ∧ k.column ≠ k'.column ∧
        c.columns = [k.definition, k'.definition] ∧ c.foreignKeys = [k, k'] ∧
        (c.Declares own ∧ c.Declares other ↔ own ∈ [k, k'] ∧ other ∈ [k, k']) ∧
        (IsFirst (junctions (concrete models)) ⟨junction, m, foreign, foreignKey⟩ →
          c.Declares own ∧ c.Declares other) := by
  have hj : ⟨junction, m, foreign, foreignKey⟩ ∈ junctions (concrete models) :=
    mem_junctions.mpr ⟨hm, r, hr, ⟨a, hkind⟩, hforeign⟩
  obtain ⟨key, table, hkey, htable⟩ := exists_key_of_create h hm
  obtain ⟨key', table', hkey', htable'⟩ :=
    exists_key_of_create h (List.mem_of_find?_eq_some hforeign)
  have hown : Junction.ownerKey ⟨junction, m, foreign, foreignKey⟩ = .ok ⟨key, table, key⟩ :=
    bind_eq_ok.mpr ⟨key, hkey, bind_eq_ok.mpr ⟨table, htable, rfl⟩⟩
  have hother : Junction.foreignRowKey ⟨junction, m, foreign, foreignKey⟩ =
      .ok ⟨foreignKey, table', key'⟩ :=
    bind_eq_ok.mpr ⟨key', hkey', bind_eq_ok.mpr ⟨table', htable', rfl⟩⟩
  obtain ⟨first, c, hfirst, hsame, hc, hcs⟩ :=
    exists_create_first h (List.mem_map_of_mem hj) hfree
  obtain ⟨k, k', hk, hk', hne, hcolumns, hkeys⟩ := Junction.lists_of_create hc
  have hdeclares := Junction.declares_iff hcolumns hkeys
  refine ⟨_, _, hown, hother, addresses hr hkind hkey htable, first, c, k, k', hfirst, hsame, hcs,
    hk, hk', hne, hcolumns, hkeys, and_congr (hdeclares _) (hdeclares _), ?_⟩
  intro hj
  obtain rfl := hfirst.unique hj hsame
  obtain rfl := Except.ok.inj (hown.symm.trans hk)
  obtain rfl := Except.ok.inj (hother.symm.trans hk')
  rw [hdeclares, hdeclares]
  simp

end Declared

/-- The films of an actor are found by the same two columns as the actors of a film. -/
theorem declares_keys_film :
    let film : Model := { name := "Film", table := some "film",
                          fields := [{ name := "film_id", kind := .integer, primaryKey := true }],
                          relations := [.manyToMany "actors" "Actor" "film_actor" "actor_id"] }
    let actor : Model := { name := "Actor", table := some "actor",
                           fields := [{ name := "actor_id", kind := .integer,
                                        primaryKey := true }],
                           relations := [.manyToMany "films" "Film" "film_actor" "film_id"] }
    ∃ cs c, create false [film, actor] = .ok cs ∧ cs.filter (·.table == "film_actor") = [c] ∧
      c.columns = [{ name := "film_id", type := "INTEGER", notNull := true },
        { name := "actor_id", type := "INTEGER", notNull := true }] ∧
      c.Declares ⟨"actor_id", "actor", "actor_id"⟩ ∧ c.Declares ⟨"film_id", "film", "film_id"⟩ := by
  intro film actor
  have hcreate : (create false [film, actor]).toOption.any (fun _ ↦ true) = true := by
    decide +kernel
  obtain ⟨cs, hcs, -⟩ := exists_eq_ok hcreate
  have hactor : actor ∈ concrete [film, actor] := by decide
  have hfilm : (concrete [film, actor]).find? (·.name == "Film") = some film := rfl
  obtain ⟨own, other, hown, hother, -, first, c, k, k', hfirst, hsame, hc, hk, hk', -, hcolumns,
    -, hiff, -⟩ := declares_keys_iff hcs hactor (List.mem_singleton_self _) rfl hfilm (by decide)
  have hactors : IsFirst (junctions (concrete [film, actor]))
      ⟨"film_actor", film, actor, "actor_id"⟩ := ⟨[], _, rfl, nofun⟩
  obtain rfl := hactors.unique hfirst hsame.symm
  cases hown
  cases hother
  cases hk
  cases hk'
  refine ⟨cs, c, hcs, hc, hcolumns, hiff.mpr ⟨?_, ?_⟩⟩
  · exact List.mem_pair.mpr (.inr rfl)
  · exact List.mem_pair.mpr (.inl rfl)

/-- The films of an actor are declared with a column of their own in the same junction table. The
table is created without it, as the actors of a film come first. -/
theorem undeclared_column_film :
    let film : Model := { name := "Film", table := some "film",
                          fields := [{ name := "film_id", kind := .integer, primaryKey := true }],
                          relations := [.manyToMany "actors" "Actor" "film_actor" "actor_id"] }
    let films : Relation := .manyToMany "films" "Film" "film_actor" "movie_id"
    let actor : Model := { name := "Actor", table := some "actor",
                           fields := [{ name := "actor_id", kind := .integer,
                                        primaryKey := true }],
                           relations := [films] }
    ∃ cs, create false [film, actor] = .ok cs ∧ films ∈ actor.relations ∧
      (concrete [film, actor]).find? (·.name == films.foreignModel) = some film ∧
      "film_actor" ∉ [film, actor].filterMap Model.table ∧
      ∀ c ∈ cs, c.table = "film_actor" → ¬c.Declares ⟨"movie_id", "film", "film_id"⟩ := by
  intro film films actor
  have hcreate : ((create false [film, actor]).toOption.any fun cs ↦ cs.all fun c ↦
      !(c.columns.map ColumnDefinition.name).contains "movie_id") = true := by decide +kernel
  obtain ⟨cs, hcs, hall⟩ := exists_eq_ok hcreate
  refine ⟨cs, hcs, List.mem_singleton_self _, rfl, by decide, fun c hc _ hdeclares ↦ ?_⟩
  have hnone := List.all_eq_true.mp hall c hc
  have hname : "movie_id" ∈ c.columns.map ColumnDefinition.name := List.mem_map_of_mem hdeclares.1
  rw [List.contains_iff_mem.mpr hname] at hnone
  cases hnone

end Schema

end RelMapper
