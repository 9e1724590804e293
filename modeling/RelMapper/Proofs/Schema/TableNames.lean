import RelMapper.Database.Script
import RelMapper.Proofs.Schema.Creation
import RelMapper.Proofs.Session.Trace
namespace RelMapper.Schema

def IsJunction (models : List Model) (name : String) : Prop :=
  ∃ m ∈ concrete models, ∃ r ∈ m.relations, r.junction = some name ∧
    ∃ foreign ∈ concrete models, foreign.name = r.foreignModel

/-- No two of the models share a table, and none has a table in which rows of them are paired. -/
structure HaveOwnTables (models : List Model) : Prop where
  distinct : (models.filterMap Model.table).Nodup
  apart : ∀ name, IsJunction models name → name ∉ models.filterMap Model.table

variable {models : List Model} {ifNotExists : Bool} {cs : List CreateTable}

/-- The tables of the models are created as often as models have them, and those in which rows are
paired are created once. -/
theorem tables_create (h : create ifNotExists models = .ok cs) : ∃ own paired : List String,
    cs.map CreateTable.table = own ++ paired ∧ own.Perm (models.filterMap Model.table) ∧
      paired.Nodup ∧ ∀ name, name ∈ paired ↔ IsJunction models name := by
  obtain ⟨order, tables, links, hperm, htables, hlinks, rfl⟩ := create_eq_ok h
  refine ⟨tables.map CreateTable.table, links.map CreateTable.table, List.map_append, ?_, ?_, ?_⟩
  · rw [← filterMap_table_of_mapM htables, ← filterMap_table_concrete models]
    exact hperm.filterMap Model.table
  · rw [map_table_of_mapM hlinks]
    exact nodup_tables_distinctTables _ _
  · intro name
    rw [map_table_of_mapM hlinks, mem_tables_distinctTables, mem_tables_junctions,
      and_iff_left List.not_mem_nil, IsJunction]

theorem nodup_tables_iff (h : create ifNotExists models = .ok cs) :
    (cs.map CreateTable.table).Nodup ↔ HaveOwnTables models := by
  obtain ⟨own, paired, hcs, hown, hpaired, hmem⟩ := tables_create h
  rw [hcs, List.nodup_append', hown.nodup_iff]
  constructor
  · rintro ⟨hdistinct, -, hdisjoint⟩
    exact ⟨hdistinct, fun name hname hin ↦
      hdisjoint (hown.mem_iff.mpr hin) ((hmem name).mpr hname)⟩
  · rintro ⟨hdistinct, hapart⟩
    exact ⟨hdistinct, hpaired, fun name hin hname ↦
      hapart name ((hmem name).mp hname) (hown.mem_iff.mp hin)⟩

section Session

variable {σ : Type} [Database σ]

theorem issues_createTables (s : Session (Recorded σ)) : ∃ (l : Log) (done : List CreateTable),
    (Session.createTables.run s).2.database.history = s.database.history ++ l ∧
    l.issued = done.map (fun c ↦ (c.sql, [])) ∧
    (done = [] ∨ ∃ cs, create true s.registry.models = .ok cs ∧ done <+: cs) ∧
    ((Session.createTables.run s).1 = .ok () → create true s.registry.models = .ok done) := by
  have hrun : Session.createTables.run s = (do
      let tables ← liftM (create true s.registry.models)
      Session.executeAll (tables.map .createTable) : SessionM (Recorded σ) Unit).run s := rfl
  rw [hrun]
  cases hcreate : create true s.registry.models with
  | error e => exact ⟨[], [], (List.append_nil _).symm, rfl, .inl rfl, nofun⟩
  | ok cs =>
    obtain ⟨l, hlog, done, hdone, hissued, hall⟩ :=
      issues_executeAll (cs.map .createTable) s
    obtain ⟨rest, hrest⟩ := hdone
    obtain ⟨first, after, rfl, rfl, rfl⟩ := List.map_eq_append_iff.mp hrest.symm
    refine ⟨l, first, hlog, ?_, .inr ⟨_, rfl, List.prefix_append _ _⟩, fun hok ↦ ?_⟩
    · rw [hissued, List.map_map]
      rfl
    · have hsame := congrArg List.length (hall () hok)
      rw [List.length_map, List.length_map, List.length_append] at hsame
      have hnone : after = [] := List.length_eq_zero_iff.mp (by omega)
      rw [hnone, List.append_nil]

/-- No table is created twice exactly if the models have their own tables, which are not those that
relations between them pair rows in. It is so also for the statements that a session executes. -/
theorem created_once_iff (models : List Model) :
    (∀ ifNotExists cs, create ifNotExists models = .ok cs →
      ((cs.map CreateTable.table).Nodup ↔ HaveOwnTables models)) ∧
    ∀ s : Session (Recorded σ), s.registry.models = models →
      ∃ (l : Log) (done : List CreateTable),
        (Session.createTables.run s).2.database.history = s.database.history ++ l ∧
        l.issued = done.map (fun c ↦ (c.sql, [])) ∧
        (HaveOwnTables models → (done.map CreateTable.table).Nodup) ∧
        ((Session.createTables.run s).1 = .ok () →
          ((done.map CreateTable.table).Nodup ↔ HaveOwnTables models)) := by
  refine ⟨fun _ _ h ↦ nodup_tables_iff h, ?_⟩
  rintro s rfl
  obtain ⟨l, done, hlog, hissued, hdone, hall⟩ := issues_createTables s
  refine ⟨l, done, hlog, hissued, fun hown ↦ ?_, fun hok ↦ nodup_tables_iff (hall hok)⟩
  obtain rfl | ⟨cs, hcs, hpart⟩ := hdone
  · exact .nil
  · exact ((nodup_tables_iff hcs).mpr hown).sublist (hpart.sublist.map _)

/-- Castings have a table with more columns than the one in which films are paired with actors. -/
theorem created_twice_film :
    let film : Model := { name := "Film", table := some "film",
                          fields := [{ name := "film_id", kind := .integer, primaryKey := true }],
                          relations := [.manyToMany "actors" "Actor" "film_actor" "actor_id"] }
    let actor : Model := { name := "Actor", table := some "actor",
                           fields := [{ name := "actor_id", kind := .integer,
                                        primaryKey := true }] }
    let casting : Model := { name := "Casting", table := some "film_actor",
                             fields := [{ name := "casting_id", kind := .integer,
                                          primaryKey := true },
                               { name := "film_id", kind := .integer,
                                 foreignKey := some "film.film_id" },
                               { name := "role", kind := .string }] }
    ∃ cs, create true [actor, casting, film] = .ok cs ∧ ¬(cs.map CreateTable.table).Nodup := by
  intro film actor casting
  have hcreate : (create true [actor, casting, film]).toOption.any (fun _ ↦ true) = true := by
    decide +kernel
  obtain ⟨cs, hcs, -⟩ := exists_eq_ok hcreate
  refine ⟨cs, hcs, fun hnodup ↦ ?_⟩
  have hown := ((created_once_iff (σ := Script) [actor, casting, film]).1 true cs hcs).mp hnodup
  have hpaired : IsJunction [actor, casting, film] "film_actor" :=
    ⟨film, by decide, _, List.mem_singleton_self _, rfl, actor, by decide, rfl⟩
  exact hown.apart "film_actor" hpaired (by decide)

end Session

end RelMapper.Schema
