import RelMapper.Proofs.Links.LoadedUpdates
import RelMapper.Proofs.Sql.Joins
namespace RelMapper

open Session

namespace Content

/-- The rows of a table after a deletion: those are gone for which its condition is true, and not
those for which it is unknown. -/
def afterDelete (c : Content) (dialect : Dialect) (x : Delete) (table : String) : List Record :=
  if table = x.table then (c.table table).filter fun r ↦ !dialect.holds [(table, r)] x.filter
  else c.table table

def without (c : Content) (tables : List String) (column : String) (v : Value) (table : String) :
    List Record :=
  if table ∈ tables then (c.table table).filter fun r ↦ !(r column).equals v else c.table table

theorem afterDelete_columnIs (c : Content) (dialect : Dialect) (table column : String)
    (v : Value) : c.afterDelete dialect ⟨table, .columnIs (.qualified table column) v⟩ =
      c.without [table] column v := by
  funext other
  simp only [afterDelete, without, List.mem_singleton]
  split
  · next h =>
    subst h
    simp only [dialect.holds_columnIs]
  · rfl

theorem without_cons {c c' : Content} {t : String} {ts : List String} {column : String} {v : Value}
    (h : c'.table = c.without [t] column v) :
    c'.without ts column v = c.without (t :: ts) column v := by
  funext table
  simp only [without, h, List.mem_cons]
  by_cases ht : table = t
  · simp [ht, List.filter_filter]
  · simp [ht]

end Content

def Model.deletions (m : Model) (table owner : String) (id : Value) : List Delete :=
  (m.relations.filterMap Relation.junction ++ [table]).map fun t ↦
    ⟨t, .columnIs (.qualified t owner) id⟩

section Run

variable {σ : Type} [Database σ] {content : σ → Content} {dialect : Dialect}
variable {m : Model} {name owner table : String} {id : Value} {s u : Session σ}

/-- The database does the deletions `xs` as SQL has them, and keeps what it has when it commits. -/
structure Deletes (content : σ → Content) (dialect : Dialect) (xs : List Delete) : Prop where
  delete : ∀ {x d d'}, x ∈ xs → (Database.execute (Statement.delete x).sql
    (Statement.delete x).binds).run d = (.ok (), d') →
      (content d').table = (content d).afterDelete dialect x
  commit : ∀ {d d'}, (Database.commit : DatabaseM σ Unit).run d = (.ok (), d') →
    (content d').table = (content d).table

namespace Session

theorem run_deleteById_eq_ok (hm : s.registry.get name = .ok m)
    (hrun : (deleteById name id).run s = (.ok (), u)) :
    ∃ owner table, m.idName = .ok owner ∧ m.tableName = .ok table ∧
      (executeAll ((m.deletions table owner id).map .delete)).run s = (.ok (), u) := by
  obtain ⟨m', s₁, hmodel, hrun⟩ := run_bind_eq_ok.mp hrun
  obtain ⟨hm', rfl⟩ := run_model_eq_ok.mp hmodel
  obtain rfl := Except.ok.inj (hm.symm.trans hm')
  obtain ⟨owner, s₁, hlift, hrun⟩ := run_bind_eq_ok.mp hrun
  obtain ⟨howner, rfl⟩ := run_lift_eq_ok.mp hlift
  obtain ⟨p, s₁, hlift, hrun⟩ := run_bind_eq_ok.mp hrun
  obtain ⟨hp, rfl⟩ := run_lift_eq_ok.mp hlift
  obtain ⟨table, s₁, hlift, hrun⟩ := run_bind_eq_ok.mp hrun
  obtain ⟨htable, rfl⟩ := run_lift_eq_ok.mp hlift
  rw [Model.idIs_eq htable howner] at hp
  obtain rfl := Except.ok.inj hp
  refine ⟨owner, table, howner, htable, ?_⟩
  rw [Model.deletions, List.map_map, List.map_append]
  exact hrun

end Session

namespace Deletes

theorem run_deletions {v : Value} {column : String} {ts : List String} (h : Deletes content dialect
    (ts.map fun t ↦ ⟨t, .columnIs (.qualified t column) v⟩))
    (hrun : ((ts.map fun t ↦ Statement.delete ⟨t, .columnIs (.qualified t column) v⟩).forM
      execute).run s = (.ok (), u)) :
    (content u.database).table = (content s.database).without ts column v := by
  induction ts generalizing s with
  | nil =>
    obtain ⟨-, rfl⟩ := run_pure_eq_ok.mp hrun
    exact funext fun table ↦ (if_neg List.not_mem_nil).symm
  | cons t ts ih =>
    obtain ⟨⟨⟩, s₁, hfirst, hrun⟩ := run_bind_eq_ok.mp hrun
    have hstep := h.delete List.mem_cons_self (run_execute_eq_ok hfirst).1
    rw [Content.afterDelete_columnIs] at hstep
    rw [ih ⟨fun hx ↦ h.delete (List.mem_cons_of_mem _ hx), h.commit⟩ hrun]
    exact Content.without_cons hstep

theorem run_deleteById (h : Deletes content dialect (m.deletions table owner id))
    (hrun : (executeAll ((m.deletions table owner id).map .delete)).run s = (.ok (), u)) :
    (content u.database).table = (content s.database).without
      (m.relations.filterMap Relation.junction ++ [table]) owner id := by
  obtain ⟨t, hrun, hcommit, -⟩ := run_transaction_eq_ok hrun
  rw [Model.deletions, List.map_map] at hrun
  rw [h.commit hcommit]
  exact h.run_deletions hrun

end Deletes

/-- A row of the relation's junction table refers to the row of `m` that has the id, as the owner of
a link or, where the relation leads back to `m`, as what is linked. -/
def Relation.RefersTo (r : Relation) (m : Model) (owner foreignKey : String) (id : Value)
    (row : Record) : Prop :=
  (row owner).equals id = true ∨ r.foreignModel = m.name ∧ (row foreignKey).equals id = true

/-- After the deletion of a row, no row of a junction table refers to it as an owner, and all other
rows of the junction table are as they were. So the only references that may be left are those by
which a relation leads back to its own model, and they are left unless the owner is the row itself. -/
theorem deleted_unreferred_iff {m : Model} {name : String} {id : Value} {s u : Session σ}
    (hm : s.registry.get name = .ok m)
    (h : ∀ table owner, m.tableName = .ok table → m.idName = .ok owner →
      Deletes content dialect (m.deletions table owner id))
    (hrun : (deleteById name id).run s = (.ok (), u)) :
    ∃ owner, m.idName = .ok owner ∧
      (∀ r junction foreignKey a, r ∈ m.relations →
        r.kind = .manyToMany junction foreignKey a →
        let before := (content s.database).table junction
        let after := (content u.database).table junction
        after = before.filter (fun row ↦ !(row owner).equals id) ∧
        (∀ row ∈ after, (row owner).equals id = false) ∧
        (∀ row ∈ before, ¬r.RefersTo m owner foreignKey id row → row ∈ after) ∧
        ((∀ row ∈ after, ¬r.RefersTo m owner foreignKey id row) ↔
          (r.foreignModel = m.name → ∀ row ∈ before,
            (row foreignKey).equals id = true → (row owner).equals id = true))) ∧
      ∀ table, table ∉ m.relations.filterMap Relation.junction → m.table ≠ some table →
        (content u.database).table table = (content s.database).table table := by
  obtain ⟨owner, table, howner, htable, hrun⟩ := run_deleteById_eq_ok hm hrun
  have htables := (h table owner htable howner).run_deleteById hrun
  refine ⟨owner, howner, fun r junction foreignKey a hr hkind ↦ ?_, fun other hnone hne ↦ ?_⟩
  · intro before after
    have hjunction : junction ∈ m.relations.filterMap Relation.junction ++ [table] := by
      refine List.mem_append_left _ (List.mem_filterMap.mpr ⟨r, hr, ?_⟩)
      rw [Relation.junction, hkind]
    have hafter : after = before.filter fun row ↦ !(row owner).equals id :=
      (congrFun htables junction).trans (if_pos hjunction)
    have hmem (row : Record) :
        row ∈ after ↔ row ∈ before ∧ (row owner).equals id = false := by
      rw [hafter, List.mem_filter, Bool.not_eq_true']
    refine ⟨hafter, fun row hrow ↦ ((hmem row).mp hrow).2, fun row hrow hother ↦ ?_, ?_⟩
    · refine (hmem row).mpr ⟨hrow, Bool.eq_false_iff.mpr fun hrefers ↦ ?_⟩
      exact hother (.inl hrefers)
    · constructor
      · intro hnone hself row hrow hforeign
        by_contra howns
        refine hnone row ((hmem row).mpr ⟨hrow, Bool.eq_false_iff.mpr howns⟩) ?_
        exact .inr ⟨hself, hforeign⟩
      · rintro hown row hrow (howns | ⟨hself, hforeign⟩)
        · rw [((hmem row).mp hrow).2] at howns
          cases howns
        · have howns := hown hself row ((hmem row).mp hrow).1 hforeign
          rw [((hmem row).mp hrow).2] at howns
          cases howns
  · rw [htables, Content.without, if_neg]
    intro hmem
    rcases List.mem_append.mp hmem with hmem | hmem
    · exact hnone hmem
    · rw [List.mem_singleton.mp hmem] at hne
      exact hne (Model.tableName_eq_ok.mp htable)

end Run

/-- A database in memory that does the deletions `known`, told by their texts, and nothing else. -/
structure Holdings (dialect : Dialect) (known : List Delete) where
  tables : String → List Record

namespace Holdings

variable {dialect : Dialect} {known : List Delete}

def content (d : Holdings dialect known) : Content := ⟨d.tables, fun _ ↦ []⟩

def execute (sql : String) (d : Holdings dialect known) : Holdings dialect known :=
  match known.find? fun x ↦ (Statement.delete x).sql == sql with
  | some x => ⟨d.content.afterDelete dialect x⟩
  | none => d

instance : Database (Holdings dialect known) where
  execute sql _ := modify (execute sql)
  fetchOne := pure none
  fetchAll := pure []
  commit := pure ()
  rollback := pure ()

theorem deletes (h : (known.map fun x ↦ (Statement.delete x).sql).Nodup) :
    Deletes (content : Holdings dialect known → Content) dialect known where
  delete {x d d'} hx hrun := by
    have hknown : (known.find? fun y ↦ (Statement.delete y).sql == (Statement.delete x).sql).isSome :=
      List.find?_isSome.mpr ⟨x, hx, beq_self_eq_true _⟩
    obtain ⟨y, hy⟩ := Option.isSome_iff_exists.mp hknown
    have hsql : (Statement.delete y).sql = (Statement.delete x).sql := by
      simpa using List.find?_some hy
    obtain rfl := List.inj_on_of_nodup_map h (List.mem_of_find?_eq_some hy) hx hsql
    have hd' : d' = d.execute (Statement.delete y).sql := by
      cases hrun
      rfl
    rw [hd', execute, hy]
    rfl
  commit hrun := by
    cases hrun
    rfl

end Holdings

/-- Films with their sequels. The second film, which has the first one for a sequel, goes on
referring to it after it has been deleted. -/
theorem deleted_unreferred_sequels :
    let sequels : Relation := .manyToMany "sequels" "Film" "film_sequel" "sequel_id"
    let film : Model := { name := "Film", table := some "film",
                          fields := [{ name := "film_id", kind := .integer, primaryKey := true }],
                          relations := [sequels] }
    let link (owner foreign : Int64) : Record := fun column ↦
      .bigInt (if column = "film_id" then owner else foreign)
    let dialect : Dialect := ⟨fun _ _ ↦ .null, fun _ _ _ ↦ none, fun _ _ ↦ true⟩
    let session : Session (Holdings dialect (film.deletions "film" "film_id" (.bigInt 7))) :=
      { database := ⟨fun table ↦ if table = "film_sequel" then [link 7 8, link 8 7, link 8 9]
                                 else [fun _ ↦ .bigInt 7, fun _ ↦ .bigInt 8]⟩,
        registry := ⟨[film]⟩ }
    ∃ u, (deleteById "Film" (.bigInt 7)).run session = (.ok (), u) ∧
      u.database.tables "film_sequel" = [link 8 7, link 8 9] ∧
      ¬∀ row ∈ u.database.tables "film_sequel",
        ¬sequels.RefersTo film "film_id" "sequel_id" (.bigInt 7) row := by
  intro sequels film link dialect session
  have hrun : ((deleteById "Film" (.bigInt 7)).run session).1.toOption.any (fun _ ↦ true) = true := by
    decide +kernel
  obtain ⟨⟨⟩, u, hrun, -⟩ := exists_run_eq_ok hrun
  have hdeletes : ∀ table owner, film.tableName = .ok table → film.idName = .ok owner →
      Deletes (Holdings.content : Holdings dialect (film.deletions "film" "film_id" (.bigInt 7)) →
        Content) dialect (film.deletions table owner (.bigInt 7)) := by
    intro table owner htable howner
    obtain rfl := Except.ok.inj htable
    obtain rfl := Except.ok.inj howner
    exact Holdings.deletes (by decide +kernel)
  obtain ⟨owner, howner, hjunctions, -⟩ := deleted_unreferred_iff (m := film) rfl hdeletes hrun
  obtain rfl := Except.ok.inj howner
  obtain ⟨hafter, -, -, hiff⟩ :=
    hjunctions sequels "film_sequel" "sequel_id" none List.mem_cons_self rfl
  refine ⟨u, hrun, hafter, fun hnone ↦ ?_⟩
  have hback : link 8 7 ∈ session.database.tables "film_sequel" :=
    List.mem_cons_of_mem _ List.mem_cons_self
  have howned := hiff.mp hnone rfl (link 8 7) hback (by decide)
  revert howned
  decide

end RelMapper
