import RelMapper.Proofs.Loading.Eager
import RelMapper.Proofs.Sql.Rows
namespace RelMapper

namespace Relation

def generatedName (table : String) (r : Relation) : String :=
  table ++ "_" ++ r.name

theorem generatedName_ne {table : String} {r : Relation} : r.generatedName table ≠ table := by
  intro h
  have hlength := congrArg String.length h
  simp only [generatedName, String.length_append] at hlength
  have hpoint : "_".length = 1 := rfl
  omega

theorem generatedName_inj {table : String} {r r' : Relation} :
    r.generatedName table = r'.generatedName table ↔ r.name = r'.name := by
  rw [generatedName, generatedName, String.append_right_inj]

def foreignTable? (known : Registry) (r : Relation) : Option String :=
  if r.isManyToOne then (known.get r.foreignModel >>= Model.tableName).toOption else none

end Relation

section Taken

variable (known : Registry) (table : String)

/-- The names in use when the relations `before` have been joined: the base table's, those of all
foreign tables, and a generated one for each relation whose own name was in use, or which has
none. -/
inductive Taken : List Relation → String → Prop
  | base {before : List Relation} : Taken before table
  | foreign {before : List Relation} {r : Relation} {name : String} (hr : r ∈ before)
      (hname : r.foreignTable? known = some name) : Taken before name
  | generated {before earlier : List Relation} {r : Relation} (hr : earlier ++ [r] <+: before)
      (htaken : ∀ name, r.foreignTable? known = some name → Taken earlier name) :
      Taken before (r.generatedName table)

def IsRenamed (before : List Relation) (r : Relation) : Prop :=
  ∀ name, r.foreignTable? known = some name → Taken known table before name

/-- The tables that restrictions have joined, which the relations `along` are joined to, clash with
none of their names, and no generated name is that of a foreign table before it. -/
structure NamesApart (joined : String → Prop) (along : List Relation) : Prop where
  base : ¬joined table
  foreign : ∀ r ∈ along, ∀ name, r.foreignTable? known = some name → ¬joined name
  generated : ∀ before r, before ++ [r] <+: along → IsRenamed known table before r →
    ¬joined (r.generatedName table) ∧
      ∀ p ∈ before, p.foreignTable? known ≠ some (r.generatedName table)

variable {known table} {before : List Relation} {r : Relation} {name : String}

theorem taken_nil : Taken known table [] name ↔ name = table := by
  constructor
  · rintro (_ | hr | hr)
    · rfl
    · cases hr
    · exact absurd (List.prefix_nil.mp hr) (by simp)
  · rintro rfl
    exact .base

theorem taken_concat : Taken known table (before ++ [r]) name ↔ Taken known table before name ∨
    r.foreignTable? known = some name ∨
      IsRenamed known table before r ∧ name = r.generatedName table := by
  constructor
  · rintro (_ | ⟨hq, hname⟩ | ⟨hq, htaken⟩)
    · exact .inl .base
    · rcases List.mem_append.mp hq with hq | hq
      · exact .inl (.foreign hq hname)
      · exact .inr (.inl (List.mem_singleton.mp hq ▸ hname))
    · rcases List.prefix_concat_iff.mp hq with hq | hq
      · obtain ⟨rfl, hr⟩ := List.append_inj' hq rfl
        obtain rfl := List.singleton_inj.mp hr
        exact .inr (.inr ⟨htaken, rfl⟩)
      · exact .inl (.generated hq htaken)
  · rintro (h | h | ⟨h, rfl⟩)
    · cases h with
      | base => exact .base
      | foreign hq hname => exact .foreign (List.mem_append_left _ hq) hname
      | generated hq htaken => exact .generated (hq.trans (List.prefix_append _ _)) htaken
    · exact .foreign (List.mem_append_right _ (List.mem_singleton_self r)) h
    · exact .generated (List.prefix_refl _) h

theorem taken_generatedName (hr : r.name ∉ before.map Relation.name) :
    Taken known table before (r.generatedName table) ↔
      ∃ p ∈ before, p.foreignTable? known = some (r.generatedName table) := by
  refine ⟨fun h ↦ ?_, fun ⟨p, hp, hname⟩ ↦ .foreign hp hname⟩
  generalize hgenerated : r.generatedName table = name at h
  cases h with
  | base => exact absurd hgenerated Relation.generatedName_ne
  | foreign hp hname => exact ⟨_, hp, hname⟩
  | generated hp htaken =>
    obtain ⟨rest, rfl⟩ := hp
    have hsame := Relation.generatedName_inj.mp hgenerated
    exact absurd (hsame ▸ List.mem_map_of_mem (by simp)) hr

theorem namesApart_concat {joined : String → Prop} :
    NamesApart known table joined (before ++ [r]) ↔ NamesApart known table joined before ∧
      (∀ name, r.foreignTable? known = some name → ¬joined name) ∧
      (IsRenamed known table before r → ¬joined (r.generatedName table) ∧
        ∀ p ∈ before, p.foreignTable? known ≠ some (r.generatedName table)) := by
  constructor
  · intro h
    refine ⟨⟨h.base, fun q hq ↦ h.foreign q (List.mem_append_left _ hq), fun earlier q hq ↦ ?_⟩,
      h.foreign r (List.mem_append_right _ (List.mem_singleton_self r)),
      h.generated before r (List.prefix_refl _)⟩
    exact h.generated earlier q (hq.trans (List.prefix_append _ _))
  · rintro ⟨h, hforeign, hgenerated⟩
    refine ⟨h.base, fun q hq ↦ ?_, fun earlier q hq ↦ ?_⟩
    · rcases List.mem_append.mp hq with hq | hq
      · exact h.foreign q hq
      · exact List.mem_singleton.mp hq ▸ hforeign
    · rcases List.prefix_concat_iff.mp hq with hq | hq
      · obtain ⟨rfl, hr⟩ := List.append_inj' hq rfl
        exact List.singleton_inj.mp hr ▸ hgenerated
      · exact h.generated earlier q hq

end Taken

namespace Draft

variable {known : Registry} {m : Model} {table : String} {o : FetchOptions} {d d' : Draft}
variable {r : Relation} {before : List Relation} {joined : List String}

theorem exists_name (halong : r.comesAlong o = true)
    (hrun : d.joinRelation known m table o r = .ok d') : ∃ name,
      d'.names = d.names ++ [name] ∧
      d'.query.source.visibleNames = d.query.source.visibleNames ++ [name] ∧
      (r.foreignTable? known = some name ∧ name ∉ d.names ∨
        name = r.generatedName table ∧
          ∀ own, r.foreignTable? known = some own → own ∈ d.names) := by
  cases joins_of_along halong hrun with
  | @foreign _ _ foreignTable _ newName _ _ hkind hget htable hname =>
    have hforeign : r.foreignTable? known = some foreignTable := by
      rw [Relation.foreignTable?, Relation.isManyToOne, hkind, hget, if_pos rfl]
      exact congrArg Except.toOption htable
    refine ⟨_, rfl, Source.visibleNames_joinOn _ _ _ _, ?_⟩
    rw [hforeign, hname]
    split
    · next htaken =>
      have hown : foreignTable ∈ d.names := List.contains_iff_mem.mp htaken
      exact .inr ⟨rfl, fun own h ↦ Option.some.inj h ▸ hown⟩
    · next hfree =>
      have hown : foreignTable ∉ d.names := mt List.contains_iff_mem.mpr hfree
      exact .inl ⟨rfl, hown⟩
  | aggregates hone _ _ _ =>
    refine ⟨r.generatedName table, rfl, Source.visibleNames_joinOn _ _ _ _, .inr ⟨rfl, ?_⟩⟩
    simp [Relation.foreignTable?, hone]

/-- What is known of a draft's names: those in use are what `Taken` says, and with the tables that
restrictions have joined they are all that is visible. -/
structure Named (known : Registry) (table : String) (joined : List String)
    (before : List Relation) (d : Draft) : Prop where
  taken : ∀ name, name ∈ d.names ↔ Taken known table before name
  visible : d.query.source.visibleNames.Perm (d.names ++ joined)
  nodup : (d.names ++ joined).Nodup ↔ NamesApart known table (· ∈ joined) before

theorem Named.isRenamed_iff (h : Named known table joined before d) :
    IsRenamed known table before r ↔
      ∀ name, r.foreignTable? known = some name → name ∈ d.names :=
  forall₂_congr fun name _ ↦ (h.taken name).symm

theorem named_joinRelation (h : Named known table joined before d)
    (hnew : r.name ∉ before.map Relation.name) (halong : r.comesAlong o = true)
    (hrun : d.joinRelation known m table o r = .ok d') :
    Named known table joined (before ++ [r]) d' := by
  obtain ⟨name, hnames, hvisible, hname⟩ := exists_name halong hrun
  refine ⟨fun other ↦ ?_, ?_, ?_⟩
  · rw [hnames, List.mem_append, List.mem_singleton, taken_concat, ← h.taken, h.isRenamed_iff]
    refine or_congr_right' fun hnew ↦ ?_
    obtain ⟨hforeign, hfree⟩ | ⟨rfl, hown⟩ := hname
    · simp [hforeign, hfree, eq_comm]
    · exact ⟨fun h ↦ .inr ⟨hown, h⟩, fun h ↦ h.elim (fun h ↦ absurd (hown _ h) hnew) And.right⟩
  · rw [hvisible, hnames, List.append_assoc]
    refine (h.visible.append_right [name]).trans ?_
    rw [List.append_assoc]
    exact List.perm_append_comm.append_left d.names
  · rw [hnames, List.append_assoc, List.singleton_append, List.perm_middle.nodup_iff,
      List.nodup_cons, h.nodup, namesApart_concat, List.mem_append, h.isRenamed_iff, and_comm]
    refine and_congr_right fun hapart ↦ ?_
    obtain ⟨hforeign, hfree⟩ | ⟨rfl, hown⟩ := hname
    · simp [hforeign, hfree]
    · have hdisjoint := List.disjoint_of_nodup_append (h.nodup.mpr hapart)
      have hforeign : ∀ own, r.foreignTable? known = some own → own ∉ joined :=
        fun own hr ↦ hdisjoint (hown own hr)
      rw [h.taken, taken_generatedName hnew, not_or, and_comm]
      constructor
      · rintro ⟨hjoined, hno⟩
        exact ⟨hforeign, fun _ ↦ ⟨hjoined, fun p hp hp' ↦ hno ⟨p, hp, hp'⟩⟩⟩
      · rintro ⟨-, hgenerated⟩
        exact (hgenerated hown).imp_right fun hall ⟨p, hp, hp'⟩ ↦ hall p hp hp'

theorem named_joinRelations {rs : List Relation} (h : Named known table joined [] d)
    (hrs : (rs.map Relation.name).Nodup)
    (hrun : rs.foldlM (joinRelation known m table o) d = .ok d') :
    Named known table joined (rs.filter (·.comesAlong o)) d' := by
  let P (before : List Relation) (d : Draft) : Prop :=
    (before.map Relation.name).Nodup → Named known table joined before d
  have hstep {before d d' r} (_ : r ∈ rs) (halong : r.comesAlong o = true) (h : P before d)
      (hrun : d.joinRelation known m table o r = .ok d') : P (before ++ [r]) d' := by
    intro hnames
    rw [List.map_append, List.map_singleton, List.nodup_append_comm, List.singleton_append,
      List.nodup_cons] at hnames
    exact named_joinRelation (h hnames.2) hnames.1 halong hrun
  have hall : P ([] ++ rs.filter (·.comesAlong o)) d' := along_joinRelations hstep (fun _ ↦ h) hrun
  exact hall (hrs.sublist (List.filter_sublist.map _))

theorem named_base {q : Query} (layout : Layout)
    (hq : q.source.visibleNames = table :: joined) (hjoined : joined.Nodup) :
    Named known table joined [] ⟨q, layout, [table]⟩ := by
  refine ⟨fun name ↦ List.mem_singleton.trans taken_nil.symm, .of_eq hq, ?_⟩
  rw [List.singleton_append, List.nodup_cons]
  refine ⟨fun h ↦ ⟨h.1, nofun, fun before r h ↦ ?_⟩, fun h ↦ ⟨h.base, hjoined⟩⟩
  exact absurd (List.prefix_nil.mp h) (by simp)

end Draft

theorem Selection.visibleNames_source {s : Selection} {source : Source}
    (h : s.source = .ok source) : ∃ table, s.model.tableName = .ok table ∧
      source.visibleNames = table :: s.junctions := by
  obtain ⟨table, id, htable, -, rfl⟩ := source_eq_ok h
  refine ⟨table, htable, ?_⟩
  rw [Source.visibleNames, List.map_map]
  exact congrArg (table :: ·) (List.map_id s.junctions)

namespace EntityQuery

variable {known : Registry} {c : Config} {m : Model} {o : FetchOptions} {id : Option Value}
variable {q : EntityQuery}

open Draft

/-- The names of the tables that are read are distinct exactly if those joined for a restriction
differ from the owner's table, from what is joined for relations, and every generated name from the
foreign tables before it. -/
theorem visibleNames_nodup_iff (hm : (m.relations.map Relation.name).Nodup)
    (h : primary known c m o id = .ok q) : ∃ table, m.tableName = .ok table ∧
      (q.query.source.visibleNames.Nodup ↔ NamesApart known table (m.Joins o.condition o.filters)
        (m.relations.filter (·.comesAlong o))) := by
  obtain ⟨table, asked, keys, query, d, orderBy, page, htable, -, -, hquery, hd, rfl⟩ :=
    primary_eq_ok h
  obtain ⟨table', htable', hvisible⟩ :=
    Selection.visibleNames_source (Selection.source_of_query hquery)
  obtain rfl := Except.ok.inj (htable.symm.trans htable')
  have hnamed := named_joinRelations (named_base _ hvisible (Selection.nodup_junctions _)) hm hd
  refine ⟨table, htable, ?_⟩
  rw [hnamed.visible.nodup_iff, hnamed.nodup, Selection.mem_junctions_eq]
  exact hm

/-- The table of a film's castings is also the one that pairs films with actors. -/
theorem visibleNames_clash_film :
    let actors : Relation := .manyToMany "actors" "Actor" "film_actor" "actor_id"
    let lead : Relation := (Relation.manyToOne "lead" "Casting" "lead_id" "id").withLazy false
    let casting : Model := { name := "Casting", table := some "film_actor",
                             fields := [{ name := "id", kind := .integer, primaryKey := true }] }
    let film : Model := { name := "Film", table := some "film",
                          fields := [{ name := "film_id", kind := .integer, primaryKey := true },
                            { name := "lead_id", kind := .integer }],
                          relations := [actors, lead] }
    let o : FetchOptions := { filters := some [.manyToMany "Film" "actors" (.bigInt 1)] }
    ∃ q, primary ⟨[casting, film]⟩ {} film o none = .ok q ∧
      ¬q.query.source.visibleNames.Nodup := by
  intro actors lead casting film o
  have hquery : (primary ⟨[casting, film]⟩ {} film o none).toOption.any (fun _ ↦ true) = true := by
    decide +kernel
  obtain ⟨q, hq, -⟩ := exists_eq_ok hquery
  obtain ⟨table, htable, hnodup⟩ := visibleNames_nodup_iff (by decide) hq
  cases htable
  have hjoins : film.Joins o.condition o.filters "film_actor" :=
    ⟨actors, by decide, rfl, .inr ⟨_, List.mem_singleton_self _, List.mem_singleton_self "actors"⟩⟩
  have hlead : lead ∈ film.relations.filter (·.comesAlong o) := by decide
  exact ⟨q, hq, fun hdistinct ↦ (hnodup.mp hdistinct).foreign lead hlead "film_actor" rfl hjoins⟩

end EntityQuery

end RelMapper
