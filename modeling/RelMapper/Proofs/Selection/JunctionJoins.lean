import RelMapper.Proofs.Selection.Restrictions
namespace RelMapper

/-- The expression refers to the column, if only in an argument of a call. -/
inductive Expr.Mentions (c : Column) : Expr → Prop
  | column : Mentions c (.column c)
  | argument {function : String} {args : List Expr} {newName : Option String} {e : Expr}
      (he : e ∈ args) (h : Mentions c e) : Mentions c (.call function args newName)

namespace Expr

mutual

theorem mem_columns {c : Column} (e : Expr) : c ∈ e.columns ↔ e.Mentions c := by
  cases e with
  | column d =>
    rw [columns, List.mem_singleton]
    exact ⟨fun h ↦ h ▸ .column, fun | .column => rfl⟩
  | call function args newName =>
    rw [columns, mem_argsColumns args]
    exact ⟨fun ⟨e, he, h⟩ ↦ .argument he h, fun | .argument he h => ⟨_, he, h⟩⟩
  | literal l => exact ⟨nofun, nofun⟩
  | bound v => exact ⟨nofun, nofun⟩
  | verbatim s => exact ⟨nofun, nofun⟩

theorem mem_argsColumns {c : Column} (es : List Expr) :
    c ∈ argsColumns es ↔ ∃ e ∈ es, e.Mentions c := by
  cases es with
  | nil => exact ⟨nofun, nofun⟩
  | cons e es =>
    rw [argsColumns, List.mem_append, mem_columns e, mem_argsColumns es,
      List.exists_mem_cons_iff]

end

end Expr

inductive Predicate.Mentions (c : Column) : Predicate → Prop
  | lhs {op : Comparison} {l r : Expr} (h : l.Mentions c) : Mentions c (.compare op l r)
  | rhs {op : Comparison} {l r : Expr} (h : r.Mentions c) : Mentions c (.compare op l r)
  | left {op : Connective} {p q : Predicate} (h : Mentions c p) : Mentions c (.combine op p q)
  | right {op : Connective} {p q : Predicate} (h : Mentions c q) : Mentions c (.combine op p q)
  | negate {p : Predicate} (h : Mentions c p) : Mentions c (.negate p)

theorem Predicate.mem_columns {c : Column} (p : Predicate) : c ∈ p.columns ↔ p.Mentions c := by
  induction p with
  | compare op l r =>
    rw [columns, List.mem_append, l.mem_columns, r.mem_columns]
    exact ⟨fun h ↦ h.elim .lhs .rhs, fun | .lhs h => .inl h | .rhs h => .inr h⟩
  | combine op p q ihp ihq =>
    rw [columns, List.mem_append, ihp, ihq]
    exact ⟨fun h ↦ h.elim .left .right, fun | .left h => .inl h | .right h => .inr h⟩
  | negate p ih =>
    rw [columns, ih]
    exact ⟨.negate, fun | .negate h => h⟩
  | truth t => exact ⟨nofun, nofun⟩

namespace Filter

inductive AsksForLink (relation : String) : Filter → Prop
  | manyToMany {scope : String} {v : Value} : AsksForLink relation (.manyToMany scope relation v)
  | any {filters : List Filter} {f : Filter} (hf : f ∈ filters) (h : AsksForLink relation f) :
      AsksForLink relation (.any filters)

mutual

theorem mem_relations {relation : String} (f : Filter) :
    relation ∈ f.relations ↔ f.AsksForLink relation := by
  cases f with
  | field scope name v negated => exact ⟨nofun, nofun⟩
  | manyToOne scope other v => exact ⟨nofun, nofun⟩
  | manyToMany scope other v =>
    rw [relations, List.mem_singleton]
    exact ⟨fun h ↦ h ▸ .manyToMany, fun | .manyToMany => rfl⟩
  | any filters =>
    rw [relations, mem_relationsOfAll filters]
    exact ⟨fun ⟨f, hf, h⟩ ↦ .any hf h, fun | .any hf h => ⟨_, hf, h⟩⟩

theorem mem_relationsOfAll {relation : String} (fs : List Filter) :
    relation ∈ relationsOfAll fs ↔ ∃ f ∈ fs, f.AsksForLink relation := by
  cases fs with
  | nil => exact ⟨nofun, nofun⟩
  | cons f fs =>
    rw [relationsOfAll, List.mem_append, mem_relations f, mem_relationsOfAll fs,
      List.exists_mem_cons_iff]

end

end Filter

namespace Selection

variable {s : Selection} {q : Query}

theorem sourceAndFilter_of_countQuery (h : s.countQuery = .ok q) :
    s.sourceAndFilter = .ok (q.source, q.filter) := by
  obtain ⟨table, id, projection, source, filter, -, -, -, hread, rfl⟩ := countQuery_eq_ok h
  exact hread

theorem condition_or_filters_eq_none (hmodes : s.modes ≤ 1) :
    s.condition = none ∨ s.filters = none := by
  cases hcondition : s.condition with
  | none => exact .inl rfl
  | some p =>
    cases hfilters : s.filters with
    | none => exact .inr rfl
    | some fs =>
      rw [modes, hcondition, hfilters, Option.isSome_some, Option.isSome_some, Bool.toNat_true]
        at hmodes
      omega

/-- A query, and the one that counts its rows, reads the model's table and joins each junction
table once and by the model's id, just the ones that its filters or its predicate ask for. -/
theorem junctions_joined_iff {key : Field} (hkey : s.model.fields.filter Field.primaryKey = [key])
    (hnames : (s.model.relations.map Relation.name).Nodup)
    (h : s.query = .ok q ∨ s.countQuery = .ok q) : ∃ (table : String) (junctions : List String),
    s.model.table = some table ∧
    q.source = ⟨.table { name := table }, junctions.map fun junction ↦
      ⟨.inner, .table { name := junction }, some (.on (.equal
        (.column (.qualified junction key.name)) (.column (.qualified table key.name))))⟩⟩ ∧
    junctions.Nodup ∧
    (∀ fs, s.filters = some fs → ∀ junction, junction ∈ junctions ↔
      ∃ r ∈ s.model.relations, r.junction = some junction ∧ ∃ f ∈ fs, f.AsksForLink r.name) ∧
    (∀ p, s.condition = some p → ∀ junction, junction ∈ junctions ↔
      (∃ r ∈ s.model.relations, r.junction = some junction) ∧
        ∃ c, p.Mentions c ∧ c.table = some junction) := by
  have hid : s.model.idName = .ok key.name := by rw [Model.idName, Model.idField, hkey]; rfl
  have hread : s.sourceAndFilter = .ok (q.source, q.filter) :=
    h.elim (fun h ↦ (sourceAndFilter_of_query h).1) sourceAndFilter_of_countQuery
  obtain ⟨hmodes, source, ps, hsource, -, hq⟩ := sourceAndFilter_eq_ok.mp hread
  obtain ⟨rfl, -⟩ := Prod.mk.inj hq
  obtain ⟨table, htable, hfold⟩ := bind_eq_ok.mp hsource
  refine ⟨table, s.junctions, Model.tableName_eq_ok.mp htable, joined_eq htable hid hfold,
    s.nodup_junctions, fun fs hfs junction ↦ ?_, fun p hp junction ↦ ?_⟩
  · have hcondition : s.condition = none :=
      (condition_or_filters_eq_none hmodes).resolve_right (hfs ▸ Option.some_ne_none fs)
    rw [mem_junctions hnames, Model.Joins, hcondition, hfs]
    simp only [reduceCtorEq, false_and, exists_false, false_or, Option.getD_some,
      Filter.mem_relations]
  · have hfilters : s.filters = none :=
      (condition_or_filters_eq_none hmodes).resolve_left (hp ▸ Option.some_ne_none p)
    rw [mem_junctions hnames, Model.Joins, hfilters, hp]
    simp only [Option.some.injEq, exists_eq_left', Option.getD_none, List.not_mem_nil, false_and,
      exists_false, or_false, Predicate.mem_columns, ← and_assoc, exists_and_right]

theorem junctions_joined_iff_film :
    let key : Field := { name := "film_id", kind := .integer, primaryKey := true }
    let film : Model := { name := "Film", table := some "film",
                          fields := [key, { name := "title", kind := .string }],
                          relations := [.manyToMany "actors" "Actor" "film_actor" "actor_id",
                            .manyToMany "tags" "Tag" "film_tag" "tag_id",
                            .manyToMany "leads" "Actor" "film_actor" "lead_id"] }
    let role : Column := .qualified "film_actor" "role"
    let notLead : Predicate := .negate (.or (.columnIs (.qualified "film" "title") (.text "Ran"))
      (.equal (.call "LOWER" [.column role] none) (.bound (.text "lead"))))
    let linked : Filter := .any [.manyToMany "Film" "actors" (.bigInt 1),
      .manyToMany "Film" "leads" (.bigInt 2)]
    film.fields.filter Field.primaryKey = [key] ∧
      (film.relations.map Relation.name).Nodup ∧
      ∀ s ∈ [(ofModel film).satisfying notLead, (ofModel film).filtered [linked]],
        ∃ (q : Query) (junctions : List String), s.query = .ok q ∧
          q.source = ⟨.table { name := "film" }, junctions.map fun junction ↦
            ⟨.inner, .table { name := junction }, some (.on (.equal
              (.column (.qualified junction "film_id")) (.column (.qualified "film" "film_id"))))⟩⟩ ∧
          junctions.Nodup ∧ "film_actor" ∈ junctions ∧ "film_tag" ∉ junctions := by
  intro key film role notLead linked
  have hkey : film.fields.filter Field.primaryKey = [key] := rfl
  have hnames : (film.relations.map Relation.name).Nodup := by decide
  refine ⟨hkey, hnames, List.forall_mem_cons.mpr ⟨?_, List.forall_mem_singleton.mpr ?_⟩⟩
  · have hquery : ((ofModel film).satisfying notLead).query.toOption.any (fun _ ↦ true) = true := by
      decide +kernel
    obtain ⟨q, hq, -⟩ := exists_eq_ok hquery
    obtain ⟨table, junctions, htable, hsource, hnodup, -, hjoined⟩ :=
      junctions_joined_iff hkey hnames (.inl hq)
    obtain rfl := Option.some.inj htable
    have hjoined := hjoined notLead rfl
    refine ⟨q, junctions, hq, hsource, hnodup, (hjoined _).mpr ⟨by decide, role, ?_, rfl⟩, ?_⟩
    · exact .negate (.right (.lhs (.argument (List.mem_singleton_self _) .column)))
    · intro htag
      obtain ⟨-, c, hc, htag⟩ := (hjoined _).mp htag
      have hother : ∀ c ∈ notLead.columns, c.table ≠ some "film_tag" := by decide
      exact hother c ((Predicate.mem_columns notLead).mpr hc) htag
  · have hquery : ((ofModel film).filtered [linked]).query.toOption.any (fun _ ↦ true) = true := by
      decide +kernel
    obtain ⟨q, hq, -⟩ := exists_eq_ok hquery
    obtain ⟨table, junctions, htable, hsource, hnodup, hjoined, -⟩ :=
      junctions_joined_iff hkey hnames (.inl hq)
    obtain rfl := Option.some.inj htable
    have hjoined := hjoined [linked] rfl
    refine ⟨q, junctions, hq, hsource, hnodup, (hjoined _).mpr ?_, ?_⟩
    · exact ⟨_, List.mem_cons_self, rfl, linked, List.mem_singleton_self _,
        .any List.mem_cons_self .manyToMany⟩
    · intro htag
      obtain ⟨r, hr, htag, f, hf, hasks⟩ := (hjoined _).mp htag
      obtain rfl := List.mem_singleton.mp hf
      have hother : ∀ r ∈ film.relations, r.junction = some "film_tag" →
          r.name ∉ linked.relations := by decide
      exact hother r hr htag ((Filter.mem_relations linked).mpr hasks)

end Selection

end RelMapper
