import RelMapper.Proofs.Selection.Scalars
import RelMapper.Proofs.Sql.Truth
namespace RelMapper

namespace Filter

variable {m : Model} {table : String}

/-- The filter speaks of the model and of what it declares, and no choice in it is empty. -/
inductive WellScoped (m : Model) : Filter → Prop
  | field {name : String} {v : Value} {negated : Bool} (h : ∃ f ∈ m.fields, f.name = name) :
      WellScoped m (.field m.name name v negated)
  | manyToOne {relation : String} {v : Value} {r : Relation} (h : m.relation? relation = some r)
      (hr : r.isManyToOne = true) : WellScoped m (.manyToOne m.name relation v)
  | manyToMany {relation : String} {v : Value} {r : Relation} (h : m.relation? relation = some r)
      (hr : r.isManyToMany = true) : WellScoped m (.manyToMany m.name relation v)
  | any {filters : List Filter} (hne : filters ≠ []) (h : ∀ f ∈ filters, WellScoped m f) :
      WellScoped m (.any filters)

mutual

def parts : Filter → List Filter
  | any [] => [any []]
  | any (f :: fs) => f.parts ++ partsOfAll fs
  | field scope name v negated => [field scope name v negated]
  | manyToOne scope relation v => [manyToOne scope relation v]
  | manyToMany scope relation v => [manyToMany scope relation v]

def partsOfAll : List Filter → List Filter
  | [] => []
  | f :: fs => f.parts ++ partsOfAll fs

end

def relationFault? (m : Model) (relation : String) (expected : RelationShape)
    (fits : Relation → Bool) : Option Fault :=
  match m.relation? relation with
  | some r => if fits r then none else some (mismatch m relation expected)
  | none => some (.relationNotFound m.name relation)

def fault? (m : Model) : Filter → Option Fault
  | field scope name _ _ =>
    if scope = m.name then if m.hasField name then none else some (m.unknownField name)
    else some (.ofMisuse (.filterOutOfScope scope m.name))
  | manyToOne scope relation _ =>
    if scope = m.name then relationFault? m relation .manyToOne Relation.isManyToOne
    else some (.ofMisuse (.filterOutOfScope scope m.name))
  | manyToMany scope relation _ =>
    if scope = m.name then relationFault? m relation .manyToMany Relation.isManyToMany
    else some (.ofMisuse (.filterOutOfScope scope m.name))
  | any [] => some (.ofMisuse (.emptyCombination .or))
  | any (_ :: _) => none

/-- The truth that a restriction on a relation has: that of an equality of the foreign key, which is
a column of the model's own table or of the junction table. -/
def relationTruth (m : Model) (table : String) (truths : Valuation) (relation : String)
    (v : Value) : Truth :=
  match (m.relation? relation).map Relation.kind with
  | some (.manyToOne foreignKey _ _ _) =>
    truths .equal (.column (.qualified table foreignKey)) (.bound v)
  | some (.manyToMany junction foreignKey _) =>
    truths .equal (.column (.qualified junction foreignKey)) (.bound v)
  | _ => none

mutual

/-- The truth of a filter, by the truth of the equality that each leaf stands for. -/
def truth (m : Model) (table : String) (truths : Valuation) : Filter → Truth
  | field _ name v negated =>
    let holds := truths .equal (.column (.qualified table name)) (.bound v)
    if negated then holds.not else holds
  | manyToOne _ relation v => relationTruth m table truths relation v
  | manyToMany _ relation v => relationTruth m table truths relation v
  | any filters => truthOfAny m table truths filters

def truthOfAny (m : Model) (table : String) (truths : Valuation) : List Filter → Truth
  | [] => some false
  | f :: fs => (f.truth m table truths).or (truthOfAny m table truths fs)

end

variable {scope relation name : String} {v : Value} {negated : Bool} {p : Predicate} {e : Fault}

theorem error_eq_iff {α : Type} {d : Fault} :
    (Except.error d : Except Fault α) = .error e ↔ some d = some e := by
  rw [Except.error.injEq, Option.some.injEq]

theorem ok_eq_error_iff {α : Type} {a : α} :
    (Except.ok a : Except Fault α) = .error e ↔ none = some e := by
  simp only [reduceCtorEq]

theorem checkScope_self : checkScope m.name m = .ok () :=
  if_pos rfl

theorem lowerField_eq_error (htable : m.tableName = .ok table) :
    lowerField m scope name v negated = .error e ↔
      fault? m (.field scope name v negated) = some e := by
  rw [lowerField, fault?, htable]
  by_cases hscope : scope = m.name
  · subst hscope
    rw [if_pos rfl, checkScope_self]
    cases m.hasField name with
    | false => exact error_eq_iff
    | true => exact ok_eq_error_iff
  · rw [if_neg hscope, checkScope, if_neg hscope]
    exact error_eq_iff

theorem relation_eq_error {expected : RelationShape} {fits : Relation → Bool}
    {lowered : Relation → Except Fault Predicate}
    (hlowered : ∀ r, lowered r = .error e ↔
      (if fits r then none else some (mismatch m relation expected)) = some e) :
    (do checkScope scope m
        let r ← m.relation relation
        lowered r) = .error e ↔
      (if scope = m.name then relationFault? m relation expected fits
        else some (.ofMisuse (.filterOutOfScope scope m.name))) = some e := by
  by_cases hscope : scope = m.name
  · subst hscope
    rw [if_pos rfl, checkScope_self, relationFault?, Model.relation]
    cases m.relation? relation with
    | none => exact error_eq_iff
    | some r => exact hlowered r
  · rw [if_neg hscope, checkScope, if_neg hscope]
    exact error_eq_iff

theorem lowerManyToOne_eq_error (htable : m.tableName = .ok table) :
    lowerManyToOne m scope relation v = .error e ↔
      fault? m (.manyToOne scope relation v) = some e := by
  rw [lowerManyToOne, htable]
  refine relation_eq_error fun r ↦ ?_
  obtain ⟨name, foreignModel, kind, lazy⟩ := r
  cases kind with
  | manyToOne _ _ _ _ => exact ok_eq_error_iff
  | _ => exact error_eq_iff

theorem lowerManyToMany_eq_error (htable : m.tableName = .ok table) :
    lowerManyToMany m scope relation v = .error e ↔
      fault? m (.manyToMany scope relation v) = some e := by
  rw [lowerManyToMany, htable]
  refine relation_eq_error fun r ↦ ?_
  obtain ⟨name, foreignModel, kind, lazy⟩ := r
  cases kind with
  | manyToMany _ _ _ => exact ok_eq_error_iff
  | _ => exact error_eq_iff

theorem eq_none_of_eq_ok {α : Type} {x : Except Fault α} {a : α} {fault : Option Fault}
    (h : ∀ e, x = .error e ↔ fault = some e) (hx : x = .ok a) : fault = none :=
  Option.eq_none_iff_forall_ne_some.mpr fun e he ↦ by cases hx.symm.trans ((h e).mpr he)

mutual

/-- A filter that does not lower fails as the first of its parts with which something is wrong. -/
theorem predicate_eq_error (htable : m.tableName = .ok table) (f : Filter) {e : Fault} :
    f.predicate m = .error e ↔ f.parts.findSome? (fault? m) = some e := by
  cases f with
  | field scope name v negated =>
    rw [parts, List.findSome?_singleton]
    exact lowerField_eq_error htable
  | manyToOne scope relation v =>
    rw [parts, List.findSome?_singleton]
    exact lowerManyToOne_eq_error htable
  | manyToMany scope relation v =>
    rw [parts, List.findSome?_singleton]
    exact lowerManyToMany_eq_error htable
  | any filters =>
    rw [predicate, htable]
    cases filters with
    | nil => exact error_eq_iff
    | cons f fs =>
      refine Iff.trans ?_ (predicates_eq_error htable (f :: fs))
      cases hps : predicates m (f :: fs) with
      | error d => exact error_eq_iff.trans error_eq_iff.symm
      | ok ps =>
        obtain ⟨p, -, hps⟩ := bind_eq_ok.mp hps
        obtain ⟨ps, -, hps⟩ := bind_eq_ok.mp hps
        obtain rfl := pure_eq_ok.mp hps
        exact ⟨nofun, nofun⟩

theorem predicates_eq_error (htable : m.tableName = .ok table) (fs : List Filter) {e : Fault} :
    predicates m fs = .error e ↔ (partsOfAll fs).findSome? (fault? m) = some e := by
  cases fs with
  | nil => exact ok_eq_error_iff
  | cons f fs =>
    have hfirst (d : Fault) : f.predicate m = .error d ↔ f.parts.findSome? (fault? m) = some d :=
      predicate_eq_error htable f
    rw [predicates, partsOfAll, List.findSome?_append]
    cases hp : f.predicate m with
    | error d =>
      rw [(hfirst d).mp hp]
      exact error_eq_iff
    | ok p =>
      rw [eq_none_of_eq_ok hfirst hp, Option.none_or, ← predicates_eq_error htable fs]
      cases predicates m fs with
      | error d => exact Iff.rfl
      | ok ps => exact ⟨nofun, nofun⟩

end

theorem hasField_iff : m.hasField name = true ↔ ∃ f ∈ m.fields, f.name = name := by
  rw [Model.hasField, Model.field?, List.find?_isSome]
  simp only [beq_iff_eq]

theorem fieldFault?_eq_none :
    (if m.hasField name then none else some (m.unknownField name)) = none ↔
      ∃ f ∈ m.fields, f.name = name := by
  rw [← hasField_iff]
  cases m.hasField name <;> simp

theorem relationFault?_eq_none {expected : RelationShape} {fits : Relation → Bool} :
    relationFault? m relation expected fits = none ↔
      ∃ r, m.relation? relation = some r ∧ fits r = true := by
  rw [relationFault?]
  cases m.relation? relation with
  | none => exact ⟨nofun, nofun⟩
  | some r => cases hr : fits r <;> simp [hr]

theorem scoped_eq_none {fault : Option Fault} :
    (if scope = m.name then fault else some (.ofMisuse (.filterOutOfScope scope m.name))) = none ↔
      scope = m.name ∧ fault = none := by
  by_cases hscope : scope = m.name <;> simp [hscope]

mutual

theorem wellScoped_iff (f : Filter) : f.WellScoped m ↔ f.parts.findSome? (fault? m) = none := by
  cases f with
  | field scope name v negated =>
    rw [parts, List.findSome?_singleton, fault?, scoped_eq_none, fieldFault?_eq_none]
    exact ⟨fun | .field h => ⟨rfl, h⟩, fun ⟨hscope, h⟩ ↦ hscope ▸ .field h⟩
  | manyToOne scope relation v =>
    rw [parts, List.findSome?_singleton, fault?, scoped_eq_none, relationFault?_eq_none]
    exact ⟨fun | .manyToOne h hr => ⟨rfl, _, h, hr⟩,
      fun ⟨hscope, _, h, hr⟩ ↦ hscope ▸ .manyToOne h hr⟩
  | manyToMany scope relation v =>
    rw [parts, List.findSome?_singleton, fault?, scoped_eq_none, relationFault?_eq_none]
    exact ⟨fun | .manyToMany h hr => ⟨rfl, _, h, hr⟩,
      fun ⟨hscope, _, h, hr⟩ ↦ hscope ▸ .manyToMany h hr⟩
  | any filters =>
    cases filters with
    | nil => exact ⟨fun | .any hne _ => absurd rfl hne, nofun⟩
    | cons f fs =>
      refine Iff.trans ?_ (wellScopedAll_iff (f :: fs))
      exact ⟨fun | .any _ h => h, fun h ↦ .any (List.cons_ne_nil f fs) h⟩

theorem wellScopedAll_iff (fs : List Filter) :
    (∀ f ∈ fs, f.WellScoped m) ↔ (partsOfAll fs).findSome? (fault? m) = none := by
  cases fs with
  | nil => exact ⟨fun _ ↦ rfl, fun _ ↦ nofun⟩
  | cons f fs =>
    rw [List.forall_mem_cons, partsOfAll, List.findSome?_append, Option.or_eq_none_iff,
      wellScoped_iff f, wellScopedAll_iff fs]

end

theorem value_lowerField (htable : m.tableName = .ok table)
    (h : lowerField m scope name v negated = .ok p) (truths : Valuation) :
    p.value truths = (field scope name v negated).truth m table truths := by
  obtain ⟨table', htable', h⟩ := bind_eq_ok.mp h
  obtain rfl := Except.ok.inj (htable.symm.trans htable')
  obtain ⟨-, -, h⟩ := bind_eq_ok.mp h
  dsimp only at h
  split at h
  · cases h
  · obtain rfl := pure_eq_ok.mp h
    cases negated <;> rfl

theorem value_lowerManyToOne (htable : m.tableName = .ok table)
    (h : lowerManyToOne m scope relation v = .ok p) (truths : Valuation) :
    p.value truths = relationTruth m table truths relation v := by
  obtain ⟨table', htable', h⟩ := bind_eq_ok.mp h
  obtain rfl := Except.ok.inj (htable.symm.trans htable')
  obtain ⟨-, -, h⟩ := bind_eq_ok.mp h
  obtain ⟨r, hr, h⟩ := bind_eq_ok.mp h
  rw [relationTruth, Model.relation_eq_ok.mp hr, Option.map_some]
  split at h
  · next hkind =>
    obtain rfl := pure_eq_ok.mp h
    rw [hkind]
    rfl
  · cases h

theorem value_lowerManyToMany (h : lowerManyToMany m scope relation v = .ok p)
    (truths : Valuation) : p.value truths = relationTruth m table truths relation v := by
  obtain ⟨-, -, h⟩ := bind_eq_ok.mp h
  obtain ⟨-, -, h⟩ := bind_eq_ok.mp h
  obtain ⟨r, hr, h⟩ := bind_eq_ok.mp h
  rw [relationTruth, Model.relation_eq_ok.mp hr, Option.map_some]
  split at h
  · next hkind =>
    obtain rfl := pure_eq_ok.mp h
    rw [hkind]
    rfl
  · cases h

theorem value_any {ps : List Predicate} (h : Predicate.any ps = .ok p) (truths : Valuation) :
    p.value truths = ps.foldr (fun p t ↦ (p.value truths).or t) (some false) := by
  have hfold (ps : List Predicate) (t : Truth) : Predicate.fold truths .or t ps =
      t.or (ps.foldr (fun p t ↦ (p.value truths).or t) (some false)) := by
    induction ps generalizing t with
    | nil => rcases t with _ | _ | _ <;> rfl
    | cons p ps ih => exact (ih _).trans (Connective.apply_assoc .or _ _ _)
  cases ps with
  | nil => cases h
  | cons q ps =>
    obtain rfl := Except.ok.inj h
    rw [Predicate.value_foldl_combine, hfold, List.foldr_cons]

mutual

theorem value_predicate (htable : m.tableName = .ok table) (truths : Valuation) (f : Filter)
    {p : Predicate} (h : f.predicate m = .ok p) : p.value truths = f.truth m table truths := by
  cases f with
  | field scope name v negated => exact value_lowerField htable h truths
  | manyToOne scope relation v => exact value_lowerManyToOne htable h truths
  | manyToMany scope relation v => exact value_lowerManyToMany h truths
  | any filters =>
    obtain ⟨-, -, h⟩ := bind_eq_ok.mp h
    obtain ⟨ps, hps, h⟩ := bind_eq_ok.mp h
    exact (value_any h truths).trans (values_predicates htable truths filters hps)

theorem values_predicates (htable : m.tableName = .ok table) (truths : Valuation) (fs : List Filter)
    {ps : List Predicate} (h : predicates m fs = .ok ps) :
    ps.foldr (fun p t ↦ (p.value truths).or t) (some false) = truthOfAny m table truths fs := by
  cases fs with
  | nil =>
    obtain rfl := Except.ok.inj h
    rfl
  | cons f fs =>
    obtain ⟨p, hp, h⟩ := bind_eq_ok.mp h
    obtain ⟨ps, hps, h⟩ := bind_eq_ok.mp h
    obtain rfl := pure_eq_ok.mp h
    rw [List.foldr_cons, value_predicate htable truths f hp, values_predicates htable truths fs hps,
      truthOfAny]

end

theorem foldl_noted_eq (names added : List String) :
    added.foldl noted names = names ++ (added.filter (· ∉ names)).eraseDups := by
  induction added generalizing names with
  | nil => exact (List.append_nil names).symm
  | cons name added ih =>
    rw [List.foldl_cons, ih, noted]
    by_cases hname : name ∈ names
    · rw [if_pos (List.contains_iff_mem.mpr hname), List.filter_cons_of_neg (by simpa using hname)]
    · have hnew (other : String) : decide (other ∉ names ++ [name]) =
          (!other == name && decide (other ∉ names)) := by
        simp [and_comm, beq_eq_decide]
      rw [if_neg (mt List.contains_iff_mem.mp hname),
        List.filter_cons_of_pos (by simpa using hname),
        List.eraseDups_cons, List.filter_filter, List.append_assoc, List.singleton_append]
      simp only [hnew]

/-- Lowering succeeds just for the well-scoped filters, and fails as the first part with which
something is wrong. What comes of it has the truth of the filter and binds the values of its leaves,
and the many-to-many relations that the filter is the first to name are noted behind the others. -/
theorem lowered_iff_wellScoped (htable : m.table = some table) (f : Filter) {names : List String}
    (hnames : names.Nodup) :
    ((∃ p, ((f.lower m).run.run names).1 = .ok p) ↔ f.WellScoped m) ∧
    (∀ e, ((f.lower m).run.run names).1 = .error e ↔ f.parts.findSome? (fault? m) = some e) ∧
    ∀ p, ((f.lower m).run.run names).1 = .ok p →
      (∀ truths, p.value truths = f.truth m table truths) ∧
      p.render.result.2 = f.values ∧
      ((f.lower m).run.run names).2 = names ++ (f.relations.filter (· ∉ names)).eraseDups ∧
      ((f.lower m).run.run names).2.Nodup := by
  have htable := Model.tableName_eq_ok.mpr htable
  have hfault (e : Fault) : f.predicate m = .error e ↔ f.parts.findSome? (fault? m) = some e :=
    predicate_eq_error htable f
  obtain ⟨hlowered, hnoted⟩ := computes_lower m f names
  rw [hlowered]
  refine ⟨?_, hfault, fun p hp ↦ ⟨?_, ?_, ?_⟩⟩
  · rw [wellScoped_iff]
    cases hp : f.predicate m with
    | error e =>
      rw [(hfault e).mp hp]
      exact ⟨nofun, nofun⟩
    | ok p => exact ⟨fun _ ↦ eq_none_of_eq_ok hfault hp, fun _ ↦ ⟨p, rfl⟩⟩
  · exact fun truths ↦ value_predicate htable truths f hp
  · rw [p.writes_render.result_eq, Predicate.binds_fragment, parameters_predicate m f hp]
  · rw [hnoted p hp]
    exact ⟨foldl_noted_eq names f.relations, nodup_foldl_noted f.relations hnames⟩

theorem lowered_iff_wellScoped_film :
    let film : Model := { name := "Film", table := some "film",
                          fields := [{ name := "film_id", kind := .integer, primaryKey := true },
                            { name := "rating", kind := .string },
                            { name := "language_id", kind := .integer }],
                          relations := [
                            .manyToOne "language" "Language" "language_id" "language_id",
                            .manyToMany "tags" "Tag" "film_tag" "tag_id",
                            .manyToMany "actors" "Actor" "film_actor" "actor_id"] }
    let nested : Filter := .any [.field "Film" "rating" (.text "R") true,
                             .any [.manyToMany "Film" "actors" (.bigInt 1),
                               .manyToMany "Film" "tags" (.bigInt 3)],
                             .manyToMany "Film" "actors" (.bigInt 2)]
    let empty : Filter := .any [.manyToOne "Film" "language" (.bigInt 3), .any [],
                            .field "Actor" "name" .null false]
    film.table = some "film" ∧ ["tags"].Nodup ∧ nested.WellScoped film ∧
      (∃ p, ((nested.lower film).run.run ["tags"]).1 = .ok p ∧
        p.render.result.2 = [.text "R", .bigInt 1, .bigInt 3, .bigInt 2]) ∧
      ((nested.lower film).run.run ["tags"]).2 = ["tags", "actors"] ∧
      ((empty.lower film).run.run ["tags"]).1 = .error (.ofMisuse (.emptyCombination .or)) := by
  intro film nested empty
  have htable : film.table = some "film" := rfl
  have hnames : ["tags"].Nodup := by decide
  have hok : ((nested.lower film).run.run ["tags"]).1.toOption.any (fun _ ↦ true) = true := by
    decide +kernel
  obtain ⟨p, hp, -⟩ := exists_eq_ok hok
  obtain ⟨hscoped, -, hlowered⟩ := lowered_iff_wellScoped htable nested hnames
  obtain ⟨-, hbinds, hnoted, -⟩ := hlowered p hp
  obtain ⟨-, hfault, -⟩ := lowered_iff_wellScoped htable empty hnames
  exact ⟨htable, hnames, hscoped.mp ⟨p, hp⟩, ⟨p, hp, hbinds⟩, hnoted.trans (by decide),
    (hfault _).mpr rfl⟩

end Filter

end RelMapper
