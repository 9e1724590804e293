import Mathlib.Data.List.Nodup
import RelMapper.Loading.Collection
import RelMapper.Proofs.Sql.JoinTrees
import RelMapper.Selection
namespace RelMapper

namespace Filter

theorem noted_subset {names all : List String} {name : String} (h : names ⊆ all)
    (hname : name ∈ all) : noted names name ⊆ all :=
  fun _ hother ↦ (mem_noted.mp hother).elim (@h _) fun heq ↦ heq ▸ hname

theorem nodup_noted {names : List String} (name : String) (h : names.Nodup) :
    (noted names name).Nodup := by
  rw [noted]
  split
  · exact h
  · next hnew =>
    have hname : name ∉ names := by simpa using hnew
    exact List.concat_eq_append ▸ h.concat hname

theorem mem_foldl_noted {names added : List String} {name : String} :
    name ∈ added.foldl noted names ↔ name ∈ names ∨ name ∈ added := by
  induction added generalizing names with
  | nil => simp
  | cons other added ih => rw [List.foldl_cons, ih, mem_noted, or_assoc, List.mem_cons]

theorem nodup_foldl_noted {names : List String} (added : List String) (h : names.Nodup) :
    (added.foldl noted names).Nodup := by
  induction added generalizing names with
  | nil => exact h
  | cons name added ih => exact ih (nodup_noted name h)

end Filter

def Join.ofJunction (junction column table id : String) : Join :=
  ⟨.inner, .table { name := junction },
    some (.on (Relation.sameColumns (.qualified junction column) (.qualified table id)))⟩

/-- Joins a junction table by the name that the id of the model's rows has in both tables, unless
it is joined already. -/
def Source.reach (table id : String) (s : Source) (junction : String) : Source :=
  if s.joinsTable junction then s
  else ⟨s.base, s.joins ++ [.ofJunction junction id table id]⟩

namespace Source

variable {table id junction : String}

def JoinsOnce (s : Source) (junction column table id : String) : Prop :=
  s.joins.filter (Join.isOf junction) = [.ofJunction junction column table id]

theorem filter_ofJunctions {junctions : List String} (h : junctions.Nodup) :
    (junctions.map fun j ↦ .ofJunction j id table id).filter (Join.isOf junction) =
      if junctions.contains junction then [.ofJunction junction id table id] else [] := by
  have hof : (Join.isOf junction ∘ fun j ↦ .ofJunction j id table id) = (· == junction) := rfl
  rw [List.filter_map, hof, List.filter_beq, h.count]
  simp only [List.contains_iff_mem]
  split <;> rfl

theorem joinsTable_ofJunctions (base : Target) (junctions : List String) :
    (⟨base, junctions.map fun j ↦ .ofJunction j id table id⟩ : Source).joinsTable junction =
      junctions.contains junction := by
  rw [joinsTable_eq, List.any_map, List.contains_eq_any_beq]
  exact List.any_congr rfl fun j ↦ Bool.beq_comm

theorem foldl_reach (base : Target) (junctions more : List String) :
    more.foldl (reach table id) ⟨base, junctions.map fun j ↦ .ofJunction j id table id⟩ =
      ⟨base, (more.foldl Filter.noted junctions).map fun j ↦ .ofJunction j id table id⟩ := by
  induction more generalizing junctions with
  | nil => rfl
  | cons junction more ih =>
    rw [List.foldl_cons, List.foldl_cons, ← ih, reach, joinsTable_ofJunctions, Filter.noted]
    split
    · rfl
    · rw [List.map_append, List.map_singleton]

end Source

namespace Model

variable {m : Model} {junction table id : String}

/-- The junction table of a relation that is called by its name, which is the first of that name. -/
def junctionOf (m : Model) (relation : String) : Option String :=
  (m.relation? relation).bind Relation.junction

theorem relation_eq_ok {relation : String} {r : Relation} :
    m.relation relation = .ok r ↔ m.relation? relation = some r := by
  rw [Model.relation]
  cases m.relation? relation with
  | none => exact ⟨nofun, nofun⟩
  | some q => exact ⟨fun h ↦ congrArg some (Except.ok.inj h), fun h ↦ congrArg _ (Option.some.inj h)⟩

def reaches (m : Model) (junction : String) : Bool :=
  m.relations.any fun r ↦ m.junctionOf r.name == some junction

theorem exists_of_junctionOf {relation : String} (h : m.junctionOf relation = some junction) :
    ∃ r ∈ m.relations, r.name = relation ∧ r.junction = some junction := by
  obtain ⟨r, hr, hjunction⟩ := Option.bind_eq_some_iff.mp h
  exact ⟨r, List.mem_of_find?_eq_some hr, by simpa using List.find?_some hr, hjunction⟩

theorem relation?_of_nodup (hm : (m.relations.map Relation.name).Nodup) {r : Relation}
    (hr : r ∈ m.relations) : m.relation? r.name = some r := by
  rw [relation?]
  generalize m.relations = rs at hm hr
  induction rs with
  | nil => cases hr
  | cons q rs ih =>
    obtain ⟨hq, hrs⟩ := List.nodup_cons.mp hm
    rcases List.mem_cons.mp hr with rfl | hr
    · rw [List.find?_cons_of_pos (by simp)]
    · have hne : q.name ≠ r.name := fun h ↦ hq (h ▸ List.mem_map_of_mem hr)
      rw [List.find?_cons_of_neg (by simpa using hne)]
      exact ih hrs hr

theorem junctionOf_of_nodup (hm : (m.relations.map Relation.name).Nodup) {r : Relation}
    (hr : r ∈ m.relations) : m.junctionOf r.name = r.junction := by
  rw [junctionOf, relation?_of_nodup hm hr, Option.bind_some]

end Model

namespace Selection

variable {m : Model} {junction table id : String}

theorem joinJunction_eq (htable : m.tableName = .ok table) (hid : m.idName = .ok id)
    {s s' : Source} {relation : String} (h : joinJunction m s relation = .ok s') :
    s' = (m.junctionOf relation).elim s (s.reach table id) := by
  obtain ⟨table', htable', h⟩ := bind_eq_ok.mp h
  obtain rfl := Except.ok.inj (htable.symm.trans htable')
  obtain ⟨id', hid', h⟩ := bind_eq_ok.mp h
  obtain rfl := Except.ok.inj (hid.symm.trans hid')
  obtain ⟨r, hr, h⟩ := bind_eq_ok.mp h
  obtain rfl := pure_eq_ok.mp h
  rw [Model.junctionOf, Model.relation_eq_ok.mp hr]
  rfl

theorem foldlM_joinJunction (htable : m.tableName = .ok table) (hid : m.idName = .ok id)
    {s s' : Source} {relations : List String} (h : relations.foldlM (joinJunction m) s = .ok s') :
    s' = (relations.filterMap m.junctionOf).foldl (Source.reach table id) s := by
  induction relations generalizing s with
  | nil => exact (pure_eq_ok.mp h).symm
  | cons relation relations ih =>
    rw [List.foldlM_cons] at h
    obtain ⟨s₁, hs, h⟩ := bind_eq_ok.mp h
    rw [ih h, joinJunction_eq htable hid hs, List.filterMap_cons]
    cases m.junctionOf relation <;> rfl

theorem joined_eq (htable : m.tableName = .ok table) (hid : m.idName = .ok id) {s : Source}
    {relations : List String} (h : relations.foldlM (joinJunction m) (.ofTable table) = .ok s) :
    s = ⟨.table { name := table }, ((relations.filterMap m.junctionOf).foldl Filter.noted []).map
      fun j ↦ .ofJunction j id table id⟩ :=
  (foldlM_joinJunction htable hid h).trans (Source.foldl_reach _ [] _)

theorem mem_touched {p : Predicate} {name : String} :
    name ∈ touched m p ↔ ∃ r ∈ m.relations, r.name = name ∧
      ∃ junction, r.junction = some junction ∧ ∃ c ∈ p.columns, c.table = some junction := by
  rw [touched, ← List.foldl_map (f := Relation.name) (g := Filter.noted), Filter.mem_foldl_noted]
  simp only [List.not_mem_nil, false_or, List.mem_map, List.mem_filter, and_assoc]
  refine exists_congr fun r ↦ and_congr_right fun _ ↦ and_comm.trans (and_congr_right fun _ ↦ ?_)
  cases r.junction with
  | none => simp
  | some junction => simp

theorem idName_of_joined {m : Model} {names : List String} {s s' : Source}
    (h : names.foldlM (joinJunction m) s = .ok s') (hnames : names ≠ []) :
    ∃ id, m.idName = .ok id := by
  obtain ⟨name, names, rfl⟩ := List.exists_cons_of_ne_nil hnames
  rw [List.foldlM_cons] at h
  obtain ⟨s₁, hs₁, -⟩ := bind_eq_ok.mp h
  obtain ⟨table, -, hs₁⟩ := bind_eq_ok.mp hs₁
  obtain ⟨id, hid, -⟩ := bind_eq_ok.mp hs₁
  exact ⟨id, hid⟩

theorem foldlM_joinJunction_of_error {e : Fault} (htable : m.tableName = .ok table)
    (hid : m.idName = .error e) {names : List String} (hne : names ≠ []) (source : Source) :
    names.foldlM (joinJunction m) source = .error e := by
  obtain ⟨name, names, rfl⟩ := List.exists_cons_of_ne_nil hne
  rw [List.foldlM_cons, joinJunction, htable, hid]
  rfl

theorem exists_joined (htable : m.tableName = .ok table) (hid : m.idName = .ok id)
    {names : List String} (hnames : ∀ name ∈ names, ∃ r, m.relation name = .ok r)
    (source : Source) : ∃ joined, names.foldlM (joinJunction m) source = .ok joined := by
  induction names generalizing source with
  | nil => exact ⟨source, rfl⟩
  | cons name names ih =>
    obtain ⟨⟨r, hr⟩, hnames⟩ := List.forall_mem_cons.mp hnames
    rw [List.foldlM_cons, joinJunction, htable, hid, hr]
    exact ih hnames _

end Selection

end RelMapper
