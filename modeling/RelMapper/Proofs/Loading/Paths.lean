import RelMapper.Proofs.Loading.FollowUps
import RelMapper.Proofs.Loading.Growth
namespace RelMapper

def Entity.IsBare (e : Entity) : Prop :=
  e.relations = e.model.relations.map fun r ↦ (r.name, .unloaded)

/-- What a relation is loaded as: a foreign row or its absence, an aggregate or a collection. What
stands in a relation is bare. -/
inductive Relation.LoadedAs (o : FetchOptions) (r : Relation) : Loaded Entity → Prop
  | skipped (hskips : o.skips r.name = true) : LoadedAs o r .unloaded
  | one {foreign : Option Entity} (hskips : o.skips r.name = false) (hone : r.isManyToOne = true)
      (hbare : ∀ e ∈ foreign, e.IsBare) : LoadedAs o r (.one foreign)
  | aggregate (v : Value) (hskips : o.skips r.name = false) (hone : r.isManyToOne = false)
      (ha : r.aggregation.isSome = true) : LoadedAs o r (.aggregate v)
  | many {es : List Entity} (hskips : o.skips r.name = false) (hone : r.isManyToOne = false)
      (ha : r.aggregation = none) (hbare : ∀ e ∈ es, e.IsBare) : LoadedAs o r (.many es)

theorem Relation.comesAlong_eq (o : FetchOptions) (r : Relation) :
    r.comesAlong o = (!o.skips r.name && !r.needsFollowUp) := by
  rw [comesAlong, needsFollowUp]
  cases r.lazy <;> cases o.skips r.name <;> cases r.isManyToOne <;> cases r.aggregation <;> rfl

theorem RelatedColumns.isBare_entity? {c : RelatedColumns} {row : Row} :
    ∀ e ∈ c.entity? row, e.IsBare := by
  intro e he
  rw [entity?] at he
  split at he
  · cases he
  · obtain rfl := Option.some.inj he
    rfl

namespace EntityQuery

variable {known : Registry} {c : Config} {m : Model} {o : FetchOptions} {id : Option Value}
variable {q : EntityQuery} {r : Relation} {row : Row} {e : Entity}

theorem isBare_of_plain {query : Query} (h : (plain m query).read row = .ok e) : e.IsBare := by
  obtain ⟨-, rfl⟩ := read_plain_eq_ok.mp h
  rfl

theorem nodup_relationNames (hm : (m.relations.map Relation.name).Nodup)
    (hq : primary known c m o id = .ok q) : q.layout.relationNames.Nodup ∧
      ∀ r ∈ m.relations, (r.name ∈ q.layout.relationNames ↔ r.comesAlong o = true) := by
  obtain ⟨table, fields, keys, query, d, -, -, -, -, -, hd, rfl⟩ := exists_draft hq
  have hnames := Draft.relationNames_joinRelations rfl hd
  refine ⟨hnames.nodup_iff.mpr (hm.sublist (List.filter_sublist.map _)), fun r hr ↦ ?_⟩
  rw [hnames.mem_iff, List.mem_map]
  constructor
  · rintro ⟨r', hr', hname⟩
    obtain ⟨hr', halong⟩ := List.mem_filter.mp hr'
    exact List.inj_on_of_nodup_map hm hr' hr hname ▸ halong
  · exact fun halong ↦ ⟨r, List.mem_filter.mpr ⟨hr, halong⟩, rfl⟩

theorem loaded?_of_read (hm : (m.relations.map Relation.name).Nodup)
    (hq : primary known c m o id = .ok q) (he : q.read row = .ok e) (hr : r ∈ m.relations) :
    ∃ data, e.loaded? r.name = some data ∧
      if r.comesAlong o then r.LoadedAs o data else data = .unloaded := by
  obtain ⟨hnames, hmem⟩ := nodup_relationNames hm hq
  obtain ⟨-, rfl⟩ := (read_eq_ok hq).mp he
  by_cases halong : r.comesAlong o = true
  · simp only [if_pos halong]
    have hskips := (Relation.comesAlong_iff.mp halong).2.1
    obtain ⟨table, fields, keys, query, d, -, -, -, -, -, hd, rfl⟩ := exists_draft hq
    obtain ⟨foreignKey, foreignColumn, lookupColumn, loadAll, hkind, -⟩ | ⟨a, hone, ha, -⟩ :=
      Draft.joinRelation_of_along known m table d halong
    · obtain ⟨foreign, -, -, start, -, -, hc, -⟩ := Draft.exists_related hr halong hkind hd
      exact ⟨_, Layout.loaded?_entity_related hnames hc, .one hskips
        (Relation.isManyToOne_of_kind hkind) RelatedColumns.isBare_entity?⟩
    · obtain ⟨-, -, index, -, -, hc, -⟩ := Draft.exists_aggregate hr halong hone ha hd
      refine ⟨_, Layout.loaded?_entity_aggregate hnames.of_append_right hc, .aggregate _ hskips hone ?_⟩
      rw [ha]
      rfl
  · simp only [if_neg halong]
    exact ⟨_, Layout.loaded?_entity_of_notMem hr (mt (hmem r hr).mp halong), rfl⟩

end EntityQuery

end RelMapper
