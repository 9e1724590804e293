import RelMapper.Loading.FollowUp
import RelMapper.Proofs.Except
namespace RelMapper

/-- What a relation is looked up by: the owner's foreign key, which counts as null where the owner
has no such field, or the owner's id. -/
def Entity.keyOf (e : Entity) (r : Relation) : Except Fault Value :=
  match r.kind with
  | .manyToOne foreignKey .. => .ok ((e.get? foreignKey).getD .null)
  | _ => e.id

namespace FollowUp

variable {known : Registry} {owner owner' : Entity} {r : Relation} {o : Option RelationOptions}
variable {f : FollowUp}

def ofNoKey (r : Relation) : Loaded Entity :=
  if r.isManyToOne then .one none else ofNoOwner r

/-- What follows up on a relation by a key that is not null: a query for the foreign row, for the
aggregate or for the collection. -/
inductive Asks (known : Registry) (m : Model) (r : Relation) (foreign : Model) (key : Value)
    (o : Option RelationOptions) : FollowUp → Prop
  | row {foreignKey foreignColumn table : String} {lookupColumn : Option String} {loadAll : Bool}
      {q : Query} (hkind : r.kind = .manyToOne foreignKey foreignColumn lookupColumn loadAll)
      (htable : foreign.tableName = .ok table)
      (hq : ((Selection.ofModel foreign).satisfying
        (.columnIs (.qualified table foreignColumn) key)).query = .ok q) :
      Asks known m r foreign key o (.one (.plain foreign q))
  | aggregate {c : CollectionTable} {a : Aggregation} {call : Expr} {projection : Projection}
      {source : Source} (hone : r.isManyToOne = false) (ha : r.aggregation = some a)
      (hc : CollectionTable.ofRelation known m r = .ok c)
      (hcall : r.aggregateCall known a none = .ok call)
      (hprojection : Projection.ofItems [call] = .ok projection)
      (hsource : r.aggregateSource known c a = .ok source) :
      Asks known m r foreign key o
        (.aggregate { projection, source, filter := some (c.belongsTo key) } a.function)
  | collection {c : CollectionTable} {q q' : Query} (hone : r.isManyToOne = false)
      (ha : r.aggregation = none) (hc : CollectionTable.ofRelation known m r = .ok c)
      (hq : (o.elim ((Selection.ofModel foreign).satisfying (c.belongsTo key))
        (·.apply ((Selection.ofModel foreign).satisfying (c.belongsTo key)))).query = .ok q)
      (hq' : joinJunction foreign r q = .ok q') :
      Asks known m r foreign key o (.many (.plain foreign q'))

theorem asks_ofAggregation {m foreign : Model} {key : Value} {c : CollectionTable}
    {a : Aggregation} (hone : r.isManyToOne = false) (ha : r.aggregation = some a)
    (hc : CollectionTable.ofRelation known m r = .ok c)
    (h : ofAggregation known c key r a = .ok f) : Asks known m r foreign key o f := by
  obtain ⟨call, hcall, h⟩ := bind_eq_ok.mp h
  obtain ⟨projection, hprojection, h⟩ := bind_eq_ok.mp h
  obtain ⟨source, hsource, h⟩ := bind_eq_ok.mp h
  obtain rfl := pure_eq_ok.mp h
  exact .aggregate hone ha hc hcall hprojection hsource

theorem asks_ofCollection {m foreign : Model} {key : Value} {c : CollectionTable}
    (hone : r.isManyToOne = false) (ha : r.aggregation = none)
    (hc : CollectionTable.ofRelation known m r = .ok c)
    (h : ofCollection foreign c key r o = .ok f) : Asks known m r foreign key o f := by
  obtain ⟨q, hq, h⟩ := bind_eq_ok.mp h
  obtain ⟨q', hq', h⟩ := bind_eq_ok.mp h
  obtain rfl := pure_eq_ok.mp h
  exact .collection hone ha hc hq hq'

theorem asks_foreignRow {m foreign : Model} {foreignKey foreignColumn : String}
    {lookupColumn : Option String} {loadAll : Bool}
    (hkind : r.kind = .manyToOne foreignKey foreignColumn lookupColumn loadAll)
    (h : foreignRow foreign owner foreignKey foreignColumn = .ok f) :
    ((owner.get? foreignKey).getD .null).isNull = true ∧ f = .known (.one none) ∨
      ((owner.get? foreignKey).getD .null).isNull = false ∧
        Asks known m r foreign ((owner.get? foreignKey).getD .null) o f := by
  obtain ⟨table, htable, h⟩ := bind_eq_ok.mp h
  dsimp only at h
  split at h
  · next hnull => exact .inl ⟨hnull, (pure_eq_ok.mp h).symm⟩
  · next hkey =>
    obtain ⟨q, hq, h⟩ := bind_eq_ok.mp h
    obtain rfl := pure_eq_ok.mp h
    exact .inr ⟨by simpa using hkey, .row hkind htable hq⟩

theorem ofRelation_eq_ok (h : ofRelation known owner r o = .ok f) : ∃ foreign key,
    known.get r.foreignModel = .ok foreign ∧ owner.keyOf r = .ok key ∧
      (key.isNull = true ∧ f = .known (ofNoKey r) ∨
        key.isNull = false ∧ Asks known owner.model r foreign key o f) := by
  obtain ⟨foreign, hforeign, h⟩ := bind_eq_ok.mp h
  obtain ⟨-, -, h⟩ := bind_eq_ok.mp h
  refine ⟨foreign, ?_⟩
  cases hkind : r.kind with
  | manyToOne foreignKey foreignColumn lookupColumn loadAll =>
    rw [hkind] at h
    refine ⟨_, hforeign, by rw [Entity.keyOf, hkind], ?_⟩
    rw [ofNoKey, Relation.isManyToOne, hkind]
    exact asks_foreignRow hkind h
  | oneToMany _ _ | manyToMany _ _ _ =>
    rw [hkind] at h
    obtain ⟨id, hid, h⟩ := bind_eq_ok.mp h
    have hone : r.isManyToOne = false := by rw [Relation.isManyToOne, hkind]
    refine ⟨id, hforeign, by rw [Entity.keyOf, hkind, hid], ?_⟩
    rw [ofNoKey, hone]
    split at h
    · next hnull => exact .inl ⟨hnull, (pure_eq_ok.mp h).symm⟩
    · next hkey =>
      obtain ⟨c, hc, h⟩ := bind_eq_ok.mp h
      refine .inr ⟨by simpa using hkey, ?_⟩
      split at h
      · next ha => exact asks_ofAggregation hone ha hc h
      · next ha => exact asks_ofCollection hone ha hc h

theorem ofRelation_congr (hmodel : owner.model = owner'.model)
    (hkey : owner.keyOf r = owner'.keyOf r) :
    ofRelation known owner r o = ofRelation known owner' r o := by
  obtain ⟨name, foreignModel, kind, lazy⟩ := r
  cases kind with
  | manyToOne foreignKey foreignColumn lookupColumn loadAll =>
    have hkey : (owner.get? foreignKey).getD .null = (owner'.get? foreignKey).getD .null :=
      Except.ok.inj hkey
    simp only [ofRelation, foreignRow, hkey]
  | oneToMany back a | manyToMany junction foreignKey a =>
    have hkey : owner.id = owner'.id := hkey
    simp only [ofRelation, hkey, hmodel]

end FollowUp

end RelMapper
