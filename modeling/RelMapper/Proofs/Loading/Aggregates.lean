import RelMapper.Proofs.Loading.FollowUps
import RelMapper.Proofs.Sql.Totals
namespace RelMapper

variable {content : Content} {dialect : Dialect} {agg : Aggregator} {known : Registry} {m : Model}
variable {r : Relation} {a : Aggregation} {c : CollectionTable} {source : Source} {v : Value}

def CollectionTable.scopesOf (content : Content) (dialect : Dialect) (c : CollectionTable)
    (source : Source) (v : Value) : List Scope :=
  (source.scopes content dialect).filter fun s ↦ (dialect.valueOf s (.column c.owner)).equals v

theorem Aggregator.ofResult_valueOf_nil (f : AggregateFunction) (args : List Expr)
    (newName : Option String) :
    f.ofResult (agg.valueOf dialect [] (.call f.sqlName args newName)) = f.ofResult .null := by
  have hnone : agg.valueOf dialect [] (.call f.sqlName args newName) = agg.value f.sqlName 0 := rfl
  rw [hnone, agg.ofNone]
  cases f <;> rfl

theorem CollectionTable.ofRelation_congr {m' : Model} (ha : r.aggregation = some a)
    (hid : m.idName = m'.idName) : ofRelation known m r = ofRelation known m' r := by
  rw [ofRelation, ofRelation, hid]
  cases hkind : r.kind with
  | manyToOne _ _ _ _ => rw [Relation.aggregation, hkind] at ha; cases ha
  | oneToMany _ _ => rfl
  | manyToMany _ _ _ => rfl

namespace Relation

theorem aggregateSource_eq_ok (h : r.aggregateSource known c a = .ok source) :
    source.base = .table { name := c.table } ∧ ∀ j ∈ source.joins, j.kind = .inner := by
  rw [aggregateSource] at h
  split at h
  · obtain ⟨foreign, -, h⟩ := bind_eq_ok.mp h
    obtain ⟨table, -, h⟩ := bind_eq_ok.mp h
    obtain ⟨key, -, h⟩ := bind_eq_ok.mp h
    obtain rfl := pure_eq_ok.mp h
    exact ⟨rfl, fun j hj ↦ List.mem_singleton.mp hj ▸ rfl⟩
  · obtain rfl := Except.ok.inj h
    exact ⟨rfl, nofun⟩

theorem scopesOf_of_unnamed (hnamed : content.NamesColumns)
    (hsource : r.aggregateSource known c a = .ok source) (hc : c.ownerColumn = "") :
    c.scopesOf content dialect source v = [] := by
  obtain ⟨hbase, hinner⟩ := aggregateSource_eq_ok hsource
  refine List.filter_eq_nil_iff.mpr fun s hs hequals ↦ ?_
  obtain ⟨-, base, hrow, hget⟩ := Source.mem_scopes (fun j hj ↦ .inl (hinner j hj)) hs
  rw [hbase] at hrow hget
  have hget : s.get? c.table = some base := hget
  rw [CollectionTable.owner, dialect.valueOf_qualified, hget, hc, Option.elim_some,
    hnamed c.table base hrow] at hequals
  cases hequals

/-- The aggregate that is joined to an owner is that of the owner's rows. -/
theorem ofResult_joined {query : Query} {name : String} {call : Expr} {found : Option Record}
    (hquery : r.aggregateQuery known m a = .ok query)
    (hc : CollectionTable.ofRelation known m r = .ok c)
    (hsource : r.aggregateSource known c a = .ok source)
    (hcall : r.aggregateCall known a none = .ok call) (hnamed : content.NamesColumns)
    (hagg : content.Aggregates dialect agg (query.derivedAs name))
    (hfound : (∃ row ∈ content.derived (query.derivedAs name), found = some row ∧
        (row ownerKeyName).equals v = true) ∨
      found = none ∧ ∀ row ∈ content.derived (query.derivedAs name),
        (row ownerKeyName).equals v = false) :
    a.function.ofResult (found.elim .null (· aggregateName)) =
      a.function.ofResult (agg.valueOf dialect (c.scopesOf content dialect source v) call) := by
  obtain ⟨c', args, source', hc', hcalls, hsource', hitems, hwhole⟩ := aggregateQuery_eq_ok hquery
  obtain rfl := Except.ok.inj (hc.symm.trans hc')
  obtain rfl := Except.ok.inj (hsource.symm.trans hsource')
  obtain rfl := Except.ok.inj (hcall.symm.trans (hcalls none))
  have hgroup : (query.derivedAs name).groupBy = some [.column c.owner] := by rw [hwhole]; rfl
  have hhaving : (query.derivedAs name).having = none := by rw [hwhole]; rfl
  have hpage : (query.derivedAs name).page = none := by rw [hwhole]; rfl
  -- The groups are made of the same rows as the owner's collection is taken from.
  have hscopes : (query.derivedAs name).scopes content dialect = source.scopes content dialect := by
    rw [hwhole]
    exact List.filter_true _
  have hitems : (query.derivedAs name).projection.items = _ := hitems
  obtain ⟨row, hrow, rfl, hequals⟩ | ⟨rfl, hnone⟩ := hfound
  · have hkey {e : Expr} (he : (query.derivedAs name).item? ownerKeyName = some e) (s : Scope) :
        dialect.valueOf s e = dialect.valueOf s (.column c.owner) := by
      rw [eq_of_item?_ownerKeyName hitems he]
      rfl
    have hvalue := hagg.eq_of_row hgroup hhaving hpage (fun e ↦ hkey) hrow hequals
      (item?_aggregateName hitems)
    rw [hscopes] at hvalue
    rw [Option.elim_some, hvalue]
    rfl
  · have hnil : c.scopesOf content dialect source v = [] := by
      by_cases hname : c.ownerColumn = ""
      · exact scopesOf_of_unnamed hnamed hsource hname
      · rw [CollectionTable.scopesOf, ← hscopes]
        exact hagg.eq_nil_of_no_row hgroup hhaving hpage (item?_ownerKeyName hitems hname)
          (fun _ ↦ rfl) hnone
    rw [hnil, Aggregator.ofResult_valueOf_nil]
    rfl

theorem isManyToOne_of_aggregation (ha : r.aggregation = some a) : r.isManyToOne = false := by
  rw [aggregation] at ha
  rw [isManyToOne]
  split at ha
  · next hkind => rw [hkind]
  · next hkind => rw [hkind]
  · cases ha

end Relation

theorem Entity.keyOf_of_aggregation (ha : r.aggregation = some a) (e : Entity) :
    e.keyOf r = e.id := by
  rw [keyOf]
  split
  · next hkind => rw [Relation.aggregation, hkind] at ha; cases ha
  · rfl

theorem FollowUp.ofRelation_aggregation {owner : Entity} {options : Option RelationOptions}
    {f : FollowUp} (ha : r.aggregation = some a)
    (h : ofRelation known owner r options = .ok f) : ∃ key, owner.id = .ok key ∧
      (key.isNull = true ∧ f = .known (.aggregate (a.function.ofResult .null)) ∨
        key.isNull = false ∧ ∃ c call source lookup,
          CollectionTable.ofRelation known owner.model r = .ok c ∧
          r.aggregateCall known a none = .ok call ∧ r.aggregateSource known c a = .ok source ∧
          f = .aggregate lookup a.function ∧
          ∀ content dialect agg, lookup.totals content dialect agg =
            [agg.valueOf dialect (c.scopesOf content dialect source key) call]) := by
  have hone := Relation.isManyToOne_of_aggregation ha
  obtain ⟨foreign, key, -, hkey, hcases⟩ := ofRelation_eq_ok h
  rw [Entity.keyOf_of_aggregation ha] at hkey
  refine ⟨key, hkey, hcases.imp (fun ⟨hnull, hf⟩ ↦ ⟨hnull, ?_⟩) fun ⟨hnull, hasks⟩ ↦ ⟨hnull, ?_⟩⟩
  · rw [hf, ofNoKey, hone, ofNoOwner, ha]
    rfl
  · cases hasks with
    | row hkind => cases hone.symm.trans (Relation.isManyToOne_of_kind hkind)
    | collection _ hnone => cases ha.symm.trans hnone
    | @aggregate c a' call projection source _ ha' hc hcall hprojection hsource =>
      obtain rfl := Option.some.inj (ha.symm.trans ha')
      refine ⟨c, call, source, _, hc, hcall, hsource, rfl, fun content dialect agg ↦ ?_⟩
      obtain ⟨args, rfl, -⟩ := Relation.aggregateCall_eq_ok hcall
      have hitems : projection.items = [.call a.function.sqlName args none] :=
        Projection.items_ofItems hprojection
      have hscopes : Query.scopes content dialect
          { projection, source, filter := some (c.belongsTo key) } =
            c.scopesOf content dialect source key :=
        List.filter_congr fun s _ ↦ dialect.holds_equal s _ _
      rw [Query.totals, hscopes]
      simp only [hitems, List.map_cons, List.map_nil]

end RelMapper
