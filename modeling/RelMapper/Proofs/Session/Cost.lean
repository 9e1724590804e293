import Mathlib.Algebra.GroupWithZero.Nat
import RelMapper.Database.Script
import RelMapper.Proofs.Loading.Paths
import RelMapper.Proofs.Session.Reads
import RelMapper.Proofs.Session.Trace
namespace RelMapper

def Entity.hasKey (e : Entity) (r : Relation) : Bool :=
  (e.keyOf r).toOption.any fun key ↦ !key.isNull

/-- Whether the relation takes a statement of its own: it is not skipped, does not come with the row
and has a key. -/
def Entity.asks (o : FetchOptions) (e : Entity) (r : Relation) : Bool :=
  !o.skips r.name && (r.lazy || !r.isManyToOne && r.aggregation.isNone) && e.hasKey r

def Entity.cost (o : FetchOptions) (e : Entity) : Nat :=
  e.model.relations.countP (e.asks o)

/-- The entity is of the model, and all of its relations are loaded as they should be. -/
structure Entity.IsComplete (m : Model) (o : FetchOptions) (e : Entity) : Prop where
  model : e.model = m
  loaded : ∀ r ∈ m.relations, ∃ data, e.loaded? r.name = some data ∧ r.LoadedAs o data

namespace FollowUp

variable {known : Registry} {owner : Entity} {r : Relation} {o : FetchOptions}

theorem loadedAs_ofNoKey (hskips : o.skips r.name = false) : r.LoadedAs o (ofNoKey r) := by
  rw [ofNoKey]
  split
  · next hone => exact .one hskips hone (by simp)
  · next hone =>
    have hone : r.isManyToOne = false := by simpa using hone
    rw [ofNoOwner]
    split
    · next ha => exact .aggregate _ hskips hone (by rw [ha]; rfl)
    · next ha => exact .many hskips hone ha (by simp)

end FollowUp

namespace Session

variable {σ : Type} [Database σ] {s t u : Session (Recorded σ)} {o : FetchOptions} {m : Model}
variable {e e' : Entity} {r r' : Relation} {rs : List Relation}

def executions (s : Session (Recorded σ)) : Nat :=
  (Log.issued s.database.history).length

omit [Database σ] in
theorem executions_of_logged {call : DatabaseCall} {fault : Option Fault}
    (h : Logged s t call fault) :
    t.executions = s.executions + (Log.issued [(call, fault)]).length := by
  rw [executions, h, Log.issued, List.filterMap_append, List.length_append]
  rfl

theorem executions_execute {st : Statement} (hrun : (execute st).run s = (.ok (), u)) :
    u.executions = s.executions + 1 := by
  obtain ⟨t, ht, hlogged⟩ | ⟨f, t, ht, -⟩ := run_execute st s
  · cases ht.symm.trans hrun
    exact executions_of_logged hlogged
  · cases ht.symm.trans hrun

theorem executions_fetch {st : Statement} {fetch : DatabaseCall} {α : Type} {x : DatabaseM σ α}
    {a : α} (hfetch : Log.issued [(fetch, none)] = [])
    (hrun : (do execute st; onStatement st.sql st.binds (Recorded.record fetch x)).run s =
      (.ok a, u)) : u.executions = s.executions + 1 := by
  obtain ⟨⟨⟩, t, hexecute, hrun⟩ := run_bind_eq_ok.mp hrun
  rw [← executions_execute hexecute]
  obtain ⟨b, t', ht, hlogged⟩ | ⟨f, t', ht, -⟩ := run_onStatement_record st.sql st.binds fetch x t
  · cases ht.symm.trans hrun
    rw [executions_of_logged hlogged, hfetch]
    rfl
  · cases ht.symm.trans hrun

theorem executions_fetchOne {st : Statement} {row : Option Row}
    (hrun : (fetchOne st).run s = (.ok row, u)) : u.executions = s.executions + 1 :=
  executions_fetch rfl hrun

theorem executions_fetchAll {st : Statement} {rows : List Row}
    (hrun : (fetchAll st).run s = (.ok rows, u)) : u.executions = s.executions + 1 :=
  executions_fetch rfl hrun

theorem executions_load_of_asks {known : Registry} {foreign : Model} {key : Value}
    {options : Option RelationOptions} {f : FollowUp} {data : Loaded Entity}
    (hskips : o.skips r.name = false) (hf : FollowUp.Asks known m r foreign key options f)
    (hrun : (load f).run s = (.ok data, u)) :
    r.LoadedAs o data ∧ u.executions = s.executions + 1 := by
  cases hf with
  | row hkind _ _ =>
    have hone := Relation.isManyToOne_of_kind hkind
    obtain ⟨row, t, hfetch, hrun⟩ := run_bind_eq_ok.mp hrun
    rw [← executions_fetchOne hfetch]
    cases row with
    | none =>
      obtain ⟨rfl, rfl⟩ := run_pure_eq_ok.mp hrun
      exact ⟨.one hskips hone (by simp), rfl⟩
    | some row =>
      obtain ⟨e, t', hlift, hrun⟩ := run_bind_eq_ok.mp hrun
      obtain ⟨hread, rfl⟩ := run_lift_eq_ok.mp hlift
      obtain ⟨rfl, rfl⟩ := run_pure_eq_ok.mp hrun
      refine ⟨.one hskips hone fun e' he' ↦ ?_, rfl⟩
      cases he'
      exact EntityQuery.isBare_of_plain hread
  | aggregate hone ha _ _ _ _ =>
    obtain ⟨v, t, hvalue, hrun⟩ := run_bind_eq_ok.mp hrun
    obtain ⟨row, t', hfetch, hvalue⟩ := run_bind_eq_ok.mp hvalue
    obtain ⟨-, rfl⟩ := run_pure_eq_ok.mp hvalue
    obtain ⟨rfl, rfl⟩ := run_pure_eq_ok.mp hrun
    exact ⟨.aggregate _ hskips hone (by rw [ha]; rfl), executions_fetchOne hfetch⟩
  | collection hone ha _ _ _ =>
    obtain ⟨rows, t, hfetch, hrun⟩ := run_bind_eq_ok.mp hrun
    obtain ⟨es, t', hlift, hrun⟩ := run_bind_eq_ok.mp hrun
    obtain ⟨hread, rfl⟩ := run_lift_eq_ok.mp hlift
    obtain ⟨rfl, rfl⟩ := run_pure_eq_ok.mp hrun
    refine ⟨.many hskips hone ha fun e he ↦ ?_, executions_fetchAll hfetch⟩
    obtain ⟨row, -, hrow⟩ := (mem_iff_of_mapM hread).mp he
    exact EntityQuery.isBare_of_plain hrow

theorem executions_load {known : Registry} {options : Option RelationOptions} {f : FollowUp}
    {data : Loaded Entity} (hskips : o.skips r.name = false)
    (hf : FollowUp.ofRelation known e r options = .ok f) (hrun : (load f).run s = (.ok data, u)) :
    r.LoadedAs o data ∧ u.executions = s.executions + (e.hasKey r).toNat := by
  obtain ⟨foreign, key, -, hkey, ⟨hnull, rfl⟩ | ⟨hnull, hasks⟩⟩ := FollowUp.ofRelation_eq_ok hf
  · obtain ⟨rfl, rfl⟩ := run_pure_eq_ok.mp hrun
    have hno : e.hasKey r = false := by simp [Entity.hasKey, hkey, hnull, Except.toOption]
    rw [hno]
    exact ⟨FollowUp.loadedAs_ofNoKey hskips, rfl⟩
  · have hyes : e.hasKey r = true := by simp [Entity.hasKey, hkey, hnull, Except.toOption]
    rw [hyes]
    exact executions_load_of_asks hskips hasks hrun

theorem followUp_asks (hrun : (followUp o e r).run s = (.ok e', u)) :
    e' = { e with relations := e'.relations } ∧
      u.executions = s.executions + (e.asks o r).toNat := by
  rw [Entity.asks, ← Relation.needsFollowUp]
  obtain ⟨hnot, rfl, rfl⟩ | ⟨⟨hneeds, hskips⟩, f, data, hf, hload, rfl⟩ := run_followUp_eq_ok hrun
  · refine ⟨by cases e'; rfl, ?_⟩
    obtain hneeds | hskips := hnot
    · rw [hneeds, Bool.and_false, Bool.false_and]
      rfl
    · rw [hskips]
      rfl
  · rw [hneeds, hskips]
    exact ⟨rfl, (executions_load hskips hf hload).2⟩

theorem followUps_asks (hrun : (rs.foldlM (followUp o) e).run s = (.ok e', u)) :
    e' = { e with relations := e'.relations } ∧
      u.executions = s.executions + rs.countP (e.asks o) := by
  induction rs generalizing e s with
  | nil =>
    obtain ⟨rfl, rfl⟩ := run_pure_eq_ok.mp hrun
    exact ⟨by cases e; rfl, rfl⟩
  | cons r rs ih =>
    rw [List.foldlM_cons] at hrun
    obtain ⟨e₁, t, hstep, hrun⟩ := run_bind_eq_ok.mp hrun
    obtain ⟨he₁, ht⟩ := followUp_asks hstep
    obtain ⟨he', hu⟩ := ih hrun
    -- Keys are the owner's own fields, so what has been loaded meanwhile has no say in the cost.
    have hasks : e₁.asks o = e.asks o := by
      rw [he₁]
      rfl
    rw [hasks] at hu
    refine ⟨he'.trans (by rw [he₁]), ?_⟩
    rw [hu, ht, List.countP_cons]
    cases e.asks o r
    · rfl
    · exact Nat.add_right_comm _ _ _

theorem followUps_loaded (hr : ∀ r' ∈ rs, r'.name = r.name → r' = r)
    (he : r ∈ rs ∧ r.needsFollowUp = true ∧ o.skips r.name = false ∨
      ∃ data, e.loaded? r.name = some data ∧ r.LoadedAs o data)
    (hrun : (rs.foldlM (followUp o) e).run s = (.ok e', u)) :
    ∃ data, e'.loaded? r.name = some data ∧ r.LoadedAs o data := by
  induction rs generalizing e s with
  | nil =>
    obtain ⟨rfl, -⟩ := run_pure_eq_ok.mp hrun
    exact he.resolve_left nofun
  | cons r' rs ih =>
    obtain ⟨hr', hrs⟩ := List.forall_mem_cons.mp hr
    rw [List.foldlM_cons] at hrun
    obtain ⟨e₁, t, hstep, hrun⟩ := run_bind_eq_ok.mp hrun
    refine ih hrs ?_ hrun
    obtain ⟨hnot, rfl, -⟩ | ⟨⟨-, hskips⟩, f, data, hf, hload, rfl⟩ := run_followUp_eq_ok hstep
    · refine he.imp_left fun ⟨hmem, hasked⟩ ↦ ⟨?_, hasked⟩
      refine (List.mem_cons.mp hmem).resolve_left ?_
      rintro rfl
      simp [hasked] at hnot
    -- The turn of `r'` writes into one slot, which is that of `r` only if they are the same.
    · by_cases hname : r'.name = r.name
      · obtain rfl := hr' hname
        exact .inr ⟨data, Slots.get?_put_self _ _ _, (executions_load hskips hf hload).1⟩
      · refine he.imp (fun ⟨hmem, hasked⟩ ↦ ⟨?_, hasked⟩) fun ⟨data', hdata, hloaded⟩ ↦ ?_
        · refine (List.mem_cons.mp hmem).resolve_left ?_
          rintro rfl
          exact hname rfl
        · refine ⟨data', ?_, hloaded⟩
          rw [Entity.loaded?, Slots.get?_put, if_neg (Ne.symm hname)]
          exact hdata

theorem followUps_complete {known : Registry} {c : Config} {id : Option Value} {q : EntityQuery}
    {row : Row} (hm : (m.relations.map Relation.name).Nodup)
    (hq : EntityQuery.primary known c m o id = .ok q) (he : q.read row = .ok e)
    (hrun : (followUps o e).run s = (.ok e', u)) :
    e'.IsComplete m o ∧ u.executions = s.executions + e'.cost o := by
  have hmodel := EntityQuery.model_of_read hq he
  rw [followUps, hmodel] at hrun
  obtain ⟨hsame, hcost⟩ := followUps_asks hrun
  have hmodel' : e'.model = m := hsame ▸ hmodel
  refine ⟨⟨hmodel', fun r hr ↦ ?_⟩, ?_⟩
  · have hname : ∀ r' ∈ m.relations, r'.name = r.name → r' = r :=
      fun r' hr' ↦ List.inj_on_of_nodup_map hm hr' hr
    refine followUps_loaded hname ?_ hrun
    obtain ⟨data, hdata, hloaded⟩ := EntityQuery.loaded?_of_read hm hq he hr
    cases hskips : o.skips r.name with
    | true =>
      rw [r.comesAlong_eq, hskips] at hloaded
      have hnone : data = .unloaded := hloaded
      exact .inr ⟨data, hdata, hnone ▸ .skipped hskips⟩
    | false =>
      rw [r.comesAlong_eq, hskips] at hloaded
      cases hneeds : r.needsFollowUp with
      | true => exact .inl ⟨hr, rfl, rfl⟩
      | false =>
        rw [hneeds] at hloaded
        exact .inr ⟨data, hdata, hloaded⟩
  · rw [hcost, Entity.cost, hmodel', hsame]
    rfl

inductive HasFound (name : String) (o : FetchOptions) (s u : Session (Recorded σ)) :
    List Entity → Prop
  | all {es : List Entity} (h : (findAll name o).run s = (.ok es, u)) : HasFound name o s u es
  | first {found : Option Entity} (h : (find? name o).run s = (.ok found, u)) :
    HasFound name o s u found.toList
  | byId? {id : Value} {found : Option Entity} (h : (findById? name id o).run s = (.ok found, u)) :
    HasFound name o s u found.toList
  | byId {id : Value} {e : Entity} (h : (findById name id o).run s = (.ok e, u)) :
    HasFound name o s u [e]

theorem mapM_complete {known : Registry} {c : Config} {id : Option Value} {q : EntityQuery}
    {es es' : List Entity} (hm : (m.relations.map Relation.name).Nodup)
    (hq : EntityQuery.primary known c m o id = .ok q)
    (hes : ∀ e ∈ es, ∃ row, q.read row = .ok e)
    (hrun : (es.mapM (followUps o)).run s = (.ok es', u)) :
    (∀ e ∈ es', e.IsComplete m o) ∧ u.executions = s.executions + (es'.map (Entity.cost o)).sum := by
  induction es generalizing es' s with
  | nil =>
    rw [List.mapM_nil] at hrun
    obtain ⟨rfl, rfl⟩ := run_pure_eq_ok.mp hrun
    exact ⟨nofun, rfl⟩
  | cons e es ih =>
    obtain ⟨⟨row, he⟩, hes⟩ := List.forall_mem_cons.mp hes
    rw [List.mapM_cons] at hrun
    obtain ⟨e', t, hstep, hrun⟩ := run_bind_eq_ok.mp hrun
    obtain ⟨es₁, t', hrest, hrun⟩ := run_bind_eq_ok.mp hrun
    obtain ⟨rfl, rfl⟩ := run_pure_eq_ok.mp hrun
    obtain ⟨hcomplete, ht⟩ := followUps_complete hm hq he hstep
    obtain ⟨hall, hu⟩ := ih hes hrest
    refine ⟨List.forall_mem_cons.mpr ⟨hcomplete, hall⟩, ?_⟩
    rw [hu, ht, List.map_cons, List.sum_cons, Nat.add_assoc]

theorem readFirst_complete {id : Option Value} {found : Option Entity}
    (hm : (m.relations.map Relation.name).Nodup)
    (hrun : (readFirst m o id).run s = (.ok found, u)) :
    (∀ e ∈ found.toList, e.IsComplete m o) ∧
      u.executions = s.executions + 1 + (found.toList.map (Entity.cost o)).sum := by
  obtain ⟨q, s₁, hquery, hrun⟩ := run_bind_eq_ok.mp hrun
  obtain ⟨hq, rfl⟩ := run_primaryQuery_eq_ok hquery
  obtain ⟨row, t, hfetch, hrun⟩ := run_bind_eq_ok.mp hrun
  rw [← executions_fetchOne hfetch]
  cases row with
  | none =>
    obtain ⟨rfl, rfl⟩ := run_pure_eq_ok.mp hrun
    exact ⟨nofun, rfl⟩
  | some row =>
    obtain ⟨e, t', hlift, hrun⟩ := run_bind_eq_ok.mp hrun
    obtain ⟨he, rfl⟩ := run_lift_eq_ok.mp hlift
    obtain ⟨e', hload, rfl⟩ := run_map_eq_ok.mp hrun
    obtain ⟨hcomplete, hu⟩ := followUps_complete hm hq he hload
    exact ⟨List.forall_mem_singleton.mpr hcomplete, hu⟩

/-- Every relation of what is read is loaded by one path, and the read takes one statement besides
those that its entities ask for. -/
theorem reads_cost {name : String} {es : List Entity} (hm : s.registry.get name = .ok m)
    (hnames : (m.relations.map Relation.name).Nodup) (hfound : HasFound name o s u es) :
    (∀ e ∈ es, e.IsComplete m o) ∧
      u.executions = s.executions + 1 + (es.map (Entity.cost o)).sum := by
  have hmodel {m' : Model} {t : Session (Recorded σ)}
      (h : (model name : SessionM (Recorded σ) Model).run s = (.ok m', t)) : m' = m ∧ s = t := by
    obtain ⟨hm', rfl⟩ := run_model_eq_ok.mp h
    exact ⟨Except.ok.inj (hm'.symm.trans hm), rfl⟩
  cases hfound with
  | all hrun =>
    obtain ⟨m', s₁, hget, hrun⟩ := run_bind_eq_ok.mp hrun
    obtain ⟨rfl, rfl⟩ := hmodel hget
    obtain ⟨q, s₁, hquery, hrun⟩ := run_bind_eq_ok.mp hrun
    obtain ⟨hq, rfl⟩ := run_primaryQuery_eq_ok hquery
    obtain ⟨rows, t, hfetch, hrun⟩ := run_bind_eq_ok.mp hrun
    obtain ⟨es₀, t', hlift, hrun⟩ := run_bind_eq_ok.mp hrun
    obtain ⟨hread, rfl⟩ := run_lift_eq_ok.mp hlift
    rw [← executions_fetchAll hfetch]
    refine mapM_complete hnames hq (fun e he ↦ ?_) hrun
    obtain ⟨row, -, hrow⟩ := (mem_iff_of_mapM hread).mp he
    exact ⟨row, hrow⟩
  | first hrun =>
    obtain ⟨m', s₁, hget, hrun⟩ := run_bind_eq_ok.mp hrun
    obtain ⟨rfl, rfl⟩ := hmodel hget
    exact readFirst_complete hnames hrun
  | byId? hrun =>
    obtain ⟨m', s₁, hget, hrun⟩ := run_bind_eq_ok.mp hrun
    obtain ⟨rfl, rfl⟩ := hmodel hget
    exact readFirst_complete hnames hrun
  | byId hrun =>
    obtain ⟨found, t, hfind, hrun⟩ := run_bind_eq_ok.mp hrun
    obtain ⟨m', s₁, hget, hfind⟩ := run_bind_eq_ok.mp hfind
    obtain ⟨rfl, rfl⟩ := hmodel hget
    cases found with
    | none => cases hrun
    | some e' =>
      obtain ⟨rfl, rfl⟩ := run_pure_eq_ok.mp hrun
      exact readFirst_complete hnames hfind

/-- Two films, of which the second has no language, with all their actors. -/
theorem reads_cost_films :
    let actors : Relation :=
      (Relation.manyToMany "actors" "Actor" "film_actor" "actor_id").withLazy false
    let language : Relation := .manyToOne "language" "Language" "language_id" "language_id"
    let actor : Model := { name := "Actor", table := some "actor",
                           fields := [{ name := "actor_id", kind := .integer, primaryKey := true }] }
    let languages : Model :=
      { name := "Language", table := some "language",
        fields := [{ name := "language_id", kind := .integer, primaryKey := true }] }
    let film : Model := { name := "Film", table := some "film",
                          fields := [{ name := "film_id", kind := .integer, primaryKey := true },
                            { name := "language_id", kind := .integer }],
                          relations := [actors, language] }
    let results : List (List Row) :=
      [[[.int 1, .int 4], [.int 2, .null]], [[.int 3], [.int 5]], [[.int 4]], [[.int 3]]]
    let s : Session (Recorded Script) := { database := { database := { results, rules := [] } },
                                           registry := ⟨[actor, film, languages]⟩ }
    ∃ es u, (findAll "Film" {}).run s = (.ok es, u) ∧ (∀ e ∈ es, e.IsComplete film {}) ∧
      es.map (Entity.cost {}) = [2, 1] ∧ u.executions = s.executions + 4 := by
  intro actors language actor languages film results s
  have hread : ((findAll "Film" {}).run s).1.toOption.any
      (fun es ↦ decide (es.map (Entity.cost {}) = [2, 1])) = true := by decide +kernel
  obtain ⟨es, u, hrun, hcost⟩ := exists_run_eq_ok hread
  have hcost : es.map (Entity.cost {}) = [2, 1] := of_decide_eq_true hcost
  obtain ⟨hcomplete, hexecutions⟩ := reads_cost (m := film) rfl (by decide) (.all hrun)
  rw [hcost] at hexecutions
  exact ⟨es, u, hrun, hcomplete, hcost, hexecutions⟩

end Session

end RelMapper
