import RelMapper.Proofs.Loading.Collections
import RelMapper.Proofs.Loading.Eager
import RelMapper.Proofs.Session.Composition
import RelMapper.Proofs.Sql.Rows
import RelMapper.Session.Read
namespace RelMapper

/-- Queries, and looking at what they find, leave the tables of the database as they are. -/
structure KeepsTables {σ : Type} [Database σ] (content : σ → Content) : Prop where
  select : ∀ {q d d'},
    (Database.execute (Statement.select q).sql (Statement.select q).binds).run d = (.ok (), d') →
    content d' = content d
  fetchOne : ∀ {d row d'},
    (Database.fetchOne : DatabaseM σ (Option Row)).run d = (.ok row, d') → content d' = content d
  fetchAll : ∀ {d rows d'},
    (Database.fetchAll : DatabaseM σ (List Row)).run d = (.ok rows, d') → content d' = content d

namespace Session

variable {σ : Type} {content : σ → Content} {s t u : Session σ}

structure SameTables (content : σ → Content) (s t : Session σ) : Prop where
  content : content t.database = content s.database
  settings : SameSettings s t

theorem SameTables.refl (s : Session σ) : SameTables content s s := ⟨rfl, .refl s⟩

theorem SameTables.trans (h : SameTables content s t) (h' : SameTables content t u) :
    SameTables content s u :=
  ⟨h'.content.trans h.content, h.settings.trans h'.settings⟩

theorem run_primaryQuery_eq_ok {m : Model} {o : FetchOptions} {id : Option Value}
    {q : EntityQuery}
    (hrun : (primaryQuery m o id : SessionM σ EntityQuery).run s = (.ok q, u)) :
    EntityQuery.primary s.registry s.config m o id = .ok q ∧ s = u := by
  obtain ⟨s', s₁, hget, hrun⟩ := run_bind_eq_ok.mp hrun
  cases hget
  exact run_lift_eq_ok.mp hrun

variable [Database σ]

theorem sameTables_fetchOne (h : KeepsTables content) {q : Query} {row : Option Row}
    (hrun : (fetchOne (.select q)).run s = (.ok row, u)) : SameTables content s u := by
  obtain ⟨d, hexecute, hfetch, hsettings⟩ := run_fetch_eq_ok hrun
  exact ⟨(h.fetchOne hfetch).trans (h.select hexecute), hsettings⟩

theorem sameTables_fetchAll (h : KeepsTables content) {q : Query} {rows : List Row}
    (hrun : (fetchAll (.select q)).run s = (.ok rows, u)) : SameTables content s u := by
  obtain ⟨d, hexecute, hfetch, hsettings⟩ := run_fetch_eq_ok hrun
  exact ⟨(h.fetchAll hfetch).trans (h.select hexecute), hsettings⟩

theorem composesReads_sameTables (h : KeepsTables content) :
    ComposesReads fun α (x : SessionM σ α) ↦ OnSuccess (SameTables content) x where
  toComposes := composes_onSuccess .refl .trans
  fetchOne _ _ _ _ hrun := sameTables_fetchOne h hrun
  fetchAll _ _ _ _ hrun := sameTables_fetchAll h hrun

theorem load_many {f : FollowUp} {es : List Entity}
    (hrun : (load f).run s = (.ok (.many es), u)) : f = .known (.many es) ∨
      ∃ q rows t, f = .many q ∧ (fetchAll (.select q.query)).run s = (.ok rows, t) ∧
        q.readAll rows = .ok es := by
  cases f with
  | known data =>
    obtain ⟨rfl, -⟩ := run_pure_eq_ok.mp hrun
    exact .inl rfl
  | one q =>
    obtain ⟨row, t, -, hrun⟩ := run_bind_eq_ok.mp hrun
    cases row with
    | none => cases hrun
    | some row =>
      obtain ⟨e, t', -, hrun⟩ := run_bind_eq_ok.mp hrun
      cases hrun
  | many q =>
    obtain ⟨rows, t, hfetch, hrun⟩ := run_bind_eq_ok.mp hrun
    obtain ⟨es', t', hes, hrun⟩ := run_bind_eq_ok.mp hrun
    obtain ⟨hread, rfl⟩ := run_lift_eq_ok.mp hes
    cases hrun
    exact .inr ⟨q, rows, _, rfl, hfetch, hread⟩
  | aggregate q function =>
    obtain ⟨v, t, -, hrun⟩ := run_bind_eq_ok.mp hrun
    cases hrun

variable {o : FetchOptions} {e e' : Entity} {r r' : Relation} {m : Model}

theorem run_followUp_eq_ok (hrun : (followUp o e r).run s = (.ok e', u)) :
    (r.needsFollowUp = false ∨ o.skips r.name = true) ∧ e' = e ∧ u = s ∨
    (r.needsFollowUp = true ∧ o.skips r.name = false) ∧ ∃ f data,
      FollowUp.ofRelation s.registry e r (o.relations.get? r.name) = .ok f ∧
      (load f).run s = (.ok data, u) ∧
      e' = { e with relations := Slots.put r.name data e.relations } := by
  rw [followUp] at hrun
  split at hrun
  · next hnot =>
    obtain ⟨rfl, rfl⟩ := run_pure_eq_ok.mp hrun
    exact .inl ⟨by simpa using hnot, rfl, rfl⟩
  · next hneeded =>
    obtain ⟨s', s₁, hget, hrun⟩ := run_bind_eq_ok.mp hrun
    cases hget
    obtain ⟨f, s₁, hplan, hrun⟩ := run_bind_eq_ok.mp hrun
    obtain ⟨hf, rfl⟩ := run_lift_eq_ok.mp hplan
    obtain ⟨data, s₁, hload, hrun⟩ := run_bind_eq_ok.mp hrun
    obtain ⟨hset, rfl⟩ := run_lift_eq_ok.mp hrun
    exact .inr ⟨by simpa using hneeded, f, data, hf, hload, Entity.eq_of_setLoaded hset⟩

/-- What a read by the tables and settings of `s` can have loaded for the relation `r`. -/
structure Shows (content : σ → Content) (m : Model) (o : FetchOptions) (r : Relation)
    (s : Session σ) (e : Entity) : Prop where
  model : e.model = m
  fields : ∀ field ∈ m.fieldNames, (e.get? field).isSome = true
  skipped : o.skips r.name = true → e.collection? r.name = none
  loaded : ∀ es, e.collection? r.name = some es → ∃ f s₁ s₂,
    FollowUp.ofRelation s.registry e r (o.relations.get? r.name) = .ok f ∧
    SameTables content s s₁ ∧ (load f).run s₁ = (.ok (.many es), s₂)

theorem Shows.followUp (hr : r'.name = r.name → r' = r)
    (hsame : SameTables content s t) (hshows : Shows content m o r s e)
    (hrun : (followUp o e r').run t = (.ok e', u)) : Shows content m o r s e' := by
  rcases run_followUp_eq_ok hrun with ⟨-, rfl, -⟩ | ⟨⟨-, hasked⟩, f, data, hf, hload, rfl⟩
  · exact hshows
  · refine ⟨hshows.model, hshows.fields, fun hskips ↦ ?_, fun es hes ↦ ?_⟩
    · have hne : r.name ≠ r'.name := by
        intro hname
        rw [hr hname.symm, hskips] at hasked
        cases hasked
      rw [Entity.collection?_put, if_neg hne]
      exact hshows.skipped hskips
    · rw [Entity.collection?_put] at hes
      split at hes
      · next hname =>
        obtain rfl := hr hname.symm
        obtain rfl := Loaded.many?_eq_some.mp hes
        rw [hsame.settings.registry] at hf
        exact ⟨f, t, u, hf, hsame, hload⟩
      · exact hshows.loaded es hes

theorem Shows.followUps (h : KeepsTables content)
    (hr : ∀ r' ∈ m.relations, r'.name = r.name → r' = r) (hsame : SameTables content s t)
    (hshows : Shows content m o r s e) (hrun : (followUps o e).run t = (.ok e', u)) :
    Shows content m o r s e' := by
  rw [Session.followUps, hshows.model] at hrun
  -- The tables stay along the way, so whatever is asked later is asked of those of `s`.
  have hkept : SameTables content s u ∧ Shows content m o r s e' := by
    refine run_foldlM_keeps (P := fun e u ↦ SameTables content s u ∧ Shows content m o r s e) ?_
      ⟨hsame, hshows⟩ hrun
    intro e r' t e' u hr' hkept hstep
    exact ⟨hkept.1.trans ((composesReads_sameTables h).followUp _ _ _ hstep),
      hkept.2.followUp (hr r' hr') hkept.1 hstep⟩
  exact hkept.2

section Collected

variable {junction foreignKey : String}

end Collected

structure IsCompleted (content : σ → Content) (m : Model) (o : FetchOptions) (s : Session σ)
    (e : Entity) : Prop where
  table : ∃ table, m.tableName = .ok table
  run : ∃ e₀ t u, e₀.IsRowOf m ∧ SameTables content s t ∧ (followUps o e₀).run t = (.ok e, u)

theorem IsCompleted.readFirst (h : KeepsTables content) {id : Option Value}
    (hrun : (readFirst m o id).run s = (.ok (some e), u)) :
    SameTables content s u ∧ IsCompleted content m o s e := by
  obtain ⟨q, s₁, hquery, hrun⟩ := run_bind_eq_ok.mp hrun
  obtain ⟨hq, rfl⟩ := run_primaryQuery_eq_ok hquery
  obtain ⟨hm, htable⟩ := EntityQuery.model_of_primary hq
  obtain ⟨row, s₁, hfetch, hrun⟩ := run_bind_eq_ok.mp hrun
  cases row with
  | none => cases hrun
  | some row =>
    obtain ⟨e₀, s₂, hlift, hrun⟩ := run_bind_eq_ok.mp hrun
    obtain ⟨hread, rfl⟩ := run_lift_eq_ok.mp hlift
    obtain ⟨e', hload, he⟩ := run_map_eq_ok.mp hrun
    obtain rfl := Option.some.inj he
    have hsame := sameTables_fetchOne h hfetch
    have hrow : e₀.IsRowOf m := hm ▸ Layout.isRowOf_read hread
    have hloaded := (composesReads_sameTables h).followUps _ _ hload
    exact ⟨hsame.trans hloaded, htable, e₀, _, _, hrow, hsame, hload⟩

theorem IsCompleted.findAll (h : KeepsTables content) {name : String} {es : List Entity}
    (hm : s.registry.get name = .ok m) (hrun : (findAll name o).run s = (.ok es, u)) :
    SameTables content s u ∧ ∀ e ∈ es, IsCompleted content m o s e := by
  obtain ⟨m', s₁, hmodel, hrun⟩ := run_bind_eq_ok.mp hrun
  obtain ⟨hm', rfl⟩ := run_model_eq_ok.mp hmodel
  obtain rfl := Except.ok.inj (hm.symm.trans hm')
  obtain ⟨q, s₁, hquery, hrun⟩ := run_bind_eq_ok.mp hrun
  obtain ⟨hq, rfl⟩ := run_primaryQuery_eq_ok hquery
  obtain ⟨hm, htable⟩ := EntityQuery.model_of_primary hq
  obtain ⟨rows, s₁, hfetch, hrun⟩ := run_bind_eq_ok.mp hrun
  obtain ⟨es₀, s₂, hlift, hrun⟩ := run_bind_eq_ok.mp hrun
  obtain ⟨hread, rfl⟩ := run_lift_eq_ok.mp hlift
  have hfetched := sameTables_fetchAll h hfetch
  obtain ⟨hsame, hall⟩ := run_mapM_keeps (P := SameTables content s)
    (fun hkept hstep ↦ hkept.trans ((composesReads_sameTables h).followUps _ _ hstep)) hfetched hrun
  refine ⟨hsame, fun e he ↦ ?_⟩
  obtain ⟨e₀, he₀, s₁, u₁, hkept, hload⟩ := exists_of_forall₂ hall he
  obtain ⟨row, -, hrow⟩ := (mem_iff_of_mapM hread).mp he₀
  have hrow : e₀.IsRowOf m := hm ▸ Layout.isRowOf_read hrow
  exact ⟨htable, e₀, s₁, u₁, hrow, hkept, hload⟩

end Session

end RelMapper
