import RelMapper.Proofs.Except
import RelMapper.Session.Operation
namespace RelMapper.Session

variable {σ α β : Type}

theorem run_bind_eq_ok {x : SessionM σ α} {f : α → SessionM σ β} {s u : Session σ} {b : β} :
    (x >>= f).run s = (.ok b, u) ↔
      ∃ a t, x.run s = (.ok a, t) ∧ (f a).run t = (.ok b, u) := by
  rw [run_bind]
  constructor
  · intro h
    rcases hx : x.run s with ⟨e | a, t⟩
    · rw [hx] at h
      cases h
    · rw [hx] at h
      exact ⟨a, t, rfl, h⟩
  · rintro ⟨a, t, hx, h⟩
    rw [hx]
    exact h

theorem run_bind_of_ok {x : SessionM σ α} {f : α → SessionM σ β} {s t : Session σ} {a : α}
    (h : x.run s = (.ok a, t)) : (x >>= f).run s = (f a).run t := by
  rw [run_bind, h]

theorem run_pure_eq_ok {a b : α} {s t : Session σ} :
    (pure a : SessionM σ α).run s = (.ok b, t) ↔ a = b ∧ s = t := by
  rw [run_pure]
  constructor
  · intro h
    cases h
    exact ⟨rfl, rfl⟩
  · rintro ⟨rfl, rfl⟩
    rfl

theorem exists_run_eq_ok {x : SessionM σ α} {s : Session σ} {p : α → Bool}
    (h : (x.run s).1.toOption.any p = true) : ∃ a u, x.run s = (.ok a, u) ∧ p a = true := by
  obtain ⟨a, ha, hp⟩ := exists_eq_ok h
  exact ⟨a, (x.run s).2, Prod.ext ha rfl, hp⟩

theorem run_lift (r : Except Fault α) (s : Session σ) :
    (liftM r : SessionM σ α).run s = (r, s) := rfl

theorem run_lift_eq_ok {r : Except Fault α} {a : α} {s t : Session σ} :
    (liftM r : SessionM σ α).run s = (.ok a, t) ↔ r = .ok a ∧ s = t := by
  rw [run_lift]
  constructor
  · intro h
    cases h
    exact ⟨rfl, rfl⟩
  · rintro ⟨rfl, rfl⟩
    rfl

theorem run_map_eq_ok {x : SessionM σ α} {f : α → β} {s t : Session σ} {b : β} :
    (f <$> x).run s = (.ok b, t) ↔ ∃ a, x.run s = (.ok a, t) ∧ f a = b := by
  rw [← bind_pure_comp, run_bind_eq_ok]
  constructor
  · rintro ⟨a, u, hx, h⟩
    obtain ⟨rfl, rfl⟩ := run_pure_eq_ok.mp h
    exact ⟨a, hx, rfl⟩
  · rintro ⟨a, hx, rfl⟩
    exact ⟨a, t, hx, rfl⟩

theorem snd_run_map (f : α → β) (x : SessionM σ α) (s : Session σ) :
    ((f <$> x).run s).2 = (x.run s).2 := by
  rw [← bind_pure_comp, run_bind]
  rcases x.run s with ⟨e | a, t⟩
  · rfl
  · rfl

theorem run_foldlM_keeps {P : α → Session σ → Prop} {f : α → β → SessionM σ α} {bs : List β}
    {a c : α} {s u : Session σ}
    (hstep : ∀ {a b s a' u}, b ∈ bs → P a s → (f a b).run s = (.ok a', u) → P a' u)
    (ha : P a s) (h : (bs.foldlM f a).run s = (.ok c, u)) : P c u := by
  induction bs generalizing a s with
  | nil =>
    obtain ⟨rfl, rfl⟩ := run_pure_eq_ok.mp h
    exact ha
  | cons b bs ih =>
    rw [List.foldlM_cons] at h
    obtain ⟨a', t, hb, h⟩ := run_bind_eq_ok.mp h
    have hrest {a b' s a' u} (hb' : b' ∈ bs) : P a s → (f a b').run s = (.ok a', u) → P a' u :=
      hstep (List.mem_cons_of_mem b hb')
    exact ih hrest (hstep List.mem_cons_self ha hb) h

theorem run_mapM_keeps {P : Session σ → Prop} {f : α → SessionM σ β} {as : List α} {bs : List β}
    {s u : Session σ} (hstep : ∀ {a s b u}, P s → (f a).run s = (.ok b, u) → P u) (hs : P s)
    (h : (as.mapM f).run s = (.ok bs, u)) :
    P u ∧ List.Forall₂ (fun a b ↦ ∃ s₁ u₁, P s₁ ∧ (f a).run s₁ = (.ok b, u₁)) as bs := by
  induction as generalizing bs s with
  | nil =>
    rw [List.mapM_nil] at h
    obtain ⟨rfl, rfl⟩ := run_pure_eq_ok.mp h
    exact ⟨hs, .nil⟩
  | cons a as ih =>
    rw [List.mapM_cons] at h
    obtain ⟨b, s₁, hb, h⟩ := run_bind_eq_ok.mp h
    obtain ⟨bs', s₂, hbs, h⟩ := run_bind_eq_ok.mp h
    obtain ⟨rfl, rfl⟩ := run_pure_eq_ok.mp h
    obtain ⟨hu, hrest⟩ := ih (hstep hs hb) hbs
    exact ⟨hu, .cons ⟨s, s₁, hs, hb⟩ hrest⟩

theorem run_model_eq_ok {name : String} {m : Model} {s t : Session σ} :
    (model name : SessionM σ Model).run s = (.ok m, t) ↔
      s.registry.get name = .ok m ∧ s = t :=
  run_lift_eq_ok

structure SameSettings (s t : Session σ) : Prop where
  registry : t.registry = s.registry
  config : t.config = s.config

theorem SameSettings.refl (s : Session σ) : SameSettings s s := ⟨rfl, rfl⟩

theorem SameSettings.trans {s t u : Session σ} (h : SameSettings s t) (h' : SameSettings t u) :
    SameSettings s u :=
  ⟨h'.registry.trans h.registry, h'.config.trans h.config⟩

theorem run_onStatement (sql : String) (binds : List Value) (x : DatabaseM σ α) (s : Session σ) :
    (onStatement sql binds x).run s =
      ((x.run s.database).1.mapError (.ofStatement sql binds),
        { s with database := (x.run s.database).2 }) := rfl

theorem run_onStatement_of_ok {sql : String} {binds : List Value} {x : DatabaseM σ α} {a : α}
    {d : σ} {s : Session σ} (h : x.run s.database = (.ok a, d)) :
    (onStatement sql binds x).run s = (.ok a, { s with database := d }) := by
  rw [run_onStatement, h]
  rfl

theorem run_onStatement_eq_ok {sql : String} {binds : List Value} {x : DatabaseM σ α}
    {s t : Session σ} {a : α} (h : (onStatement sql binds x).run s = (.ok a, t)) :
    x.run s.database = (.ok a, t.database) ∧ SameSettings s t := by
  rw [run_onStatement] at h
  rcases hx : x.run s.database with ⟨e | b, d⟩
  · rw [hx] at h
    cases h
  · rw [hx] at h
    cases h
    exact ⟨rfl, rfl, rfl⟩

variable [Database σ]

theorem resolveItem_link {m : Model} {key : String} {v : Value} {r : Relation}
    {junction foreignKey : String} {a : Option Aggregation} (hkey : m.hasField key = false)
    (hr : m.relation key = .ok r) (hkind : r.kind = .manyToMany junction foreignKey a)
    (hv : v.isTruthy = true) (c : Changes) :
    (resolveItem m c (key, v) : SessionM σ Changes) = do
      return c.addLinks ⟨r.name, junction, foreignKey, ← IdList.read v⟩ := by
  obtain ⟨name, foreignModel, kind, lazy⟩ := r
  subst hkind
  rw [resolveItem, hkey, hv, hr]
  rfl

/-- What an item of a write, resolved in the session `s`, makes of the changes that those before it
mean, and the session that is left. -/
inductive Resolves (m : Model) (c : Changes) (s : Session σ) :
    String × Value → Changes → Session σ → Prop
  | field {key : String} {v : Value} (hkey : m.hasField key = true) :
    Resolves m c s (key, v) (c.setColumn key v) s
  | passedOver {key : String} {v : Value} (hkey : m.hasField key = false)
    (hv : v.isTruthy = false) : Resolves m c s (key, v) c s
  | foreignKey {key : String} {v id : Value} {r : Relation} {foreignKey foreignColumn : String}
    {lookupColumn : Option String} {loadAll : Bool} {t : Session σ}
    (hkey : m.hasField key = false) (hv : v.isTruthy = true) (hr : m.relation key = .ok r)
    (hkind : r.kind = .manyToOne foreignKey foreignColumn lookupColumn loadAll)
    (hid : (foreignId r foreignColumn lookupColumn loadAll v).run s = (.ok id, t)) :
    Resolves m c s (key, v) (c.setColumn foreignKey id) t
  | links {key : String} {v : Value} {r : Relation} {junction foreignKey : String}
    {a : Option Aggregation} {ids : List Value} (hkey : m.hasField key = false)
    (hv : v.isTruthy = true) (hr : m.relation key = .ok r)
    (hkind : r.kind = .manyToMany junction foreignKey a) (hread : IdList.read v = .ok ids) :
    Resolves m c s (key, v) (c.addLinks ⟨r.name, junction, foreignKey, ids⟩) s

theorem resolves_of_run {m : Model} {item : String × Value} {c c' : Changes} {s u : Session σ}
    (h : (resolveItem m c item).run s = (.ok c', u)) : Resolves m c s item c' u := by
  obtain ⟨key, v⟩ := item
  rw [resolveItem] at h
  split at h
  · next hkey =>
    obtain ⟨rfl, rfl⟩ := run_pure_eq_ok.mp h
    exact .field hkey
  · next hkey =>
    rw [Bool.not_eq_true] at hkey
    split at h
    · next hv =>
      obtain ⟨rfl, rfl⟩ := run_pure_eq_ok.mp h
      exact .passedOver hkey (by simpa using hv)
    · next hv =>
      have hv : v.isTruthy = true := by simpa using hv
      obtain ⟨r, t, hlift, h⟩ := run_bind_eq_ok.mp h
      obtain ⟨hr, rfl⟩ := run_lift_eq_ok.mp hlift
      split at h
      · next hkind =>
        obtain ⟨id, t, hid, h⟩ := run_bind_eq_ok.mp h
        obtain ⟨rfl, rfl⟩ := run_pure_eq_ok.mp h
        exact .foreignKey hkey hv hr hkind hid
      · next hkind =>
        obtain ⟨ids, t, hlift, h⟩ := run_bind_eq_ok.mp h
        obtain ⟨hread, rfl⟩ := run_lift_eq_ok.mp hlift
        obtain ⟨rfl, rfl⟩ := run_pure_eq_ok.mp h
        exact .links hkey hv hr hkind hread
      · cases h

theorem run_run_eq_ok {sql : String} {binds : List Value} {s t : Session σ}
    (h : (Session.run sql binds).run s = (.ok (), t)) :
    (Database.execute sql binds).run s.database = (.ok (), t.database) ∧ SameSettings s t := by
  obtain ⟨⟨⟩, u, hu, h⟩ := run_bind_eq_ok.mp h
  have hu' : { s with lastSql := some sql } = u := congrArg Prod.snd hu
  subst hu'
  obtain ⟨h, hs⟩ := run_onStatement_eq_ok h
  exact ⟨h, hs.registry, hs.config⟩

theorem run_execute_eq_ok {st : Statement} {s t : Session σ}
    (h : (execute st).run s = (.ok (), t)) :
    (Database.execute st.sql st.binds).run s.database = (.ok (), t.database) ∧
      SameSettings s t :=
  run_run_eq_ok h

theorem run_fetch_eq_ok {sql : String} {binds : List Value} {x : DatabaseM σ α} {a : α}
    {s u : Session σ} (h : (do Session.run sql binds; onStatement sql binds x).run s = (.ok a, u)) :
    ∃ d, (Database.execute sql binds).run s.database = (.ok (), d) ∧
      x.run d = (.ok a, u.database) ∧ SameSettings s u := by
  obtain ⟨⟨⟩, t, ht, h⟩ := run_bind_eq_ok.mp h
  obtain ⟨ht, hst⟩ := run_run_eq_ok ht
  obtain ⟨h, htu⟩ := run_onStatement_eq_ok h
  exact ⟨t.database, ht, h, hst.trans htu⟩

theorem run_transaction_eq_ok {x : SessionM σ α} {a : α} {s u : Session σ}
    (h : (transaction x).run s = (.ok a, u)) :
    ∃ t, x.run s = (.ok a, t) ∧
      (Database.commit : DatabaseM σ Unit).run t.database = (.ok (), u.database) ∧
      SameSettings t u := by
  rw [run_transaction] at h
  rcases hx : x.run s with ⟨e | b, t⟩
  · rw [hx] at h
    cases h
  · rw [hx] at h
    simp only [run_onDatabase] at h
    rcases hc : (Database.commit : DatabaseM σ Unit).run t.database with ⟨e | ⟨⟩, d⟩
    · rw [hc] at h
      cases h
    · rw [hc] at h
      cases h
      exact ⟨t, rfl, hc, rfl, rfl⟩

namespace NeverFails

variable {sent : Statement → Prop} {s : Session σ}

end NeverFails

end RelMapper.Session
