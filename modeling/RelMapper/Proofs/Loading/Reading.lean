import Mathlib.Data.List.Nodup
import RelMapper.Loading.Layout
import RelMapper.Proofs.Except
namespace RelMapper

namespace Slots

variable {α : Type} {s : Slots α} {name k : String} {a : α} {ps : List (String × α)}

theorem get?_put : (put name a s).get? k = if k = name then some a else s.get? k := by
  split
  · next h => rw [h, get?_put_self]
  · next h =>
    induction s with
    | nil => simp [put, get?, h]
    | cons p s ih =>
      obtain ⟨n, b⟩ := p
      rw [put]
      split
      · next hn =>
        have hne : (k == n) = false := by simpa [hn] using h
        rw [get?, get?, List.lookup_cons, List.lookup_cons, hne]
      · rw [get?, get?, List.lookup_cons, List.lookup_cons]
        split
        · rfl
        · exact ih

theorem set?_eq_put (h : (s.get? name).isSome = true) : set? name a s = some (put name a s) := by
  induction s with
  | nil => cases h
  | cons p s ih =>
    obtain ⟨n, b⟩ := p
    by_cases hn : n = name
    · simp [set?, put, hn]
    · have hne : (name == n) = false := by simpa using Ne.symm hn
      rw [get?, List.lookup_cons, hne] at h
      simp [set?, put, hn, ih h]

theorem eq_put_of_set? {s' : Slots α} (h : set? name a s = some s') : s' = put name a s := by
  induction s generalizing s' with
  | nil => cases h
  | cons p s ih =>
    obtain ⟨n, b⟩ := p
    rw [set?] at h
    rw [put]
    split at h
    · next hn =>
      rw [if_pos hn]
      exact (Option.some.inj h).symm
    · next hn =>
      obtain ⟨s₁, hs₁, rfl⟩ := Option.map_eq_some_iff.mp h
      rw [if_neg hn, ih hs₁]

def putAll (ps : List (String × α)) (s : Slots α) : Slots α :=
  ps.foldl (fun s p ↦ put p.1 p.2 s) s

theorem get?_putAll_of_notMem (h : k ∉ ps.map Prod.fst) : (putAll ps s).get? k = s.get? k := by
  induction ps generalizing s with
  | nil => rfl
  | cons p ps ih =>
    obtain ⟨hk, hps⟩ := not_or.mp (mt List.mem_cons.mpr h)
    rw [putAll, List.foldl_cons]
    refine (ih hps).trans ?_
    rw [get?_put, if_neg hk]

theorem get?_putAll (hm : k ∈ ps.map Prod.fst) (ha : ∀ p ∈ ps, p.1 = k → p.2 = a) :
    (putAll ps s).get? k = some a := by
  induction ps generalizing s with
  | nil => cases hm
  | cons p ps ih =>
    obtain ⟨hp, hps⟩ := List.forall_mem_cons.mp ha
    rw [putAll, List.foldl_cons]
    by_cases hk : k ∈ ps.map Prod.fst
    · exact ih hk hps
    · rcases List.mem_cons.mp hm with rfl | hm
      · refine (get?_putAll_of_notMem hk).trans ?_
        rw [get?_put, if_pos rfl, hp rfl]
      · exact absurd hm hk

theorem get?_putAll_of_mem (hd : (ps.map Prod.fst).Nodup) (h : (k, a) ∈ ps) :
    (putAll ps s).get? k = some a := by
  refine get?_putAll (List.mem_map_of_mem h) fun p hp hk ↦ ?_
  rw [List.inj_on_of_nodup_map hd hp h hk]

theorem putAll_append (ps qs : List (String × α)) (s : Slots α) :
    putAll (ps ++ qs) s = putAll qs (putAll ps s) :=
  List.foldl_append

theorem isSome_get?_putAll (h : (s.get? k).isSome = true) :
    ((putAll ps s).get? k).isSome = true := by
  induction ps generalizing s with
  | nil => exact h
  | cons p ps ih =>
    refine ih ?_
    rw [get?_put]
    split
    · rfl
    · exact h

end Slots

def Loaded.many? : Loaded Entity → Option (List Entity)
  | many es => some es
  | _ => none

theorem Loaded.many?_eq_some {data : Loaded Entity} {es : List Entity} :
    data.many? = some es ↔ data = .many es := by
  cases data <;> simp [many?]

namespace Entity

variable {e : Entity} {m : Model}

theorem get?_ofModel {field : String} (h : field ∈ m.fieldNames) :
    (ofModel m).get? field = some .null := by
  obtain ⟨f, hf, rfl⟩ := List.mem_map.mp h
  rw [get?, Slots.get?, ofModel]
  generalize m.fields = fields at hf
  induction fields with
  | nil => cases hf
  | cons g fields ih =>
    rw [List.map_cons, List.lookup_cons]
    split
    · rfl
    · next hne =>
      rcases List.mem_cons.mp hf with rfl | hf
      · simp at hne
      · exact ih hf

theorem get?_ofModel_of_notMem {field : String} (h : field ∉ m.fieldNames) :
    (ofModel m).get? field = none := by
  refine Slots.get?_eq_none fun hfield ↦ h ?_
  rwa [ofModel, List.map_map] at hfield

theorem loaded?_ofModel {r : Relation} (h : r ∈ m.relations) :
    (ofModel m).loaded? r.name = some .unloaded := by
  rw [loaded?, Slots.get?, ofModel]
  generalize m.relations = relations at h
  induction relations with
  | nil => cases h
  | cons q relations ih =>
    rw [List.map_cons, List.lookup_cons]
    split
    · rfl
    · next hne =>
      rcases List.mem_cons.mp h with rfl | h
      · simp at hne
      · exact ih h

theorem id_of_get? {column : String} {v : Value} (hcolumn : e.model.idName = .ok column)
    (hv : e.get? column = some v) : e.id = .ok v := by
  refine bind_eq_ok.mpr ⟨column, hcolumn, ?_⟩
  rw [hv]

theorem set_eq_put {field : String} {v : Value} (h : (e.get? field).isSome = true) :
    e.set field v = .ok { e with fields := Slots.put field v e.fields } := by
  rw [set, Slots.set?_eq_put h]

theorem eq_of_set {e' : Entity} {field : String} {v : Value} (h : e.set field v = .ok e') :
    e' = { e with fields := Slots.put field v e.fields } := by
  rw [set] at h
  split at h
  · next hset =>
    rw [← Slots.eq_put_of_set? hset]
    exact (Except.ok.inj h).symm
  · cases h

theorem eq_of_setLoaded {e' : Entity} {relation : String} {data : Loaded Entity}
    (h : e.setLoaded relation data = .ok e') :
    e' = { e with relations := Slots.put relation data e.relations } := by
  rw [setLoaded] at h
  split at h
  · next hset =>
    rw [← Slots.eq_put_of_set? hset]
    exact (Except.ok.inj h).symm
  · cases h

theorem setLoaded_eq_put {relation : String} {data : Loaded Entity}
    (h : (e.loaded? relation).isSome = true) :
    e.setLoaded relation data =
      .ok { e with relations := Slots.put relation data e.relations } := by
  rw [setLoaded, Slots.set?_eq_put h]

theorem foldlM_set {ps : List (String × Value)} (h : ∀ p ∈ ps, (e.get? p.1).isSome = true) :
    ps.foldlM (fun e (name, v) ↦ e.set name v) e =
      .ok { e with fields := Slots.putAll ps e.fields } := by
  induction ps generalizing e with
  | nil =>
    obtain ⟨m, fields, relations⟩ := e
    rfl
  | cons p ps ih =>
    obtain ⟨field, v⟩ := p
    obtain ⟨hp, hps⟩ := List.forall_mem_cons.mp h
    have hstep : e.set field v = .ok { e with fields := Slots.put field v e.fields } :=
      set_eq_put hp
    rw [List.foldlM_cons]
    simp only [hstep]
    refine ih fun q hq ↦ ?_
    have hput : (Slots.get? (Slots.putAll [(field, v)] e.fields) q.1).isSome = true :=
      Slots.isSome_get?_putAll (hps q hq)
    exact hput

theorem foldlM_setLoaded {γ : Type} {cs : List γ} {step : Entity → γ → Except Fault Entity}
    (item : γ → String × Loaded Entity)
    (hstep : ∀ e, ∀ c ∈ cs, step e c = e.setLoaded (item c).1 (item c).2)
    (h : ∀ c ∈ cs, (e.loaded? (item c).1).isSome = true) :
    cs.foldlM step e = .ok { e with relations := Slots.putAll (cs.map item) e.relations } := by
  induction cs generalizing e with
  | nil =>
    obtain ⟨m, fields, relations⟩ := e
    rfl
  | cons c cs ih =>
    obtain ⟨hc, hcs⟩ := List.forall_mem_cons.mp h
    rw [List.foldlM_cons, hstep e c List.mem_cons_self, setLoaded_eq_put hc]
    refine ih (fun e d hd ↦ hstep e d (List.mem_cons_of_mem c hd)) fun d hd ↦ ?_
    have hput : (Slots.get? (Slots.putAll [item c] e.relations) (item d).1).isSome = true :=
      Slots.isSome_get?_putAll (hcs d hd)
    exact hput

theorem collection?_eq (e : Entity) (relation : String) :
    e.collection? relation = (e.loaded? relation).bind Loaded.many? := by
  rw [collection?]
  rcases e.loaded? relation with _ | _ | _ | _ | _ <;> rfl

theorem collection?_put {e : Entity} {relation name : String} {data : Loaded Entity} :
    ({ e with relations := Slots.put name data e.relations } : Entity).collection? relation =
      if relation = name then data.many? else e.collection? relation := by
  rw [collection?_eq, collection?_eq, loaded?, Slots.get?_put]
  split <;> rfl

/-- The entity has all fields of its model and no collection, as when it comes out of a row. -/
structure IsRowOf (m : Model) (e : Entity) : Prop where
  model : e.model = m
  fields : ∀ field ∈ m.fieldNames, (e.get? field).isSome = true
  relations : ∀ relation, e.collection? relation = none

theorem IsRowOf.ofModel (m : Model) : (ofModel m).IsRowOf m where
  model := rfl
  fields field hfield := by
    rw [get?_ofModel hfield]
    rfl
  relations relation := by
    rw [collection?_eq, loaded?, Slots.get?, Entity.ofModel]
    generalize m.relations = relations
    induction relations with
    | nil => rfl
    | cons r relations ih =>
      rw [List.map_cons, List.lookup_cons]
      split
      · rfl
      · exact ih

theorem IsRowOf.set {e' : Entity} {field : String} {v : Value} (h : e.IsRowOf m)
    (hset : e.set field v = .ok e') : e'.IsRowOf m := by
  obtain rfl := eq_of_set hset
  refine ⟨h.model, fun name hname ↦ ?_, h.relations⟩
  rw [get?, Slots.get?_put]
  split
  · rfl
  · exact h.fields name hname

theorem IsRowOf.setLoaded {e' : Entity} {relation : String} {data : Loaded Entity}
    (h : e.IsRowOf m) (hdata : data.many? = none) (hset : e.setLoaded relation data = .ok e') :
    e'.IsRowOf m := by
  obtain rfl := eq_of_setLoaded hset
  refine ⟨h.model, h.fields, fun name ↦ ?_⟩
  rw [collection?_put, hdata, h.relations, ite_self]

end Entity

namespace RelatedColumns

variable (c : RelatedColumns) (row : Row)

def values : List Value :=
  (List.range' c.start c.model.fields.length).map (valueAt row)

def entity? : Option Entity :=
  if (c.values row).all Value.isNull then none
  else some { Entity.ofModel c.model with
    fields := Slots.putAll (c.model.fieldNames.zip (c.values row)) (Entity.ofModel c.model).fields }

theorem read_eq : c.read row = .ok (c.entity? row) := by
  rw [read, entity?]
  change (if (c.values row).all Value.isNull then _ else _) = _
  split
  · rfl
  · have hnames : ∀ p ∈ c.model.fieldNames.zip (c.values row),
        ((Entity.ofModel c.model).get? p.1).isSome = true := by
      intro p hp
      rw [Entity.get?_ofModel (List.of_mem_zip hp).1]
      rfl
    rw [← values, Entity.foldlM_set hnames]
    rfl

def load : String × Loaded Entity :=
  (c.relation, .one (c.entity? row))

end RelatedColumns

namespace AggregateColumn

variable (c : AggregateColumn) (row : Row)

def value : Value :=
  c.function.ofResult (RelatedColumns.valueAt row c.index)

def load : String × Loaded Entity :=
  (c.relation, .aggregate (c.value row))

end AggregateColumn

namespace Layout

variable {l : Layout} {m : Model} {row : Row}

def loads (l : Layout) (row : Row) : List (String × Loaded Entity) :=
  l.related.map (·.load row) ++ l.aggregates.map (·.load row)

def relationNames (l : Layout) : List String :=
  l.related.map RelatedColumns.relation ++ l.aggregates.map AggregateColumn.relation

theorem names_loads : (l.loads row).map Prod.fst = l.relationNames := by
  simp [loads, relationNames, Function.comp_def, RelatedColumns.load, AggregateColumn.load]

/-- The layout puts values where the model has a place for them. -/
structure Suits (l : Layout) (m : Model) : Prop where
  fields : ∀ field ∈ l.fields, field ∈ m.fieldNames
  relations : ∀ name ∈ l.relationNames, ∃ r ∈ m.relations, r.name = name

theorem read_of_short (h : row.length < l.width) :
    l.read m row = .error (.ofDatabase (.shortRow m.name row.length l.width)) := by
  rw [read, if_pos h]
  rfl

def entity (l : Layout) (m : Model) (row : Row) : Entity where
  model := m
  fields := Slots.putAll (l.fields.zip row) (Entity.ofModel m).fields
  relations := Slots.putAll (l.loads row) (Entity.ofModel m).relations

theorem read_of_long (hl : l.Suits m) (h : l.width ≤ row.length) :
    l.read m row = .ok (l.entity m row) := by
  have hfields : ∀ p ∈ l.fields.zip row, ((Entity.ofModel m).get? p.1).isSome = true := by
    intro p hp
    rw [Entity.get?_ofModel (hl.fields _ (List.of_mem_zip hp).1)]
    rfl
  have hloaded {name : String} (hname : name ∈ l.relationNames) :
      ((Entity.ofModel m).loaded? name).isSome = true := by
    obtain ⟨r, hr, rfl⟩ := hl.relations name hname
    rw [Entity.loaded?_ofModel hr]
    rfl
  have hrelated (e : Entity) : ∀ c ∈ l.related, (do e.setLoaded c.relation (.one (← c.read row))) =
      e.setLoaded c.relation (.one (c.entity? row)) := by
    intro c _
    rw [c.read_eq]
    rfl
  rw [read, if_neg (Nat.not_lt.mpr h), Entity.foldlM_set hfields]
  refine bind_eq_ok.mpr ⟨_, rfl, bind_eq_ok.mpr
    ⟨_, Entity.foldlM_setLoaded (RelatedColumns.load · row) hrelated ?_, ?_⟩⟩
  · intro c hc
    exact hloaded (List.mem_append_left _ (List.mem_map_of_mem hc))
  · refine (Entity.foldlM_setLoaded (AggregateColumn.load · row) (fun e c _ ↦ rfl) ?_).trans ?_
    · intro c hc
      have hname : c.relation ∈ l.relationNames :=
        List.mem_append_right _ (List.mem_map_of_mem hc)
      exact Slots.isSome_get?_putAll (hloaded hname)
    · rw [entity, loads, Slots.putAll_append]
      rfl

theorem read_eq_ok (hl : l.Suits m) {e : Entity} :
    l.read m row = .ok e ↔ l.width ≤ row.length ∧ e = l.entity m row := by
  rcases Nat.lt_or_ge row.length l.width with hshort | hlong
  · rw [read_of_short hshort]
    exact ⟨nofun, fun h ↦ absurd h.1 (Nat.not_le_of_lt hshort)⟩
  · rw [read_of_long hl hlong, Except.ok.injEq, eq_comm]
    exact (and_iff_right hlong).symm

theorem isRowOf_read {e : Entity} (h : l.read m row = .ok e) : e.IsRowOf m := by
  rw [read] at h
  split at h
  · cases h
  · obtain ⟨e₁, h₁, h⟩ := bind_eq_ok.mp h
    obtain ⟨e₂, h₂, h⟩ := bind_eq_ok.mp h
    have hfields : e₁.IsRowOf m := foldlM_keeps (fun _ ↦ .set) (.ofModel m) h₁
    have hrelated : e₂.IsRowOf m := by
      refine foldlM_keeps (fun {e c e'} _ he hstep ↦ ?_) hfields h₂
      rw [c.read_eq] at hstep
      exact he.setLoaded rfl hstep
    exact foldlM_keeps (fun _ he hstep ↦ he.setLoaded rfl hstep) hrelated h

end Layout

theorem EntityQuery.read_plain_eq_ok {m : Model} {q : Query} {row : Row} {e : Entity} :
    (plain m q).read row = .ok e ↔
      m.fieldNames.length ≤ row.length ∧ e = (plain m q).layout.entity m row := by
  have hsuits : (plain m q).layout.Suits m := ⟨fun _ ↦ id, nofun⟩
  have hwidth : (plain m q).layout.width = m.fieldNames.length := by simp [plain, Layout.width]
  rw [← hwidth]
  exact Layout.read_eq_ok hsuits

end RelMapper
