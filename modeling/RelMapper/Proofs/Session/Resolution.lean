import RelMapper.Proofs.Session.Nesting
import RelMapper.Proofs.Session.Runs
namespace RelMapper

namespace Slots

variable {α : Type} {s : Slots α} {name : String} {a : α}

theorem keys_put_of_mem (h : name ∈ s.map Prod.fst) :
    (put name a s).map Prod.fst = s.map Prod.fst := by
  induction s with
  | nil => cases h
  | cons p s ih =>
    obtain ⟨n, b⟩ := p
    rw [put]
    split
    · rfl
    · next hne =>
      have hs : name ∈ s.map Prod.fst := (List.mem_cons.mp h).resolve_left (Ne.symm hne)
      rw [List.map_cons, List.map_cons, ih hs]

theorem put_of_notMem (h : name ∉ s.map Prod.fst) : put name a s = s ++ [(name, a)] := by
  induction s with
  | nil => rfl
  | cons p s ih =>
    obtain ⟨n, b⟩ := p
    obtain ⟨hne, hs⟩ := List.ne_and_not_mem_of_not_mem_cons h
    rw [put, if_neg (Ne.symm hne), ih hs, List.cons_append]

theorem mem_keys_put {key : String} :
    key ∈ (put name a s).map Prod.fst ↔ key = name ∨ key ∈ s.map Prod.fst := by
  by_cases h : name ∈ s.map Prod.fst
  · rw [keys_put_of_mem h]
    exact ⟨.inr, fun hkey ↦ hkey.elim (fun heq ↦ heq ▸ h) id⟩
  · rw [put_of_notMem h, List.map_append, List.mem_append]
    simp [or_comm]

end Slots

namespace Changes

structure Extends (c c' : Changes) : Prop where
  columns : c.columns.map Prod.fst ⊆ c'.columns.map Prod.fst
  links : c.links ⊆ c'.links

theorem Extends.refl (c : Changes) : Extends c c :=
  ⟨List.Subset.refl _, List.Subset.refl _⟩

theorem Extends.trans {c d e : Changes} (h : Extends c d) (h' : Extends d e) : Extends c e :=
  ⟨List.Subset.trans h.columns h'.columns, List.Subset.trans h.links h'.links⟩

theorem extends_setColumn (c : Changes) (column : String) (v : Value) :
    Extends c (c.setColumn column v) :=
  ⟨fun _ h ↦ Slots.mem_keys_put.mpr (.inr h), List.Subset.refl _⟩

theorem mem_setColumn (c : Changes) (column : String) (v : Value) :
    column ∈ (c.setColumn column v).columns.map Prod.fst :=
  Slots.mem_keys_put.mpr (.inl rfl)

theorem extends_addLinks (c : Changes) (l : LinkChange) : Extends c (c.addLinks l) :=
  ⟨List.Subset.refl _, List.subset_append_left _ _⟩

/-- What an item of a write has become: a column, which is the field's own or the foreign key of a
relation, or the links that a relation is to have. -/
inductive Records (m : Model) (c : Changes) : String × Value → Prop
  | field {key : String} {v : Value} : m.hasField key = true →
    key ∈ c.columns.map Prod.fst → Records m c (key, v)
  | foreignKey {key : String} {v : Value} {r : Relation} {foreignKey foreignColumn : String}
    {lookupColumn : Option String} {loadAll : Bool} : m.relation key = .ok r →
    r.kind = .manyToOne foreignKey foreignColumn lookupColumn loadAll →
    foreignKey ∈ c.columns.map Prod.fst → Records m c (key, v)
  | links {key : String} {v : Value} {r : Relation} {junction foreignKey : String}
    {a : Option Aggregation} {ids : List Value} : m.relation key = .ok r →
    r.kind = .manyToMany junction foreignKey a → IdList.read v = .ok ids →
    ⟨r.name, junction, foreignKey, ids⟩ ∈ c.links → Records m c (key, v)

theorem Records.mono {m : Model} {c c' : Changes} {item : String × Value} (h : Records m c item)
    (hc : Extends c c') : Records m c' item := by
  cases h with
  | field hkey hmem => exact .field hkey (hc.columns hmem)
  | foreignKey hr hkind hmem => exact .foreignKey hr hkind (hc.columns hmem)
  | links hr hkind hread hmem => exact .links hr hkind hread (hc.links hmem)

end Changes

namespace Session

variable {σ : Type} [Database σ] {m : Model}

/-- Empty values count only for fields. -/
def isPassedOver (m : Model) (item : String × Value) : Bool :=
  !m.hasField item.1 && !item.2.isTruthy

theorem resolveItem_passedOver {item : String × Value} (h : isPassedOver m item = true)
    (c : Changes) : (resolveItem m c item : SessionM σ Changes) = pure c := by
  obtain ⟨key, v⟩ := item
  obtain ⟨hkey, hv⟩ := Bool.and_eq_true_iff.mp h
  rw [Bool.not_eq_true'] at hkey
  rw [resolveItem, hkey, if_neg Bool.false_ne_true, if_pos hv]

theorem run_resolveItem {item : String × Value} {c c' : Changes} {s u : Session σ}
    (h : (resolveItem m c item).run s = (.ok c', u)) :
    c.Extends c' ∧ (isPassedOver m item = true ∨ c'.Records m item) := by
  cases resolves_of_run h with
  | @field key v hkey =>
    exact ⟨c.extends_setColumn key v, .inr (.field hkey (c.mem_setColumn key v))⟩
  | passedOver hkey hv =>
    refine ⟨.refl c, .inl ?_⟩
    rw [isPassedOver, hkey, hv]
    rfl
  | @foreignKey _ _ id _ foreignKey _ _ _ _ _ _ hr hkind _ =>
    exact ⟨c.extends_setColumn _ id, .inr (.foreignKey hr hkind (c.mem_setColumn foreignKey id))⟩
  | links _ _ hr hkind hread =>
    exact ⟨c.extends_addLinks _, .inr (.links hr hkind hread
      (List.mem_append_right _ (List.mem_singleton_self _)))⟩

theorem run_resolveItems {data : List (String × Value)} {c c' : Changes} {s u : Session σ}
    (h : (data.foldlM (resolveItem m) c).run s = (.ok c', u)) :
    c.Extends c' ∧ ∀ item ∈ data, isPassedOver m item = true ∨ c'.Records m item := by
  induction data generalizing c s with
  | nil =>
    obtain ⟨rfl, -⟩ := run_pure_eq_ok.mp h
    exact ⟨.refl c, nofun⟩
  | cons item data ih =>
    rw [List.foldlM_cons] at h
    obtain ⟨d, t, hitem, h⟩ := run_bind_eq_ok.mp h
    obtain ⟨hd, hrecorded⟩ := run_resolveItem hitem
    obtain ⟨hrest, hall⟩ := ih h
    exact ⟨hd.trans hrest, List.forall_mem_cons.mpr
      ⟨hrecorded.imp_right fun hr ↦ hr.mono hrest, hall⟩⟩

theorem resolve_filter (m : Model) (data : List (String × Value)) :
    (resolve m (data.filter fun item ↦ !isPassedOver m item) : SessionM σ Changes) =
      resolve m data := by
  rw [resolve, List.foldlM_filter, resolve]
  refine congrArg (List.foldlM · _ data) (funext fun c ↦ funext fun item ↦ ?_)
  cases hpassed : isPassedOver m item with
  | true => exact (resolveItem_passedOver hpassed c).symm
  | false => rfl

theorem resolveItem_congr {key : String} {v w : Value} {r : Relation}
    (hkey : m.hasField key = false) (hr : m.relation key = .ok r) (hmany : r.isManyToMany = true)
    (htruthy : v.isTruthy = w.isTruthy) (hread : IdList.read v = IdList.read w) (c : Changes) :
    (resolveItem m c (key, v) : SessionM σ Changes) = resolveItem m c (key, w) := by
  cases hw : w.isTruthy with
  | false =>
    have hpassed {u : Value} (hu : u.isTruthy = false) : isPassedOver m (key, u) = true := by
      rw [isPassedOver, hkey, hu]
      rfl
    rw [resolveItem_passedOver (hpassed hw), resolveItem_passedOver (hpassed (htruthy.trans hw))]
  | true =>
    rw [Relation.isManyToMany] at hmany
    split at hmany
    · next hkind =>
      rw [resolveItem_link hkey hr hkind hw, resolveItem_link hkey hr hkind (htruthy.trans hw),
        hread]
    · cases hmany

section Congruence

variable {data data' : List (String × Value)}

theorem resolve_congr {key : String} {v w : Value} {r : Relation} (hkey : m.hasField key = false)
    (hr : m.relation key = .ok r) (hmany : r.isManyToMany = true)
    (htruthy : v.isTruthy = w.isTruthy) (hread : IdList.read v = IdList.read w)
    (before after : List (String × Value)) :
    (resolve m (before ++ (key, v) :: after) : SessionM σ Changes) =
      resolve m (before ++ (key, w) :: after) := by
  rw [resolve, resolve, List.foldlM_append, List.foldlM_append]
  refine bind_congr fun c ↦ ?_
  rw [List.foldlM_cons, List.foldlM_cons, resolveItem_congr hkey hr hmany htruthy hread]

theorem run_updateById_congr {name : String} {s : Session σ} (hm : s.registry.get name = .ok m)
    (h : (resolve m data : SessionM σ Changes) = resolve m data') (id : Value) :
    (updateById name id data).run s = (updateById name id data').run s := by
  have hmodel : (model name : SessionM σ Model).run s = (.ok m, s) := run_model_eq_ok.mpr ⟨hm, rfl⟩
  rw [updateById, updateById, run_bind_of_ok hmodel, run_bind_of_ok hmodel]
  simp only [applyUpdate, h]

end Congruence

variable (σ) (m)

/-- A write that resolves accounts for each of its items but for empty values of keys that name no
field, and these it leaves out altogether. Otherwise a many-to-many relation takes any two values
alike that list the same ids. -/
theorem resolve_accounts :
    (∀ data c (s u : Session σ), (resolve m data).run s = (.ok c, u) →
      ∀ item ∈ data, isPassedOver m item = true ∨ c.Records m item) ∧
    (∀ data, (resolve m (data.filter fun item ↦ !isPassedOver m item) : SessionM σ Changes) =
      resolve m data) ∧
    ∀ key v w r, m.hasField key = false → m.relation key = .ok r → r.isManyToMany = true →
      v.isTruthy = w.isTruthy → IdList.read v = IdList.read w →
      ∀ before after name id (s : Session σ), s.registry.get name = .ok m →
        (updateById name id (before ++ (key, v) :: after)).run s =
          (updateById name id (before ++ (key, w) :: after)).run s := by
  refine ⟨fun data c s u h ↦ (run_resolveItems h).2, resolve_filter m, ?_⟩
  intro key v w r hkey hr hmany htruthy hread before after name id s hm
  exact run_updateById_congr hm (resolve_congr hkey hr hmany htruthy hread before after) id

theorem resolve_accounts_film :
    let film : Model := { name := "Film", table := some "film",
                          fields := [{ name := "film_id", kind := .integer, primaryKey := true },
                            { name := "title", kind := .string }],
                          relations := [
                            .manyToOne "language" "Language" "language_id" "language_id",
                            .manyToMany "actors" "Actor" "film_actor" "actor_id"] }
    let session : Session Script := { database := ⟨[], [], [], []⟩, registry := ⟨[film]⟩ }
    let data : List (String × Value) := [("title", .null), ("language", .bigInt 4),
                                         ("actors", .text "2, 3"), ("note", .null)]
    (∃ c u, (resolve film data).run session = (.ok c, u) ∧
      ∀ item ∈ data, isPassedOver film item = true ∨ c.Records film item) ∧
    (updateById "Film" (.bigInt 7) [("actors", .text "2, 3")]).run session =
      (updateById "Film" (.bigInt 7) [("actors", .array [.bigInt 2, .bigInt 3])]).run session := by
  intro film session data
  have hok : ((resolve film data).run session).1.toOption.any (fun _ ↦ true) = true := by
    decide +kernel
  obtain ⟨c, u, hrun, -⟩ := exists_run_eq_ok hok
  obtain ⟨hrecorded, -, hsame⟩ := resolve_accounts Script film
  have hread : IdList.read (.text "2, 3") = IdList.read (.array [.bigInt 2, .bigInt 3]) := by rfl
  exact ⟨⟨c, u, hrun, hrecorded data c session u hrun⟩,
    hsame "actors" (.text "2, 3") (.array [.bigInt 2, .bigInt 3]) _ (by decide) rfl rfl
      (by decide) hread [] [] "Film" (.bigInt 7) session rfl⟩

/-- An empty list leaves the links as they are, without a failure, though the text of one removes
them all. -/
theorem empty_list_passed_over :
    let film : Model := { name := "Film", table := some "film",
                          fields := [{ name := "film_id", kind := .integer, primaryKey := true }],
                          relations := [.manyToMany "actors" "Actor" "film_actor" "actor_id"] }
    let script : Script := { results := [[[.bigInt 1]]], rules := [] }
    let session : Session (Recorded Script) := { database := ⟨script, []⟩, registry := ⟨[film]⟩ }
    IdList.read (.array []) = IdList.read (.text "[]") ∧
    (∃ c u, (resolve film [("actors", .array [])]).run session = (.ok c, u) ∧
      c.columns = [] ∧ c.links = []) ∧
    (logOf (updateById "Film" (.bigInt 7) [("actors", .array [])]) session).length = 0 ∧
    (logOf (updateById "Film" (.bigInt 7) [("actors", .text "[]")]) session).any
      (fun call ↦ match call with
        | (.execute sql _, none) => isWriteText sql
        | _ => false) = true := by
  intro film script session
  exact ⟨by rfl, ⟨{}, session, rfl, rfl, rfl⟩, by decide +kernel, by decide +kernel⟩

end Session

end RelMapper
