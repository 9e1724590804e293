import Mathlib.Data.List.Induction
import RelMapper.Proofs.Session.Resolution
import RelMapper.Proofs.Sql.Shape
namespace RelMapper

namespace Slots

variable {α : Type} {s : Slots α} {name : String} {a : α}

theorem mem_of_mem_put (hs : (s.map Prod.fst).Nodup) {p : String × α} (hp : p ∈ put name a s) :
    p = (name, a) ∨ p ∈ s ∧ p.1 ≠ name := by
  induction s with
  | nil => exact .inl (List.mem_singleton.mp hp)
  | cons q s ih =>
    obtain ⟨n, b⟩ := q
    obtain ⟨hn, hs⟩ := List.nodup_cons.mp hs
    rw [put] at hp
    split at hp
    · next heq =>
      refine (List.mem_cons.mp hp).imp (fun h ↦ heq ▸ h) fun hmem ↦ ?_
      refine ⟨List.mem_cons_of_mem _ hmem, fun hp1 ↦ hn ?_⟩
      rw [heq, ← hp1]
      exact List.mem_map.mpr ⟨p, hmem, rfl⟩
    · next hne =>
      rcases List.mem_cons.mp hp with rfl | hmem
      · exact .inr ⟨List.mem_cons_self, hne⟩
      · exact (ih hs hmem).imp_right fun h ↦ ⟨List.mem_cons_of_mem _ h.1, h.2⟩

end Slots

def Relation.ownColumn (r : Relation) : Option String :=
  match r.kind with
  | .manyToOne foreignKey .. => some foreignKey
  | _ => none

namespace Model

/-- The column that an item of a write sets: that of a field whatever the value, that of a
many-to-one relation unless the value is empty. -/
def columnOf (m : Model) (item : String × Value) : Option String :=
  if m.hasField item.1 then some item.1
  else if item.2.isTruthy then (m.relation? item.1).bind Relation.ownColumn
  else none

def firstOf (m : Model) (data : List (String × Value)) (column : String) : Nat :=
  data.findIdx fun item ↦ m.columnOf item == some column

variable {m : Model} {data : List (String × Value)} {item : String × Value} {column : String}

theorem firstOf_append (h : ∃ item ∈ data, m.columnOf item = some column)
    (after : List (String × Value)) :
    m.firstOf (data ++ after) column = m.firstOf data column ∧
      m.firstOf data column < data.length := by
  have hlt : m.firstOf data column < data.length := by
    obtain ⟨item, hitem, heq⟩ := h
    exact List.findIdx_lt_length_of_exists ⟨item, hitem, by rw [heq, beq_self_eq_true]⟩
  refine ⟨?_, hlt⟩
  rw [firstOf, List.findIdx_append]
  exact if_pos hlt

theorem firstOf_append_new (h : ¬∃ item ∈ data, m.columnOf item = some column)
    (hitem : m.columnOf item = some column) : m.firstOf (data ++ [item]) column = data.length := by
  have hlength : data.findIdx (fun item ↦ m.columnOf item == some column) = data.length := by
    refine List.findIdx_eq_length_of_false fun item hmem ↦ ?_
    exact beq_eq_false_iff_ne.mpr fun heq ↦ h ⟨item, hmem, heq⟩
  rw [firstOf, List.findIdx_append, hlength, if_neg (Nat.lt_irrefl _), List.findIdx_singleton,
    hitem, beq_self_eq_true, if_pos rfl, Nat.zero_add]

end Model

namespace Session

variable {σ : Type} [Database σ] {m : Model}

/-- Resolved in the session `s`, an item stands for a value: its own, or the first one in the row
that its relation looks up. The last session is the one that is left. -/
inductive StandsFor (m : Model) (s : Session σ) : String × Value → Value → Session σ → Prop
  | field {key : String} {v : Value} : m.hasField key = true → StandsFor m s (key, v) v s
  | foreignId {key : String} {v : Value} {r : Relation} {foreignKey foreignColumn : String}
    {lookupColumn : Option String} {loadAll : Bool} : m.hasField key = false →
    m.relation key = .ok r → r.kind = .manyToOne foreignKey foreignColumn lookupColumn loadAll →
    lookupColumn = none ∨ loadAll = true → StandsFor m s (key, v) v s
  | lookedUp {key : String} {v id : Value} {r : Relation} {foreignKey foreignColumn column : String}
    {foreign : Model} {q : Query} {rest : List Value} {t : Session σ} : m.hasField key = false →
    m.relation key = .ok r → r.kind = .manyToOne foreignKey foreignColumn (some column) false →
    s.registry.get r.foreignModel = .ok foreign →
    Query.lookup foreign foreignColumn column v = .ok q →
    (fetchOne (.select q)).run s = (.ok (some (id :: rest)), t) → StandsFor m s (key, v) id t

theorem run_lookup_eq_ok {name wanted field : String} {v id : Value} {s t : Session σ}
    (h : (lookup name wanted field v).run s = (.ok (some id), t)) : ∃ foreign q rest,
      s.registry.get name = .ok foreign ∧ Query.lookup foreign wanted field v = .ok q ∧
      (fetchOne (.select q)).run s = (.ok (some (id :: rest)), t) := by
  obtain ⟨foreign, s₁, hmodel, h⟩ := run_bind_eq_ok.mp h
  obtain ⟨hforeign, rfl⟩ := run_model_eq_ok.mp hmodel
  obtain ⟨q, s₂, hlift, h⟩ := run_bind_eq_ok.mp h
  obtain ⟨hq, rfl⟩ := run_lift_eq_ok.mp hlift
  obtain ⟨row, s₃, hfetch, h⟩ := run_bind_eq_ok.mp h
  obtain ⟨hid, rfl⟩ := run_pure_eq_ok.mp h
  obtain ⟨row, rfl, hhead⟩ := Option.bind_eq_some_iff.mp hid
  obtain ⟨rest, rfl⟩ := List.head?_eq_some_iff.mp hhead
  exact ⟨foreign, q, rest, hforeign, hq, hfetch⟩

theorem standsFor_of_foreignId {key : String} {v id : Value} {r : Relation}
    {foreignKey foreignColumn : String} {lookupColumn : Option String} {loadAll : Bool}
    {s t : Session σ} (hkey : m.hasField key = false) (hr : m.relation key = .ok r)
    (hkind : r.kind = .manyToOne foreignKey foreignColumn lookupColumn loadAll)
    (h : (foreignId r foreignColumn lookupColumn loadAll v).run s = (.ok id, t)) :
    StandsFor m s (key, v) id t := by
  cases lookupColumn with
  | none =>
    obtain ⟨rfl, rfl⟩ := run_pure_eq_ok.mp h
    exact .foreignId hkey hr hkind (.inl rfl)
  | some column =>
    cases loadAll with
    | true =>
      obtain ⟨rfl, rfl⟩ := run_pure_eq_ok.mp h
      exact .foreignId hkey hr hkind (.inr rfl)
    | false =>
      obtain ⟨found, s₁, hlookup, h⟩ := run_bind_eq_ok.mp h
      cases found with
      | none => cases h
      | some found =>
        obtain ⟨rfl, rfl⟩ := run_pure_eq_ok.mp h
        obtain ⟨foreign, q, rest, hforeign, hq, hfetch⟩ := run_lookup_eq_ok hlookup
        exact .lookedUp hkey hr hkind hforeign hq hfetch

theorem run_resolveItem_columns {item : String × Value} {c c' : Changes} {s u : Session σ}
    (h : (resolveItem m c item).run s = (.ok c', u)) :
    m.columnOf item = none ∧ c'.columns = c.columns ∨
    ∃ column v, m.columnOf item = some column ∧ StandsFor m s item v u ∧
      c'.columns = Slots.put column v c.columns := by
  have hown {key : String} {v : Value} {r : Relation} (hkey : m.hasField key = false)
      (hv : v.isTruthy = true) (hr : m.relation key = .ok r) :
      m.columnOf (key, v) = r.ownColumn := by
    simp [Model.columnOf, hkey, hv, Model.relation_eq_ok.mp hr]
  cases resolves_of_run h with
  | @field key v hkey => exact .inr ⟨key, v, if_pos hkey, .field hkey, rfl⟩
  | passedOver hkey hv => exact .inl ⟨by simp [Model.columnOf, hkey, hv], rfl⟩
  | @foreignKey _ _ id _ foreignKey _ _ _ _ hkey hv hr hkind hid =>
    refine .inr ⟨foreignKey, id, ?_, standsFor_of_foreignId hkey hr hkind hid, rfl⟩
    rw [hown hkey hv hr, Relation.ownColumn, hkind]
  | links hkey hv hr hkind _ =>
    refine .inl ⟨?_, rfl⟩
    rw [hown hkey hv hr, Relation.ownColumn, hkind]

/-- What the items of a write, resolved one after the other from the session `s` on, make of the
columns: just those that some item sets, in the order of the first of their items, each with the
value that the last of its items stands for. -/
structure SetBy (m : Model) (s : Session σ) (data columns : List (String × Value)) : Prop where
  mem_iff : ∀ column, column ∈ columns.map Prod.fst ↔
    ∃ item ∈ data, m.columnOf item = some column
  ordered : (columns.map Prod.fst).Pairwise fun a b ↦ m.firstOf data a < m.firstOf data b
  last : ∀ p ∈ columns, ∃ before item after c t t', data = before ++ item :: after ∧
    m.columnOf item = some p.1 ∧ (∀ later ∈ after, m.columnOf later ≠ some p.1) ∧
    (resolve m before).run s = (.ok c, t) ∧ StandsFor m t item p.2 t'

namespace SetBy

variable {s t u : Session σ} {data columns : List (String × Value)} {item : String × Value}
  {c : Changes} {column : String} {v : Value}

theorem nodup (h : SetBy m s data columns) : (columns.map Prod.fst).Nodup := by
  refine h.ordered.imp fun {a b} hlt heq ↦ ?_
  rw [heq] at hlt
  exact Nat.lt_irrefl _ hlt

theorem nil (m : Model) (s : Session σ) : SetBy m s [] [] where
  mem_iff := by simp
  ordered := .nil
  last := nofun

theorem ordered_append (h : SetBy m s data columns) (item : String × Value) :
    (columns.map Prod.fst).Pairwise fun a b ↦
      m.firstOf (data ++ [item]) a < m.firstOf (data ++ [item]) b := by
  refine h.ordered.imp_of_mem fun ha hb hlt ↦ ?_
  rw [(Model.firstOf_append ((h.mem_iff _).mp ha) _).1,
    (Model.firstOf_append ((h.mem_iff _).mp hb) _).1]
  exact hlt

theorem last_append (h : SetBy m s data columns) {p : String × Value} (hp : p ∈ columns)
    (hitem : m.columnOf item ≠ some p.1) : ∃ before last after c t t',
      data ++ [item] = before ++ last :: after ∧ m.columnOf last = some p.1 ∧
      (∀ later ∈ after, m.columnOf later ≠ some p.1) ∧
      (resolve m before).run s = (.ok c, t) ∧ StandsFor m t last p.2 t' := by
  obtain ⟨before, last, after, c, t, t', rfl, hlast, hafter, hrun, hstands⟩ := h.last p hp
  refine ⟨before, last, after ++ [item], c, t, t', by simp, hlast, ?_, hrun, hstands⟩
  intro later hlater
  rcases List.mem_append.mp hlater with hlater | hlater
  · exact hafter later hlater
  · rw [List.mem_singleton.mp hlater]
    exact hitem

theorem append_none (h : SetBy m s data columns) (hitem : m.columnOf item = none) :
    SetBy m s (data ++ [item]) columns where
  mem_iff column := by simp [h.mem_iff column, or_and_right, exists_or, hitem]
  ordered := h.ordered_append item
  last p hp := h.last_append hp (by simp [hitem])

theorem append_some (h : SetBy m s data columns) (hrun : (resolve m data).run s = (.ok c, t))
    (hitem : m.columnOf item = some column) (hv : StandsFor m t item v u) :
    SetBy m s (data ++ [item]) (Slots.put column v columns) where
  mem_iff other := by
    rw [Slots.mem_keys_put, h.mem_iff other]
    simp [or_and_right, exists_or, hitem, or_comm, eq_comm]
  ordered := by
    by_cases hmem : column ∈ columns.map Prod.fst
    · rw [Slots.keys_put_of_mem hmem]
      exact h.ordered_append item
    · rw [Slots.put_of_notMem hmem, List.map_append]
      refine List.pairwise_append.mpr ⟨h.ordered_append item, List.pairwise_singleton _ _, ?_⟩
      intro earlier hearlier new hnew
      obtain rfl : new = column := List.mem_singleton.mp hnew
      have hfirst := Model.firstOf_append ((h.mem_iff earlier).mp hearlier) [item]
      rw [Model.firstOf_append_new (mt (h.mem_iff new).mpr hmem) hitem, hfirst.1]
      exact hfirst.2
  last p hp := by
    rcases Slots.mem_of_mem_put h.nodup hp with rfl | ⟨hmem, hne⟩
    · exact ⟨data, item, [], c, t, u, rfl, hitem, nofun, hrun, hv⟩
    · refine h.last_append hmem ?_
      rw [hitem]
      exact fun heq ↦ hne (Option.some.inj heq).symm

end SetBy

theorem setBy_of_resolve {data : List (String × Value)} {c : Changes} {s u : Session σ}
    (h : (resolve m data).run s = (.ok c, u)) : SetBy m s data c.columns := by
  induction data using List.reverseRecOn generalizing c u with
  | nil =>
    obtain ⟨rfl, -⟩ := run_pure_eq_ok.mp h
    exact .nil m s
  | append_singleton data item ih =>
    rw [resolve, List.foldlM_append] at h
    obtain ⟨d, t, hdata, h⟩ := run_bind_eq_ok.mp h
    rw [List.foldlM_cons] at h
    obtain ⟨d', t', hitem, h⟩ := run_bind_eq_ok.mp h
    obtain ⟨rfl, rfl⟩ := run_pure_eq_ok.mp h
    rcases run_resolveItem_columns hitem with ⟨hnone, hsame⟩ | ⟨column, v, hsome, hv, hput⟩
    · rw [hsame]
      exact (ih hdata).append_none hnone
    · rw [hput]
      exact (ih hdata).append_some hdata hsome hv

end Session

theorem Insert.sql_statement (i : Insert) : (Statement.insert i).sql =
    "INSERT INTO " ++ i.table ++ " (" ++ String.intercalate ", " (i.row.map Prod.fst) ++ ")" ++
      Fragment.lineSeparator ++
      "VALUES (" ++ String.intercalate ", " (i.row.map fun _ ↦ "?") ++ ")" := by
  rw [Statement.sql_eq]
  simp [Statement.fragment, fragment, Clause.insertLine, Clause.valuesLine, Fragment.sql_join,
    String.append_assoc, Function.comp_def]

theorem Update.sql_statement (u : Update) : (Statement.update u).sql =
    "UPDATE " ++ u.table ++ Fragment.lineSeparator ++
      "SET " ++ String.intercalate ", " (u.assignments.map fun a ↦ a.1 ++ " = ?") ++
      u.filter.elim "" fun p ↦ Fragment.lineSeparator ++ "WHERE " ++ p.fragment.sql := by
  have hset : (Clause.setLine u.assignments).sql =
      "SET " ++ String.intercalate ", " (u.assignments.map fun a ↦ a.1 ++ " = ?") := by
    simp [Clause.setLine, Clause.assignment, Fragment.sql_join, Function.comp_def,
      String.append_assoc]
  rw [Statement.sql_eq, Statement.fragment, fragment, Fragment.sql_lines, List.map_cons,
    List.map_cons, hset]
  cases u.filter with
  | none => simp [Clause.updateLine, String.append_assoc]
  | some p => simp [Clause.updateLine, Clause.whereLine, String.append_assoc]

namespace Session

variable {σ : Type} [Database σ] {m : Model}

/-- The columns that a write resolves to are distinct and stand in the order of the first items that
set them, with the values of the last ones, and the statement for them has one placeholder for
each, to which its value is bound. -/
theorem resolved_columns {data : List (String × Value)} {c : Changes} {s u : Session σ}
    (h : (resolve m data).run s = (.ok c, u)) :
    (c.columns.map Prod.fst).Nodup ∧ SetBy m s data c.columns ∧
    (c.columns ≠ [] → ∀ table, ∃ i, Insert.ofRow table c.columns = .ok i ∧
      (Statement.insert i).sql =
        "INSERT INTO " ++ table ++ " (" ++ String.intercalate ", " (c.columns.map Prod.fst) ++
          ")" ++ Fragment.lineSeparator ++
          "VALUES (" ++ String.intercalate ", " (c.columns.map fun _ ↦ "?") ++ ")" ∧
      (Statement.insert i).binds = c.columns.map Prod.snd) ∧
    (c.columns ≠ [] → ∀ table p, m.table = some table → ∃ u,
      columnUpdate m p c.columns = .ok (some u) ∧
      (Statement.update u).sql =
        "UPDATE " ++ table ++ Fragment.lineSeparator ++
          "SET " ++ String.intercalate ", " (c.columns.map fun a ↦ a.1 ++ " = ?") ++
          Fragment.lineSeparator ++ "WHERE " ++ p.fragment.sql ∧
      (Statement.update u).binds = c.columns.map Prod.snd ++ p.fragment.binds) := by
  have hset := setBy_of_resolve h
  refine ⟨hset.nodup, hset, fun hne table ↦ ?_, fun hne table p htable ↦ ?_⟩
  · refine ⟨⟨table, c.columns, hne⟩, dif_neg hne, Insert.sql_statement _, ?_⟩
    rw [Statement.binds_eq]
    exact Insert.binds_fragment _
  · refine ⟨⟨table, c.columns, some p, hne⟩, ?_, ?_, ?_⟩
    · have hof : Update.ofModel m (some p) c.columns = .ok ⟨table, c.columns, some p, hne⟩ := by
        rw [Update.ofModel, Model.tableName_eq_ok.mpr htable]
        exact dif_neg hne
      rw [columnUpdate.eq_def]
      split
      · next heq => exact absurd heq hne
      · rw [hof]
        rfl
    · rw [Update.sql_statement]
      simp [String.append_assoc]
    · rw [Statement.binds_eq, Predicate.binds_fragment]
      exact Update.binds_fragment _

/-- A field and a relation set one column, which the item that comes last decides. -/
theorem resolved_columns_film :
    let language : Model := { name := "Language", table := some "language",
                              fields := [{ name := "language_id", kind := .integer,
                                           primaryKey := true },
                                { name := "name", kind := .string }] }
    let film : Model := { name := "Film", table := some "film",
                          fields := [{ name := "film_id", kind := .integer, primaryKey := true },
                            { name := "title", kind := .string },
                            { name := "language_id", kind := .integer }],
                          relations := [(Relation.manyToOne "language" "Language" "language_id"
                            "language_id").lookedUpIn "name"] }
    let script : Script := { results := [[[.bigInt 5]]], rules := [] }
    let session : Session Script := { database := script, registry := ⟨[language, film]⟩ }
    let data : List (String × Value) := [("language_id", .bigInt 1), ("title", .text "Alien"),
                                         ("language", .text "English"), ("language", .text "")]
    ∃ c u, (resolve film data).run session = (.ok c, u) ∧
      (c.columns == [("language_id", .bigInt 5), ("title", .text "Alien")]) = true ∧
      (c.columns.map Prod.fst).Nodup ∧ SetBy film session data c.columns ∧
      ∃ i, Insert.ofRow "film" c.columns = .ok i ∧
        (Statement.insert i).binds = c.columns.map Prod.snd := by
  intro language film script session data
  have hok : ((resolve film data).run session).1.toOption.any (fun c ↦
      c.columns == [("language_id", .bigInt 5), ("title", .text "Alien")]) = true := by
    decide +kernel
  obtain ⟨c, u, hrun, hcolumns⟩ := exists_run_eq_ok hok
  obtain ⟨hnodup, hset, hinsert, -⟩ := resolved_columns hrun
  have hne : c.columns ≠ [] := by
    intro hnil
    rw [hnil] at hcolumns
    cases hcolumns
  obtain ⟨i, hi, -, hbinds⟩ := hinsert hne "film"
  exact ⟨c, u, hrun, hcolumns, hnodup, hset, i, hi, hbinds⟩

end Session

end RelMapper
