import Mathlib.Data.List.Nodup
import RelMapper.Proofs.Loading.Reading
namespace RelMapper

/-- What a column of a result is read as: a field of the owner, a field of a related row, or an
aggregate. -/
inductive Slot
  | own (field : String)
  | related (c : RelatedColumns) (field : String)
  | aggregate (c : AggregateColumn)

namespace Layout

variable (l : Layout)

def positions : List (Slot × Nat) :=
  (l.fields.map Slot.own).zipIdx ++
    l.related.flatMap (fun c ↦ (c.model.fieldNames.map (Slot.related c)).zipIdx c.start) ++
    l.aggregates.map fun c ↦ (.aggregate c, c.index)

def addRelated (c : RelatedColumns) : Layout :=
  { l with related := l.related ++ [c] }

def addAggregate (c : AggregateColumn) : Layout :=
  { l with aggregates := l.aggregates ++ [c] }

theorem positions_addRelated (c : RelatedColumns) : (l.addRelated c).positions.Perm
    (l.positions ++ (c.model.fieldNames.map (Slot.related c)).zipIdx c.start) := by
  simp only [positions, addRelated, List.flatMap_append, List.flatMap_singleton,
    List.append_assoc]
  exact .append_left _ (.append_left _ List.perm_append_comm)

theorem positions_addAggregate (c : AggregateColumn) :
    (l.addAggregate c).positions = l.positions ++ [Slot.aggregate c].zipIdx c.index := by
  simp [positions, addAggregate]

theorem length_positions : l.positions.length = l.width := by
  have hrelated (cs : List RelatedColumns) (k : Nat) :
      cs.foldr (fun c n ↦ c.model.fields.length + n) k = (cs.flatMap fun c ↦
        (c.model.fieldNames.map (Slot.related c)).zipIdx c.start).length + k := by
    induction cs with
    | nil => exact (Nat.zero_add k).symm
    | cons c cs ih =>
      rw [List.foldr_cons, ih, List.flatMap_cons, List.length_append, List.length_zipIdx,
        List.length_map, Model.fieldNames, List.length_map, Nat.add_assoc]
  rw [width, hrelated, positions, List.length_append, List.length_append, List.length_zipIdx,
    List.length_map, List.length_map]
  omega

theorem relationNames_addRelated (c : RelatedColumns) :
    (l.addRelated c).relationNames.Perm (l.relationNames ++ [c.relation]) := by
  simp only [relationNames, addRelated, List.map_append, List.map_cons, List.map_nil,
    List.append_assoc]
  exact .append_left _ List.perm_append_comm

theorem relationNames_addAggregate (c : AggregateColumn) :
    (l.addAggregate c).relationNames = l.relationNames ++ [c.relation] := by
  simp [relationNames, addAggregate]

end Layout

/-- The entity has the value where the slot says. A field of an absent row is null, and no rows
count as zero. -/
def Slot.IsRead (e : Entity) (v : Value) : Slot → Prop
  | own field => e.get? field = some v
  | related c field => (e.loaded? c.relation = some (.one none) ∧ v.isNull = true) ∨
    ∃ row, e.loaded? c.relation = some (.one (some row)) ∧ row.get? field = some v
  | aggregate c => e.loaded? c.relation =
    some (.aggregate (if v.isNull && c.function == .count then .bigInt 0 else v))

namespace Layout

variable {l : Layout} {m : Model} {row : Row}

structure Reads (l : Layout) (m : Model) (row : Row) (e : Entity) : Prop where
  model : e.model = m
  slots : ∀ p ∈ l.positions, ∃ v, row[p.2]? = some v ∧ p.1.IsRead e v
  absent : ∀ c ∈ l.related,
    (e.loaded? c.relation = some (.one none) ↔ ∀ v ∈ c.values row, v.isNull = true)
  otherFields : ∀ field ∈ m.fieldNames, field ∉ l.fields → e.get? field = some .null
  otherRelations : ∀ r ∈ m.relations, r.name ∉ l.relationNames → e.loaded? r.name = some .unloaded

structure IsDistinct (l : Layout) : Prop where
  fields : l.fields.Nodup
  relations : l.relationNames.Nodup
  related : ∀ c ∈ l.related, c.model.fieldNames.Nodup

theorem length_fields_le_width : l.fields.length ≤ l.width := by
  rw [← length_positions, positions]
  simp only [List.length_append, List.length_zipIdx, List.length_map]
  omega

end Layout

theorem RelatedColumns.values_getElem? {c : RelatedColumns} {row : Row} {j : Nat} {v : Value}
    (hj : j < c.model.fields.length) (hv : row[c.start + j]? = some v) :
    (c.values row)[j]? = some v := by
  rw [values, List.getElem?_map, List.getElem?_range' hj, Option.map_some, valueAt, Nat.one_mul,
    hv]
  rfl

theorem RelatedColumns.entity?_eq_none (c : RelatedColumns) {row : Row} :
    c.entity? row = none ↔ (c.values row).all Value.isNull = true := by
  rw [entity?]
  split
  · next hall => exact ⟨fun _ ↦ hall, fun _ ↦ rfl⟩
  · next hall =>
    refine ⟨fun h ↦ ?_, fun h ↦ absurd h hall⟩
    cases h

theorem RelatedColumns.entity?_cases {c : RelatedColumns} {row : Row}
    (hd : c.model.fieldNames.Nodup) {j : Nat} {field : String} {v : Value}
    (hfield : c.model.fieldNames[j]? = some field) (hv : row[c.start + j]? = some v) :
    (c.entity? row = none ∧ v.isNull = true) ∨
      ∃ e, c.entity? row = some e ∧ e.get? field = some v := by
  have hj : j < c.model.fields.length := by
    have hlt := (List.getElem?_eq_some_iff.mp hfield).1
    rwa [Model.fieldNames, List.length_map] at hlt
  have hvalue := values_getElem? hj hv
  rw [entity?]
  split
  · next hall => exact .inl ⟨rfl, List.all_eq_true.mp hall v (List.mem_of_getElem? hvalue)⟩
  · refine .inr ⟨_, rfl, ?_⟩
    have hzip : (c.model.fieldNames.zip (c.values row)).map Prod.fst = c.model.fieldNames := by
      refine List.map_fst_zip ?_
      rw [Model.fieldNames, values]
      simp
    have hmem : (field, v) ∈ c.model.fieldNames.zip (c.values row) :=
      List.mem_of_getElem? (List.getElem?_zip_eq_some.mpr ⟨hfield, hvalue⟩)
    refine Slots.get?_putAll_of_mem ?_ hmem
    rwa [hzip]

namespace Layout

variable {l : Layout} {m : Model} {row : Row}

theorem map_fst_zip_row (h : l.width ≤ row.length) :
    (l.fields.zip row).map Prod.fst = l.fields :=
  List.map_fst_zip (Nat.le_trans length_fields_le_width h)

theorem get?_entity (hd : l.IsDistinct) (h : l.width ≤ row.length) {i : Nat} {field : String}
    {v : Value} (hfield : l.fields[i]? = some field) (hv : row[i]? = some v) :
    (l.entity m row).get? field = some v := by
  have hmem : (field, v) ∈ l.fields.zip row :=
    List.mem_of_getElem? (List.getElem?_zip_eq_some.mpr ⟨hfield, hv⟩)
  refine Slots.get?_putAll_of_mem ?_ hmem
  rw [map_fst_zip_row h]
  exact hd.fields

theorem loaded?_entity (hd : l.relationNames.Nodup) {load : String × Loaded Entity}
    (hload : load ∈ l.loads row) : (l.entity m row).loaded? load.1 = some load.2 := by
  refine Slots.get?_putAll_of_mem ?_ hload
  rwa [names_loads]

theorem loaded?_entity_related (hd : l.relationNames.Nodup) {c : RelatedColumns} (hc : c ∈ l.related) :
    (l.entity m row).loaded? c.relation = some (.one (c.entity? row)) :=
  loaded?_entity hd (List.mem_append_left _ (List.mem_map_of_mem hc))

theorem loaded?_entity_of_notMem {r : Relation} (hr : r ∈ m.relations)
    (hname : r.name ∉ l.relationNames) :
    (l.entity m row).loaded? r.name = some .unloaded := by
  refine (Slots.get?_putAll_of_notMem ?_).trans (Entity.loaded?_ofModel hr)
  rwa [names_loads]

theorem loaded?_entity_aggregate (hd : (l.aggregates.map AggregateColumn.relation).Nodup)
    {c : AggregateColumn} (hc : c ∈ l.aggregates) :
    (l.entity m row).loaded? c.relation = some (.aggregate (c.value row)) := by
  have hnames : (l.aggregates.map (·.load row)).map Prod.fst =
      l.aggregates.map AggregateColumn.relation := List.map_map
  rw [Entity.loaded?, entity, loads, Slots.putAll_append]
  refine Slots.get?_putAll_of_mem (hnames ▸ hd) ?_
  exact List.mem_map_of_mem (f := (·.load row)) hc

/-- Whatever stands at the position of a slot is read into the place of that slot. -/
theorem isRead_entity (hd : l.IsDistinct) (h : l.width ≤ row.length) {slot : Slot} {i : Nat}
    (hp : (slot, i) ∈ l.positions) {v : Value} (hv : row[i]? = some v) :
    slot.IsRead (l.entity m row) v := by
  rcases List.mem_append.mp hp with hp | hp
  · rcases List.mem_append.mp hp with hp | hp
    · have hslot := List.mem_zipIdx_iff_getElem?.mp hp
      rw [List.getElem?_map] at hslot
      obtain ⟨field, hfield, rfl⟩ := Option.map_eq_some_iff.mp hslot
      exact get?_entity hd h hfield hv
    · obtain ⟨c, hc, hp⟩ := List.mem_flatMap.mp hp
      obtain ⟨hstart, hslot⟩ := List.mem_zipIdx_iff_le_and_getElem?_sub.mp hp
      rw [List.getElem?_map] at hslot
      obtain ⟨field, hfield, rfl⟩ := Option.map_eq_some_iff.mp hslot
      have hone : (l.entity m row).loaded? c.relation = some (.one (c.entity? row)) :=
        loaded?_entity_related hd.relations hc
      have hat : row[c.start + (i - c.start)]? = some v := by
        rw [Nat.add_sub_cancel' hstart, hv]
      rcases c.entity?_cases (hd.related c hc) hfield hat with ⟨hnone, hnull⟩ | ⟨e, he, hget⟩
      · exact .inl ⟨hnone ▸ hone, hnull⟩
      · exact .inr ⟨e, he ▸ hone, hget⟩
  · obtain ⟨c, hc, heq⟩ := List.mem_map.mp hp
    cases heq
    refine (loaded?_entity_aggregate hd.relations.of_append_right hc).trans ?_
    rw [AggregateColumn.value, RelatedColumns.valueAt, hv]
    rfl

theorem reads_entity (hd : l.IsDistinct) (hin : ∀ p ∈ l.positions, p.2 < l.width)
    (h : l.width ≤ row.length) : l.Reads m row (l.entity m row) where
  model := rfl
  slots := by
    intro p hp
    have hi : p.2 < row.length := Nat.lt_of_lt_of_le (hin p hp) h
    have hv : row[p.2]? = some row[p.2] := List.getElem?_eq_getElem hi
    exact ⟨row[p.2], hv, isRead_entity hd h hp hv⟩
  absent := by
    intro c hc
    refine (Eq.congr_left (loaded?_entity_related hd.relations hc)).trans ?_
    rw [Option.some.injEq, Loaded.one.injEq, c.entity?_eq_none, List.all_eq_true]
  otherFields := by
    intro field hm hf
    refine (Slots.get?_putAll_of_notMem ?_).trans (Entity.get?_ofModel hm)
    rwa [map_fst_zip_row h]
  otherRelations _ := loaded?_entity_of_notMem

end Layout

end RelMapper
