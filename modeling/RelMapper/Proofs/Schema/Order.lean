import Mathlib.Data.Fintype.EquivFin
import Mathlib.Data.Fintype.Sets
import Mathlib.Data.List.Nodup
import Mathlib.Logic.Relation
import Mathlib.Order.WellFounded
import RelMapper.Schema
namespace RelMapper.Schema

/-- The model's table refers to `other`, another table of those that are known. -/
def Needs (known : List String) (m : Model) (other : String) : Prop :=
  other ∈ known ∧ m.table ≠ some other ∧
    ∃ f ∈ m.fields, ∃ column, f.foreignKeyTarget = some (other, column)

theorem isReady_iff {known created : List String} {m : Model} :
    isReady known created m = true ↔ ∀ other, Needs known m other → other ∈ created := by
  rw [isReady, List.all_eq_true]
  constructor
  · rintro h other ⟨hknown, hown, f, hf, column, htarget⟩
    have hready := h f hf
    rw [htarget] at hready
    simpa [hknown, hown] using hready
  · intro h f hf
    split
    · rfl
    · next table column htarget =>
      by_cases hknown : table ∈ known
      · by_cases hown : m.table = some table
        · simp [hown]
        · simp [h table ⟨hknown, hown, f, hf, column, htarget⟩]
      · simp [hknown]

theorem extract_eq_some {α : Type} {p : α → Bool} {as rest : List α} {a : α}
    (h : extract p as = some (a, rest)) : p a = true ∧ as.Perm (a :: rest) := by
  induction as generalizing rest with
  | nil => cases h
  | cons b as ih =>
    rw [extract] at h
    split at h
    · next hb =>
      cases h
      exact ⟨hb, .refl _⟩
    · obtain ⟨⟨c, cs⟩, hrest, heq⟩ := Option.map_eq_some_iff.mp h
      cases heq
      obtain ⟨ha, hperm⟩ := ih hrest
      exact ⟨ha, (hperm.cons b).trans (.swap a b cs)⟩

theorem extract_eq_none {α : Type} {p : α → Bool} {as : List α} :
    extract p as = none ↔ ∀ a ∈ as, p a = false := by
  induction as with
  | nil => simp [extract]
  | cons b as ih =>
    rw [extract, List.forall_mem_cons]
    cases p b <;> simp [ih]

theorem mem_created {created : List String} {m : Model} {ms : List Model} {table : String} :
    table ∈ (m :: ms).filterMap Model.table ++ created ↔
      table ∈ ms.filterMap Model.table ++ (m.table.toList ++ created) := by
  cases h : m.table <;> simp [h, or_left_comm]

inductive InOrder (known : List String) : List String → List Model → Prop
  | nil (created : List String) : InOrder known created []
  | cons {created : List String} {m : Model} {ms : List Model} :
    (∀ other, Needs known m other → other ∈ created) →
    InOrder known (m.table.toList ++ created) ms → InOrder known created (m :: ms)

theorem InOrder.mem_before {known created : List String} {before after : List Model} {m : Model}
    (h : InOrder known created (before ++ m :: after)) {other : String}
    (hneeds : Needs known m other) : other ∈ before.filterMap Model.table ++ created := by
  induction before generalizing created with
  | nil =>
    cases h with
    | cons hm _ => exact hm other hneeds
  | cons n before ih =>
    cases h with
    | cons _ hrest => exact mem_created.mpr (ih hrest)

structure Arranged (known created : List String) (pending order stuck : List Model) : Prop where
  perm : (order ++ stuck).Perm pending
  inOrder : InOrder known created order
  stuck : ∀ m ∈ stuck, ∃ other, Needs known m other ∧
    other ∉ order.filterMap Model.table ++ created

theorem arranged {known : List String} {n : Nat} {created : List String} {pending : List Model}
    (hn : pending.length ≤ n) :
    Arranged known created pending (arrange known n created pending).1
      (arrange known n created pending).2 := by
  induction n generalizing created pending with
  | zero =>
    obtain rfl := List.length_eq_zero_iff.mp (Nat.le_zero.mp hn)
    exact ⟨.refl _, .nil created, nofun⟩
  | succ n ih =>
    rw [arrange]
    split
    · next hnone =>
      refine ⟨.refl _, .nil created, fun m hm ↦ ?_⟩
      have hready := extract_eq_none.mp hnone m hm
      by_contra hall
      push Not at hall
      exact Bool.eq_false_iff.mp hready (isReady_iff.mpr hall)
    · next m rest hsome =>
      obtain ⟨hready, hperm⟩ := extract_eq_some hsome
      have hlength : rest.length ≤ n := by
        have hlength := hperm.length_eq
        rw [List.length_cons] at hlength
        omega
      have hrest := @ih (m.table.toList ++ created) rest hlength
      refine ⟨(hrest.perm.cons m).trans hperm.symm,
        .cons (isReady_iff.mp hready) hrest.inOrder, fun k hk ↦ ?_⟩
      obtain ⟨other, hneeds, hnot⟩ := hrest.stuck k hk
      exact ⟨other, hneeds, fun hmem ↦ hnot (mem_created.mp hmem)⟩

def Refers (models : List Model) (table other : String) : Prop :=
  ∃ m ∈ models, m.table = some table ∧ Needs (models.filterMap Model.table) m other

/-- The references between the tables of the models lead back to where they started. -/
def Cyclic (models : List Model) : Prop :=
  ∃ table, Relation.TransGen (Refers models) table table

theorem exists_transGen_self {α : Type} [DecidableEq α] {r : α → α → Prop} {as : List α}
    (hne : as ≠ []) (h : ∀ a ∈ as, ∃ b ∈ as, r a b) : ∃ a, Relation.TransGen r a a := by
  by_contra hno
  let after (b a : { a // a ∈ as }) : Prop := Relation.TransGen r a.1 b.1
  have : Std.Irrefl after := ⟨fun a ha ↦ hno ⟨a.1, ha⟩⟩
  have : IsTrans _ after := ⟨fun _ _ _ hab hbc ↦ hbc.trans hab⟩
  have hwf : WellFounded after := Finite.wellFounded_of_trans_of_irrefl after
  obtain ⟨a, ha⟩ := List.exists_mem_of_ne_nil as hne
  obtain ⟨last, -, hlast⟩ := hwf.has_min Set.univ ⟨⟨a, ha⟩, trivial⟩
  obtain ⟨b, hb, hr⟩ := h last.1 last.2
  exact hlast ⟨b, hb⟩ trivial (.single hr)

section Cycles

variable {models order stuck : List Model}

theorem Arranged.cyclic (h : Arranged (models.filterMap Model.table) [] models order stuck)
    (htables : ∀ m ∈ models, m.table.isSome = true) (hstuck : stuck ≠ []) : Cyclic models := by
  have hmem {m : Model} (hm : m ∈ stuck) : m ∈ models :=
    h.perm.mem_iff.mp (List.mem_append_right _ hm)
  -- What a model that is left needs is neither created nor unknown, so it is left as well.
  have hnext : ∀ table ∈ stuck.filterMap Model.table,
      ∃ other ∈ stuck.filterMap Model.table, Refers models table other := by
    intro table htable
    obtain ⟨m, hm, htable⟩ := List.mem_filterMap.mp htable
    obtain ⟨other, hneeds, hnot⟩ := h.stuck m hm
    refine ⟨other, ?_, m, hmem hm, htable, hneeds⟩
    have hknown := (h.perm.filterMap Model.table).mem_iff.mpr hneeds.1
    rw [List.filterMap_append, List.mem_append] at hknown
    exact hknown.resolve_left fun hdone ↦ hnot (List.mem_append_left _ hdone)
  refine exists_transGen_self (fun hnil ↦ ?_) hnext
  obtain ⟨m, hm⟩ := List.exists_mem_of_ne_nil stuck hstuck
  obtain ⟨table, htable⟩ := Option.isSome_iff_exists.mp (htables m (hmem hm))
  have hin : table ∈ stuck.filterMap Model.table := List.mem_filterMap.mpr ⟨m, hm, htable⟩
  rw [hnil] at hin
  cases hin

theorem idxOf_lt_of_refers (hperm : order.Perm models)
    (hdistinct : (models.filterMap Model.table).Nodup)
    (horder : InOrder (models.filterMap Model.table) [] order) {table other : String}
    (h : Refers models table other) :
    (order.filterMap Model.table).idxOf other < (order.filterMap Model.table).idxOf table := by
  obtain ⟨m, hm, htable, hneeds⟩ := h
  obtain ⟨before, after, rfl⟩ := List.append_of_mem (hperm.mem_iff.mpr hm)
  have hother := horder.mem_before hneeds
  have hnodup := ((hperm.filterMap Model.table).nodup_iff).mpr hdistinct
  rw [List.append_nil] at hother
  rw [List.filterMap_append, List.filterMap_cons_some htable] at hnodup ⊢
  have hnew : table ∉ before.filterMap Model.table := fun hold ↦
    (List.disjoint_of_nodup_append hnodup) hold List.mem_cons_self
  rw [List.idxOf_append_of_mem hother, List.idxOf_append_of_notMem hnew]
  exact Nat.lt_of_lt_of_le (List.idxOf_lt_length_of_mem hother) (Nat.le_add_right _ _)

theorem not_cyclic (hperm : order.Perm models) (hdistinct : (models.filterMap Model.table).Nodup)
    (horder : InOrder (models.filterMap Model.table) [] order) : ¬Cyclic models := by
  rintro ⟨table, hcycle⟩
  have hlt {a b : String} (h : Relation.TransGen (Refers models) a b) :
      (order.filterMap Model.table).idxOf b < (order.filterMap Model.table).idxOf a := by
    induction h with
    | single h => exact idxOf_lt_of_refers hperm hdistinct horder h
    | tail _ h ih => exact (idxOf_lt_of_refers hperm hdistinct horder h).trans ih
  exact Nat.lt_irrefl _ (hlt hcycle)

theorem arranged_creationOrder (models : List Model) :
    Arranged (models.filterMap Model.table) [] models (creationOrder models).1
      (creationOrder models).2 :=
  arranged (Nat.le_refl _)

/-- Nothing is left exactly if the references have no cycle. -/
theorem creationOrder_stuck_iff (htables : ∀ m ∈ models, m.table.isSome = true)
    (hdistinct : (models.filterMap Model.table).Nodup) :
    (creationOrder models).2 = [] ↔ ¬Cyclic models := by
  have h := arranged_creationOrder models
  refine ⟨fun hnil ↦ not_cyclic ?_ hdistinct h.inOrder, fun hno ↦ ?_⟩
  · have hperm := h.perm
    rwa [hnil, List.append_nil] at hperm
  · by_contra hstuck
    exact hno (h.cyclic htables hstuck)

end Cycles

end RelMapper.Schema
