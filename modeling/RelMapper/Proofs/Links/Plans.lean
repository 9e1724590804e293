import Mathlib.Data.List.Induction
import RelMapper.Proofs.Links.Reconciliation
namespace RelMapper

def LinkOp.applyTo (ids : List Value) : LinkOp → List Value
  | link l => ids ++ [l.foreign]
  | unlink l => ids.filter fun v ↦ !v.sameAs l.foreign

namespace Links

variable {known ids : List Value}

/-- The ids that are neither known nor the same as one that stands further to the left. -/
def firstNew (known ids : List Value) : List Value :=
  (ids.zipIdx.filter fun p ↦ !containsId known p.1 && !containsId (ids.take p.2) p.1).map Prod.fst

structure SameIds (actual wanted : List Value) : Prop where
  ofWanted : ∀ w ∈ wanted, ∃ a ∈ actual, a.sameAs w = true
  ofActual : ∀ a ∈ actual, ∃ w ∈ wanted, w.sameAs a = true

theorem containsId_newIds (known ids : List Value) (id : Value) :
    containsId (newIds known ids) id = (containsId ids id && !containsId known id) := by
  rw [← any_newIds, Bool.eq_iff_iff, containsId_iff, List.any_eq_true]
  exact exists_congr fun v ↦ and_congr_right fun _ ↦ ⟨Value.sameAs_symm, Value.sameAs_symm⟩

theorem newIds_append_singleton (known ids : List Value) (id : Value) :
    newIds known (ids ++ [id]) =
      if containsId known id || containsId ids id then newIds known ids
      else newIds known ids ++ [id] := by
  have hseen : (containsId known id || containsId (newIds known ids) id) =
      (containsId known id || containsId ids id) := by
    rw [containsId_newIds]
    cases containsId known id <;> simp
  rw [← hseen, newIds, List.foldl_append]
  rfl

theorem firstNew_append_singleton (known ids : List Value) (id : Value) :
    firstNew known (ids ++ [id]) =
      if containsId known id || containsId ids id then firstNew known ids
      else firstNew known ids ++ [id] := by
  have hold : (ids.zipIdx.filter fun p ↦
      !containsId known p.1 && !containsId ((ids ++ [id]).take p.2) p.1) =
      ids.zipIdx.filter fun p ↦ !containsId known p.1 && !containsId (ids.take p.2) p.1 := by
    refine List.filter_congr fun p hp ↦ ?_
    have hplace : p.2 < ids.length := List.snd_lt_of_mem_zipIdx hp
    rw [List.take_append_of_le_length (Nat.le_of_lt hplace)]
  rw [firstNew, List.zipIdx_append, List.filter_append, List.map_append, hold, ← firstNew]
  cases hknown : containsId known id <;> cases hids : containsId ids id <;> simp [hknown, hids]

/-- The ids are looked at from left to right, so the induction goes by the last one. -/
theorem newIds_eq_firstNew (known ids : List Value) : newIds known ids = firstNew known ids := by
  induction ids using List.reverseRecOn with
  | nil => rfl
  | append_singleton ids id ih => rw [newIds_append_singleton, firstNew_append_singleton, ih]

section Plan

variable (table ownerColumn foreignColumn : String) (owner : Value) (actual wanted : List Value)

theorem reconcile_eq_nil_iff :
    reconcile table ownerColumn owner foreignColumn actual wanted = [] ↔
      SameIds actual wanted := by
  rw [reconcile, List.append_eq_nil_iff, List.map_eq_nil_iff, List.map_eq_nil_iff,
    newIds_eq_nil_iff, newIds_eq_nil_iff]
  simp only [containsId_iff]
  exact ⟨fun h ↦ ⟨h.1, h.2⟩, fun h ↦ ⟨h.ofWanted, h.ofActual⟩⟩

theorem pairwise_reconcile :
    (reconcile table ownerColumn owner foreignColumn actual wanted).Pairwise fun op op' ↦
      op.target.foreign.sameAs op'.target.foreign = false := by
  have hlinked := found_newIds actual wanted
  have hunlinked := found_newIds wanted actual
  refine List.pairwise_append.mpr ⟨?_, ?_, ?_⟩
  · exact List.pairwise_map.mpr hlinked.distinct
  · exact List.pairwise_map.mpr hunlinked.distinct
  · intro op hop op' hop'
    obtain ⟨w, hw, rfl⟩ := List.mem_map.mp hop
    obtain ⟨a, ha, rfl⟩ := List.mem_map.mp hop'
    -- What is unlinked is the same as nothing wanted, and what is linked is wanted.
    exact containsId_eq_false_iff.mp (hunlinked.mem a ha).2 w (hlinked.mem w hw).1

theorem foldl_applyTo_link (row : Value → Link) (hrow : ∀ id, (row id).foreign = id)
    (added : List Value) :
    (added.map fun id ↦ LinkOp.link (row id)).foldl LinkOp.applyTo ids = ids ++ added := by
  induction added generalizing ids with
  | nil => exact (List.append_nil ids).symm
  | cons id added ih =>
    rw [List.map_cons, List.foldl_cons, ih, LinkOp.applyTo, hrow, List.append_assoc]
    rfl

theorem foldl_applyTo_unlink (row : Value → Link) (hrow : ∀ id, (row id).foreign = id)
    (removed : List Value) :
    (removed.map fun id ↦ LinkOp.unlink (row id)).foldl LinkOp.applyTo ids =
      ids.filter fun v ↦ !removed.any (v.sameAs ·) := by
  induction removed generalizing ids with
  | nil => exact (List.filter_eq_self.mpr fun _ _ ↦ rfl).symm
  | cons id removed ih =>
    rw [List.map_cons, List.foldl_cons, ih, LinkOp.applyTo, hrow, List.filter_filter]
    refine List.filter_congr fun v _ ↦ ?_
    rw [List.any_cons, Bool.not_or, Bool.and_comm]

theorem mem_applied_iff {v : Value} :
    v ∈ (reconcile table ownerColumn owner foreignColumn actual wanted).foldl LinkOp.applyTo
        actual ↔
      (v ∈ actual ∨ v ∈ newIds actual wanted) ∧
        (containsId actual v = true → containsId wanted v = true) := by
  rw [reconcile, List.foldl_append, foldl_applyTo_link _ fun _ ↦ rfl,
    foldl_applyTo_unlink _ fun _ ↦ rfl, List.mem_filter, List.mem_append, any_newIds]
  cases containsId actual v <;> cases containsId wanted v <;> simp

theorem sameIds_applied (hactual : ∀ a ∈ actual, a.isNaNFree = true)
    (hwanted : ∀ w ∈ wanted, w.isNaNFree = true) :
    SameIds ((reconcile table ownerColumn owner foreignColumn actual wanted).foldl
      LinkOp.applyTo actual) wanted := by
  have hfound := found_newIds actual wanted
  constructor
  · intro w hw
    have hself := Value.sameAs_self (hwanted w hw)
    have hkept {v : Value} (hs : v.sameAs w = true) : containsId wanted v = true :=
      containsId_iff.mpr ⟨w, hw, Value.sameAs_symm hs⟩
    rcases hfound.complete w hw with hold | hnew | hnew
    · obtain ⟨a, ha, hs⟩ := containsId_iff.mp hold
      exact ⟨a, (mem_applied_iff ..).mpr ⟨.inl ha, fun _ ↦ hkept hs⟩, hs⟩
    · exact ⟨w, (mem_applied_iff ..).mpr ⟨.inr hnew, fun _ ↦ hkept hself⟩, hself⟩
    · obtain ⟨v, hv, hs⟩ := containsId_iff.mp hnew
      exact ⟨v, (mem_applied_iff ..).mpr ⟨.inr hv, fun _ ↦ hkept hs⟩, hs⟩
  · intro v hv
    obtain ⟨hmem, hkept⟩ := (mem_applied_iff ..).mp hv
    rcases hmem with hold | hnew
    · exact containsId_iff.mp (hkept (containsId_self hold (hactual v hold)))
    · have hw := (hfound.mem v hnew).1
      exact ⟨v, hw, Value.sameAs_self (hwanted v hw)⟩

/-- A plan links what is wanted and not there and then unlinks what is there and not wanted, each id
once and in the order in which the ids come first. There is nothing to do exactly if the ids are the
wanted ones, and without NaN nothing is left to do after the plan. -/
theorem reconcile_minimal :
    let plan := reconcile table ownerColumn owner foreignColumn actual wanted
    let row := Link.mk table ownerColumn owner foreignColumn
    plan = (firstNew actual wanted).map (fun id ↦ .link (row id)) ++
        (firstNew wanted actual).map (fun id ↦ .unlink (row id)) ∧
      plan.Pairwise (fun op op' ↦ op.target.foreign.sameAs op'.target.foreign = false) ∧
      (plan = [] ↔ SameIds actual wanted) ∧
      ((∀ a ∈ actual, a.isNaNFree = true) → (∀ w ∈ wanted, w.isNaNFree = true) →
        reconcile table ownerColumn owner foreignColumn (plan.foldl LinkOp.applyTo actual)
          wanted = []) := by
  intro plan row
  refine ⟨?_, pairwise_reconcile .., reconcile_eq_nil_iff .., fun hactual hwanted ↦ ?_⟩
  · rw [← newIds_eq_firstNew, ← newIds_eq_firstNew]
    rfl
  · exact (reconcile_eq_nil_iff ..).mpr (sameIds_applied _ _ _ _ _ _ hactual hwanted)

end Plan

/-- An id of either width and twice, one that is not wanted, and one that is new. -/
theorem reconcile_minimal_widths :
    let actual : List Value := [.int 1, .bigInt 1, .text "a", .double ⟨0⟩]
    let wanted : List Value := [.text "b", .bigInt 1, .text "b"]
    let plan := reconcile "film_actor" "film_id" (.bigInt 7) "actor_id" actual wanted
    (∀ a ∈ actual, a.isNaNFree = true) ∧ (∀ w ∈ wanted, w.isNaNFree = true) ∧
      firstNew actual wanted = [.text "b"] ∧ firstNew wanted actual = [.text "a", .double ⟨0⟩] ∧
      plan ≠ [] ∧ ¬ SameIds actual wanted ∧
      reconcile "film_actor" "film_id" (.bigInt 7) "actor_id" (plan.foldl LinkOp.applyTo actual)
        wanted = [] := by
  intro actual wanted plan
  have hactual : ∀ a ∈ actual, a.isNaNFree = true := List.all_eq_true.mp rfl
  have hwanted : ∀ w ∈ wanted, w.isNaNFree = true := List.all_eq_true.mp rfl
  obtain ⟨-, -, hnil, hdone⟩ :=
    reconcile_minimal "film_actor" "film_id" "actor_id" (.bigInt 7) actual wanted
  have hplan : plan ≠ [] := List.cons_ne_nil _ _
  exact ⟨hactual, hwanted, by rfl, by rfl, hplan, fun h ↦ hplan (hnil.mpr h), hdone hactual hwanted⟩

end Links

end RelMapper
