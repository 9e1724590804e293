import RelMapper.Links.Plan
namespace RelMapper

namespace Double

def canonical (x : Double) : Double :=
  if x.isZero then ⟨0⟩ else x

theorem isZero_zero : isZero ⟨0⟩ = true := by decide

theorem canonical_eq_iff {x y : Double} :
    x.canonical = y.canonical ↔ x.bits = y.bits ∨ x.isZero = true ∧ y.isZero = true := by
  have hbits (h : x.bits = y.bits) : x = y := by
    cases x
    cases y
    cases h
    rfl
  constructor
  · intro h
    rw [canonical, canonical] at h
    split at h <;> split at h
    · exact .inr ⟨‹_›, ‹_›⟩
    · next hy => exact absurd (h ▸ isZero_zero) hy
    · next hx _ => exact absurd (h ▸ isZero_zero) hx
    · exact .inl (congrArg bits h)
  · rintro (h | ⟨hx, hy⟩)
    · rw [hbits h]
    · rw [canonical, canonical, if_pos hx, if_pos hy]

theorem beq_iff {x y : Double} :
    (x == y) = true ↔ x.isNaN = false ∧ y.isNaN = false ∧ x.canonical = y.canonical := by
  rw [canonical_eq_iff, ← and_assoc]
  change (!x.isNaN && !y.isNaN && (x.bits == y.bits || (x.isZero && y.isZero))) = true ↔ _
  simp only [Bool.and_eq_true, Bool.or_eq_true, beq_iff_eq, Bool.not_eq_true']

end Double

namespace Value

mutual

/-- No NaN stands in the value, also not in an array at any depth. -/
def isNaNFree : Value → Bool
  | double x => !x.isNaN
  | array items => areNaNFree items
  | _ => true

def areNaNFree : List Value → Bool
  | [] => true
  | v :: vs => v.isNaNFree && areNaNFree vs

end

mutual

def canonical : Value → Value
  | double x => double x.canonical
  | array items => array (canonicalItems items)
  | v => v

def canonicalItems : List Value → List Value
  | [] => []
  | v :: vs => v.canonical :: canonicalItems vs

end

mutual

theorem beq_iff (v w : Value) :
    v.beq w = true ↔ v.isNaNFree = true ∧ w.isNaNFree = true ∧ v.canonical = w.canonical := by
  cases v with
  | double x =>
    cases w with
    | double y =>
      have h : (double x).beq (double y) = (x == y) := rfl
      simp [h, Double.beq_iff, isNaNFree, canonical]
    | _ => simp [Value.beq, canonical]
  | array as =>
    cases w with
    | array bs => simpa [Value.beq, isNaNFree, canonical] using beqList_iff as bs
    | _ => simp [Value.beq, canonical]
  | _ => cases w <;> simp [Value.beq, isNaNFree, canonical]

theorem beqList_iff (vs ws : List Value) : beqList vs ws = true ↔
    areNaNFree vs = true ∧ areNaNFree ws = true ∧ canonicalItems vs = canonicalItems ws := by
  cases vs with
  | nil => cases ws <;> simp [beqList, areNaNFree, canonicalItems]
  | cons v vs =>
    cases ws with
    | nil => simp [beqList, canonicalItems]
    | cons w ws =>
      simp only [beqList, areNaNFree, canonicalItems, Bool.and_eq_true, List.cons.injEq,
        beq_iff v w, beqList_iff vs ws]
      exact ⟨fun ⟨⟨hv, hw, h⟩, hvs, hws, hs⟩ ↦ ⟨⟨hv, hvs⟩, ⟨hw, hws⟩, h, hs⟩,
        fun ⟨⟨hv, hvs⟩, ⟨hw, hws⟩, h, hs⟩ ↦ ⟨⟨hv, hw, h⟩, hvs, hws, hs⟩⟩

end

theorem asInteger_canonical (v : Value) : v.canonical.asInteger = v.asInteger := by
  cases v <;> rfl

def identity (v : Value) : Value :=
  v.asInteger.elim v.canonical .bigInt

theorem asInteger_identity (v : Value) : v.identity.asInteger = v.asInteger := by
  rw [identity]
  cases h : v.asInteger with
  | some n => rfl
  | none => exact (asInteger_canonical v).trans h

theorem isNaNFree_of_asInteger {v : Value} {n : Int64} (h : v.asInteger = some n) :
    v.isNaNFree = true := by
  cases v with
  | int n => rfl
  | bigInt n => rfl
  | _ => cases h

/-- Sameness is equality of identities, but for NaN, which is not even the same as itself. -/
theorem sameAs_iff {v w : Value} : v.sameAs w = true ↔
    v.isNaNFree = true ∧ w.isNaNFree = true ∧ v.identity = w.identity := by
  have hbeq : (v == w) = true ↔
      v.isNaNFree = true ∧ w.isNaNFree = true ∧ v.canonical = w.canonical := beq_iff v w
  have hinteger (h : v.canonical = w.canonical) : v.asInteger = w.asInteger := by
    rw [← asInteger_canonical v, h, asInteger_canonical]
  have hidentity (h : v.identity = w.identity) : v.asInteger = w.asInteger := by
    rw [← asInteger_identity v, h, asInteger_identity]
  rw [sameAs]
  cases hv : v.asInteger with
  | some a =>
    cases hw : w.asInteger with
    | some b => simp [identity, hv, hw, isNaNFree_of_asInteger hv, isNaNFree_of_asInteger hw]
    | none =>
      rw [hv, hw] at hinteger hidentity
      simp only [hbeq]
      exact ⟨fun ⟨_, _, h⟩ ↦ (nomatch hinteger h), fun ⟨_, _, h⟩ ↦ (nomatch hidentity h)⟩
  | none =>
    cases hw : w.asInteger with
    | some b =>
      rw [hv, hw] at hinteger hidentity
      simp only [hbeq]
      exact ⟨fun ⟨_, _, h⟩ ↦ (nomatch hinteger h), fun ⟨_, _, h⟩ ↦ (nomatch hidentity h)⟩
    | none => simp only [hbeq, identity, hv, hw, Option.elim_none]

variable {u v w : Value}

theorem sameAs_symm (h : v.sameAs w = true) : w.sameAs v = true := by
  obtain ⟨hv, hw, h⟩ := sameAs_iff.mp h
  exact sameAs_iff.mpr ⟨hw, hv, h.symm⟩

theorem sameAs_trans (h : u.sameAs v = true) (h' : v.sameAs w = true) : u.sameAs w = true := by
  obtain ⟨hu, -, h⟩ := sameAs_iff.mp h
  obtain ⟨-, hw, h'⟩ := sameAs_iff.mp h'
  exact sameAs_iff.mpr ⟨hu, hw, h.trans h'⟩

theorem sameAs_self (h : v.isNaNFree = true) : v.sameAs v = true :=
  sameAs_iff.mpr ⟨h, h, rfl⟩

theorem isNull_eq_of_sameAs (h : v.sameAs w = true) : v.isNull = w.isNull := by
  have hidentity (v : Value) : v.identity.isNull = v.isNull := by cases v <;> rfl
  rw [← hidentity v, (sameAs_iff.mp h).2.2, hidentity]

theorem exists_not_sameAs (v : Value) :
    ∃ w : Value, w.isNull = false ∧ w.isNaNFree = true ∧ v.sameAs w = false := by
  cases v with
  | text s => exact ⟨.bigInt 0, rfl, rfl, rfl⟩
  | _ => exact ⟨.text "", rfl, rfl, rfl⟩

/-- The values are the same id, or NaN that was copied from one to the other. -/
def Alike (v w : Value) : Prop :=
  v = w ∨ v.sameAs w = true

theorem Alike.refl (v : Value) : Alike v v := .inl rfl

theorem Alike.symm (h : Alike v w) : Alike w v :=
  h.imp Eq.symm sameAs_symm

theorem Alike.trans (h : Alike u v) (h' : Alike v w) : Alike u w := by
  rcases h with rfl | h
  · exact h'
  · rcases h' with rfl | h'
    · exact .inr h
    · exact .inr (sameAs_trans h h')

theorem alike_iff (h : v.isNaNFree = true) : Alike v w ↔ v.sameAs w = true := by
  refine ⟨?_, .inr⟩
  rintro (rfl | h)
  · exact sameAs_self ‹_›
  · exact h

end Value

end RelMapper
