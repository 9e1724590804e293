import RelMapper.Sql.Predicate
namespace RelMapper

namespace Truth

def not (a : Truth) : Truth := Option.map (fun b ↦ !b) a

def and : Truth → Truth → Truth
  | some false, _ => some false
  | _, some false => some false
  | some true, some true => some true
  | _, _ => none

def or : Truth → Truth → Truth
  | some true, _ => some true
  | _, some true => some true
  | some false, some false => some false
  | _, _ => none

end Truth

namespace Connective

def apply : Connective → Truth → Truth → Truth
  | and => Truth.and
  | or => Truth.or

theorem apply_assoc (op : Connective) (a b c : Truth) :
    op.apply (op.apply a b) c = op.apply a (op.apply b c) := by
  rcases a with _ | _ | _ <;> rcases b with _ | _ | _ <;> rcases c with _ | _ | _ <;>
    cases op <;> rfl

end Connective

abbrev Valuation := Comparison → Expr → Expr → Truth

namespace Predicate

def value (v : Valuation) : Predicate → Truth
  | compare op lhs rhs => v op lhs rhs
  | combine op lhs rhs => op.apply (lhs.value v) (rhs.value v)
  | negate p => (p.value v).not
  | truth t => t

/-- What a list of predicates makes of a truth value when they are combined with it one by one. -/
def fold (v : Valuation) (op : Connective) (t : Truth) (ps : List Predicate) : Truth :=
  ps.foldl (fun t p ↦ op.apply t (p.value v)) t

theorem value_foldl_combine (v : Valuation) (op : Connective) (p : Predicate)
    (ps : List Predicate) : (ps.foldl (combine op) p).value v = fold v op (p.value v) ps := by
  induction ps generalizing p with
  | nil => rfl
  | cons q qs ih => exact ih (combine op p q)

def operands (op : Connective) : Predicate → List Predicate
  | combine op' lhs rhs =>
    if op' = op then operands op lhs ++ operands op rhs else [combine op' lhs rhs]
  | p => [p]

theorem operands_ne_nil (op : Connective) (p : Predicate) : operands op p ≠ [] := by
  induction p with
  | combine op' lhs rhs ihl ihr =>
    rw [operands]
    split
    · exact List.append_ne_nil_of_left_ne_nil ihl _
    · exact List.cons_ne_nil _ _
  | compare op lhs rhs => exact List.cons_ne_nil _ _
  | negate p ih => exact List.cons_ne_nil _ _
  | truth t => exact List.cons_ne_nil _ _

theorem fold_operands (v : Valuation) (op : Connective) (p : Predicate) (t : Truth) :
    fold v op t (operands op p) = op.apply t (p.value v) := by
  induction p generalizing t with
  | combine op' lhs rhs ihl ihr =>
    rw [operands]
    split
    · next h =>
      subst h
      unfold fold at ihl ihr ⊢
      rw [List.foldl_append, ihl, ihr, Connective.apply_assoc, value]
    · rfl
  | compare op lhs rhs => rfl
  | negate p ih => rfl
  | truth t => rfl

theorem fold_tail_operands (v : Valuation) {op : Connective} {p q : Predicate}
    {qs : List Predicate} (h : operands op p = q :: qs) :
    fold v op (q.value v) qs = p.value v := by
  induction p generalizing qs with
  | combine op' lhs rhs ihl ihr =>
    rw [operands] at h
    split at h
    · next ho =>
      subst ho
      obtain ⟨l, ls, hl⟩ := List.exists_cons_of_ne_nil (operands_ne_nil op' lhs)
      rw [hl, List.cons_append] at h
      obtain ⟨rfl, rfl⟩ := List.cons.inj h
      have hlhs := ihl hl
      have hrhs := fold_operands v op' rhs (lhs.value v)
      unfold fold at hlhs hrhs ⊢
      rw [List.foldl_append, hlhs, hrhs, value]
    · obtain ⟨rfl, rfl⟩ := List.cons.inj h
      rfl
  | compare op lhs rhs => obtain ⟨rfl, rfl⟩ := List.cons.inj h; rfl
  | negate p ih => obtain ⟨rfl, rfl⟩ := List.cons.inj h; rfl
  | truth t => obtain ⟨rfl, rfl⟩ := List.cons.inj h; rfl

end Predicate

end RelMapper
