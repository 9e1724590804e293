namespace RelMapper

/-- Named places in a fixed order. Where a name occurs twice, only the first place is reached. -/
abbrev Slots (α : Type) := List (String × α)

namespace Slots

variable {α : Type}

def get? (s : Slots α) (name : String) : Option α :=
  s.lookup name

def set? (name : String) (a : α) : Slots α → Option (Slots α)
  | [] => none
  | (n, b) :: s => if n = name then some ((n, a) :: s) else (set? name a s).map ((n, b) :: ·)

/-- Replaces what stands at `name`, or adds a place at the end. -/
def put (name : String) (a : α) : Slots α → Slots α
  | [] => [(name, a)]
  | (n, b) :: s => if n = name then (n, a) :: s else (n, b) :: put name a s

theorem get?_append (s t : Slots α) (name : String) :
    get? (s ++ t) name = (s.get? name).or (t.get? name) :=
  List.lookup_append

theorem get?_eq_none {s : Slots α} {name : String} (h : name ∉ s.map Prod.fst) :
    s.get? name = none := by
  refine List.lookup_eq_none_iff.mpr fun p hp ↦ ?_
  simpa using fun heq : name = p.1 ↦ h (heq ▸ List.mem_map_of_mem hp)

theorem get?_put_self (s : Slots α) (name : String) (a : α) :
    (put name a s).get? name = some a := by
  induction s with
  | nil => simp [put, get?]
  | cons p s ih =>
    obtain ⟨n, b⟩ := p
    by_cases h : n = name
    · simp [put, get?, h]
    · have hb : (name == n) = false := by simpa using fun e : name = n ↦ h e.symm
      rw [put, if_neg h, get?, List.lookup_cons, hb]
      exact ih

end Slots

end RelMapper
