import RelMapper.Text.Integer
namespace RelMapper.Text

theorem isDigit_of_mem_toDigits (n : Nat) : ∀ c ∈ Nat.toDigits 10 n, c.isDigit = true :=
  fun _ hc ↦ Nat.isDigit_of_mem_toDigits (by decide) (by decide) hc

theorem readNat_toDigits (n : Nat) : readNat (Nat.toDigits 10 n) = some n := by
  have hdigits : (Nat.toDigits 10 n).all Char.isDigit = true :=
    List.all_eq_true.mpr (isDigit_of_mem_toDigits n)
  have hvalue : ofDigits (Nat.toDigits 10 n) = n := Nat.ofDigitChars_ten_toDigits
  rw [readNat, if_pos ⟨Nat.toDigits_ne_nil, hdigits⟩, hvalue]

theorem readNat_toString (n : Nat) : readNat (toString n).toList = some n :=
  (congrArg readNat Nat.toList_repr).trans (readNat_toDigits n)

theorem blank_notMem_toString (n : Nat) : ' ' ∉ (toString n).toList := by
  intro hmem
  cases isDigit_of_mem_toDigits n ' ' (Nat.toList_repr ▸ hmem)

theorem toList_toString_int (n : Int) : (toString n).toList =
    if 0 ≤ n then Nat.toDigits 10 n.toNat else '-' :: Nat.toDigits 10 (-n).toNat := by
  rw [Int.toString_eq_repr, Int.repr_eq_if]
  split
  · exact Nat.toList_repr
  · rw [String.toList_append, Nat.toList_repr]
    rfl

theorem splitSign_of_isDigit {cs : List Char} (hcs : ∀ c ∈ cs, c.isDigit = true) :
    splitSign cs = (false, cs) := by
  rw [splitSign.eq_def]
  split
  · exact absurd (hcs '-' List.mem_cons_self) (by decide)
  · exact absurd (hcs '+' List.mem_cons_self) (by decide)
  · rfl

theorem readInt_toString (n : Int) : readInt (toString n).toList = some n := by
  rw [toList_toString_int]
  split
  · next h =>
    have hsign := splitSign_of_isDigit (isDigit_of_mem_toDigits n.toNat)
    simp [readInt, hsign, readNat_toDigits]
    omega
  · next h =>
    simp [readInt, splitSign, readNat_toDigits]
    omega

theorem readInt64_toString (n : Int64) : readInt64 (toString n.toInt) = some n := by
  have hrange : Int64.minValue.toInt ≤ n.toInt ∧ n.toInt ≤ Int64.maxValue.toInt :=
    ⟨n.minValue_le_toInt, n.toInt_le⟩
  rw [readInt64, readInt_toString, Option.bind_some, if_pos hrange, Int64.ofInt_toInt]

end RelMapper.Text
