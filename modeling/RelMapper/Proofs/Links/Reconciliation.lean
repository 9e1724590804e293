import RelMapper.Proofs.Links.Sameness
namespace RelMapper

namespace Links

variable {known ids : List Value} {id v : Value}

theorem containsId_iff : containsId ids id = true ↔ ∃ v ∈ ids, v.sameAs id = true := by
  simp [containsId]

theorem containsId_eq_false_iff : containsId ids id = false ↔ ∀ v ∈ ids, v.sameAs id = false := by
  simp [containsId]

theorem containsId_congr (h : v.sameAs id = true) : containsId ids v = containsId ids id := by
  rw [Bool.eq_iff_iff, containsId_iff, containsId_iff]
  constructor
  · rintro ⟨w, hw, hs⟩
    exact ⟨w, hw, Value.sameAs_trans hs h⟩
  · rintro ⟨w, hw, hs⟩
    exact ⟨w, hw, Value.sameAs_trans hs (Value.sameAs_symm h)⟩

theorem containsId_self (h : id ∈ ids) (hn : id.isNaNFree = true) : containsId ids id = true :=
  containsId_iff.mpr ⟨id, h, Value.sameAs_self hn⟩

structure Found (known ids found : List Value) : Prop where
  mem : ∀ v ∈ found, v ∈ ids ∧ containsId known v = false
  distinct : found.Pairwise fun v w ↦ v.sameAs w = false
  complete : ∀ v ∈ ids, containsId known v = true ∨ v ∈ found ∨ containsId found v = true

theorem Found.step {found : List Value} (h : Found known ids found) (id : Value) :
    Found known (ids ++ [id]) (if containsId known id || containsId found id then found
      else found ++ [id]) := by
  split
  · next hseen =>
    refine ⟨fun v hv ↦ ?_, h.distinct, fun v hv ↦ ?_⟩
    · obtain ⟨hm, hk⟩ := h.mem v hv
      exact ⟨List.mem_append_left _ hm, hk⟩
    · rcases List.mem_append.mp hv with hv | hv
      · exact h.complete v hv
      · rw [List.mem_singleton.mp hv]
        exact (Bool.or_eq_true _ _ ▸ hseen).imp_right .inr
  · next hnew =>
    obtain ⟨hk, hf⟩ := Bool.or_eq_false_iff.mp (Bool.not_eq_true _ ▸ hnew)
    refine ⟨fun v hv ↦ ?_, ?_, fun v hv ↦ ?_⟩
    · rcases List.mem_append.mp hv with hv | hv
      · obtain ⟨hm, hv⟩ := h.mem v hv
        exact ⟨List.mem_append_left _ hm, hv⟩
      · rw [List.mem_singleton.mp hv]
        exact ⟨List.mem_append_right _ (List.mem_singleton_self id), hk⟩
    · refine List.pairwise_append.mpr ⟨h.distinct, List.pairwise_singleton _ _, ?_⟩
      intro v hv w hw
      rw [List.mem_singleton.mp hw]
      exact containsId_eq_false_iff.mp hf v hv
    · rcases List.mem_append.mp hv with hv | hv
      · refine (h.complete v hv).imp_right fun hv ↦ hv.imp (List.mem_append_left _) fun hv ↦ ?_
        obtain ⟨w, hw, hs⟩ := containsId_iff.mp hv
        exact containsId_iff.mpr ⟨w, List.mem_append_left _ hw, hs⟩
      · exact .inr (.inl (List.mem_append_right _ hv))

theorem found_newIds (known ids : List Value) : Found known ids (newIds known ids) := by
  -- Generalised over the ids that have been looked at, which are none at the start.
  have hfold (rest : List Value) : ∀ seen found, Found known seen found →
      Found known (seen ++ rest) (rest.foldl (fun found id ↦
        if containsId known id || containsId found id then found else found ++ [id]) found) := by
    induction rest with
    | nil =>
      intro seen found h
      rwa [List.append_nil]
    | cons id rest ih =>
      intro seen found h
      have hrest := ih (seen ++ [id]) _ (h.step id)
      rwa [List.append_assoc] at hrest
  refine hfold ids [] [] ⟨?_, List.Pairwise.nil, ?_⟩
  · exact fun v hv ↦ nomatch hv
  · exact fun v hv ↦ nomatch hv

theorem newIds_eq_nil_iff : newIds known ids = [] ↔ ∀ v ∈ ids, containsId known v = true := by
  have hfound := found_newIds known ids
  constructor
  · intro hnil v hv
    refine (hfound.complete v hv).resolve_right ?_
    rw [hnil]
    rintro (hv | hv)
    · cases hv
    · cases hv
  · intro hknown
    refine List.eq_nil_iff_forall_not_mem.mpr fun v hv ↦ ?_
    obtain ⟨hm, hnew⟩ := hfound.mem v hv
    rw [hknown v hm] at hnew
    cases hnew

theorem any_newIds : (newIds known ids).any (v.sameAs ·) =
    (containsId ids v && !containsId known v) := by
  have hfound := found_newIds known ids
  rw [Bool.eq_iff_iff, List.any_eq_true, Bool.and_eq_true, Bool.not_eq_true']
  constructor
  · rintro ⟨w, hw, hs⟩
    obtain ⟨hm, hk⟩ := hfound.mem w hw
    have hsame : containsId known v = containsId known w := containsId_congr hs
    rw [hsame]
    exact ⟨containsId_iff.mpr ⟨w, hm, Value.sameAs_symm hs⟩, hk⟩
  · rintro ⟨hm, hk⟩
    obtain ⟨w, hw, hs⟩ := containsId_iff.mp hm
    rcases hfound.complete w hw with hknown | hnew | hnew
    · rw [containsId_congr hs, hk] at hknown
      cases hknown
    · exact ⟨w, hnew, Value.sameAs_symm hs⟩
    · obtain ⟨u, hu, hus⟩ := containsId_iff.mp hnew
      exact ⟨u, hu, Value.sameAs_symm (Value.sameAs_trans hus hs)⟩

end Links

/-- The rows of a junction table, as owner and foreign id. -/
abbrev LinkRows := List (Value × Value)

namespace LinkRows

open Links

variable {rows : LinkRows} {owner : Value} {actual wanted : List Value}

def foreignIds (rows : LinkRows) (owner : Value) : List Value :=
  (rows.filter fun p ↦ p.1.sameAs owner).map Prod.snd

def add (rows : LinkRows) (owner foreign : Value) : LinkRows :=
  rows ++ [(owner, foreign)]

def remove (rows : LinkRows) (owner foreign : Value) : LinkRows :=
  rows.filter fun p ↦ !(p.1.sameAs owner && p.2.sameAs foreign)

def step (rows : LinkRows) : LinkOp → LinkRows
  | .link l => rows.add l.owner l.foreign
  | .unlink l => rows.remove l.owner l.foreign

/-- Whether a row of the owner is among the links that the owner seems to have and is not wanted. -/
def isStale (owner : Value) (actual wanted : List Value) (p : Value × Value) : Bool :=
  p.1.sameAs owner && (containsId actual p.2 && !containsId wanted p.2)

end LinkRows

end RelMapper
