import RelMapper.Proofs.Sql.Joins
namespace RelMapper

variable {content : Content} {dialect : Dialect} {s : Scope} {ls : List Scope}

namespace Join

variable {j : Join} {js : List Join}

theorem mem_scopes_left (hj : j.kind = .leftOuter) (h : s ∈ j.scopes content dialect ls) :
    ∃ l ∈ ls, s ∈ j.pairs content dialect l ∨ s = l ∧ j.pairs content dialect l = [] := by
  rw [scopes, hj] at h
  obtain ⟨l, hl, hs⟩ := List.mem_flatMap.mp h
  refine ⟨l, hl, ?_⟩
  rw [orAlone] at hs
  split at hs
  · next hnone => exact .inr ⟨List.mem_singleton.mp hs, List.isEmpty_iff.mp hnone⟩
  · exact .inl hs

theorem mem_foldl_scopes (hjs : ∀ j ∈ js, j.kind = .inner ∨ j.kind = .leftOuter)
    (h : s ∈ js.foldl (scopes content dialect) ls) : ∃ l ∈ ls, ∃ rest : Scope, s = l ++ rest ∧
      (rest.map Prod.fst).Sublist (js.map fun j ↦ j.target.visibleName) := by
  induction js generalizing ls with
  | nil => exact ⟨s, h, [], (List.append_nil s).symm, .slnil⟩
  | cons j js ih =>
    obtain ⟨hj, hjs⟩ := List.forall_mem_cons.mp hjs
    obtain ⟨l', hl', rest, rfl, hrest⟩ := ih hjs h
    have hstep : ∃ l ∈ ls, l' = l ∨ ∃ r, l' = l ++ [(j.target.visibleName, r)] := by
      rcases hj with hj | hj
      · obtain ⟨l, hl, r, -, rfl⟩ := mem_scopes_inner hj hl'
        exact ⟨l, hl, .inr ⟨r, rfl⟩⟩
      · obtain ⟨l, hl, hpair | ⟨rfl, -⟩⟩ := mem_scopes_left hj hl'
        · obtain ⟨r, -, rfl⟩ := mem_pairs hpair
          exact ⟨l, hl, .inr ⟨r, rfl⟩⟩
        · exact ⟨l', hl, .inl rfl⟩
    obtain ⟨l, hl, rfl | ⟨r, rfl⟩⟩ := hstep
    · exact ⟨l', hl, rest, rfl, hrest.cons _⟩
    · exact ⟨l, hl, (j.target.visibleName, r) :: rest, by simp, hrest.cons_cons _⟩

/-- A left join by equality adds a row that has the value asked for, or nothing if there is none. -/
theorem mem_scopes_equal {target : Target} {table own column : String} {p : Predicate}
    (hp : p = .equal (.column (.qualified table own))
        (.column (.qualified target.visibleName column)) ∨
      p = .equal (.column (.qualified target.visibleName column))
        (.column (.qualified table own)))
    (htable : target.visibleName ≠ table) (hls : ∀ l ∈ ls, target.visibleName ∉ l.map Prod.fst)
    (h : s ∈ scopes content dialect ls ⟨.leftOuter, target, some (.on p)⟩) : ∃ l ∈ ls,
      (∃ r ∈ target.rows content, s = l ++ [(target.visibleName, r)] ∧
        (r column).equals (dialect.valueOf l (.column (.qualified table own))) = true) ∨
      s = l ∧ ∀ r ∈ target.rows content,
        (r column).equals (dialect.valueOf l (.column (.qualified table own))) = false := by
  obtain ⟨l, hl, hpair | ⟨rfl, hnone⟩⟩ := mem_scopes_left rfl h
  · refine ⟨l, hl, .inl ?_⟩
    rw [pairs_eq] at hpair
    obtain ⟨r, hr, rfl⟩ := List.mem_map.mp hpair
    obtain ⟨hr, hfits⟩ := List.mem_filter.mp hr
    exact ⟨r, hr, rfl, (fits_iff hp htable (hls l hl) r).mp hfits⟩
  · refine ⟨s, hl, .inr ⟨rfl, fun r hr ↦ ?_⟩⟩
    rw [pairs_eq, List.map_eq_nil_iff, List.filter_eq_nil_iff] at hnone
    exact Bool.eq_false_iff.mpr (mt (fits_iff hp htable (hls s hl) r).mpr (hnone r hr))

end Join

namespace Source

theorem mem_scopes {source : Source}
    (hkinds : ∀ j ∈ source.joins, j.kind = .inner ∨ j.kind = .leftOuter)
    (h : s ∈ source.scopes content dialect) : s.map Prod.fst ⊆ source.visibleNames ∧
      ∃ base ∈ source.base.rows content, s.get? source.base.visibleName = some base := by
  obtain ⟨b, hb, rest, rfl, hrest⟩ := Join.mem_foldl_scopes hkinds h
  rw [Target.scopes_eq] at hb
  obtain ⟨base, hbase, rfl⟩ := List.mem_map.mp hb
  refine ⟨List.cons_subset_cons _ hrest.subset, base, hbase, ?_⟩
  rw [Slots.get?, List.singleton_append, List.lookup_cons, beq_self_eq_true]


theorem joined_row {source : Source} {target : Target} {own column : String} {p : Predicate}
    (hkinds : ∀ j ∈ source.joins, j.kind = .inner ∨ j.kind = .leftOuter)
    (hnames : source.visibleNames.Nodup) (hj : ⟨.leftOuter, target, some (.on p)⟩ ∈ source.joins)
    (hp : p = .equal (.column (.qualified source.base.visibleName own))
        (.column (.qualified target.visibleName column)) ∨
      p = .equal (.column (.qualified target.visibleName column))
        (.column (.qualified source.base.visibleName own)))
    (hs : s ∈ source.scopes content dialect) :
    ∃ base ∈ source.base.rows content, s.get? source.base.visibleName = some base ∧
      ((∃ r ∈ target.rows content, s.get? target.visibleName = some r ∧
          (r column).equals (base own) = true) ∨
        s.get? target.visibleName = none ∧
          ∀ r ∈ target.rows content, (r column).equals (base own) = false) := by
  obtain ⟨before, after, hjoins⟩ := List.append_of_mem hj
  rw [hjoins] at hkinds
  obtain ⟨hbefore, hafter⟩ := List.forall_mem_append.mp hkinds
  rw [scopes, hjoins, List.foldl_append, List.foldl_cons] at hs
  obtain ⟨s, hjoined, rest, rfl, hrest⟩ :=
    Join.mem_foldl_scopes (List.forall_mem_cons.mp hafter).2 hs
  -- The name of the target is none of those before it and none of those behind it.
  have hnames : ((⟨source.base, before⟩ : Source).visibleNames ++
      target.visibleName :: after.map fun j ↦ j.target.visibleName).Nodup := by
    rwa [visibleNames, hjoins, List.map_append, List.map_cons] at hnames
  have hnew : target.visibleName ∉ (⟨source.base, before⟩ : Source).visibleNames :=
    fun h ↦ List.disjoint_of_nodup_append hnames h List.mem_cons_self
  have hrest : Slots.get? rest target.visibleName = none := Slots.get?_eq_none fun h ↦
    (List.nodup_cons.mp hnames.of_append_right).1 (hrest.subset h)
  have hleft (l : Scope) (hl : l ∈ (⟨source.base, before⟩ : Source).scopes content dialect) :=
    mem_scopes hbefore hl
  obtain ⟨l, hl, hcases⟩ := Join.mem_scopes_equal hp (fun h ↦ hnew (h ▸ List.mem_cons_self))
    (fun l hl h ↦ hnew ((hleft l hl).1 h)) hjoined
  obtain ⟨hkeys, base, hbase, hown⟩ := hleft l hl
  have hvalue : dialect.valueOf l (.column (.qualified source.base.visibleName own)) = base own := by
    rw [dialect.valueOf_qualified, hown]
    rfl
  rw [hvalue] at hcases
  refine ⟨base, hbase, ?_⟩
  obtain ⟨r, hr, rfl, hequals⟩ | ⟨rfl, hnone⟩ := hcases
  · refine ⟨?_, .inl ⟨r, hr, ?_, hequals⟩⟩
    · rw [Slots.get?_append, Slots.get?_append, hown]
      rfl
    · rw [Slots.get?_append, l.get?_append_self r (fun h ↦ hnew (hkeys h))]
      rfl
  · refine ⟨?_, .inr ⟨?_, hnone⟩⟩
    · rw [Slots.get?_append, hown]
      rfl
    · rw [Slots.get?_append, Slots.get?_eq_none (fun h ↦ hnew (hkeys h)), hrest]
      rfl

end Source

end RelMapper
