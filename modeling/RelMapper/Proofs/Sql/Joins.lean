import Mathlib.Data.List.Nodup
import RelMapper.Proofs.Links.Sameness
import RelMapper.Proofs.Sql.Rows
namespace RelMapper

theorem Dialect.valueOf_qualified (dialect : Dialect) (s : Scope) (table name : String) :
    dialect.valueOf s (.column (.qualified table name)) = (s.get? table).elim .null (· name) := rfl

def Scope.AgreeOn (names : List String) (s t : Scope) : Prop :=
  ∀ name ∈ names, s.get? name = t.get? name

theorem Scope.AgreeOn.trans {names : List String} {s t u : Scope} (h : AgreeOn names s t)
    (h' : AgreeOn names t u) : AgreeOn names s u :=
  fun name hname ↦ (h name hname).trans (h' name hname)

theorem Scope.agreeOn_append {names : List String} (s : Scope) {name : String} (r : Record)
    (h : name ∉ names) : AgreeOn names s (s ++ [(name, r)]) := by
  intro other hother
  have hne : (other == name) = false := by
    simpa using fun heq : other = name ↦ h (heq ▸ hother)
  rw [Slots.get?, Slots.get?, List.lookup_append, List.lookup_cons, hne]
  simp

theorem Scope.get?_append_self (s : Scope) {name : String} (r : Record)
    (h : name ∉ s.map Prod.fst) : Slots.get? (s ++ [(name, r)]) name = some r := by
  rw [Slots.get?_append, Slots.get?_eq_none h, Slots.get?, List.lookup_cons, beq_self_eq_true]
  rfl

namespace Dialect

variable (dialect : Dialect) {l : Scope} {name : String}

theorem valueOf_append_of_ne {table : String} (h : name ≠ table) (r : Record) (column : String) :
    dialect.valueOf (l ++ [(name, r)]) (.column (.qualified table column)) =
      dialect.valueOf l (.column (.qualified table column)) := by
  have hagree := l.agreeOn_append r (by simpa using h : name ∉ [table])
  rw [valueOf_qualified, valueOf_qualified, hagree table (List.mem_singleton_self table)]

theorem valueOf_append_self (h : name ∉ l.map Prod.fst) (r : Record) (column : String) :
    dialect.valueOf (l ++ [(name, r)]) (.column (.qualified name column)) = r column := by
  rw [valueOf_qualified, l.get?_append_self r h]
  rfl

theorem valueOf_singleton (name : String) (r : Record) (column : String) :
    dialect.valueOf [(name, r)] (.column (.qualified name column)) = r column :=
  dialect.valueOf_append_self (l := []) (List.not_mem_nil) r column

theorem holds_columnIs (name : String) (r : Record) (column : String) (v : Value) :
    dialect.holds [(name, r)] (.columnIs (.qualified name column) v) = (r column).equals v := by
  refine (dialect.holds_equal _ _ _).trans ?_
  rw [dialect.valueOf_singleton]
  rfl

end Dialect

section Locality

variable (dialect : Dialect) (names : List String)

/-- The expression tells of nothing but the tables `names`. A qualified column names its table; what
other expressions tell of, only the database knows. -/
def Expr.TellsOf : Expr → Prop
  | .bound _ => True
  | .column ⟨_, some table, _⟩ => table ∈ names
  | e => ∀ s t, Scope.AgreeOn names s t → dialect.value s e = dialect.value t e

def Predicate.TellsOf : Predicate → Prop
  | .compare _ lhs rhs => lhs.TellsOf dialect names ∧ rhs.TellsOf dialect names
  | .combine _ lhs rhs => lhs.TellsOf ∧ rhs.TellsOf
  | .negate p => p.TellsOf
  | .truth _ => True

variable {dialect names} {s t : Scope}

theorem Expr.TellsOf.valueOf_eq {e : Expr} (h : e.TellsOf dialect names)
    (hst : Scope.AgreeOn names s t) : dialect.valueOf s e = dialect.valueOf t e := by
  cases e with
  | bound v => rfl
  | column c =>
    obtain ⟨name, table, newName⟩ := c
    cases table with
    | none => exact h s t hst
    | some table => exact congrArg (fun row : Option Record ↦ row.elim .null (· name)) (hst table h)
  | literal l => exact h s t hst
  | call function args newName => exact h s t hst
  | verbatim text => exact h s t hst

theorem Predicate.TellsOf.holds_eq {p : Predicate} (h : p.TellsOf dialect names)
    (hst : Scope.AgreeOn names s t) : dialect.holds s p = dialect.holds t p := by
  have hvalue : p.value (dialect.valuation s) = p.value (dialect.valuation t) := by
    induction p with
    | compare op lhs rhs =>
      rw [value, value, Dialect.valuation, Dialect.valuation, h.1.valueOf_eq hst,
        h.2.valueOf_eq hst]
    | combine op lhs rhs ihl ihr => rw [value, value, ihl h.1, ihr h.2]
    | negate p ih => rw [value, value, ih h]
    | truth a => rfl
  rw [Dialect.holds, Dialect.holds, hvalue]

end Locality

namespace Target

def rows (content : Content) : Target → List Record
  | table n => content.table n.name
  | derived q => content.derived q

theorem scopes_eq (content : Content) (t : Target) :
    t.scopes content = (t.rows content).map fun r ↦ [(t.visibleName, r)] := by
  cases t <;> rfl

end Target

/-- No two of the rows have the same value in the column, nulls aside. -/
def IsKey (column : String) (rows : List Record) : Prop :=
  rows.Pairwise fun r s ↦ (r column).equals (s column) = false

theorem Value.equals_symm {v w : Value} (h : v.equals w = true) : w.equals v = true := by
  obtain ⟨hv, hw, hsame⟩ := equals_iff.mp h
  exact equals_iff.mpr ⟨hw, hv, sameAs_symm hsame⟩

theorem Value.equals_trans {u v w : Value} (h : u.equals v = true) (h' : v.equals w = true) :
    u.equals w = true := by
  obtain ⟨hu, -, hsame⟩ := equals_iff.mp h
  obtain ⟨-, hw, hsame'⟩ := equals_iff.mp h'
  exact equals_iff.mpr ⟨hu, hw, sameAs_trans hsame hsame'⟩

theorem IsKey.length_filter_le_one {column : String} {rows : List Record} {p : Record → Bool}
    {v : Value} (h : IsKey column rows) (hp : ∀ r, p r = true → (r column).equals v = true) :
    (rows.filter p).length ≤ 1 := by
  match hfound : rows.filter p with
  | [] => exact Nat.zero_le 1
  | [r] => exact Nat.le_refl 1
  | r :: s :: rest =>
    have hr : r ∈ rows.filter p := hfound ▸ List.mem_cons_self
    have hs : s ∈ rows.filter p := hfound ▸ List.mem_cons_of_mem r List.mem_cons_self
    have hapart := List.rel_of_pairwise_cons (hfound ▸ h.filter p) List.mem_cons_self
    have hequals := Value.equals_trans (hp r (List.mem_filter.mp hr).2)
      (Value.equals_symm (hp s (List.mem_filter.mp hs).2))
    exact absurd hequals (Bool.eq_false_iff.mp hapart)

section Scopes

variable {content : Content} {dialect : Dialect} {j : Join} {l s : Scope} {ls : List Scope}
variable {names : List String}

namespace Join

theorem pairs_eq (j : Join) (l : Scope) : j.pairs content dialect l =
    ((j.target.rows content).filter fun r ↦ j.fits dialect (l ++ [(j.target.visibleName, r)])).map
      fun r ↦ l ++ [(j.target.visibleName, r)] := by
  rw [pairs, Target.scopes_eq, List.map_map, List.filter_map]
  rfl

theorem mem_pairs (h : s ∈ j.pairs content dialect l) :
    ∃ r ∈ j.target.rows content, s = l ++ [(j.target.visibleName, r)] := by
  rw [pairs_eq] at h
  obtain ⟨r, hr, rfl⟩ := List.mem_map.mp h
  exact ⟨r, (List.mem_filter.mp hr).1, rfl⟩

theorem mem_scopes_inner (hj : j.kind = .inner) (h : s ∈ j.scopes content dialect ls) :
    ∃ l ∈ ls, ∃ r ∈ j.target.rows content, s = l ++ [(j.target.visibleName, r)] := by
  rw [scopes, hj] at h
  obtain ⟨l, hl, hs⟩ := List.mem_flatMap.mp h
  exact ⟨l, hl, mem_pairs hs⟩

variable (content dialect) in
def extend (j : Join) (l : Scope) : Scope :=
  (j.pairs content dialect l).headD l

variable (content dialect) in
theorem extend_eq (j : Join) (l : Scope) : j.extend content dialect l = l ∨
    ∃ r ∈ j.target.rows content, j.extend content dialect l = l ++ [(j.target.visibleName, r)] := by
  rw [extend]
  cases hpairs : j.pairs content dialect l with
  | nil => exact .inl rfl
  | cons s ss => exact .inr (mem_pairs (hpairs ▸ List.mem_cons_self))

theorem agreeOn_extend (h : j.target.visibleName ∉ names) (l : Scope) :
    Scope.AgreeOn names l (j.extend content dialect l) := by
  obtain heq | ⟨r, -, heq⟩ := j.extend_eq content dialect l
  · rw [heq]
    exact fun _ _ ↦ rfl
  · rw [heq]
    exact l.agreeOn_append r h

theorem keys_extend (h : l.map Prod.fst ⊆ names) :
    (j.extend content dialect l).map Prod.fst ⊆ names ++ [j.target.visibleName] := by
  obtain heq | ⟨r, -, heq⟩ := j.extend_eq content dialect l
  · rw [heq]
    exact List.Subset.trans h (List.subset_append_left _ _)
  · rw [heq, List.map_append]
    exact List.append_subset.mpr
      ⟨List.Subset.trans h (List.subset_append_left _ _), List.subset_append_right _ _⟩

variable (content dialect) in
structure IsSingle (j : Join) : Prop where
  kind : j.kind = .leftOuter
  single : ∀ l : Scope, j.target.visibleName ∉ l.map Prod.fst →
    (j.pairs content dialect l).length ≤ 1

theorem IsSingle.scopes_eq (hj : j.IsSingle content dialect)
    (hls : ∀ l ∈ ls, j.target.visibleName ∉ l.map Prod.fst) :
    j.scopes content dialect ls = ls.map (j.extend content dialect) := by
  have hone : ∀ l ∈ ls, orAlone l (j.pairs content dialect l) = [j.extend content dialect l] := by
    intro l hl
    have hlength := hj.single l (hls l hl)
    rw [orAlone, extend]
    cases hpairs : j.pairs content dialect l with
    | nil => rfl
    | cons s ss =>
      rw [hpairs, List.length_cons, Nat.succ_le_succ_iff, Nat.le_zero] at hlength
      rw [List.length_eq_zero_iff.mp hlength]
      rfl
  rw [scopes, hj.kind, List.map_eq_flatMap]
  exact List.flatMap_congr hone

section Equality

variable {target : Target} {table own column : String} {p : Predicate}

theorem fits_iff (hp : p = .equal (.column (.qualified table own))
        (.column (.qualified target.visibleName column)) ∨
      p = .equal (.column (.qualified target.visibleName column))
        (.column (.qualified table own)))
    (htable : target.visibleName ≠ table) (hl : target.visibleName ∉ l.map Prod.fst) (r : Record) :
    fits dialect ⟨.leftOuter, target, some (.on p)⟩ (l ++ [(target.visibleName, r)]) = true ↔
      (r column).equals (dialect.valueOf l (.column (.qualified table own))) = true := by
  have hfits : fits dialect ⟨.leftOuter, target, some (.on p)⟩ (l ++ [(target.visibleName, r)]) =
      dialect.holds (l ++ [(target.visibleName, r)]) p := rfl
  rcases hp with rfl | rfl
  · rw [hfits, dialect.holds_equal, dialect.valueOf_append_of_ne htable,
      dialect.valueOf_append_self hl]
    exact ⟨Value.equals_symm, Value.equals_symm⟩
  · rw [hfits, dialect.holds_equal, dialect.valueOf_append_of_ne htable,
      dialect.valueOf_append_self hl]

theorem isSingle_of_isKey (hp : p = .equal (.column (.qualified table own))
        (.column (.qualified target.visibleName column)) ∨
      p = .equal (.column (.qualified target.visibleName column))
        (.column (.qualified table own)))
    (htable : target.visibleName ≠ table) (hkey : IsKey column (target.rows content)) :
    IsSingle content dialect ⟨.leftOuter, target, some (.on p)⟩ := by
  refine ⟨rfl, fun l hl ↦ ?_⟩
  rw [pairs_eq, List.length_map]
  exact hkey.length_filter_le_one fun r ↦ (fits_iff hp htable hl r).mp

end Equality

variable {js : List Join}

theorem mem_foldl_scopes_inner (hjs : ∀ j ∈ js, j.kind = .inner)
    (h : s ∈ js.foldl (scopes content dialect) ls) : ∃ l ∈ ls, l <+: s ∧
      s.map Prod.fst = l.map Prod.fst ++ js.map fun j ↦ j.target.visibleName := by
  induction js generalizing ls with
  | nil => exact ⟨s, h, List.prefix_refl s, (List.append_nil _).symm⟩
  | cons j js ih =>
    obtain ⟨hj, hjs⟩ := List.forall_mem_cons.mp hjs
    obtain ⟨l', hl', hs, hkeys⟩ := ih hjs h
    obtain ⟨l, hl, r, -, rfl⟩ := mem_scopes_inner hj hl'
    refine ⟨l, hl, (List.prefix_append _ _).trans hs, hkeys.trans ?_⟩
    rw [List.map_append, List.append_assoc]
    rfl

theorem nodup_append_cons {name : String} {rest : List String} :
    (names ++ name :: rest).Nodup ↔ name ∉ names ∧ (names ++ [name] ++ rest).Nodup := by
  rw [List.append_assoc, List.singleton_append, iff_and_self]
  exact fun h hmem ↦ List.disjoint_of_nodup_append h hmem List.mem_cons_self

variable (content dialect) in
def extendAll (js : List Join) (l : Scope) : Scope :=
  js.foldl (fun l j ↦ j.extend content dialect l) l

theorem agreeOn_extendAll (h : (names ++ js.map fun j ↦ j.target.visibleName).Nodup) (l : Scope) :
    Scope.AgreeOn names l (extendAll content dialect js l) := by
  induction js generalizing names l with
  | nil => exact fun _ _ ↦ rfl
  | cons j js ih =>
    obtain ⟨hname, h⟩ := nodup_append_cons.mp h
    have hrest := ih h (j.extend content dialect l)
    exact (agreeOn_extend hname l).trans fun other hother ↦
      hrest other (List.mem_append_left _ hother)

/-- Left joins that each find at most one row keep every row, and no row twice. -/
theorem foldl_scopes_single (hjs : ∀ j ∈ js, j.IsSingle content dialect)
    (h : (names ++ js.map fun j ↦ j.target.visibleName).Nodup)
    (hls : ∀ l ∈ ls, l.map Prod.fst ⊆ names) :
    js.foldl (scopes content dialect) ls = ls.map (extendAll content dialect js) := by
  induction js generalizing names ls with
  | nil => exact (List.map_id ls).symm
  | cons j js ih =>
    obtain ⟨hj, hjs⟩ := List.forall_mem_cons.mp hjs
    obtain ⟨hname, h⟩ := nodup_append_cons.mp h
    have hkeys : ∀ l ∈ ls.map (j.extend content dialect),
        l.map Prod.fst ⊆ names ++ [j.target.visibleName] := by
      intro l' hl'
      obtain ⟨l, hl, rfl⟩ := List.mem_map.mp hl'
      exact keys_extend (hls l hl)
    rw [List.foldl_cons, hj.scopes_eq fun l hl hmem ↦ hname (hls l hl hmem), ih hjs h hkeys,
      List.map_map]
    rfl

end Join

theorem Source.keys_scopes_inner {source : Source} (hjoins : ∀ j ∈ source.joins, j.kind = .inner)
    (h : s ∈ source.scopes content dialect) : s.map Prod.fst = source.visibleNames ∧
      ∃ r ∈ source.base.rows content, s.get? source.base.visibleName = some r := by
  obtain ⟨l, hl, ⟨rest, rfl⟩, hkeys⟩ := Join.mem_foldl_scopes_inner hjoins h
  rw [Target.scopes_eq] at hl
  obtain ⟨r, hr, rfl⟩ := List.mem_map.mp hl
  refine ⟨hkeys, r, hr, ?_⟩
  rw [Slots.get?, List.singleton_append, List.lookup_cons, beq_self_eq_true]

/-- A query that joins more tables than another one finds as many rows, if each of these left joins
finds at most one row and its restrictions are about the tables of the other one. -/
theorem Query.length_scopes_eq {q n : Query} {js : List Join}
    (hsource : q.source = ⟨n.source.base, n.source.joins ++ js⟩) (hfilter : q.filter = n.filter)
    (hinner : ∀ j ∈ n.source.joins, j.kind = .inner)
    (hsingle : ∀ j ∈ js, j.IsSingle content dialect) (hnames : q.source.visibleNames.Nodup)
    (htells : ∀ p, n.filter = some p → p.TellsOf dialect n.source.visibleNames) :
    (q.scopes content dialect).length = (n.scopes content dialect).length := by
  rw [hsource, Source.visibleNames_append] at hnames
  have hscopes : q.source.scopes content dialect =
      (n.source.scopes content dialect).map (Join.extendAll content dialect js) := by
    rw [hsource, Source.scopes, List.foldl_append]
    exact Join.foldl_scopes_single hsingle hnames fun l hl ↦
      (Source.keys_scopes_inner hinner hl).1 ▸ List.Subset.refl _
  have hholds (l : Scope) : q.filter.all (dialect.holds (Join.extendAll content dialect js l)) =
      n.filter.all (dialect.holds l) := by
    rw [hfilter]
    cases hp : n.filter with
    | none => rfl
    | some p => exact ((htells p hp).holds_eq (Join.agreeOn_extendAll hnames l)).symm
  rw [scopes, scopes, hscopes, List.filter_map, List.length_map]
  exact congrArg List.length (List.filter_congr fun l _ ↦ hholds l)

end Scopes

end RelMapper
