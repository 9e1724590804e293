import RelMapper.Proofs.Sql.Names
namespace RelMapper.Placeholders

abbrev AllPlain (names : List String) : Prop := ∀ s ∈ names, Plain s

theorem plain_qualifiedName {c : Column} (h : AllPlain c.names) : Plain c.qualifiedName := by
  obtain ⟨hn, h⟩ := List.forall_mem_cons.mp h
  unfold Column.qualifiedName
  cases ht : c.table with
  | none => exact hn
  | some table =>
    have hp : Plain "." := by decide
    exact (Plain.append (h table (by simp [ht])) hp).append hn

theorem inert_truth (t : Truth) : Inert (Truth.sql t).toList := by
  apply Plain.inert
  rcases t with _ | _ | _ <;> decide

theorem inert_literal {l : Literal} (h : AllPlain l.names) : Inert l.sql.toList := by
  cases l with
  | text s => exact inert_quoted s
  | date s => exact inert_quoted s
  | numeral n =>
    cases n with
    | integer n => exact (plain_toString_int n.toInt).inert
    | decimal x => exact (plain_toText x).inert
    | verbatim s => exact Plain.inert (h s (by simp [Literal.names]))
  | truth t => exact inert_truth t

mutual

theorem inertPieces_expr {e : Expr} (h : AllPlain e.names) : InertPieces e.fragment := by
  cases e with
  | literal l => exact inertPieces_ofText (inert_literal h)
  | bound v => exact inertPieces_slot v
  | column c => exact inertPieces_ofText (plain_qualifiedName h).inert
  | call function args newName =>
    simp only [AllPlain, Expr.names, List.forall_mem_cons, List.forall_mem_append] at h
    obtain ⟨hf, ha, -⟩ := h
    have ho : Plain "(" := by decide
    have hc : Plain ")" := by decide
    rw [Expr.fragment, Expr.argsFragment_eq_join]
    refine .append (.text (hf.append ho).inert ?_) (inertPieces_ofText hc.inert)
    refine inertPieces_join (by decide) fun f hf ↦ ?_
    obtain ⟨e, he, rfl⟩ := List.mem_map.mp hf
    exact inertPieces_args ha e he
  | verbatim s => exact inertPieces_ofText (Plain.inert (h s (by simp [Expr.names])))

theorem inertPieces_args {es : List Expr} (h : AllPlain (argsNames es)) :
    ∀ e ∈ es, InertPieces e.fragment := by
  cases es with
  | nil => exact fun _ he ↦ nomatch he
  | cons e es =>
    obtain ⟨he, hes⟩ := List.forall_mem_append.mp h
    exact List.forall_mem_cons.mpr ⟨inertPieces_expr he, inertPieces_args hes⟩

end

theorem inertPieces_map {α : Type} {names : α → List String} {view : α → Fragment} {as : List α}
    (h : AllPlain (as.flatMap names)) (hv : ∀ a, AllPlain (names a) → InertPieces (view a)) :
    ∀ f ∈ as.map view, InertPieces f := by
  intro f hf
  obtain ⟨a, ha, rfl⟩ := List.mem_map.mp hf
  exact hv a fun s hs ↦ h s (List.mem_flatMap.mpr ⟨a, ha, hs⟩)

theorem inertPieces_projectionItem {e : Expr} (h : AllPlain e.names) :
    InertPieces e.projection := by
  have hs : Plain " AS " := by decide
  unfold Expr.projection
  cases hn : e.newName with
  | none => exact inertPieces_expr h
  | some a =>
    have ha : a ∈ e.names := by
      cases e with
      | column c => simp only [Expr.newName] at hn; simp [Expr.names, Column.names, hn]
      | call function args newName => simp only [Expr.newName] at hn; simp [Expr.names, hn]
      | literal l => cases hn
      | bound v => cases hn
      | verbatim s => cases hn
    exact (inertPieces_expr h).append (inertPieces_ofText (hs.append (h a ha)).inert)

theorem InertPieces.enclosed {f : Fragment} (h : InertPieces f) (parentheses : Bool) :
    InertPieces (Predicate.enclosed parentheses f) := by
  have ho : Plain "(" := by decide
  have hc : Plain ")" := by decide
  cases parentheses with
  | false => exact h
  | true => exact .append (.text ho.inert h) (inertPieces_ofText hc.inert)

theorem inertPieces_predicate {p : Predicate} (h : AllPlain p.names) :
    InertPieces p.fragment := by
  induction p with
  | compare op lhs rhs =>
    obtain ⟨hl, hr⟩ := List.forall_mem_append.mp h
    have hop : Plain (" " ++ op.symbol ++ " ") := by cases op <;> decide
    exact (inertPieces_expr hl).append (.text hop.inert (inertPieces_expr hr))
  | combine op lhs rhs ihl ihr =>
    obtain ⟨hl, hr⟩ := List.forall_mem_append.mp h
    have hop : Plain (" " ++ op.keyword ++ " ") := by cases op <;> decide
    exact ((ihl hl).enclosed _).append (.text hop.inert ((ihr hr).enclosed _))
  | negate p ih =>
    have hn : Plain "NOT " := by decide
    exact .text hn.inert ((ih h).enclosed _)
  | truth t => exact inertPieces_ofText (inert_truth t)

theorem InertPieces.prepend {f : Fragment} (h : InertPieces f) {s : String} (hs : Plain s) :
    InertPieces (.text s :: f) :=
  .text hs.inert h

theorem inertPieces_where {p : Predicate} (h : AllPlain p.names) :
    InertPieces (Clause.whereLine p) :=
  (inertPieces_predicate h).prepend (by decide)

theorem inertPieces_having {p : Predicate} (h : AllPlain p.names) :
    InertPieces (Clause.havingLine p) :=
  (inertPieces_predicate h).prepend (by decide)

theorem inertPieces_groupBy {items : List Expr} (h : AllPlain (items.flatMap Expr.names)) :
    InertPieces (Clause.groupByLine items) :=
  (inertPieces_join (by decide) (inertPieces_map h fun _ ↦ inertPieces_expr)).prepend (by decide)

theorem inertPieces_sortKey {k : SortKey} (h : AllPlain k.expr.names) :
    InertPieces k.fragment := by
  have hd : Plain (if k.ascending then " ASC" else " DESC") := by split <;> decide
  exact ((inertPieces_expr h).prepend (by decide)).append (inertPieces_ofText hd.inert)

theorem inertPieces_page (p : Page) : InertPieces p.fragment := by
  have hl : Plain "LIMIT " := by decide
  have ho : Plain " OFFSET " := by decide
  have hs := hl.append (plain_toString_nat p.size.toNat)
  refine inertPieces_ofText (Plain.inert ?_)
  unfold Page.sql
  split
  · exact (hs.append ho).append (plain_toString_nat _)
  · exact hs

theorem plain_tableName {t : TableName} (h : AllPlain t.names) : Plain t.sql := by
  obtain ⟨hn, h⟩ := List.forall_mem_cons.mp h
  have hs : Plain " AS " := by decide
  unfold TableName.sql
  cases ht : t.newName with
  | none => exact hn
  | some a => exact (Plain.append hn hs).append (h a (by simp [ht]))

theorem inertPieces_joinCondition {c : JoinCondition} (h : AllPlain c.names) :
    InertPieces c.fragment := by
  cases c with
  | on p => exact (inertPieces_predicate h).prepend (by decide)
  | shared columns =>
    have hu : Plain "USING (" := by decide
    have hc : Plain ")" := by decide
    have hs : Plain (String.intercalate ", " columns) := plain_intercalate (by decide) h
    exact inertPieces_ofText ((hu.append hs).append hc).inert

theorem InertPieces.enclose {f : Fragment} (hf : InertPieces f) {n : Nesting}
    (h : AllPlain n.names) : InertPieces (n.enclose f) := by
  have ho : Plain "(" := by decide
  have hc : Plain ")" := by decide
  have ha : Plain ") AS " := by decide
  match n with
  | .plain => exact hf
  | .derived none => exact .append (.text ho.inert hf) (inertPieces_ofText hc.inert)
  | .derived (some newName) =>
    have hn := ha.append (h newName (by simp [Nesting.names]))
    exact .append (.text ho.inert hf) (inertPieces_ofText hn.inert)

theorem inertPieces_joinLine {kind : JoinKind} {target : Fragment} (ht : InertPieces target)
    {condition : Option JoinCondition}
    (h : AllPlain (condition.toList.flatMap JoinCondition.names)) :
    InertPieces (Join.line kind target condition) := by
  have hk : Plain (kind.keyword ++ " ") := by cases kind <;> decide
  refine .append (.text hk.inert ht) ?_
  cases condition with
  | none => exact inertPieces_nil
  | some c =>
    have hc : AllPlain c.names := by simpa using h
    exact (inertPieces_joinCondition hc).prepend (by decide)

theorem inertPieces_clauses {filter : Option Predicate} {groupBy : Option (List Expr)}
    {having : Option Predicate} {orderBy : Option SortKey} (page : Option Page)
    (hf : AllPlain (filter.toList.flatMap Predicate.names))
    (hg : AllPlain (groupBy.toList.flatten.flatMap Expr.names))
    (hh : AllPlain (having.toList.flatMap Predicate.names))
    (ho : AllPlain (orderBy.toList.flatMap fun k ↦ k.expr.names)) :
    ∀ f ∈ Query.clauses filter groupBy having orderBy page, InertPieces f := by
  have hg : AllPlain (groupBy.toList.flatMap (·.flatMap Expr.names)) := by
    cases groupBy <;> simpa using hg
  simp only [Query.clauses, List.forall_mem_append]
  refine ⟨⟨⟨⟨?_, ?_⟩, ?_⟩, ?_⟩, ?_⟩
  · exact inertPieces_map hf fun _ ↦ inertPieces_where
  · exact inertPieces_map hg fun _ ↦ inertPieces_groupBy
  · exact inertPieces_map hh fun _ ↦ inertPieces_having
  · exact inertPieces_map ho fun _ ↦ inertPieces_sortKey
  · exact List.forall_mem_map.mpr fun p _ ↦ inertPieces_page p

mutual

theorem inertPieces_query {q : Query} (h : AllPlain q.names) : InertPieces q.fragment := by
  obtain ⟨projection, source, filter, groupBy, having, orderBy, page, nesting⟩ := q
  simp only [AllPlain, Query.names, List.forall_mem_append] at h
  obtain ⟨⟨⟨⟨⟨⟨hp, hs⟩, hf⟩, hg⟩, hh⟩, ho⟩, hn⟩ := h
  have hitems : InertPieces projection.fragment :=
    (inertPieces_join (by decide)
      (inertPieces_map hp fun _ ↦ inertPieces_projectionItem)).prepend (by decide)
  have htables : InertPieces (.text "FROM " :: Fragment.lines source.lines) :=
    (inertPieces_lines (inertPieces_source hs)).prepend (by decide)
  refine .enclose (inertPieces_lines ?_) hn
  exact List.forall_mem_cons.mpr ⟨hitems, List.forall_mem_cons.mpr
    ⟨htables, inertPieces_clauses page hf hg hh ho⟩⟩

theorem inertPieces_source {s : Source} (h : AllPlain s.names) :
    ∀ f ∈ s.lines, InertPieces f := by
  obtain ⟨base, joins⟩ := s
  obtain ⟨hb, hj⟩ := List.forall_mem_append.mp h
  exact List.forall_mem_cons.mpr ⟨inertPieces_target hb, inertPieces_joinLines hj⟩

theorem inertPieces_target {t : Target} (h : AllPlain t.names) : InertPieces t.fragment := by
  cases t with
  | table t => exact inertPieces_ofText (plain_tableName h).inert
  | derived q => exact inertPieces_query h

theorem inertPieces_joinLines {js : List Join} (h : AllPlain (joinNames js)) :
    ∀ f ∈ joinLines js, InertPieces f := by
  cases js with
  | nil => exact fun _ hf ↦ nomatch hf
  | cons j js =>
    obtain ⟨kind, target, condition⟩ := j
    simp only [AllPlain, joinNames, List.forall_mem_append] at h
    obtain ⟨⟨ht, hc⟩, hj⟩ := h
    exact List.forall_mem_cons.mpr
      ⟨inertPieces_joinLine (inertPieces_target ht) hc, inertPieces_joinLines hj⟩

end

theorem inertPieces_insert {i : Insert} (h : AllPlain (i.table :: i.row.map Prod.fst)) :
    InertPieces i.fragment := by
  obtain ⟨ht, hc⟩ := List.forall_mem_cons.mp h
  have hi : Plain "INSERT INTO " := by decide
  have ho : Plain " (" := by decide
  have hp : Plain ")" := by decide
  have hs : Plain Fragment.lineSeparator := by decide
  have hl : Plain (Clause.insertLine i.table (i.row.map Prod.fst)) :=
    (((hi.append ht).append ho).append (plain_intercalate (by decide) hc)).append hp
  refine .prepend (.append (.prepend (inertPieces_join (by decide) fun f hf ↦ ?_) (by decide))
    (inertPieces_ofText hp.inert)) (hl.append hs)
  obtain ⟨v, -, rfl⟩ := List.mem_map.mp hf
  exact inertPieces_slot v

theorem inertPieces_assignment {a : String × Value} (h : Plain a.1) :
    InertPieces (Clause.assignment a) := by
  have he : Plain " = " := by decide
  exact (inertPieces_slot a.2).prepend (Plain.append h he)

theorem inertPieces_update {u : Update} (h : AllPlain (u.table ::
    (u.assignments.map Prod.fst ++ u.filter.toList.flatMap Predicate.names))) :
    InertPieces u.fragment := by
  simp only [AllPlain, List.forall_mem_cons, List.forall_mem_append, List.forall_mem_map] at h
  obtain ⟨ht, ha, hf⟩ := h
  have hu : Plain "UPDATE " := by decide
  have hset : InertPieces (Clause.setLine u.assignments) := by
    refine .prepend (inertPieces_join (by decide) ?_) (by decide)
    exact List.forall_mem_map.mpr fun a hm ↦ inertPieces_assignment (ha a hm)
  refine inertPieces_lines (List.forall_mem_cons.mpr
    ⟨inertPieces_ofText (hu.append ht).inert, List.forall_mem_cons.mpr ⟨hset, ?_⟩⟩)
  exact inertPieces_map hf fun _ ↦ inertPieces_where

theorem inertPieces_delete {d : Delete} (h : AllPlain (d.table :: d.filter.names)) :
    InertPieces d.fragment := by
  obtain ⟨ht, hf⟩ := List.forall_mem_cons.mp h
  have hd : Plain "DELETE FROM " := by decide
  have hs : Plain Fragment.lineSeparator := by decide
  exact (inertPieces_where hf).prepend ((hd.append ht).append hs)

theorem plain_ite (b : Bool) {s : String} (h : Plain s) : Plain (if b then s else "") := by
  cases b with
  | false => exact fun _ hc ↦ nomatch hc
  | true => exact h

theorem plain_columnDefinition {c : ColumnDefinition} (h : AllPlain c.names) : Plain c.sql := by
  have hn : Plain c.name := h c.name (by simp [ColumnDefinition.names])
  have ht : Plain c.type := h c.type (by simp [ColumnDefinition.names])
  have hs : Plain " " := by decide
  have hp := plain_ite c.primaryKey (show Plain " PRIMARY KEY" by decide)
  have hnn := plain_ite c.notNull (show Plain " NOT NULL" by decide)
  have hu := plain_ite (c.unique && !c.primaryKey) (show Plain " UNIQUE" by decide)
  exact ((((hn.append hs).append ht).append hp).append hnn).append hu

theorem plain_foreignKey {k : ForeignKey} (h : AllPlain k.names) : Plain k.sql := by
  have hc : Plain k.column := h k.column (by simp [ForeignKey.names])
  have ht : Plain k.table := h k.table (by simp [ForeignKey.names])
  have hf : Plain k.foreignColumn := h k.foreignColumn (by simp [ForeignKey.names])
  have hk : Plain "FOREIGN KEY (" := by decide
  have hr : Plain ") REFERENCES " := by decide
  have ho : Plain " (" := by decide
  have he : Plain ")" := by decide
  exact (((((hk.append hc).append hr).append ht).append ho).append hf).append he

theorem plain_createTable {c : CreateTable} (h : AllPlain (c.table ::
    (c.columns.flatMap ColumnDefinition.names ++ c.foreignKeys.flatMap ForeignKey.names))) :
    Plain c.sql := by
  obtain ⟨ht, h⟩ := List.forall_mem_cons.mp h
  obtain ⟨hc, hf⟩ := List.forall_mem_append.mp h
  have hb : Plain "CREATE TABLE " := by decide
  have hn := plain_ite c.ifNotExists (show Plain "IF NOT EXISTS " by decide)
  have ho : Plain " (" := by decide
  have hs : Plain Fragment.lineSeparator := by decide
  have hparts : ∀ s ∈ c.columns.map ColumnDefinition.sql ++ c.foreignKeys.map ForeignKey.sql,
      Plain s := by
    refine List.forall_mem_append.mpr ⟨?_, ?_⟩
    · refine List.forall_mem_map.mpr fun d hd ↦ plain_columnDefinition fun s hs ↦ ?_
      exact hc s (List.mem_flatMap.mpr ⟨d, hd, hs⟩)
    · refine List.forall_mem_map.mpr fun k hk ↦ plain_foreignKey fun s hs ↦ ?_
      exact hf s (List.mem_flatMap.mpr ⟨k, hk, hs⟩)
  have hj : Plain ("," ++ Fragment.lineSeparator) := by decide
  have hi := plain_intercalate hj hparts
  have he : Plain "\n)" := by decide
  exact (((((hb.append hn).append ht).append ho).append hs).append hi).append he

theorem inertPieces_statement {s : Statement} (h : AllPlain s.names) :
    InertPieces s.fragment := by
  cases s with
  | select q => exact inertPieces_query h
  | insert i => exact inertPieces_insert h
  | update u => exact inertPieces_update h
  | delete d => exact inertPieces_delete h
  | createTable c => exact inertPieces_ofText (plain_createTable h).inert

/-- If no name in a statement holds a question mark or a quote, then a reader of its text who knows
about quoted text finds as many placeholders as there are binds, each where a node of the statement
has written it, and the binds are the values of those nodes in the same order. Values that are bound
already make no difference and stay in front. -/
theorem statement_aligned (s : Statement) (h : ∀ name ∈ s.names, Plain name) :
    s.sql = s.fragment.sql ∧
    positions s.sql = (slots s.fragment).map Prod.fst ∧
    s.binds = (slots s.fragment).map Prod.snd ∧
    (positions s.sql).length = s.binds.length ∧
    ∀ bound, s.render.run bound = (s.sql, bound ++ s.binds) := by
  have hp : positions s.sql = (slots s.fragment).map Prod.fst := by
    rw [s.sql_eq]
    exact positions_sql (inertPieces_statement h)
  have hb : s.binds = (slots s.fragment).map Prod.snd := by
    rw [s.binds_eq, slots, slotsFrom_snd]
  refine ⟨s.sql_eq, hp, hb, ?_, fun bound ↦ ?_⟩
  · rw [hp, hb, List.length_map, List.length_map]
  · rw [s.writes_render bound, s.sql_eq, s.binds_eq]

/-- The question mark in the quoted text is none of the two placeholders. -/
theorem statement_aligned_quoted_question :
    let note := Predicate.equal (.col "film.note") (.literal (.text "what's new?"))
    let s := Statement.update ⟨"film", [("title", .text "?")],
      some (note.and (.columnIs (.qualified "film" "film_id") (.bigInt 7))), by simp⟩
    (∀ name ∈ s.names, Plain name) ∧ positions s.sql = [28, 86] ∧
      s.binds = [.text "?", .bigInt 7] := by
  intro note s
  have h : ∀ name ∈ s.names, Plain name := by decide +kernel
  obtain ⟨-, hp, hb, -, -⟩ := statement_aligned s h
  exact ⟨h, hp.trans (by decide +kernel), hb⟩

end RelMapper.Placeholders
