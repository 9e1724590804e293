import RelMapper.Proofs.Links.Shown
import RelMapper.Proofs.Session.Log
namespace RelMapper

namespace Statement

theorem toList_sql_insert (i : Insert) : ∃ rest,
    (insert i).sql.toList = "INSERT INTO ".toList ++ (i.table.toList ++ ' ' :: rest) := by
  have hline (columns : List String) : Clause.insertLine i.table columns =
      "INSERT INTO " ++ i.table ++ " (" ++ String.intercalate ", " columns ++ ")" := rfl
  rw [sql_eq, fragment, Insert.fragment, Fragment.sql_text, hline]
  simp only [String.toList_append, List.append_assoc]
  exact ⟨_, rfl⟩

theorem head_sql_insert (i : Insert) : (insert i).sql.toList.head? = some 'I' := by
  obtain ⟨rest, h⟩ := toList_sql_insert i
  rw [h]
  rfl

theorem toList_sql_delete (d : Delete) : ∃ rest,
    (delete d).sql.toList = "DELETE FROM ".toList ++ (d.table.toList ++ '\n' :: rest) := by
  rw [sql_eq, fragment, Delete.fragment, Fragment.sql_text, Clause.deleteLine,
    Fragment.lineSeparator]
  simp only [String.toList_append, List.append_assoc]
  exact ⟨_, rfl⟩

theorem takeWhile_upTo {c : Char} {cs ds : List Char} (h : c ∉ cs) :
    (cs ++ c :: ds).takeWhile (· != c) = cs := by
  rw [List.takeWhile_append_of_pos]
  · simp
  · intro d hd
    simpa using fun hdc : d = c ↦ h (hdc ▸ hd)

theorem name_eq_of_opening {opening : List Char} {c : Char} {sql name name' : String}
    (h : ∃ rest, sql.toList = opening ++ (name.toList ++ c :: rest))
    (h' : ∃ rest, sql.toList = opening ++ (name'.toList ++ c :: rest))
    (hc : c ∉ name.toList) (hc' : c ∉ name'.toList) : name = name' := by
  obtain ⟨rest, hrest⟩ := h
  obtain ⟨rest', hrest'⟩ := h'
  have hnames : name.toList ++ c :: rest = name'.toList ++ c :: rest' :=
    List.append_cancel_left (hrest.symm.trans hrest')
  apply String.toList_inj.mp
  rw [← takeWhile_upTo hc, hnames, takeWhile_upTo hc']

theorem table_eq_of_sql_insert {i j : Insert} (h : (insert i).sql = (insert j).sql)
    (hi : ' ' ∉ i.table.toList) (hj : ' ' ∉ j.table.toList) : i.table = j.table :=
  name_eq_of_opening (toList_sql_insert i) (h ▸ toList_sql_insert j) hi hj

theorem table_eq_of_sql_delete {d e : Delete} (h : (delete d).sql = (delete e).sql)
    (hd : '\n' ∉ d.table.toList) (he : '\n' ∉ e.table.toList) : d.table = e.table :=
  name_eq_of_opening (toList_sql_delete d) (h ▸ toList_sql_delete e) hd he

theorem head_sql_update (u : Update) : (update u).sql.toList.head? = some 'U' := by
  rw [sql_eq, fragment, Update.fragment, Fragment.sql_lines, List.map_cons, Fragment.sql_ofText,
    Clause.updateLine, String.intercalate_cons_append]
  simp [String.toList_append]

theorem head_sql_delete (d : Delete) : (delete d).sql.toList.head? = some 'D' := by
  rw [sql_eq, fragment, Delete.fragment, Fragment.sql_text, Clause.deleteLine]
  simp [String.toList_append]

end Statement

namespace JunctionTable

def IsWrittenBy (t : JunctionTable) (sql : String) (binds : List Value) : Prop :=
  (sql = t.linkSql ∨ sql = t.unlinkSql) ∧ binds.length = 2

theorem head_linkSql (t : JunctionTable) : t.linkSql.toList.head? = some 'I' :=
  Statement.head_sql_insert _

theorem head_unlinkSql (t : JunctionTable) : t.unlinkSql.toList.head? = some 'D' :=
  Statement.head_sql_delete _

theorem not_isWrittenBy_of_head {t : JunctionTable} {sql : String} {c : Char}
    (h : sql.toList.head? = some c) (hi : c ≠ 'I') (hd : c ≠ 'D') (binds : List Value) :
    ¬t.IsWrittenBy sql binds := by
  rintro ⟨rfl | rfl, -⟩
  · rw [head_linkSql] at h
    exact hi (Option.some.inj h).symm
  · rw [head_unlinkSql] at h
    exact hd (Option.some.inj h).symm

theorem not_isWrittenBy_update (t : JunctionTable) (u : Update) :
    ¬t.IsWrittenBy (Statement.update u).sql (Statement.update u).binds :=
  not_isWrittenBy_of_head (Statement.head_sql_update u) (by decide) (by decide) _

theorem not_isWrittenBy_select (t : JunctionTable) (q : Query) :
    ¬t.IsWrittenBy (Statement.select q).sql (Statement.select q).binds := by
  have h := Statement.head_sql_query q
  rw [← Statement.fragment, ← Statement.sql_eq] at h
  rcases h with h | h
  · exact not_isWrittenBy_of_head h (by decide) (by decide) _
  · exact not_isWrittenBy_of_head h (by decide) (by decide) _

/-- A name ends where a statement goes on after it, with a space or a new line. -/
def endsClearly (name : String) : Bool :=
  !name.toList.contains ' ' && !name.toList.contains '\n'

def HasClearNames (t : JunctionTable) (m : Model) : Prop :=
  ∀ name ∈ t.name :: (m.table.toList ++ m.relations.filterMap Relation.junction),
    endsClearly name = true

instance (t : JunctionTable) (m : Model) : Decidable (t.HasClearNames m) :=
  List.decidableBAll _ _

section Names

variable {t : JunctionTable} {m : Model}

theorem endsClearly_iff {name : String} :
    endsClearly name = true ↔ ' ' ∉ name.toList ∧ '\n' ∉ name.toList := by
  simp [endsClearly]

theorem not_isWrittenBy_insert {i : Insert} (hne : i.table ≠ t.name)
    (htable : endsClearly i.table = true) (hname : endsClearly t.name = true)
    (binds : List Value) : ¬t.IsWrittenBy (Statement.insert i).sql binds := by
  rintro ⟨hsql | hsql, -⟩
  · apply hne
    exact Statement.table_eq_of_sql_insert hsql (endsClearly_iff.mp htable).1
      (endsClearly_iff.mp hname).1
  · have hhead := Statement.head_sql_insert i
    rw [hsql, t.head_unlinkSql] at hhead
    cases hhead

theorem not_isWrittenBy_delete {d : Delete} (hne : d.table ≠ t.name)
    (htable : endsClearly d.table = true) (hname : endsClearly t.name = true)
    (binds : List Value) : ¬t.IsWrittenBy (Statement.delete d).sql binds := by
  rintro ⟨hsql | hsql, -⟩
  · have hhead := Statement.head_sql_delete d
    rw [hsql, t.head_linkSql] at hhead
    cases hhead
  · apply hne
    exact Statement.table_eq_of_sql_delete hsql (endsClearly_iff.mp htable).2
      (endsClearly_iff.mp hname).2

theorem HasClearNames.not_isWrittenBy (hnames : t.HasClearNames m) {st : Statement}
    (h : t.IsSparedBy m st) : ¬t.IsWrittenBy st.sql st.binds := by
  have hname : endsClearly t.name = true := hnames _ List.mem_cons_self
  cases h with
  | select q => exact t.not_isWrittenBy_select q
  | insert htable hne =>
    refine not_isWrittenBy_insert hne (hnames _ ?_) hname _
    simp [htable]
  | @update u _ _ => exact t.not_isWrittenBy_update u
  | @op op hjunction hne =>
    have hclear : endsClearly op.target.table = true :=
      hnames _ (List.mem_cons_of_mem _ (List.mem_append_right _ hjunction))
    cases op with
    | link l =>
      refine not_isWrittenBy_insert ?_ ?_ hname _
      · exact hne
      · exact hclear
    | unlink l =>
      refine not_isWrittenBy_delete ?_ ?_ hname _
      · exact hne
      · exact hclear

end Names

variable (t : JunctionTable)

def linkedFragment (owner : Value) : Fragment :=
  [.text "SELECT ", .text (t.name ++ "." ++ t.foreignColumn), .text Fragment.lineSeparator,
    .text "FROM ", .text t.name, .text Fragment.lineSeparator, .text "WHERE ",
    .text (t.name ++ "." ++ t.ownerColumn), .text " = ", .slot owner]

def linkedSql : String :=
  (t.linkedFragment .null).sql

theorem sql_linkedFragment (owner : Value) : (t.linkedFragment owner).sql = t.linkedSql := rfl

theorem linkSql_ne_unlinkSql : t.linkSql ≠ t.unlinkSql := by
  intro h
  have hhead := t.head_linkSql
  rw [h, t.head_unlinkSql] at hhead
  cases hhead

theorem items_linkedIds {t : JunctionTable} {p : Projection}
    (hp : Projection.ofItems [.column (.qualified t.name t.foreignColumn)] = .ok p) :
    p.items = [.column (.qualified t.name t.foreignColumn)] := by
  have hkept := Projection.items_ofItems hp
  rcases hblank : (Expr.column (.qualified t.name t.foreignColumn)).isBlank with _ | _
  · exact hkept.trans (List.filter_cons_of_pos (by simp [hblank]))
  · exact absurd (hkept.trans (List.filter_cons_of_neg (by simp [hblank]))) p.items_ne_nil

theorem select_linkedIds {t : JunctionTable} {m : Model} {owner : Value} {q : Query}
    (hid : m.idName = .ok t.ownerColumn)
    (hq : Query.linkedIds m t.name t.foreignColumn owner = .ok q) :
    (Statement.select q).sql = t.linkedSql ∧ (Statement.select q).binds = [owner] := by
  rw [Query.linkedIds] at hq
  obtain ⟨p, hp, hq⟩ := bind_eq_ok.mp hq
  obtain ⟨column, hcolumn, hq⟩ := bind_eq_ok.mp hq
  rw [hid] at hcolumn
  obtain rfl := Except.ok.inj hcolumn
  obtain rfl := pure_eq_ok.mp hq
  obtain ⟨items, hne, hblank⟩ := p
  obtain rfl : items = _ := items_linkedIds hp
  have hfragment : (Statement.select ⟨⟨_, hne, hblank⟩, .ofTable t.name,
      some (.columnIs (.qualified t.name t.ownerColumn) owner), none, none, none, none,
      .plain⟩).fragment = t.linkedFragment owner := rfl
  rw [Statement.sql_eq, Statement.binds_eq]
  exact ⟨(congrArg Fragment.sql hfragment).trans (t.sql_linkedFragment owner),
    congrArg Fragment.binds hfragment⟩

end JunctionTable

/-- A database in memory that keeps the rows of one junction table, and answers everything else
that it is asked from these rows. -/
structure Shelf (t : JunctionTable) (answer : LinkRows → String → List Value → List Row) where
  links : LinkRows
  rows : List Row := []

namespace Shelf

variable {t : JunctionTable} {answer : LinkRows → String → List Value → List Row} {m : Model}

def execute (sql : String) (binds : List Value) (d : Shelf t answer) : Shelf t answer :=
  match binds with
  | [owner, foreign] =>
    if sql = t.linkSql then ⟨d.links.add owner foreign, []⟩
    else if sql = t.unlinkSql then ⟨d.links.remove owner foreign, []⟩
    else ⟨d.links, answer d.links sql binds⟩
  | [owner] =>
    if sql = t.linkedSql then ⟨d.links, (d.links.foreignIds owner).map fun id ↦ [id]⟩
    else ⟨d.links, answer d.links sql binds⟩
  | _ => ⟨d.links, answer d.links sql binds⟩

instance : Database (Shelf t answer) where
  execute sql binds := modify (execute sql binds)
  fetchOne := modifyGet fun d ↦ (d.rows.head?, { d with rows := d.rows.tail })
  fetchAll := modifyGet fun d ↦ (d.rows, { d with rows := [] })
  commit := pure ()
  rollback := pure ()

theorem execute_eq_ok {sql : String} {binds : List Value} {d d' : Shelf t answer}
    (h : (Database.execute sql binds).run d = (.ok (), d')) : d' = d.execute sql binds := by
  cases h
  rfl

theorem fetchAll_eq_ok {rows : List Row} {d d' : Shelf t answer}
    (h : (Database.fetchAll : DatabaseM (Shelf t answer) (List Row)).run d = (.ok rows, d')) :
    rows = d.rows ∧ d'.links = d.links := by
  cases h
  exact ⟨rfl, rfl⟩

theorem links_execute_of_not_written {sql : String} {binds : List Value} {d : Shelf t answer}
    (h : ¬t.IsWrittenBy sql binds) : (d.execute sql binds).links = d.links := by
  rw [execute.eq_def]
  split
  · split
    · exact absurd ⟨.inl ‹_›, rfl⟩ h
    · split
      · exact absurd ⟨.inr ‹_›, rfl⟩ h
      · rfl
  · split <;> rfl
  · rfl

theorem links_fetchOne {row : Option Row} {d d' : Shelf t answer}
    (h : (Database.fetchOne : DatabaseM (Shelf t answer) (Option Row)).run d = (.ok row, d')) :
    d'.links = d.links := by
  cases h
  rfl

theorem keeps (hnames : t.HasClearNames m) : Keeps t m (links : Shelf t answer → LinkRows) where
  link h := by
    rw [execute_eq_ok h, execute, if_pos rfl]
  unlink h := by
    rw [execute_eq_ok h, execute, if_neg t.linkSql_ne_unlinkSql.symm, if_pos rfl]
  linked hid hq h hrows := by
    obtain ⟨hsql, hbinds⟩ := JunctionTable.select_linkedIds hid hq
    rw [hsql, hbinds] at h
    rw [(fetchAll_eq_ok hrows).1, execute_eq_ok h, execute, if_pos rfl]
  spared h hrun := by
    rw [execute_eq_ok hrun, links_execute_of_not_written (hnames.not_isWrittenBy h)]
  fetchOne := links_fetchOne
  fetchAll h := (fetchAll_eq_ok h).2
  commit h := by
    cases h
    rfl

end Shelf

namespace JunctionTable

def tables (t : JunctionTable) (others : String → List Record) (links : LinkRows) : Content where
  table name := if name = t.name then
      links.map fun p column ↦ if column = t.ownerColumn then p.1 else p.2
    else others name
  derived _ := []

end JunctionTable

namespace Shelf

variable {t : JunctionTable} {answer : LinkRows → String → List Value → List Row}
variable {others : String → List Record} {m : Model}

theorem execute_of_other {sql : String} {binds : List Value} (hwrite : ¬t.IsWrittenBy sql binds)
    (hsql : sql ≠ t.linkedSql) {d : Shelf t answer} :
    d.execute sql binds = ⟨d.links, answer d.links sql binds⟩ := by
  rw [execute.eq_def]
  split
  · split
    · exact absurd ⟨.inl ‹_›, rfl⟩ hwrite
    · split
      · exact absurd ⟨.inr ‹_›, rfl⟩ hwrite
      · rfl
  · rw [if_neg hsql]
  · rfl

theorem answers {q : Query} {dialect : Dialect}
    (hsql : (Statement.select q).sql ≠ t.linkedSql)
    (hanswer : ∀ links, answer links (Statement.select q).sql (Statement.select q).binds =
      q.rows (t.tables others links) dialect) :
    Answers (fun d : Shelf t answer ↦ t.tables others d.links) dialect q := by
  intro d d₁ d₂ rows hexecute hfetch
  rw [(fetchAll_eq_ok hfetch).1, execute_eq_ok hexecute,
    execute_of_other (t.not_isWrittenBy_select q) hsql, hanswer]
  exact ⟨List.Subset.refl _, fun _ ↦ List.Subset.refl _⟩

end Shelf

end RelMapper
