import RelMapper.Links.Plan
import RelMapper.Proofs.Selection.Scalars
namespace RelMapper

/-- Both fail alike, or both give statements: of the same text, and with as many values bound,
which are `vs` and `ws` from left to right. -/
inductive DifferInBinds (vs ws : List Value) :
    Except Fault Statement → Except Fault Statement → Prop
  | failed (e : Fault) : DifferInBinds vs ws (.error e) (.error e)
  | built {s t : Statement} (sql : s.sql = t.sql) (left : s.binds = vs) (right : t.binds = ws)
      (length : vs.length = ws.length) : DifferInBinds vs ws (.ok s) (.ok t)

theorem DifferInBinds.of_agree {vs ws : List Value} {x y : Except Fault Statement}
    (h : AgreeOn Statement.shape x y) (hx : ∀ s, x = .ok s → s.binds = vs)
    (hy : ∀ t, y = .ok t → t.binds = ws) : DifferInBinds vs ws x y := by
  cases x with
  | error e =>
    cases y with
    | error e' =>
      cases h
      exact .failed e
    | ok t => cases h
  | ok s =>
    cases y with
    | error e' => cases h
    | ok t =>
      have hshape : s.shape = t.shape := Except.ok.inj h
      have hlength := congrArg (·.binds.length) hshape
      simp only [Statement.binds_shape, List.length_map, hx s rfl, hy t rfl] at hlength
      refine .built ?_ (hx s rfl) (hy t rfl) hlength
      rw [← s.sql_shape, hshape, t.sql_shape]

namespace Selection

/-- One of the calls that put a selection together. -/
inductive Call
  | select (names : List String)
  | selectItems (items : List Expr)
  | byId (id : Value)
  | satisfying (p : Predicate)
  | filtered (fs : List Filter)
  | equalling (column : String) (v : Value)
  | searching (text : String) (columns : Option (List String))
  | sortedBy (c : Column) (ascending : Bool)
  | paged (page : Page)

namespace Call

def apply (s : Selection) : Call → Selection
  | select names => s.select names
  | selectItems items => s.selectItems items
  | byId id => s.byId id
  | satisfying p => s.satisfying p
  | filtered fs => s.filtered fs
  | equalling column v => s.equalling column v
  | searching text columns => s.searching text columns
  | sortedBy c ascending => s.sortedBy c ascending
  | paged page => s.paged page

/-- What is left of a call when the values, or the text to search, that it passes are forgotten. -/
def shape : Call → Call
  | selectItems items => selectItems (items.map Expr.shape)
  | byId _ => byId .null
  | satisfying p => satisfying p.shape
  | filtered fs => filtered (fs.map Filter.shape)
  | equalling column _ => equalling column .null
  | searching _ columns => searching "" columns
  | c => c

end Call

def build (m : Model) (calls : List Call) : Selection :=
  calls.foldl Call.apply (ofModel m)

theorem shape_item (m : Model) (name : String) : (item m name).shape = item m name := by
  rw [item]
  split
  · rfl
  · split <;> rfl

theorem shape_apply (s : Selection) (c : Call) : (c.apply s).shape = c.shape.apply s.shape := by
  cases c with
  | select names =>
    have hitems : (names.map (item s.model)).map Expr.shape = names.map (item s.model) := by
      rw [List.map_map]
      exact List.map_congr_left fun name _ ↦ shape_item s.model name
    simp only [Call.apply, Call.shape, Selection.select, shape, Option.map_some, hitems]
  | satisfying p =>
    simp only [Call.apply, Call.shape, Selection.satisfying, shape, Option.map_some]
    cases s.condition <;> rfl
  | filtered fs =>
    simp only [Call.apply, Call.shape, Selection.filtered, shape, Option.map_some]
    cases s.filters <;> simp
  | equalling column v =>
    simp only [Call.apply, Call.shape, Selection.equalling, shape, columnsOf, List.map_append,
      List.map_singleton]
  | _ => rfl

theorem shape_build (m : Model) (calls : List Call) :
    (build m calls).shape = build m (calls.map Call.shape) := by
  rw [build, build, List.foldl_map]
  exact (List.foldl_hom shape fun s c ↦ (shape_apply s c).symm).symm

variable {s t : Selection}

theorem query_differs_in_binds (h : s.shape = t.shape) :
    DifferInBinds s.scalars t.scalars (.select <$> s.query) (.select <$> t.query) := by
  have hbinds (s : Selection) (u : Statement) (hu : Statement.select <$> s.query = .ok u) :
      u.binds = s.scalars := by
    obtain ⟨q, hq, rfl⟩ := map_eq_ok.mp hu
    exact (Statement.binds_eq _).trans (binds_query hq)
  exact .of_agree ((query_agree h).map fun _ _ ↦ congrArg _) (hbinds s) (hbinds t)

theorem countQuery_differs_in_binds (h : s.shape = t.shape) :
    DifferInBinds s.restrictingScalars t.restrictingScalars (.select <$> s.countQuery)
      (.select <$> t.countQuery) := by
  have hbinds (s : Selection) (u : Statement) (hu : Statement.select <$> s.countQuery = .ok u) :
      u.binds = s.restrictingScalars := by
    obtain ⟨q, hq, rfl⟩ := map_eq_ok.mp hu
    exact (Statement.binds_eq _).trans (binds_countQuery hq)
  exact .of_agree ((countQuery_agree h).map fun _ _ ↦ congrArg _) (hbinds s) (hbinds t)

end Selection

theorem columnsOf_eq_nil {row row' : List (String × Value)} (h : columnsOf row = columnsOf row') :
    row = [] ↔ row' = [] := by
  rw [← List.map_eq_nil_iff, ← columnsOf, h, columnsOf, List.map_eq_nil_iff]

namespace Insert

theorem ofRow_agree (table : String) {row row' : List (String × Value)}
    (h : columnsOf row = columnsOf row') : AgreeOn shape (ofRow table row) (ofRow table row') := by
  rw [ofRow, ofRow]
  by_cases hrow : row = []
  · rw [dif_pos hrow, dif_pos ((columnsOf_eq_nil h).mp hrow)]
    rfl
  · rw [dif_neg hrow, dif_neg (mt (columnsOf_eq_nil h).mpr hrow)]
    refine .pure ?_
    simp only [shape, h]

theorem differs_in_binds (table : String) {row row' : List (String × Value)}
    (h : columnsOf row = columnsOf row') :
    DifferInBinds (row.map Prod.snd) (row'.map Prod.snd) (.insert <$> ofRow table row)
      (.insert <$> ofRow table row') := by
  have hbinds (row : List (String × Value)) (s : Statement)
      (hs : Statement.insert <$> ofRow table row = .ok s) : s.binds = row.map Prod.snd := by
    obtain ⟨i, hi, rfl⟩ := map_eq_ok.mp hs
    rw [Statement.binds_eq]
    rw [ofRow] at hi
    split at hi
    · cases hi
    · obtain rfl := Except.ok.inj hi
      exact binds_fragment _
  exact .of_agree ((ofRow_agree table h).map fun _ _ ↦ congrArg _) (hbinds row) (hbinds row')

end Insert

namespace Update

variable {filter filter' : Option Predicate} {assignments assignments' : List (String × Value)}

theorem ofModel_agree (m : Model)
    (hfilter : filter.map Predicate.shape = filter'.map Predicate.shape)
    (h : columnsOf assignments = columnsOf assignments') :
    AgreeOn shape (ofModel m filter assignments) (ofModel m filter' assignments') := by
  refine .bind_self _ fun table ↦ ?_
  by_cases hrow : assignments = []
  · rw [dif_pos hrow, dif_pos ((columnsOf_eq_nil h).mp hrow)]
    rfl
  · rw [dif_neg hrow, dif_neg (mt (columnsOf_eq_nil h).mpr hrow)]
    refine .pure ?_
    simp only [shape, h, hfilter]

theorem differs_in_binds (m : Model)
    (hfilter : filter.map Predicate.shape = filter'.map Predicate.shape)
    (h : columnsOf assignments = columnsOf assignments') :
    DifferInBinds (assignments.map Prod.snd ++ filter.elim [] Predicate.parameters)
      (assignments'.map Prod.snd ++ filter'.elim [] Predicate.parameters)
      (.update <$> ofModel m filter assignments) (.update <$> ofModel m filter' assignments') := by
  have hbinds (filter : Option Predicate) (assignments : List (String × Value)) (s : Statement)
      (hs : Statement.update <$> ofModel m filter assignments = .ok s) :
      s.binds = assignments.map Prod.snd ++ filter.elim [] Predicate.parameters := by
    obtain ⟨u, hu, rfl⟩ := map_eq_ok.mp hs
    obtain ⟨table, -, hu⟩ := bind_eq_ok.mp hu
    rw [Statement.binds_eq]
    split at hu
    · cases hu
    · obtain rfl := Except.ok.inj hu
      exact binds_fragment _
  exact .of_agree ((ofModel_agree m hfilter h).map fun _ _ ↦ congrArg _) (hbinds filter assignments)
    (hbinds filter' assignments')

end Update

namespace LinkOp

def shape : LinkOp → LinkOp
  | link l => link { l with owner := .null, foreign := .null }
  | unlink l => unlink { l with owner := .null, foreign := .null }

theorem statement_shape (op : LinkOp) : op.shape.statement = op.statement.shape := by
  cases op <;> rfl

theorem differs_in_binds {op op' : LinkOp} (h : op.shape = op'.shape) :
    DifferInBinds [op.target.owner, op.target.foreign] [op'.target.owner, op'.target.foreign]
      (.ok op.statement) (.ok op'.statement) := by
  refine .of_agree (.pure ?_) (fun s hs ↦ ?_) fun t ht ↦ ?_
  · rw [← statement_shape, h, statement_shape]
  · exact Except.ok.inj hs ▸ op.binds_statement
  · exact Except.ok.inj ht ▸ op'.binds_statement

end LinkOp

open Selection in
/-- The values that callers pass are bound in the order of their placeholders and show nowhere else
in a statement, and whether there is a statement does not depend on them. -/
theorem values_only_bound :
    (∀ m calls calls', calls.map Call.shape = calls'.map Call.shape →
      DifferInBinds (build m calls).scalars (build m calls').scalars
        (.select <$> (build m calls).query) (.select <$> (build m calls').query) ∧
      DifferInBinds (build m calls).restrictingScalars (build m calls').restrictingScalars
        (.select <$> (build m calls).countQuery) (.select <$> (build m calls').countQuery)) ∧
    (∀ table row row', columnsOf row = columnsOf row' →
      DifferInBinds (row.map Prod.snd) (row'.map Prod.snd) (.insert <$> Insert.ofRow table row)
        (.insert <$> Insert.ofRow table row')) ∧
    (∀ m filter filter' assignments assignments',
      filter.map Predicate.shape = filter'.map Predicate.shape →
      columnsOf assignments = columnsOf assignments' →
      DifferInBinds (assignments.map Prod.snd ++ filter.elim [] Predicate.parameters)
        (assignments'.map Prod.snd ++ filter'.elim [] Predicate.parameters)
        (.update <$> Update.ofModel m filter assignments)
        (.update <$> Update.ofModel m filter' assignments')) ∧
    ∀ op op' : LinkOp, op.shape = op'.shape →
      DifferInBinds [op.target.owner, op.target.foreign] [op'.target.owner, op'.target.foreign]
        (.ok op.statement) (.ok op'.statement) := by
  refine ⟨fun m calls calls' h ↦ ?_, fun table _ _ ↦ Insert.differs_in_binds table,
    fun m _ _ _ _ ↦ Update.differs_in_binds m, fun _ _ ↦ LinkOp.differs_in_binds⟩
  have hshape : (build m calls).shape = (build m calls').shape := by
    rw [shape_build, shape_build, h]
  exact ⟨query_differs_in_binds hshape, countQuery_differs_in_binds hshape⟩

/-- A value that reads like SQL is bound like any other. -/
theorem values_only_bound_film :
    let film : Model := { name := "Film", table := some "film",
                          fields := [{ name := "film_id", kind := .integer, primaryKey := true },
                            { name := "title", kind := .string }],
                          relations := [.manyToMany "actors" "Actor" "film_actor" "actor_id"],
                          searchColumns := ["title"] }
    let calls (v : Value) (text : String) : List Selection.Call :=
      [.byId (.bigInt 7), .searching text none, .filtered [.any [.field "Film" "title" v false,
        .any [.manyToMany "Film" "actors" v]]]]
    let s := Selection.build film (calls (.bigInt 1) "Alien")
    let t := Selection.build film (calls (.text "1 OR 1 = 1") "'; --")
    (∃ q, s.query = .ok q) ∧
      s.scalars.length = 4 ∧
      DifferInBinds s.scalars t.scalars (.select <$> s.query) (.select <$> t.query) ∧
      DifferInBinds [.text "Alien"] [.null]
        (.insert <$> Insert.ofRow "film" [("title", .text "Alien")])
        (.insert <$> Insert.ofRow "film" [("title", .null)]) := by
  intro film calls s t
  have hquery : s.query.toOption.any (fun _ ↦ true) = true := by decide +kernel
  obtain ⟨q, hq, -⟩ := exists_eq_ok hquery
  obtain ⟨hselect, hinsert, -⟩ := values_only_bound
  have hcalls := hselect film (calls (.bigInt 1) "Alien") (calls (.text "1 OR 1 = 1") "'; --") rfl
  exact ⟨⟨q, hq⟩, rfl, hcalls.1, hinsert "film" [("title", .text "Alien")] [("title", .null)] rfl⟩

end RelMapper
