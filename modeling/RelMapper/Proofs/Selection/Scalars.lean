import RelMapper.Links.Plan
import RelMapper.Proofs.Selection.Restrictions
import RelMapper.Proofs.Sql.Shape
namespace RelMapper

namespace Predicate

theorem shape_foldl (op : Connective) (ps : List Predicate) (p : Predicate) :
    (ps.foldl (combine op) p).shape = (ps.map shape).foldl (combine op) p.shape := by
  induction ps generalizing p with
  | nil => rfl
  | cons q ps ih => exact ih (combine op p q)

theorem parameters_foldl (op : Connective) (ps : List Predicate) (p : Predicate) :
    (ps.foldl (combine op) p).parameters = p.parameters ++ ps.flatMap parameters := by
  induction ps generalizing p with
  | nil => exact (List.append_nil _).symm
  | cons q ps ih => rw [List.foldl_cons, ih, parameters, List.flatMap_cons, List.append_assoc]

theorem concat_shape (op : Connective) (ps : List Predicate) :
    concat op (ps.map shape) = shape <$> concat op ps := by
  cases ps with
  | nil => rfl
  | cons p ps => exact congrArg Except.ok (shape_foldl op ps p).symm

theorem parameters_concat {op : Connective} {ps : List Predicate} {p : Predicate}
    (h : concat op ps = .ok p) : p.parameters = ps.flatMap parameters := by
  cases ps with
  | nil => cases h
  | cons q ps =>
    obtain rfl := Except.ok.inj h
    exact parameters_foldl op ps q

theorem conjunction_shape (ps : List Predicate) :
    (conjunction ps).map shape = conjunction (ps.map shape) := by
  cases ps with
  | nil => rfl
  | cons p ps => exact congrArg some (shape_foldl .and ps p)

theorem parameters_conjunction (ps : List Predicate) :
    (conjunction ps).elim [] parameters = ps.flatMap parameters := by
  cases ps with
  | nil => rfl
  | cons p ps => exact parameters_foldl .and ps p

end Predicate

namespace Filter

mutual

def shape : Filter → Filter
  | field model name _ negated => field model name .null negated
  | manyToOne model relation _ => manyToOne model relation .null
  | manyToMany model relation _ => manyToMany model relation .null
  | any filters => any (shapes filters)

def shapes : List Filter → List Filter
  | [] => []
  | f :: fs => f.shape :: shapes fs

end

mutual

def values : Filter → List Value
  | field _ _ v _ => [v]
  | manyToOne _ _ v => [v]
  | manyToMany _ _ v => [v]
  | any filters => valuesOfAll filters

def valuesOfAll : List Filter → List Value
  | [] => []
  | f :: fs => f.values ++ valuesOfAll fs

end

mutual

theorem relations_shape (f : Filter) : f.shape.relations = f.relations := by
  cases f with
  | any filters => exact relationsOfAll_shapes filters
  | _ => rfl

theorem relationsOfAll_shapes (fs : List Filter) :
    relationsOfAll (shapes fs) = relationsOfAll fs := by
  cases fs with
  | nil => rfl
  | cons f fs =>
    rw [shapes, relationsOfAll, relationsOfAll, relations_shape f, relationsOfAll_shapes fs]

end

theorem lowerField_shape (m : Model) (scope name : String) (v : Value) (negated : Bool) :
    lowerField m scope name .null negated =
      Predicate.shape <$> lowerField m scope name v negated := by
  simp only [lowerField, map_bind]
  refine bind_congr fun table ↦ bind_congr fun _ ↦ ?_
  cases m.hasField name <;> cases negated <;> rfl

theorem lowerManyToOne_shape (m : Model) (scope relation : String) (v : Value) :
    lowerManyToOne m scope relation .null =
      Predicate.shape <$> lowerManyToOne m scope relation v := by
  simp only [lowerManyToOne, map_bind]
  refine bind_congr fun table ↦ bind_congr fun _ ↦ bind_congr fun r ↦ ?_
  cases r.kind <;> rfl

theorem lowerManyToMany_shape (m : Model) (scope relation : String) (v : Value) :
    lowerManyToMany m scope relation .null =
      Predicate.shape <$> lowerManyToMany m scope relation v := by
  simp only [lowerManyToMany, map_bind]
  refine bind_congr fun _ ↦ bind_congr fun _ ↦ bind_congr fun r ↦ ?_
  cases r.kind <;> rfl

theorem parameters_lowerField {m : Model} {scope name : String} {v : Value} {negated : Bool}
    {p : Predicate} (h : lowerField m scope name v negated = .ok p) : p.parameters = [v] := by
  obtain ⟨table, -, h⟩ := bind_eq_ok.mp h
  obtain ⟨_, -, h⟩ := bind_eq_ok.mp h
  dsimp only at h
  split at h
  · cases h
  · obtain rfl := pure_eq_ok.mp h
    cases negated <;> rfl

theorem parameters_lowerManyToOne {m : Model} {scope relation : String} {v : Value} {p : Predicate}
    (h : lowerManyToOne m scope relation v = .ok p) : p.parameters = [v] := by
  obtain ⟨table, -, h⟩ := bind_eq_ok.mp h
  obtain ⟨_, -, h⟩ := bind_eq_ok.mp h
  obtain ⟨r, -, h⟩ := bind_eq_ok.mp h
  split at h
  · obtain rfl := pure_eq_ok.mp h
    rfl
  · cases h

theorem parameters_lowerManyToMany {m : Model} {scope relation : String} {v : Value} {p : Predicate}
    (h : lowerManyToMany m scope relation v = .ok p) : p.parameters = [v] := by
  obtain ⟨_, -, h⟩ := bind_eq_ok.mp h
  obtain ⟨_, -, h⟩ := bind_eq_ok.mp h
  obtain ⟨r, -, h⟩ := bind_eq_ok.mp h
  split at h
  · obtain rfl := pure_eq_ok.mp h
    rfl
  · cases h

variable (m : Model)

mutual

theorem predicate_shape (f : Filter) :
    f.shape.predicate m = Predicate.shape <$> f.predicate m := by
  cases f with
  | field scope name v negated => exact lowerField_shape m scope name v negated
  | manyToOne scope relation v => exact lowerManyToOne_shape m scope relation v
  | manyToMany scope relation v => exact lowerManyToMany_shape m scope relation v
  | any filters =>
    rw [shape, predicate, predicate, predicates_shapes filters]
    cases m.tableName with
    | error e => rfl
    | ok table =>
    cases predicates m filters with
    | error e => rfl
    | ok ps => exact Predicate.concat_shape .or ps

theorem predicates_shapes (fs : List Filter) :
    predicates m (shapes fs) = List.map Predicate.shape <$> predicates m fs := by
  cases fs with
  | nil => rfl
  | cons f fs =>
    rw [shapes, predicates, predicates, predicate_shape f, predicates_shapes fs]
    cases f.predicate m with
    | error e => rfl
    | ok p => cases predicates m fs <;> rfl

end

mutual

theorem parameters_predicate (f : Filter) {p : Predicate} (h : f.predicate m = .ok p) :
    p.parameters = f.values := by
  cases f with
  | field scope name v negated => exact parameters_lowerField h
  | manyToOne scope relation v => exact parameters_lowerManyToOne h
  | manyToMany scope relation v => exact parameters_lowerManyToMany h
  | any filters =>
    obtain ⟨_, -, h⟩ := bind_eq_ok.mp h
    obtain ⟨ps, hps, h⟩ := bind_eq_ok.mp h
    exact (Predicate.parameters_concat h).trans (parameters_predicates filters hps)

theorem parameters_predicates (fs : List Filter) {ps : List Predicate}
    (h : predicates m fs = .ok ps) : ps.flatMap Predicate.parameters = valuesOfAll fs := by
  cases fs with
  | nil =>
    obtain rfl := Except.ok.inj h
    rfl
  | cons f fs =>
    obtain ⟨p, hp, h⟩ := bind_eq_ok.mp h
    obtain ⟨ps, hps, h⟩ := bind_eq_ok.mp h
    obtain rfl := pure_eq_ok.mp h
    rw [List.flatMap_cons, parameters_predicate f hp, parameters_predicates fs hps, valuesOfAll]

end

end Filter

namespace Projection

theorem parameters_ofItems {items : List Expr} {p : Projection} (h : ofItems items = .ok p) :
    p.items.flatMap Expr.parameters = items.flatMap Expr.parameters := by
  rw [items_ofItems h]
  clear h
  induction items with
  | nil => rfl
  | cons e items ih =>
    rw [List.flatMap_cons, ← ih]
    cases hblank : e.isBlank with
    | false => rw [List.filter_cons_of_pos (by rw [hblank]; rfl), List.flatMap_cons]
    | true =>
      have hnone : e.parameters = [] := by
        cases e with
        | bound v => cases hblank
        | call function args newName => cases hblank
        | _ => rfl
      rw [List.filter_cons_of_neg (by simp [hblank]), hnone, List.nil_append]

theorem ofItems_agree {items items' : List Expr}
    (h : items.map Expr.shape = items'.map Expr.shape) :
    AgreeOn shape (ofItems items) (ofItems items') := by
  have hkept (items : List Expr) : (items.map Expr.shape).filter (fun e ↦ !e.isBlank) =
      (items.filter fun e ↦ !e.isBlank).map Expr.shape := by
    rw [List.filter_map]
    simp only [Function.comp_def, Expr.isBlank_shape]
  have hsame := congrArg (List.filter fun e ↦ !e.isBlank) h
  rw [hkept, hkept] at hsame
  have hnil := congrArg (· = []) hsame
  simp only [List.map_eq_nil_iff] at hnil
  rw [ofItems, ofItems]
  by_cases hempty : (items.filter fun e ↦ !e.isBlank) = []
  · rw [dif_pos hempty, dif_pos (hnil.mp hempty)]
    rfl
  · rw [dif_neg hempty, dif_neg (mt hnil.mpr hempty)]
    refine .pure ?_
    simp only [shape, hsame]

end Projection

namespace Selection

def shape (s : Selection) : Selection :=
  { s with
    projection := s.projection.map (List.map Expr.shape)
    id := s.id.map fun _ ↦ .null
    condition := s.condition.map Predicate.shape
    filters := s.filters.map (List.map Filter.shape)
    equals := columnsOf s.equals
    search := s.search.map fun (_, columns) ↦ ("", columns) }

/-- The values by which rows are restricted, in the order of the query's text. A searched text is
compared to every column that is searched. -/
def restrictingScalars (s : Selection) : List Value :=
  s.id.toList ++ s.condition.elim [] Predicate.parameters ++
    (s.filters.getD []).flatMap Filter.values ++ s.equals.map Prod.snd ++
    s.search.elim [] fun (text, columns) ↦
      (columns.getD s.model.searchColumns).map fun _ ↦ .text ("%" ++ text ++ "%")

def scalars (s : Selection) : List Value :=
  s.projection.elim [] (List.flatMap Expr.parameters) ++ s.restrictingScalars

theorem idIs_shape (m : Model) (v : Value) : m.idIs .null = Predicate.shape <$> m.idIs v := by
  simp only [Model.idIs, map_bind]
  exact bind_congr fun table ↦ bind_congr fun name ↦ rfl

theorem equality_shape (m : Model) (e : String × Value) :
    equality m (e.1, .null) = Predicate.shape <$> equality m e := by
  simp only [equality, map_bind]
  refine bind_congr fun table ↦ ?_
  cases (Column.ofText e.1).table.isNone && !m.hasField (Column.ofText e.1).name <;> rfl

theorem searchCondition_agree (m : Model) (text text' : String) (columns : Option (List String)) :
    AgreeOn Predicate.shape (searchCondition m text columns) (searchCondition m text' columns) := by
  refine .bind_self _ fun table ↦ ?_
  generalize columns.getD m.searchColumns = columns
  cases columns with
  | nil => rfl
  | cons c columns =>
    have hsame (text : String) : ((c :: columns).map fun c ↦ Predicate.like
        (.column ((Column.ofText c).orTable table)) (.bound (.text ("%" ++ text ++ "%")))).map
        Predicate.shape = (c :: columns).map fun c ↦ Predicate.like
          (.column ((Column.ofText c).orTable table)) (.bound .null) := by
      rw [List.map_map]
      rfl
    exact AgreeOn.of_map_eq (Predicate.concat_shape .or) ((hsame text).trans (hsame text').symm)

variable {s t : Selection}

theorem map_toList {α β : Type} {f : α → β} {o o' : Option α} (h : o.map f = o'.map f) :
    o.toList.map f = o'.toList.map f := by
  rw [← Option.toList_map, ← Option.toList_map, h]

theorem map_getD {α β : Type} {f : α → β} {o o' : Option (List α)}
    (h : o.map (List.map f) = o'.map (List.map f)) (as : List α) :
    (o.getD as).map f = (o'.getD as).map f := by
  rw [← Option.getD_map (List.map f), ← Option.getD_map (List.map f), h]

theorem modes_eq (h : s.shape = t.shape) : s.modes = t.modes := by
  have hmodes (s : Selection) : s.shape.modes = s.modes := by
    simp [modes, shape, columnsOf]
  rw [← hmodes s, h, hmodes]

theorem conditions_agree (h : s.shape = t.shape) :
    AgreeOn (List.map Predicate.shape) s.conditions t.conditions := by
  have hm : s.model = t.model := (congrArg model h :)
  have hcondition : s.condition.toList.map Predicate.shape =
      t.condition.toList.map Predicate.shape := map_toList (congrArg condition h :)
  have hid : AgreeOn (List.map Predicate.shape) (s.id.toList.mapM t.model.idIs)
      (t.id.toList.mapM t.model.idIs) :=
    .mapM (fun _ _ ↦ .of_map_eq (idIs_shape t.model)) (map_toList (congrArg id h :))
  have hfilters : AgreeOn (List.map Predicate.shape)
      ((s.filters.getD []).mapM (Filter.predicate t.model))
      ((t.filters.getD []).mapM (Filter.predicate t.model)) :=
    .mapM (fun _ _ ↦ .of_map_eq (Filter.predicate_shape t.model))
      (map_getD (congrArg filters h :) [])
  have hequals : AgreeOn (List.map Predicate.shape) (s.equals.mapM (equality t.model))
      (t.equals.mapM (equality t.model)) :=
    .mapM (fun _ _ ↦ .of_map_eq (equality_shape t.model)) (congrArg equals h :)
  have hsearch : AgreeOn (List.map Predicate.shape)
      (s.search.toList.mapM fun (text, columns) ↦ searchCondition t.model text columns)
      (t.search.toList.mapM fun (text, columns) ↦ searchCondition t.model text columns) := by
    refine .mapM (fun (text, columns) (text', columns') hsame ↦ ?_)
      (map_toList (congrArg search h :))
    obtain rfl : columns = columns' := (Prod.ext_iff.mp hsame).2
    exact searchCondition_agree t.model text text' columns
  rw [conditions, conditions, hm]
  refine hid.bind fun ps ps' hps ↦ hfilters.bind fun qs qs' hqs ↦ hequals.bind fun rs rs' hrs ↦
    hsearch.bind fun us us' hus ↦ .pure ?_
  simp only [List.map_append, hcondition, hps, hqs, hrs, hus]

theorem touched_shape (m : Model) (p : Predicate) : touched m p.shape = touched m p := by
  rw [touched, touched, Predicate.columns_shape]

theorem joinedRelations_shape (s : Selection) : s.shape.joinedRelations = s.joinedRelations := by
  have hfilters : (s.shape.filters.getD []).flatMap Filter.relations =
      (s.filters.getD []).flatMap Filter.relations := by
    rw [shape]
    cases s.filters with
    | none => rfl
    | some fs =>
      rw [Option.map_some, Option.getD_some, Option.getD_some, List.flatMap_map]
      exact congrArg (fs.flatMap ·) (funext Filter.relations_shape)
  have hcondition : s.shape.condition.elim [] (touched s.shape.model) =
      s.condition.elim [] (touched s.model) := by
    rw [shape]
    cases s.condition with
    | none => rfl
    | some p => exact touched_shape s.model p
  rw [joinedRelations, joinedRelations, hfilters, hcondition]

theorem source_agree (h : s.shape = t.shape) : s.source = t.source := by
  have hm : s.model = t.model := (congrArg model h :)
  rw [source, source, ← joinedRelations_shape, h, joinedRelations_shape, hm]

theorem sourceAndFilter_agree (h : s.shape = t.shape) :
    AgreeOn (fun r ↦ (r.1, r.2.map Predicate.shape)) s.sourceAndFilter t.sourceAndFilter := by
  have hm : s.model = t.model := (congrArg model h :)
  rw [sourceAndFilter_eq, sourceAndFilter_eq, modes_eq h, source_agree h, hm]
  refine .bind_self _ fun table ↦ ?_
  split
  · rfl
  · refine (conditions_agree h).bind fun ps qs hpq ↦ .bind_self _ fun source ↦ .pure ?_
    rw [Predicate.conjunction_shape, Predicate.conjunction_shape, hpq]

theorem query_agree (h : s.shape = t.shape) : AgreeOn Query.shape s.query t.query := by
  have hm : s.model = t.model := (congrArg model h :)
  have horder : s.orderBy = t.orderBy := (congrArg orderBy h :)
  have hpage : s.page = t.page := (congrArg page h :)
  rw [query, query, hm, horder, hpage]
  refine .bind_self _ fun table ↦ ?_
  have hitems : (s.projection.getD (t.model.fields.map fun f ↦
      Expr.column (.qualified table f.name))).map Expr.shape =
      (t.projection.getD (t.model.fields.map fun f ↦
        Expr.column (.qualified table f.name))).map Expr.shape :=
    map_getD (congrArg projection h :) _
  refine (Projection.ofItems_agree hitems).bind fun p q hpq ↦
    (sourceAndFilter_agree h).bind fun (source, filter) (source', filter') hread ↦ .pure ?_
  obtain ⟨rfl, hfilter⟩ := Prod.ext_iff.mp hread
  have hfilter : filter.map Predicate.shape = filter'.map Predicate.shape := hfilter
  simp only [Query.shape, hpq, hfilter]

theorem countQuery_agree (h : s.shape = t.shape) :
    AgreeOn Query.shape s.countQuery t.countQuery := by
  have hm : s.model = t.model := (congrArg model h :)
  rw [countQuery, countQuery, hm]
  refine .bind_self _ fun table ↦ .bind_self _ fun id ↦ .bind_self _ fun projection ↦
    (sourceAndFilter_agree h).bind fun (source, filter) (source', filter') hread ↦ .pure ?_
  obtain ⟨rfl, hfilter⟩ := Prod.ext_iff.mp hread
  have hfilter : filter.map Predicate.shape = filter'.map Predicate.shape := hfilter
  simp only [Query.shape, hfilter]

theorem parameters_idIs {m : Model} {v : Value} {p : Predicate} (h : m.idIs v = .ok p) :
    p.parameters = [v] := by
  obtain ⟨table, -, h⟩ := bind_eq_ok.mp h
  obtain ⟨name, -, h⟩ := bind_eq_ok.mp h
  obtain rfl := pure_eq_ok.mp h
  rfl

theorem parameters_equality {m : Model} {e : String × Value} {p : Predicate}
    (h : equality m e = .ok p) : p.parameters = [e.2] := by
  obtain ⟨table, -, h⟩ := bind_eq_ok.mp h
  dsimp only at h
  split at h
  · cases h
  · obtain rfl := pure_eq_ok.mp h
    rfl

theorem parameters_searchCondition {m : Model} {text : String} {columns : Option (List String)}
    {p : Predicate} (h : searchCondition m text columns = .ok p) :
    p.parameters = (columns.getD m.searchColumns).map fun _ ↦ .text ("%" ++ text ++ "%") := by
  obtain ⟨table, -, h⟩ := bind_eq_ok.mp h
  dsimp only at h
  split at h
  · cases h
  · rw [Predicate.parameters_concat h, List.flatMap_map]
    exact List.map_eq_flatMap.symm

theorem parameters_conditions {ps : List Predicate} (h : s.conditions = .ok ps) :
    ps.flatMap Predicate.parameters = s.restrictingScalars := by
  obtain ⟨byId, hid, h⟩ := bind_eq_ok.mp h
  obtain ⟨byFilters, hfilters, h⟩ := bind_eq_ok.mp h
  obtain ⟨byEquality, hequality, h⟩ := bind_eq_ok.mp h
  obtain ⟨bySearch, hsearch, h⟩ := bind_eq_ok.mp h
  obtain rfl := pure_eq_ok.mp h
  have hcondition : s.condition.toList.flatMap Predicate.parameters =
      s.condition.elim [] Predicate.parameters := by
    cases s.condition <;> simp
  have hsearch : bySearch.flatMap Predicate.parameters =
      s.search.elim [] fun (text, columns) ↦
        (columns.getD s.model.searchColumns).map fun _ ↦ .text ("%" ++ text ++ "%") := by
    rw [flatMap_of_mapM (fun _ _ ↦ parameters_searchCondition) hsearch]
    cases s.search <;> simp
  rw [List.flatMap_append, List.flatMap_append, List.flatMap_append, List.flatMap_append,
    flatMap_of_mapM (fun _ _ ↦ parameters_idIs) hid, hcondition,
    flatMap_of_mapM (fun f _ ↦ Filter.parameters_predicate s.model f) hfilters,
    flatMap_of_mapM (fun _ _ ↦ parameters_equality) hequality, hsearch, ← List.map_eq_flatMap,
    ← List.map_eq_flatMap, List.map_id']
  rfl

theorem binds_joinLines (junctions : List String) (table id : String) :
    (joinLines (junctions.map fun j ↦ .ofJunction j id table id)).flatMap Fragment.binds = [] := by
  induction junctions with
  | nil => rfl
  | cons j junctions ih => exact ih

theorem binds_clauses (filter : Option Predicate) {orderBy : Option SortKey} (page : Option Page)
    (horder : ∀ k, orderBy = some k → k.expr.parameters = []) :
    (Query.clauses filter none none orderBy page).flatMap Fragment.binds =
      filter.elim [] Predicate.parameters := by
  have hfilter : (filter.toList.map Clause.whereLine).flatMap Fragment.binds =
      filter.elim [] Predicate.parameters := by
    cases filter with
    | none => rfl
    | some p => simp [Clause.whereLine, Predicate.binds_fragment]
  have hsort : (orderBy.toList.map SortKey.fragment).flatMap Fragment.binds = [] := by
    cases orderBy with
    | none => rfl
    | some k => simp [SortKey.fragment, Expr.binds_fragment, horder k rfl]
  have hpage : (page.toList.map Page.fragment).flatMap Fragment.binds = [] := by
    cases page <;> rfl
  rw [Query.clauses, List.flatMap_append, List.flatMap_append, List.flatMap_append,
    List.flatMap_append, hfilter, hsort, hpage]
  simp

theorem binds_of_sourceAndFilter {projection : Projection} {source : Source}
    {filter : Option Predicate} {orderBy : Option SortKey} (page : Option Page)
    (h : s.sourceAndFilter = .ok (source, filter))
    (horder : ∀ k, orderBy = some k → k.expr.parameters = []) :
    (Query.fragment { projection, source, filter, orderBy, page }).binds =
      projection.items.flatMap Expr.parameters ++ s.restrictingScalars := by
  obtain ⟨-, source', ps, hsource, hps, hread⟩ := sourceAndFilter_eq_ok.mp h
  cases hread
  obtain ⟨table, id, -, -, rfl⟩ := source_eq_ok hsource
  have htables : Fragment.binds (.text "FROM " :: Fragment.lines (Source.lines
      ⟨.table { name := table }, s.junctions.map fun j ↦ .ofJunction j id table id⟩)) = [] := by
    rw [Fragment.binds_text, Fragment.binds_lines, Source.lines, List.flatMap_cons,
      binds_joinLines]
    rfl
  rw [Query.fragment, Nesting.enclose, Fragment.binds_lines, List.flatMap_cons, List.flatMap_cons,
    Projection.binds_fragment, htables, binds_clauses _ page horder,
    Predicate.parameters_conjunction, parameters_conditions hps, List.nil_append]

theorem binds_query {q : Query} (h : s.query = .ok q) : q.fragment.binds = s.scalars := by
  obtain ⟨table, projection, source, filter, -, hprojection, hread, rfl⟩ := query_eq_ok h
  have hitems : projection.items.flatMap Expr.parameters =
      s.projection.elim [] (List.flatMap Expr.parameters) := by
    rw [Projection.parameters_ofItems hprojection]
    cases s.projection with
    | none =>
      rw [Option.getD_none, List.flatMap_map]
      exact List.flatMap_eq_nil_iff.mpr fun _ _ ↦ rfl
    | some items => rfl
  rw [binds_of_sourceAndFilter s.page hread fun k hk ↦ ?_, hitems, scalars]
  obtain ⟨⟨c, ascending⟩, -, rfl⟩ := Option.map_eq_some_iff.mp hk
  rfl

theorem binds_countQuery {q : Query} (h : s.countQuery = .ok q) :
    q.fragment.binds = s.restrictingScalars := by
  obtain ⟨table, id, projection, source, filter, -, -, hprojection, hread, rfl⟩ :=
    countQuery_eq_ok h
  have horder : ∀ k : SortKey, none = some k → k.expr.parameters = [] := nofun
  rw [binds_of_sourceAndFilter none hread horder, Projection.parameters_ofItems hprojection]
  rfl

end Selection

end RelMapper
