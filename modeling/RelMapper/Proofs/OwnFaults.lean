import RelMapper.Proofs.Selection.Restrictions
import RelMapper.Schema
import RelMapper.Session.Write
namespace RelMapper

/-- If `x` fails, then with a fault of its own, not with that of a statement. -/
def OwnFaults {α : Type} (x : Except Fault α) : Prop :=
  ∀ e, x = .error e → e.sql = none

namespace OwnFaults

variable {α β : Type} {x y : Except Fault α}

theorem ok (a : α) : OwnFaults (.ok a : Except Fault α) := nofun

theorem error {e : Fault} (h : e.sql = none) : OwnFaults (.error e : Except Fault α) := by
  intro e' heq
  cases heq
  exact h

theorem bind {f : α → Except Fault β} (hx : OwnFaults x) (hf : ∀ a, OwnFaults (f a)) :
    OwnFaults (x >>= f) := by
  cases x with
  | error e => exact error (hx e rfl)
  | ok a => exact hf a

theorem map (hx : OwnFaults x) (f : α → β) : OwnFaults (f <$> x) := by
  cases x with
  | error e => exact error (hx e rfl)
  | ok a => exact ok (f a)

theorem ite {c : Prop} [Decidable c] (hx : OwnFaults x) (hy : OwnFaults y) :
    OwnFaults (if c then x else y) := by
  split
  · exact hx
  · exact hy

theorem check {c : Prop} [Decidable c] {e : Fault} (h : e.sql = none) (hx : OwnFaults x) :
    OwnFaults (if c then throw e else x) :=
  ite (error h) hx

theorem mapM {f : α → Except Fault β} (hf : ∀ a, OwnFaults (f a)) (as : List α) :
    OwnFaults (as.mapM f) := by
  induction as with
  | nil => exact ok []
  | cons a as ih =>
    rw [List.mapM_cons]
    exact (hf a).bind fun b ↦ ih.bind fun bs ↦ ok (b :: bs)

theorem foldlM {f : β → α → Except Fault β} (hf : ∀ b a, OwnFaults (f b a)) (as : List α) (b : β) :
    OwnFaults (as.foldlM f b) := by
  induction as generalizing b with
  | nil => exact ok b
  | cons a as ih =>
    rw [List.foldlM_cons]
    exact (hf b a).bind ih

end OwnFaults

namespace Model

variable (m : Model)

theorem ownFaults_tableName : OwnFaults m.tableName := by
  rw [tableName]
  split
  · exact .ok _
  · exact .error rfl

theorem ownFaults_idField : OwnFaults m.idField := by
  rw [idField.eq_def]
  split
  · exact .ok _
  · exact .error rfl
  · exact .error rfl

theorem ownFaults_idName : OwnFaults m.idName :=
  m.ownFaults_idField.map Field.name

theorem ownFaults_relation (name : String) : OwnFaults (m.relation name) := by
  rw [relation]
  split
  · exact .ok _
  · exact .error rfl

theorem ownFaults_idIs (id : Value) : OwnFaults (m.idIs id) :=
  m.ownFaults_tableName.bind fun _ ↦ m.ownFaults_idName.bind fun _ ↦ .ok _

end Model

theorem Registry.ownFaults_get (r : Registry) (name : String) : OwnFaults (r.get name) := by
  rw [get]
  split
  · exact .ok _
  · exact .error rfl

theorem Predicate.ownFaults_concat (op : Connective) (ps : List Predicate) :
    OwnFaults (concat op ps) := by
  cases ps with
  | nil => exact .error rfl
  | cons p ps => exact .ok _

theorem Projection.ownFaults_ofItems (items : List Expr) : OwnFaults (ofItems items) := by
  rw [ofItems]
  split
  · exact .error rfl
  · exact .ok _

namespace Filter

variable (m : Model)

theorem ownFaults_checkScope (scope : String) : OwnFaults (checkScope scope m) :=
  .ite (.ok ()) (.error rfl)

theorem ownFaults_lowerField (scope name : String) (v : Value) (negated : Bool) :
    OwnFaults (lowerField m scope name v negated) := by
  refine m.ownFaults_tableName.bind fun table ↦ (ownFaults_checkScope m scope).bind fun _ ↦ ?_
  exact .ite (.error rfl) (.ok _)

theorem ownFaults_lowerManyToOne (scope relation : String) (v : Value) :
    OwnFaults (lowerManyToOne m scope relation v) := by
  refine m.ownFaults_tableName.bind fun table ↦ (ownFaults_checkScope m scope).bind fun _ ↦ ?_
  refine (m.ownFaults_relation relation).bind fun r ↦ ?_
  split
  · exact .ok _
  · exact .error rfl

theorem ownFaults_lowerManyToMany (scope relation : String) (v : Value) :
    OwnFaults (lowerManyToMany m scope relation v) := by
  refine (m.ownFaults_tableName.map _).bind fun _ ↦ (ownFaults_checkScope m scope).bind fun _ ↦ ?_
  refine (m.ownFaults_relation relation).bind fun r ↦ ?_
  split
  · exact .ok _
  · exact .error rfl

mutual

theorem ownFaults_predicate (f : Filter) : OwnFaults (f.predicate m) := by
  cases f with
  | field scope name v negated => exact ownFaults_lowerField m scope name v negated
  | manyToOne scope relation v => exact ownFaults_lowerManyToOne m scope relation v
  | manyToMany scope relation v => exact ownFaults_lowerManyToMany m scope relation v
  | any filters =>
    refine (m.ownFaults_tableName.map _).bind fun _ ↦ ?_
    refine (ownFaults_predicates filters).bind fun ps ↦ ?_
    exact Predicate.ownFaults_concat .or ps

theorem ownFaults_predicates (fs : List Filter) : OwnFaults (predicates m fs) := by
  cases fs with
  | nil => exact .ok []
  | cons f fs =>
    exact (ownFaults_predicate f).bind fun p ↦ (ownFaults_predicates fs).bind fun ps ↦ .ok _

end

end Filter

namespace Selection

variable (m : Model) (s : Selection)

theorem ownFaults_searchCondition (text : String) (columns : Option (List String)) :
    OwnFaults (searchCondition m text columns) := by
  refine m.ownFaults_tableName.bind fun table ↦ ?_
  exact .check rfl (Predicate.ownFaults_concat .or _)

theorem ownFaults_equality (e : String × Value) : OwnFaults (equality m e) := by
  refine m.ownFaults_tableName.bind fun table ↦ ?_
  exact .check rfl (.ok _)

theorem ownFaults_joinJunction (source : Source) (relation : String) :
    OwnFaults (joinJunction m source relation) := by
  refine m.ownFaults_tableName.bind fun table ↦ m.ownFaults_idName.bind fun id ↦ ?_
  exact (m.ownFaults_relation relation).bind fun r ↦ .ok _

theorem ownFaults_conditions : OwnFaults s.conditions := by
  refine (OwnFaults.mapM s.model.ownFaults_idIs _).bind fun byId ↦ ?_
  refine (OwnFaults.mapM (Filter.ownFaults_predicate s.model) _).bind fun byFilters ↦ ?_
  refine (OwnFaults.mapM (ownFaults_equality s.model) _).bind fun byEquality ↦ ?_
  refine (OwnFaults.mapM (fun x ↦ ?_) _).bind fun bySearch ↦ .ok _
  exact ownFaults_searchCondition s.model x.1 x.2

theorem ownFaults_source : OwnFaults s.source :=
  s.model.ownFaults_tableName.bind fun _ ↦ .foldlM (ownFaults_joinJunction s.model) _ _

theorem ownFaults_sourceAndFilter : OwnFaults s.sourceAndFilter := by
  rw [sourceAndFilter_eq]
  refine s.model.ownFaults_tableName.bind fun _ ↦ .check rfl ?_
  exact s.ownFaults_conditions.bind fun ps ↦ s.ownFaults_source.bind fun source ↦ .ok _

theorem ownFaults_query : OwnFaults s.query := by
  refine s.model.ownFaults_tableName.bind fun table ↦ ?_
  refine (Projection.ownFaults_ofItems _).bind fun projection ↦ ?_
  exact s.ownFaults_sourceAndFilter.bind fun r ↦ .ok _

theorem ownFaults_countQuery : OwnFaults s.countQuery := by
  refine s.model.ownFaults_tableName.bind fun table ↦ s.model.ownFaults_idName.bind fun id ↦ ?_
  refine (Projection.ownFaults_ofItems _).bind fun projection ↦ ?_
  exact s.ownFaults_sourceAndFilter.bind fun r ↦ .ok _

end Selection

namespace Entity

variable (e : Entity)

theorem ownFaults_set (field : String) (v : Value) : OwnFaults (e.set field v) := by
  rw [set]
  split
  · exact .ok _
  · exact .error rfl

theorem ownFaults_setLoaded (relation : String) (data : Loaded Entity) :
    OwnFaults (e.setLoaded relation data) := by
  rw [setLoaded]
  split
  · exact .ok _
  · exact .error rfl

theorem ownFaults_id : OwnFaults e.id := by
  refine e.model.ownFaults_idName.bind fun name ↦ ?_
  split
  · exact .ok _
  · exact .error rfl

end Entity

theorem RelatedColumns.ownFaults_read (c : RelatedColumns) (row : Row) :
    OwnFaults (c.read row) := by
  refine .ite (.ok none) (.map (.foldlM (fun e p ↦ ?_) _ _) _)
  exact e.ownFaults_set p.1 p.2

theorem Layout.ownFaults_read (l : Layout) (m : Model) (row : Row) : OwnFaults (l.read m row) := by
  refine .check rfl (.bind (.foldlM (fun e p ↦ e.ownFaults_set p.1 p.2) _ _) fun e ↦ ?_)
  refine .bind (.foldlM (fun e c ↦ ?_) _ _) fun e ↦ ?_
  · exact (c.ownFaults_read row).bind fun related ↦ e.ownFaults_setLoaded c.relation _
  · exact .foldlM (fun e c ↦ e.ownFaults_setLoaded c.relation _) _ _

namespace EntityQuery

variable (q : EntityQuery)

theorem ownFaults_read (row : Row) : OwnFaults (q.read row) :=
  q.layout.ownFaults_read q.model row

theorem ownFaults_readAll (rows : List Row) : OwnFaults (q.readAll rows) :=
  .mapM q.ownFaults_read rows

end EntityQuery

section Loading

variable (known : Registry) (m : Model) (r : Relation)

theorem CollectionTable.ownFaults_ofRelation : OwnFaults (ofRelation known m r) := by
  rw [ofRelation.eq_def]
  split
  · next back _ _ =>
    have howner : OwnFaults (back.elim m.idName .ok) := by
      cases back with
      | none => exact m.ownFaults_idName
      | some column => exact .ok column
    refine (known.ownFaults_get r.foreignModel).bind fun foreign ↦ howner.bind fun ownerColumn ↦ ?_
    exact foreign.ownFaults_tableName.bind fun table ↦ .ok _
  · exact m.ownFaults_idName.bind fun id ↦ .ok _
  · exact .error rfl

namespace Relation

theorem ownFaults_aggregateCall (a : Aggregation) (newName : Option String) :
    OwnFaults (r.aggregateCall known a newName) := by
  rw [aggregateCall]
  split
  · exact .ok _
  · refine (known.ownFaults_get r.foreignModel).bind fun foreign ↦ ?_
    exact foreign.ownFaults_tableName.bind fun table ↦ .ok _

theorem ownFaults_aggregateSource (c : CollectionTable) (a : Aggregation) :
    OwnFaults (r.aggregateSource known c a) := by
  rw [aggregateSource.eq_def]
  split
  · refine (known.ownFaults_get r.foreignModel).bind fun foreign ↦ ?_
    exact foreign.ownFaults_tableName.bind fun table ↦ foreign.ownFaults_idName.bind fun id ↦ .ok _
  · exact .ok _

theorem ownFaults_aggregateQuery (a : Aggregation) : OwnFaults (r.aggregateQuery known m a) := by
  refine (CollectionTable.ownFaults_ofRelation known m r).bind fun c ↦ ?_
  refine (ownFaults_aggregateCall known r a _).bind fun call ↦ ?_
  refine (Projection.ownFaults_ofItems _).bind fun projection ↦ ?_
  exact (ownFaults_aggregateSource known r c a).bind fun source ↦ .ok _

end Relation

variable (table : String) (o : FetchOptions)

theorem Draft.ownFaults_joinRelation (d : Draft) :
    OwnFaults (d.joinRelation known m table o r) := by
  rw [joinRelation]
  refine .ite (.ok d) ?_
  split
  · refine (known.ownFaults_get r.foreignModel).bind fun foreign ↦ ?_
    exact foreign.ownFaults_tableName.bind fun foreignTable ↦ .ok _
  · refine (r.ownFaults_aggregateQuery known m _).bind fun query ↦ ?_
    exact m.ownFaults_idName.bind fun id ↦ .ok _
  · exact .ok d

theorem FetchOptions.ownFaults_projection : OwnFaults (o.projection m) := by
  rw [projection]
  split
  · exact .ok _
  · exact .mapM (fun name ↦ .ite (.ok name) (.error rfl)) _

namespace EntityQuery

theorem ownFaults_followUpKeys : OwnFaults (followUpKeys m o) := by
  refine .bind (.mapM (fun r ↦ ?_) _) fun keys ↦ .ok _
  rw [followUpKey]
  split
  · exact .ok _
  · exact m.ownFaults_idName.map some

theorem ownFaults_primary (c : Config) (id : Option Value) :
    OwnFaults (primary known c m o id) := by
  refine m.ownFaults_tableName.bind fun table ↦ ?_
  refine (FetchOptions.ownFaults_projection m o).bind fun fields ↦ ?_
  refine (ownFaults_followUpKeys m o).bind fun keys ↦ ?_
  refine (Selection.ownFaults_query _).bind fun query ↦ ?_
  refine .bind (.foldlM (fun d r ↦ ?_) _ _) fun draft ↦ .ok _
  exact d.ownFaults_joinRelation known m r table o

end EntityQuery

theorem FollowUp.ownFaults_ofRelation (owner : Entity) (o : Option RelationOptions) :
    OwnFaults (ofRelation known owner r o) := by
  refine (known.ownFaults_get r.foreignModel).bind fun foreign ↦ ?_
  refine (foreign.ownFaults_tableName.map _).bind fun _ ↦ ?_
  split
  · refine foreign.ownFaults_tableName.bind fun table ↦ .ite (.ok _) ?_
    exact (Selection.ownFaults_query _).bind fun q ↦ .ok _
  · refine owner.ownFaults_id.bind fun id ↦ .ite (.ok _) ?_
    refine (CollectionTable.ownFaults_ofRelation known owner.model r).bind fun c ↦ ?_
    split
    · refine (r.ownFaults_aggregateCall known _ none).bind fun call ↦ ?_
      refine (Projection.ownFaults_ofItems _).bind fun projection ↦ ?_
      exact (r.ownFaults_aggregateSource known c _).bind fun source ↦ .ok _
    · refine (Selection.ownFaults_query _).bind fun q ↦ .bind ?_ fun joined ↦ .ok _
      rw [joinJunction]
      split
      · refine .ite (.ok q) (foreign.ownFaults_tableName.bind fun table ↦ ?_)
        exact foreign.ownFaults_idName.bind fun id ↦ .ok _
      · exact .ok q

namespace Query

theorem ownFaults_countOf : OwnFaults (countOf m o) :=
  Selection.ownFaults_countQuery _

theorem ownFaults_countRelated (owner : Entity) : OwnFaults (countRelated known owner r) := by
  refine (CollectionTable.ownFaults_ofRelation known owner.model r).bind fun c ↦ ?_
  refine owner.ownFaults_id.bind fun id ↦ ?_
  exact (Projection.ownFaults_ofItems _).bind fun projection ↦ .ok _

theorem ownFaults_linkedIds (junction foreignKey : String) (owner : Value) :
    OwnFaults (linkedIds m junction foreignKey owner) :=
  (Projection.ownFaults_ofItems _).bind fun _ ↦ m.ownFaults_idName.bind fun _ ↦ .ok _

theorem ownFaults_lookup (wanted field : String) (v : Value) :
    OwnFaults (lookup m wanted field v) := by
  refine m.ownFaults_tableName.bind fun table ↦ ?_
  exact .check rfl (.check rfl (Selection.ownFaults_query _))

end Query

end Loading

theorem Reading.ownFaults_ofView {α : Type} (name : String) (view : Value → Option α) (v : Value) :
    OwnFaults (ofView name view v) := by
  rw [ofView]
  cases view v with
  | none => exact .error rfl
  | some a => exact .ok a

theorem Reading.ownFaults_int64 (v : Value) : OwnFaults (int64.read v) := by
  rw [int64]
  dsimp only
  exact ownFaults_ofView "i64" _ v

theorem Session.ownFaults_countOfRow (row : Option Row) : OwnFaults (countOfRow row) := by
  cases row with
  | none => exact .ok 0
  | some row =>
    refine OwnFaults.map ?_ _
    rw [Row.getAs]
    split
    · exact Reading.ownFaults_int64 _
    · exact .error rfl

theorem Insert.ownFaults_ofRow (table : String) (row : List (String × Value)) :
    OwnFaults (ofRow table row) := by
  rw [ofRow]
  split
  · exact .error rfl
  · exact .ok _

theorem Session.ownFaults_columnUpdate (m : Model) (p : Predicate)
    (columns : List (String × Value)) : OwnFaults (columnUpdate m p columns) := by
  cases columns with
  | nil => exact .ok none
  | cons a columns => exact (m.ownFaults_tableName.bind fun table ↦ .ok _).map some

theorem Session.ownFaults_ownerId (loaded : Option Entity) : OwnFaults (ownerId loaded) := by
  cases loaded with
  | none => exact .ok none
  | some e => exact e.ownFaults_id.map _

theorem IdList.ownFaults_read (v : Value) : OwnFaults (read v) := by
  rw [read.eq_def]
  split
  · exact .ok _
  · exact .ok _
  · exact .ok _
  · exact .ok _
  · exact .ok _
  · exact .error rfl

theorem CreateTable.ownFaults_ofColumns (table : String) (columns : List ColumnDefinition)
    (foreignKeys : List ForeignKey) (ifNotExists : Bool) :
    OwnFaults (ofColumns table columns foreignKeys ifNotExists) := by
  rw [ofColumns]
  split
  · exact .error rfl
  · exact .ok _

theorem CreateTable.ownFaults_ofModel (ifNotExists : Bool) (m : Model) :
    OwnFaults (ofModel ifNotExists m) := by
  refine m.ownFaults_tableName.bind fun table ↦ (m.ownFaults_idField.map _).bind fun _ ↦ ?_
  refine .bind (.mapM (fun f ↦ ?_) _) fun foreignKeys ↦ ownFaults_ofColumns table _ _ ifNotExists
  rw [Field.constraint.eq_def]
  split
  · exact .ok _
  · exact .error rfl
  · exact .ok _

namespace Schema

theorem Junction.ownFaults_create (ifNotExists : Bool) (j : Junction) :
    OwnFaults (j.create ifNotExists) := by
  refine j.owner.ownFaults_idName.bind fun ownerKey ↦ ?_
  refine j.foreign.ownFaults_idName.bind fun foreignKey ↦ ?_
  refine .check rfl (j.owner.ownFaults_tableName.bind fun ownerTable ↦ ?_)
  exact j.foreign.ownFaults_tableName.bind fun table ↦ CreateTable.ownFaults_ofColumns _ _ _ _

theorem ownFaults_create (ifNotExists : Bool) (models : List Model) :
    OwnFaults (create ifNotExists models) := by
  refine .bind (.mapM (CreateTable.ownFaults_ofModel ifNotExists) _) fun tables ↦ .check rfl ?_
  exact .bind (.mapM (Junction.ownFaults_create ifNotExists) _) fun links ↦ .ok _

end Schema

end RelMapper
