import RelMapper.Proofs.Loading.Collections
import RelMapper.Proofs.Loading.FollowUps
import RelMapper.Proofs.Loading.JoinedRows
namespace RelMapper

def Model.entityOf (m : Model) (f : Record) : Entity :=
  { Entity.ofModel m with
    fields := Slots.putAll (m.fieldNames.zip (m.fieldNames.map f)) (Entity.ofModel m).fields }

def Content.rowsWith (content : Content) (table column : String) (v : Value) : List Record :=
  (content.table table).filter fun f ↦ (f column).equals v

namespace Content

variable {content : Content} {table column : String} {v : Value} {f : Record}

theorem length_rowsWith_le_one (hkey : IsKey column (content.table table)) (v : Value) :
    (content.rowsWith table column v).length ≤ 1 :=
  hkey.length_filter_le_one fun _ ↦ id

theorem rowsWith_eq_singleton (hkey : IsKey column (content.table table))
    (hf : f ∈ content.table table) (hv : (f column).equals v = true) :
    content.rowsWith table column v = [f] := by
  have hmem : f ∈ content.rowsWith table column v := List.mem_filter.mpr ⟨hf, hv⟩
  have hone := length_rowsWith_le_one hkey v
  match hrows : content.rowsWith table column v with
  | [] => rw [hrows] at hmem; cases hmem
  | [g] => rw [hrows] at hmem; rw [List.mem_singleton.mp hmem]
  | g :: h :: rest => rw [hrows] at hone; simp at hone

theorem rowsWith_eq_nil (h : ∀ f ∈ content.table table, (f column).equals v = false) :
    content.rowsWith table column v = [] :=
  List.filter_eq_nil_iff.mpr fun f hf ↦ Bool.eq_false_iff.mp (h f hf)

theorem rowsWith_of_isNull (h : v.isNull = true) : content.rowsWith table column v = [] :=
  rowsWith_eq_nil fun _ _ ↦ Bool.eq_false_iff.mpr fun hequals ↦
    Bool.eq_false_iff.mp (Value.equals_iff.mp hequals).2.1 h

end Content

namespace RelatedColumns

variable {c : RelatedColumns} {row : Row}

theorem values_of_leading {vs : List Value} (hleading : vs <+: row.drop c.start)
    (hlength : vs.length = c.model.fields.length) : c.values row = vs := by
  have hsame : (c.values row).length = vs.length := by simp [values, hlength]
  refine List.ext_getElem hsame fun i hi hi' ↦ ?_
  have hvalue : (c.values row)[i]? = some vs[i] := by
    refine values_getElem? (hlength ▸ hi') ?_
    rw [← List.getElem?_drop]
    exact List.prefix_iff_getElem?.mp hleading i hi'
  exact (List.getElem?_eq_some_iff.mp hvalue).2

theorem entity?_of_values {f : Record} (h : c.values row = c.model.fieldNames.map f)
    {field : String} (hfield : field ∈ c.model.fieldNames) (hnull : (f field).isNull = false) :
    c.entity? row = some (c.model.entityOf f) := by
  have hsome : ¬(c.values row).all Value.isNull = true := by
    rw [h, List.all_map, List.all_eq_true]
    intro hall
    exact Bool.eq_false_iff.mp hnull (hall field hfield)
  rw [entity?, if_neg hsome, h]
  rfl

end RelatedColumns

namespace EntityQuery

variable {known : Registry} {c : Config} {m foreign : Model} {o : FetchOptions}
variable {id : Option Value} {q : EntityQuery} {r : Relation}
variable {foreignKey foreignColumn : String} {lookupColumn : Option String} {loadAll : Bool}

/-- What comes along with an owner's row is the foreign row with the owner's foreign key. -/
theorem entity?_of_row (hq : primary known c m o id = .ok q) (hr : r ∈ m.relations)
    (halong : r.comesAlong o = true)
    (hkind : r.kind = .manyToOne foreignKey foreignColumn lookupColumn loadAll)
    (hforeign : known.get r.foreignModel = .ok foreign) (hnonempty : "" ∉ foreign.fieldNames)
    (hcolumn : foreignColumn ∈ foreign.fieldNames)
    (hnames : q.query.source.visibleNames.Nodup) :
    ∃ table foreignTable start, m.tableName = .ok table ∧ foreign.tableName = .ok foreignTable ∧
      ⟨r.name, foreign, start⟩ ∈ q.layout.related ∧
      ∀ content dialect, IsKey foreignColumn (content.table foreignTable) →
        ∀ s ∈ q.query.scopes content dialect, ∃ own ∈ content.table table,
          s.get? table = some own ∧
          (⟨r.name, foreign, start⟩ : RelatedColumns).entity?
              (q.query.projection.items.map (dialect.valueOf s)) =
            (content.rowsWith foreignTable foreignColumn (own foreignKey)).head?.map
              foreign.entityOf := by
  obtain ⟨table, fields, keys, query, d, htable, -, -, -, -, hd, rfl⟩ := exists_draft hq
  obtain ⟨foreign', foreignTable, newName, start, hforeign', hforeignTable, hc, hj, hitems⟩ :=
    Draft.exists_related hr halong hkind hd
  obtain rfl := Except.ok.inj (hforeign.symm.trans hforeign')
  refine ⟨table, foreignTable, start, htable, hforeignTable, hc, fun content dialect hkey s hs ↦ ?_⟩
  obtain ⟨own, hown, hget, hjoined⟩ := joined_row hq htable hnames hj (.inl rfl) hs
  refine ⟨own, hown, hget, ?_⟩
  let columns : RelatedColumns := ⟨r.name, foreign, start⟩
  -- The slice shows what stands under the joined name: the foreign row, or nulls if there is none.
  have hvalues (f : Record)
      (hf : ∀ field, dialect.valueOf s (.column (.qualified (newName.getD foreignTable) field)) =
        f field) :
      columns.values (d.query.projection.items.map (dialect.valueOf s)) =
        columns.model.fieldNames.map f := by
    have hblank := Draft.isBlank_qualified hnonempty (newName.getD foreignTable)
    rw [List.filter_eq_self.mpr fun e he ↦ by rw [hblank e he]; rfl] at hitems
    have hleading := hitems.map (dialect.valueOf s)
    rw [List.map_map, List.map_drop] at hleading
    refine RelatedColumns.values_of_leading ?_ (by simp [Model.fieldNames])
    rwa [← List.map_congr_left fun field _ ↦ hf field]
  obtain ⟨f, hf, hshown, hequals⟩ | ⟨hleft, hnone⟩ := hjoined
  · rw [content.rowsWith_eq_singleton hkey hf hequals]
    refine RelatedColumns.entity?_of_values (hvalues f fun field ↦ ?_) hcolumn
      (Value.equals_iff.mp hequals).1
    rw [dialect.valueOf_qualified]
    exact congrArg (Option.elim · .null (· field)) hshown
  · rw [content.rowsWith_eq_nil hnone]
    refine columns.entity?_eq_none.mpr ?_
    rw [hvalues (fun _ ↦ .null) fun field ↦ ?_, List.all_map]
    · exact List.all_eq_true.mpr fun _ _ ↦ rfl
    · rw [dialect.valueOf_qualified]
      exact congrArg (Option.elim · .null (· field)) hleft

end EntityQuery

theorem Projection.exists_ofItems {items : List Expr} {e : Expr} (he : e ∈ items)
    (hblank : e.isBlank = false) : ∃ p, ofItems items = .ok p := by
  rw [ofItems]
  split
  · next hnil =>
    have hkept : e ∈ items.filter fun e ↦ !e.isBlank := List.mem_filter.mpr ⟨he, by rw [hblank]; rfl⟩
    rw [hnil] at hkept
    cases hkept
  · exact ⟨_, rfl⟩

theorem Query.rows_of_condition {q : Query} {table column : String} {v : Value} {fields : List String}
    (hsource : q.source = .ofTable table)
    (hfilter : q.filter = some (.columnIs (.qualified table column) v))
    (hitems : q.projection.items = fields.map fun field ↦ .column (.qualified table field))
    (content : Content) (dialect : Dialect) :
    q.rows content dialect = (content.rowsWith table column v).map fun f ↦ fields.map f := by
  have hscopes : q.source.scopes content dialect = (content.table table).map fun f ↦ [(table, f)] := by
    rw [hsource]
    rfl
  have hholds (f : Record) : q.filter.all (dialect.holds [(table, f)]) = (f column).equals v := by
    rw [hfilter]
    exact dialect.holds_columnIs table f column v
  have hread (f : Record) : q.projection.items.map (dialect.valueOf [(table, f)]) = fields.map f := by
    rw [hitems, List.map_map]
    exact List.map_congr_left fun field _ ↦ dialect.valueOf_singleton table f field
  rw [rows, scopes, hscopes, List.filter_map, List.map_map, Content.rowsWith]
  simp only [Function.comp_def, hholds, hread]

section LookUp

variable {foreign : Model} {foreignColumn foreignTable : String}

theorem Selection.exists_lookup (htable : foreign.tableName = .ok foreignTable)
    (hnonempty : "" ∉ foreign.fieldNames) (hcolumn : foreignColumn ∈ foreign.fieldNames)
    (hjunction : ∀ p ∈ foreign.relations, p.junction ≠ some foreignTable) (v : Value) :
    ∃ lookup, ((ofModel foreign).satisfying
        (.columnIs (.qualified foreignTable foreignColumn) v)).query = .ok lookup ∧
      ∀ content dialect, lookup.rows content dialect =
        (content.rowsWith foreignTable foreignColumn v).map fun f ↦ foreign.fieldNames.map f := by
  have hblank := Draft.isBlank_qualified hnonempty foreignTable
  have huntouched : touched foreign (.columnIs (.qualified foreignTable foreignColumn) v) = [] := by
    refine List.eq_nil_iff_forall_not_mem.mpr fun name hname ↦ ?_
    obtain ⟨r, hr, -, hover⟩ := mem_touched_columnIs.mp hname
    exact hjunction r hr hover
  have hsource : (touched foreign (.columnIs (.qualified foreignTable foreignColumn) v)).foldlM
      (joinJunction foreign) (.ofTable foreignTable) = .ok (.ofTable foreignTable) := by
    rw [huntouched]
    rfl
  obtain ⟨projection, hprojection⟩ : ∃ p, Projection.ofItems
      (foreign.fields.map fun f ↦ .column (.qualified foreignTable f.name)) = .ok p := by
    obtain ⟨field, hfield, hname⟩ := List.mem_map.mp hcolumn
    exact Projection.exists_ofItems (List.mem_map_of_mem hfield)
      (hblank _ (List.mem_map_of_mem (List.mem_map_of_mem hfield)))
  have hread : ((ofModel foreign).satisfying
      (.columnIs (.qualified foreignTable foreignColumn) v)).sourceAndFilter =
        .ok (.ofTable foreignTable, some (.columnIs (.qualified foreignTable foreignColumn) v)) :=
    sourceAndFilter_of_condition.trans
      (bind_eq_ok.mpr ⟨foreignTable, htable, bind_eq_ok.mpr ⟨_, hsource, rfl⟩⟩)
  refine ⟨_, bind_eq_ok.mpr ⟨foreignTable, htable, bind_eq_ok.mpr ⟨projection, hprojection,
    bind_eq_ok.mpr ⟨_, hread, rfl⟩⟩⟩, fun content dialect ↦ ?_⟩
  refine Query.rows_of_condition rfl rfl ?_ content dialect
  rw [Projection.items_ofItems hprojection, Model.fieldNames, List.map_map]
  refine List.filter_eq_self.mpr fun e he ↦ ?_
  obtain ⟨field, hfield, rfl⟩ := List.mem_map.mp he
  rw [hblank _ (List.mem_map_of_mem (List.mem_map_of_mem hfield))]
  rfl

theorem FollowUp.exists_foreignRow {owner : Entity} {foreignKey : String}
    (htable : foreign.tableName = .ok foreignTable) (hnonempty : "" ∉ foreign.fieldNames)
    (hcolumn : foreignColumn ∈ foreign.fieldNames)
    (hjunction : ∀ p ∈ foreign.relations, p.junction ≠ some foreignTable) {key : Value}
    (hkey : owner.get? foreignKey = some key) :
    ∃ f, foreignRow foreign owner foreignKey foreignColumn = .ok f ∧
      (key.isNull = true ∧ f = .known (.one none) ∨
        key.isNull = false ∧ ∃ lookup, f = .one (.plain foreign lookup) ∧
          ∀ content dialect, lookup.rows content dialect =
            (content.rowsWith foreignTable foreignColumn key).map fun g ↦
              foreign.fieldNames.map g) := by
  cases hnull : key.isNull with
  | true =>
    refine ⟨_, bind_eq_ok.mpr ⟨foreignTable, htable, ?_⟩, .inl ⟨rfl, rfl⟩⟩
    rw [hkey, Option.getD_some, if_pos hnull]
    rfl
  | false =>
    obtain ⟨lookup, hquery, hrows⟩ :=
      Selection.exists_lookup htable hnonempty hcolumn hjunction key
    refine ⟨_, bind_eq_ok.mpr ⟨foreignTable, htable, ?_⟩, .inr ⟨rfl, lookup, rfl, hrows⟩⟩
    rw [hkey, Option.getD_some, if_neg (by rw [hnull]; exact Bool.false_ne_true)]
    exact bind_eq_ok.mpr ⟨lookup, hquery, rfl⟩

end LookUp

end RelMapper
