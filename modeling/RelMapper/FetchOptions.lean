import RelMapper.Config
import RelMapper.Selection
import RelMapper.Slots
namespace RelMapper

/-- How one relation of the owner is loaded. Ordering and paging concern collections that are read
by a query of their own. -/
structure RelationOptions where
  orderBy : Option (String × Bool) := none
  pageSize : Option UInt64 := none
  pageNumber : Option UInt64 := none
  skip : Bool := false

/-- A page number without a size has no effect. -/
def RelationOptions.apply (o : RelationOptions) (s : Selection) : Selection :=
  let s := o.orderBy.elim s fun (column, ascending) ↦ s.sortedBy (.ofText column) ascending
  o.pageSize.elim s fun size ↦ s.paged ⟨size, o.pageNumber⟩

/-- Which rows of a model to read, in which order, and what of them. -/
structure FetchOptions where
  fields : Option (List String) := none
  condition : Option Predicate := none
  filters : Option (List Filter) := none
  equals : List (String × Value) := []
  search : Option String := none
  searchColumns : Option (List String) := none
  orderBy : Option (String × Bool) := none
  pageSize : Option UInt64 := none
  pageNumber : Option UInt64 := none
  relations : Slots RelationOptions := []

namespace FetchOptions

def skips (o : FetchOptions) (relation : String) : Bool :=
  (o.relations.get? relation).any RelationOptions.skip

def restrict (o : FetchOptions) (s : Selection) : Selection :=
  let s := o.condition.elim s s.satisfying
  let s := o.filters.elim s s.filtered
  let s := o.equals.foldl (fun s (column, v) ↦ s.equalling column v) s
  o.search.elim s fun text ↦ s.searching text o.searchColumns

/-- The page asked for. A number alone counts pages of the default size. -/
def page (o : FetchOptions) (defaultSize : UInt64) : Option Page :=
  match o.pageSize, o.pageNumber with
  | some size, number => some ⟨size, number⟩
  | none, some number => some ⟨defaultSize, some number⟩
  | none, none => none

def apply (o : FetchOptions) (c : Config) (s : Selection) : Selection :=
  let s := o.restrict s
  let s := o.orderBy.elim s fun (column, ascending) ↦ s.sortedBy (.ofText column) ascending
  (o.page c.defaultPageSize).elim s s.paged

def projection (o : FetchOptions) (m : Model) : Except Fault (List String) :=
  match o.fields with
  | none => .ok m.fieldNames
  | some names => names.mapM fun name ↦
    if m.hasField name then .ok name else .error (m.unknownField name)

end FetchOptions

end RelMapper
