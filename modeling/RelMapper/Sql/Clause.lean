import RelMapper.Sql.Predicate
namespace RelMapper

/-- The items of a SELECT: at least one, and none that renders to nothing. -/
structure Projection where
  items : List Expr
  items_ne_nil : items ≠ []
  not_blank : ∀ e ∈ items, e.isBlank = false

namespace Projection

def ofItems (items : List Expr) : Except Fault Projection :=
  let kept := items.filter fun e ↦ !e.isBlank
  if h : kept = [] then .error (.ofMisuse .emptyProjection)
  else .ok ⟨kept, h, fun _ he ↦ by simpa using (List.mem_filter.mp he).2⟩

theorem items_ofItems {items : List Expr} {p : Projection} (h : ofItems items = .ok p) :
    p.items = items.filter fun e ↦ !e.isBlank := by
  rw [ofItems] at h
  split at h
  · cases h
  · cases h
    rfl

def push (p : Projection) (e : Expr) : Projection :=
  if h : e.isBlank then p
  else ⟨p.items ++ [e], by simp, fun d hd ↦ by
    rcases List.mem_append.mp hd with hd | hd
    · exact p.not_blank d hd
    · simpa [List.mem_singleton.mp hd] using h⟩

theorem items_push (p : Projection) (e : Expr) :
    (p.push e).items = p.items ++ [e].filter fun e ↦ !e.isBlank := by
  rw [push]
  split
  · next h => simp [h]
  · next h => simp [h]

def render (p : Projection) : Rendering String := do
  let items ← p.items.mapM Expr.renderProjection
  return "SELECT " ++ String.intercalate ", " items

def fragment (p : Projection) : Fragment :=
  .text "SELECT " :: Fragment.join ", " (p.items.map Expr.projection)

theorem writes_render (p : Projection) : p.render.Writes p.fragment :=
  (Rendering.writesAll_mapM p.items fun e _ ↦ e.writes_renderProjection).join "SELECT " ", "

end Projection

structure SortKey where
  expr : Expr
  ascending : Bool

namespace SortKey

def render (k : SortKey) : Rendering String := do
  let s ← k.expr.render
  return "ORDER BY " ++ s ++ (if k.ascending then " ASC" else " DESC")

def fragment (k : SortKey) : Fragment :=
  .text "ORDER BY " :: k.expr.fragment ++ [.text (if k.ascending then " ASC" else " DESC")]

theorem writes_render (k : SortKey) : k.render.Writes k.fragment := by
  intro binds
  rw [render, Rendering.run_bind, k.expr.writes_render, Rendering.run_pure]
  simp [fragment, String.append_assoc]

end SortKey

/-- A number of rows and, counted from one, which such stretch of rows. -/
structure Page where
  size : UInt64
  number : Option UInt64

namespace Page

/-- The number of rows before the page, or the largest 64-bit number if that is smaller. -/
def offset (p : Page) : Option UInt64 :=
  p.number.map fun n ↦ UInt64.ofNat (min ((n.toNat - 1) * p.size.toNat) (UInt64.size - 1))

def sql (p : Page) : String :=
  match p.offset with
  | some n => "LIMIT " ++ toString p.size.toNat ++ " OFFSET " ++ toString n.toNat
  | none => "LIMIT " ++ toString p.size.toNat

def render (p : Page) : Rendering String :=
  return p.sql

def fragment (p : Page) : Fragment :=
  .ofText p.sql

theorem writes_render (p : Page) : p.render.Writes p.fragment :=
  Rendering.writes_pure p.sql

end Page

namespace Clause

def renderWhere (p : Predicate) : Rendering String := do
  let s ← p.render
  return "WHERE " ++ s

def whereLine (p : Predicate) : Fragment :=
  .text "WHERE " :: p.fragment

theorem writes_renderWhere (p : Predicate) : (renderWhere p).Writes (whereLine p) :=
  p.writes_render.prepend "WHERE "

def renderHaving (p : Predicate) : Rendering String := do
  let s ← p.render
  return "HAVING " ++ s

def havingLine (p : Predicate) : Fragment :=
  .text "HAVING " :: p.fragment

theorem writes_renderHaving (p : Predicate) : (renderHaving p).Writes (havingLine p) :=
  p.writes_render.prepend "HAVING "

def renderGroupBy (items : List Expr) : Rendering String := do
  let items ← items.mapM Expr.render
  return "GROUP BY " ++ String.intercalate ", " items

def groupByLine (items : List Expr) : Fragment :=
  .text "GROUP BY " :: Fragment.join ", " (items.map Expr.fragment)

theorem writes_renderGroupBy (items : List Expr) :
    (renderGroupBy items).Writes (groupByLine items) :=
  (Rendering.writesAll_mapM items fun e _ ↦ e.writes_render).join "GROUP BY " ", "

def updateLine (table : String) : String :=
  "UPDATE " ++ table

def renderAssignment (a : String × Value) : Rendering String := do
  let s ← Rendering.slot a.2
  return a.1 ++ " = " ++ s

def assignment (a : String × Value) : Fragment :=
  [.text (a.1 ++ " = "), .slot a.2]

def renderSet (assignments : List (String × Value)) : Rendering String := do
  let pairs ← assignments.mapM renderAssignment
  return "SET " ++ String.intercalate ", " pairs

def setLine (assignments : List (String × Value)) : Fragment :=
  .text "SET " :: Fragment.join ", " (assignments.map assignment)

theorem writes_renderSet (assignments : List (String × Value)) :
    (renderSet assignments).Writes (setLine assignments) :=
  (Rendering.writesAll_mapM assignments fun a _ ↦
    (Rendering.writes_slot a.2).prepend (a.1 ++ " = ")).join "SET " ", "

def insertLine (table : String) (columns : List String) : String :=
  "INSERT INTO " ++ table ++ " (" ++ String.intercalate ", " columns ++ ")"

def renderValues (values : List Value) : Rendering String := do
  let slots ← values.mapM Rendering.slot
  return "VALUES (" ++ String.intercalate ", " slots ++ ")"

def valuesLine (values : List Value) : Fragment :=
  .text "VALUES (" :: Fragment.join ", " (values.map fun v ↦ [.slot v]) ++ [.text ")"]

theorem writes_renderValues (values : List Value) :
    (renderValues values).Writes (valuesLine values) := by
  intro binds
  rw [renderValues, Rendering.run_bind,
    Rendering.writesAll_mapM values (fun v _ ↦ Rendering.writes_slot v), Rendering.run_pure]
  simp [valuesLine, Fragment.sql_join, Fragment.binds_join, String.append_assoc]

def deleteLine (table : String) : String :=
  "DELETE FROM " ++ table

end Clause

end RelMapper
