import RelMapper.Sql.Column
import RelMapper.Sql.Fragment
import RelMapper.Sql.Literal
namespace RelMapper

inductive Expr
  | literal (l : Literal)
  | bound (v : Value)
  | column (c : Column)
  | call (function : String) (args : List Expr) (newName : Option String)
  | verbatim (s : String)

namespace Expr

def star : Expr := verbatim "*"

def col (s : String) : Expr :=
  column (Column.ofText s)

/-- Items that would render to nothing, which projections leave out. -/
def isBlank : Expr → Bool
  | verbatim s => Text.isBlankText s
  | column c => c.name == ""
  | _ => false

def asColumn : Expr → Option Column
  | column c => some c
  | _ => none

mutual

def render : Expr → Rendering String
  | literal l => return l.sql
  | bound v => Rendering.slot v
  | column c => return c.qualifiedName
  | call function args _ => do
    let args ← renderArgs args
    return function ++ "(" ++ String.intercalate ", " args ++ ")"
  | verbatim s => return s

def renderArgs : List Expr → Rendering (List String)
  | [] => return []
  | e :: es => do
    let s ← e.render
    let ss ← renderArgs es
    return s :: ss

end

mutual

def fragment : Expr → Fragment
  | literal l => .ofText l.sql
  | bound v => [.slot v]
  | column c => .ofText c.qualifiedName
  | call function args _ => .text (function ++ "(") :: argsFragment args ++ [.text ")"]
  | verbatim s => .ofText s

def argsFragment : List Expr → Fragment
  | [] => []
  | [e] => e.fragment
  | e :: es => e.fragment ++ .text ", " :: argsFragment es

end

theorem argsFragment_eq_join (es : List Expr) :
    argsFragment es = Fragment.join ", " (es.map fragment) := by
  induction es with
  | nil => rfl
  | cons e es ih =>
    cases es with
    | nil => rfl
    | cons d ds =>
      change e.fragment ++ .text ", " :: argsFragment (d :: ds) = _
      rw [ih]
      rfl

mutual

theorem writes_render (e : Expr) : e.render.Writes e.fragment := by
  cases e with
  | literal l => exact Rendering.writes_pure l.sql
  | bound v => exact Rendering.writes_slot v
  | column c => exact Rendering.writes_pure c.qualifiedName
  | call function args a =>
    intro binds
    rw [render, Rendering.run_bind, writesAll_renderArgs args, Rendering.run_pure]
    simp [fragment, argsFragment_eq_join, Fragment.sql_join, Fragment.binds_join, List.flatMap_map,
      String.append_assoc]
  | verbatim s => exact Rendering.writes_pure s

theorem writesAll_renderArgs (es : List Expr) :
    (renderArgs es).WritesAll (es.map fragment) := by
  cases es with
  | nil => exact Rendering.writesAll_nil
  | cons e es => exact .cons (writes_render e) (writesAll_renderArgs es)

end

def newName : Expr → Option String
  | column c => c.newName
  | call _ _ a => a
  | _ => none

def renderProjection (e : Expr) : Rendering String := do
  let s ← e.render
  match e.newName with
  | some a => return s ++ " AS " ++ a
  | none => return s

def projection (e : Expr) : Fragment :=
  match e.newName with
  | some a => e.fragment ++ [.text (" AS " ++ a)]
  | none => e.fragment

theorem writes_renderProjection (e : Expr) : e.renderProjection.Writes e.projection := by
  intro binds
  rw [renderProjection, Rendering.run_bind, writes_render e, projection]
  cases e.newName with
  | none => rfl
  | some a =>
    rw [Rendering.run_pure]
    simp [String.append_assoc]

mutual

def columns : Expr → List Column
  | column c => [c]
  | call _ args _ => argsColumns args
  | _ => []

def argsColumns : List Expr → List Column
  | [] => []
  | e :: es => e.columns ++ argsColumns es

end

end Expr

end RelMapper
