import RelMapper.Fault
import RelMapper.Sql.Expr
namespace RelMapper

inductive Comparison
  | equal
  | notEqual
  | less
  | lessOrEqual
  | greater
  | greaterOrEqual
  | like
deriving DecidableEq

def Comparison.symbol : Comparison → String
  | equal => "="
  | notEqual => "<>"
  | less => "<"
  | lessOrEqual => "<="
  | greater => ">"
  | greaterOrEqual => ">="
  | like => "LIKE"

inductive Predicate
  | compare (op : Comparison) (lhs rhs : Expr)
  | combine (op : Connective) (lhs rhs : Predicate)
  | negate (p : Predicate)
  | truth (t : Truth)

namespace Predicate

def equal (lhs rhs : Expr) : Predicate := compare .equal lhs rhs

def like (lhs pattern : Expr) : Predicate := compare .like lhs pattern

def and (p q : Predicate) : Predicate := combine .and p q

def or (p q : Predicate) : Predicate := combine .or p q

def columnIs (c : Column) (v : Value) : Predicate :=
  equal (.column c) (.bound v)

/-- Combines a non-empty list from the left. -/
def concat (op : Connective) : List Predicate → Except Fault Predicate
  | [] => .error (.ofMisuse (.emptyCombination op))
  | p :: ps => .ok (ps.foldl (combine op) p)

def all (ps : List Predicate) : Except Fault Predicate := concat .and ps

def any (ps : List Predicate) : Except Fault Predicate := concat .or ps

def columns : Predicate → List Column
  | compare _ lhs rhs => lhs.columns ++ rhs.columns
  | combine _ lhs rhs => lhs.columns ++ rhs.columns
  | negate p => p.columns
  | truth _ => []

def isCombination : Predicate → Bool
  | combine .. => true
  | _ => false

/-- An operand keeps its meaning without parentheses unless it is joined by the other connective. -/
def needsParentheses (op : Connective) : Predicate → Bool
  | combine op' _ _ => op' != op
  | _ => false

def enclosedText (parentheses : Bool) (s : String) : String :=
  if parentheses then "(" ++ s ++ ")" else s

def render : Predicate → Rendering String
  | compare op lhs rhs => do
    let l ← lhs.render
    let r ← rhs.render
    return l ++ " " ++ op.symbol ++ " " ++ r
  | combine op lhs rhs => do
    let l ← lhs.render
    let r ← rhs.render
    return enclosedText (lhs.needsParentheses op) l ++ " " ++ op.keyword ++ " " ++
      enclosedText (rhs.needsParentheses op) r
  | negate p => do
    let s ← p.render
    return "NOT " ++ enclosedText p.isCombination s
  | truth t => return Truth.sql t

def enclosed (parentheses : Bool) (f : Fragment) : Fragment :=
  if parentheses then f.parenthesised else f

def fragment : Predicate → Fragment
  | compare op lhs rhs => lhs.fragment ++ .text (" " ++ op.symbol ++ " ") :: rhs.fragment
  | combine op lhs rhs =>
    enclosed (lhs.needsParentheses op) lhs.fragment ++
      .text (" " ++ op.keyword ++ " ") :: enclosed (rhs.needsParentheses op) rhs.fragment
  | negate p => .text "NOT " :: enclosed p.isCombination p.fragment
  | truth t => .ofText (Truth.sql t)

@[simp] theorem sql_enclosed (parentheses : Bool) (f : Fragment) :
    (enclosed parentheses f).sql = enclosedText parentheses f.sql := by
  cases parentheses <;> simp [enclosed, enclosedText, String.append_assoc]

@[simp] theorem binds_enclosed (parentheses : Bool) (f : Fragment) :
    (enclosed parentheses f).binds = f.binds := by
  cases parentheses <;> simp [enclosed]

theorem writes_render (p : Predicate) : p.render.Writes p.fragment := by
  induction p with
  | compare op lhs rhs =>
    intro binds
    rw [render, Rendering.run_bind, lhs.writes_render, Rendering.run_bind, rhs.writes_render,
      Rendering.run_pure]
    simp [fragment, String.append_assoc]
  | combine op lhs rhs ihl ihr =>
    intro binds
    rw [render, Rendering.run_bind, ihl, Rendering.run_bind, ihr, Rendering.run_pure]
    simp [fragment, String.append_assoc]
  | negate p ih =>
    intro binds
    rw [render, Rendering.run_bind, ih, Rendering.run_pure]
    simp [fragment]
  | truth t => exact Rendering.writes_pure (Truth.sql t)

end Predicate

end RelMapper
