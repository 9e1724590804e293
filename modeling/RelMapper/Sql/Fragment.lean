import RelMapper.Value
namespace RelMapper

/-- A stretch of SQL text, or a placeholder together with the value bound to it. -/
inductive Piece
  | text (s : String)
  | slot (v : Value)

def Piece.sql : Piece → String
  | text s => s
  | slot _ => "?"

def Piece.bound : Piece → Option Value
  | text _ => none
  | slot v => some v

/-- Rendered SQL in which every placeholder still carries its value, so that the text and the list
of binds are two views of one thing. -/
abbrev Fragment := List Piece

/-- Rendering writes text and appends the values that it binds to one list, which all parts of a
statement share. -/
abbrev Rendering := StateM (List Value)

namespace Fragment

def ofText (s : String) : Fragment := [.text s]

def sql (f : Fragment) : String :=
  String.join (f.map Piece.sql)

def binds (f : Fragment) : List Value :=
  f.filterMap Piece.bound

def join (separator : String) : List Fragment → Fragment
  | [] => []
  | [f] => f
  | f :: fs => f ++ .text separator :: join separator fs

def parenthesised (f : Fragment) : Fragment :=
  .text "(" :: f ++ [.text ")"]

def lineSeparator : String := "\n    "

def lines (fs : List Fragment) : Fragment :=
  join lineSeparator fs

@[simp] theorem binds_nil : binds [] = [] := rfl

@[simp] theorem binds_text (s : String) (f : Fragment) : binds (.text s :: f) = binds f := rfl

@[simp] theorem binds_slot (v : Value) (f : Fragment) : binds (.slot v :: f) = v :: binds f := rfl

@[simp] theorem binds_append (f g : Fragment) : binds (f ++ g) = binds f ++ binds g :=
  List.filterMap_append

@[simp] theorem binds_ofText (s : String) : binds (ofText s) = [] := rfl

@[simp] theorem sql_nil : sql [] = "" := by simp [sql]

@[simp] theorem sql_text (s : String) (f : Fragment) : sql (.text s :: f) = s ++ sql f := by
  simp [sql, Piece.sql]

@[simp] theorem sql_slot (v : Value) (f : Fragment) : sql (.slot v :: f) = "?" ++ sql f := by
  simp [sql, Piece.sql]

@[simp] theorem sql_append (f g : Fragment) : sql (f ++ g) = sql f ++ sql g := by
  simp [sql]

@[simp] theorem sql_ofText (s : String) : sql (ofText s) = s := by simp [ofText]

@[simp] theorem sql_parenthesised (f : Fragment) : sql f.parenthesised = "(" ++ sql f ++ ")" := by
  simp [parenthesised, String.append_assoc]

@[simp] theorem binds_parenthesised (f : Fragment) : binds f.parenthesised = binds f := by
  simp [parenthesised]

theorem sql_join (separator : String) (fs : List Fragment) :
    sql (join separator fs) = String.intercalate separator (fs.map sql) := by
  fun_induction join separator fs with
  | case1 => simp
  | case2 f => simp
  | case3 f fs hfs ih =>
    obtain ⟨g, gs, rfl⟩ := List.exists_cons_of_ne_nil hfs
    simp only [sql_append, sql_text, ih, List.map_cons, String.intercalate_cons_cons,
      String.append_assoc]

theorem binds_join (separator : String) (fs : List Fragment) :
    binds (join separator fs) = fs.flatMap binds := by
  fun_induction join separator fs with
  | case1 => rfl
  | case2 f => simp
  | case3 f fs hfs ih => simp [ih]

theorem sql_lines (fs : List Fragment) :
    sql (lines fs) = String.intercalate lineSeparator (fs.map sql) :=
  sql_join _ _

theorem binds_lines (fs : List Fragment) : binds (lines fs) = fs.flatMap binds :=
  binds_join _ _

end Fragment

namespace Rendering

def slot (v : Value) : Rendering String :=
  modifyGet fun binds ↦ ("?", binds ++ [v])

def result (x : Rendering String) : String × List Value :=
  x.run []

/-- Whatever is bound already, `x` writes the text of the fragment and appends its binds. -/
def Writes (x : Rendering String) (f : Fragment) : Prop :=
  ∀ binds, x.run binds = (f.sql, binds ++ f.binds)

def WritesAll (x : Rendering (List String)) (fs : List Fragment) : Prop :=
  ∀ binds, x.run binds = (fs.map Fragment.sql, binds ++ fs.flatMap Fragment.binds)

variable {α β : Type} {x : Rendering String} {f : Fragment}

theorem run_pure (a : α) (binds : List Value) : (pure a : Rendering α).run binds = (a, binds) := rfl

theorem run_bind (x : Rendering α) (next : α → Rendering β) (binds : List Value) :
    (x >>= next).run binds = (next (x.run binds).1).run (x.run binds).2 := rfl

theorem Writes.result_eq (h : Writes x f) : x.result = (f.sql, f.binds) := h []

theorem run_slot (v : Value) (binds : List Value) : (slot v).run binds = ("?", binds ++ [v]) := rfl

theorem writes_pure (s : String) : Writes (pure s) (.ofText s) := fun binds ↦ by
  rw [run_pure, Fragment.sql_ofText, Fragment.binds_ofText, List.append_nil]

theorem writes_slot (v : Value) : Writes (slot v) [.slot v] := fun binds ↦ by
  rw [run_slot, Fragment.sql_slot, Fragment.sql_nil, Fragment.binds_slot, Fragment.binds_nil,
    String.append_empty]

theorem Writes.prepend (h : Writes x f) (s : String) :
    Writes (do let t ← x; return s ++ t) (.text s :: f) := fun binds ↦ by
  rw [run_bind, h binds, run_pure, Fragment.sql_text, Fragment.binds_text]

theorem writesAll_nil : WritesAll (pure []) [] := fun binds ↦ by
  rw [run_pure, List.map_nil, List.flatMap_nil, List.append_nil]

theorem WritesAll.cons {y : Rendering (List String)} {fs : List Fragment} (h : Writes x f)
    (hs : WritesAll y fs) : WritesAll (do let s ← x; let ss ← y; return s :: ss) (f :: fs) :=
  fun binds ↦ by
    rw [run_bind, h binds, run_bind, hs (binds ++ f.binds), run_pure]
    simp only [List.map_cons, List.flatMap_cons, List.append_assoc]

theorem WritesAll.join {y : Rendering (List String)} {fs : List Fragment} (h : WritesAll y fs)
    (s separator : String) :
    Writes (do let ss ← y; return s ++ String.intercalate separator ss)
      (.text s :: Fragment.join separator fs) := fun binds ↦ by
  rw [run_bind, h binds, run_pure, Fragment.sql_text, Fragment.sql_join, Fragment.binds_text,
    Fragment.binds_join]

theorem writesAll_mapM {write : α → Rendering String} {view : α → Fragment}
    (as : List α) (h : ∀ a ∈ as, Writes (write a) (view a)) :
    WritesAll (as.mapM write) (as.map view) := by
  induction as with
  | nil => exact writesAll_nil
  | cons a as ih =>
    rw [List.mapM_cons]
    exact .cons (h a (by simp)) (ih fun b hb ↦ h b (by simp [hb]))

end Rendering

end RelMapper
