import RelMapper.Database.Recorded
import RelMapper.Sql.Statement
namespace RelMapper

def writeKeywords : List String := ["INSERT", "UPDATE", "DELETE", "CREATE"]

def isWriteText (sql : String) : Bool :=
  writeKeywords.any fun keyword ↦ keyword.toList.isPrefixOf sql.toList

theorem isWriteText_append {start : String} (h : isWriteText start = true) (rest : String) :
    isWriteText (start ++ rest) = true := by
  obtain ⟨keyword, hk, hp⟩ := List.any_eq_true.mp h
  refine List.any_eq_true.mpr ⟨keyword, hk, ?_⟩
  rw [List.isPrefixOf_iff_prefix] at hp ⊢
  rw [String.toList_append]
  exact hp.trans (List.prefix_append _ _)

theorem isWriteText_eq_false {sql : String} {c : Char} (h : sql.toList.head? = some c)
    (hc : ∀ keyword ∈ writeKeywords, keyword.toList.head?.any (· != c)) :
    isWriteText sql = false := by
  refine List.any_eq_false.mpr fun keyword hk hp ↦ ?_
  obtain ⟨rest, hrest⟩ := List.isPrefixOf_iff_prefix.mp hp
  have hany := hc keyword hk
  cases ht : keyword.toList with
  | nil => simp [ht] at hany
  | cons d ds =>
    rw [← hrest, ht, List.cons_append, List.head?_cons] at h
    simp [ht, Option.some.inj h] at hany

namespace Statement

def isSelect : Statement → Bool
  | select _ => true
  | _ => false

theorem head_sql_query (q : Query) :
    q.fragment.sql.toList.head? = some 'S' ∨ q.fragment.sql.toList.head? = some '(' := by
  obtain ⟨projection, source, filter, groupBy, having, orderBy, page, nesting⟩ := q
  rw [Query.fragment, Nesting.sql_enclose, Fragment.sql_lines, List.map_cons, Projection.fragment,
    Fragment.sql_text, String.intercalate_cons_append]
  rcases nesting with _ | _ | newName
  · left
    rw [Nesting.encloseText, String.toList_append]
    rfl
  · right
    rw [Nesting.encloseText, String.append_assoc, String.toList_append]
    rfl
  · right
    rw [Nesting.encloseText, String.append_assoc, String.append_assoc, String.toList_append]
    rfl

/-- All statements but those that select are told by their text to write. -/
theorem isWriteText_sql (s : Statement) : isWriteText s.sql = !s.isSelect := by
  rw [s.sql_eq]
  cases s with
  | select q =>
    rcases head_sql_query q with h | h
    · exact isWriteText_eq_false h (by decide)
    · exact isWriteText_eq_false h (by decide)
  | insert i =>
    have h : isWriteText "INSERT INTO " = true := by decide
    have hc := isWriteText_append (isWriteText_append (isWriteText_append h i.table) " (")
      (String.intercalate ", " (i.row.map Prod.fst))
    have hline := isWriteText_append (isWriteText_append hc ")") Fragment.lineSeparator
    rw [fragment, Insert.fragment, Fragment.sql_text]
    exact isWriteText_append hline _
  | update u =>
    have h : isWriteText "UPDATE " = true := by decide
    rw [fragment, Update.fragment, Fragment.sql_lines, List.map_cons, Fragment.sql_ofText,
      Clause.updateLine, String.intercalate_cons_append]
    exact isWriteText_append h _
  | delete d =>
    have h : isWriteText "DELETE FROM " = true := by decide
    have hline := isWriteText_append (isWriteText_append h d.table) Fragment.lineSeparator
    rw [fragment, Delete.fragment, Fragment.sql_text]
    exact isWriteText_append hline _
  | createTable c =>
    have h : isWriteText "CREATE TABLE " = true := by decide
    have hname := isWriteText_append
      (isWriteText_append h (if c.ifNotExists then "IF NOT EXISTS " else "")) c.table
    have hopen := isWriteText_append (isWriteText_append hname " (") Fragment.lineSeparator
    rw [fragment, CreateTable.fragment, Fragment.sql_ofText]
    exact isWriteText_append (isWriteText_append hopen _) "\n)"

end Statement

namespace DatabaseCall

def writes : DatabaseCall → Bool
  | execute sql _ => isWriteText sql
  | _ => false

def isEnd : DatabaseCall → Bool
  | commit | rollback => true
  | _ => false

end DatabaseCall

/-- Calls in the order in which a database got them, with the faults of those that failed. -/
abbrev Log := List (DatabaseCall × Option Fault)

namespace Log

def Succeeds (l : Log) : Prop :=
  ∀ c ∈ l, c.2 = none

def Open (l : Log) : Prop :=
  ∀ c ∈ l, c.1.isEnd = false

def Writes (l : Log) : Prop :=
  ∃ c ∈ l, c.1.writes = true

/-- Whoever has made the calls of the log and is then told `e` is told of the first call that
failed, which has to be the last one. If none failed, then `e` is a failure without a call. -/
inductive Reports : Log → Fault → Prop
  | own {l : Log} (h : l.Succeeds) (e : Fault) : Reports l e
  | execute {l : Log} (h : l.Succeeds) (sql : String) (binds : List Value) (f : Fault) :
    Reports (l ++ [(.execute sql binds, some f)]) (.ofStatement sql binds f)
  | fetchOne {l : Log} (h : l.Succeeds) (sql : String) (binds : List Value) (f : Fault) :
    Reports (l ++ [(.execute sql binds, none), (.fetchOne, some f)]) (.ofStatement sql binds f)
  | fetchAll {l : Log} (h : l.Succeeds) (sql : String) (binds : List Value) (f : Fault) :
    Reports (l ++ [(.execute sql binds, none), (.fetchAll, some f)]) (.ofStatement sql binds f)
  | commit {l : Log} (h : l.Succeeds) (f : Fault) : Reports (l ++ [(.commit, some f)]) f

def executed (l : Log) : List (String × List Value) :=
  l.filterMap fun
    | (.execute sql binds, none) => some (sql, binds)
    | _ => none

theorem executed_cons (c : DatabaseCall × Option Fault) (l : Log) :
    executed (c :: l) = executed [c] ++ executed l :=
  List.filterMap_append (l := [c])

variable {l l' : Log} {e : Fault}

theorem Open.ne (h : l.Open) {call : DatabaseCall} (hcall : call.isEnd = true)
    {c : DatabaseCall × Option Fault} (hc : c ∈ l) : c.1 ≠ call := by
  rintro rfl
  rw [h c hc] at hcall
  cases hcall

theorem succeeds_nil : Succeeds [] := fun _ hc ↦ nomatch hc

theorem succeeds_append (h : l.Succeeds) (h' : l'.Succeeds) : Succeeds (l ++ l') :=
  List.forall_mem_append.mpr ⟨h, h'⟩

theorem Reports.prepend (h : Reports l' e) (hl : l.Succeeds) : Reports (l ++ l') e := by
  cases h with
  | own h e => exact .own (succeeds_append hl h) e
  | execute h sql binds f =>
    rw [← List.append_assoc]
    exact .execute (succeeds_append hl h) sql binds f
  | fetchOne h sql binds f =>
    rw [← List.append_assoc]
    exact .fetchOne (succeeds_append hl h) sql binds f
  | fetchAll h sql binds f =>
    rw [← List.append_assoc]
    exact .fetchAll (succeeds_append hl h) sql binds f
  | commit h =>
    rw [← List.append_assoc]
    exact .commit (succeeds_append hl h) e

end Log

/-- The statements that a database keeps for good, and those that it would forget on a rollback. -/
structure Ledger where
  committed : List (String × List Value) := []
  pending : List (String × List Value) := []

namespace Ledger

def step (k : Ledger) : DatabaseCall × Option Fault → Ledger
  | (.execute sql binds, none) => { k with pending := k.pending ++ [(sql, binds)] }
  | (.commit, none) => ⟨k.committed ++ k.pending, []⟩
  | (.rollback, none) => { k with pending := [] }
  | _ => k

def after (k : Ledger) (l : Log) : Ledger :=
  l.foldl step k

theorem after_append (k : Ledger) (l l' : Log) : k.after (l ++ l') = (k.after l).after l' :=
  List.foldl_append

theorem committed_step (k : Ledger) {c : DatabaseCall × Option Fault} (h : c ≠ (.commit, none)) :
    (k.step c).committed = k.committed := by
  obtain ⟨call, fault⟩ := c
  cases fault with
  | some f => cases call <;> rfl
  | none =>
    cases call with
    | commit => exact absurd rfl h
    | execute sql binds => rfl
    | fetchOne => rfl
    | fetchAll => rfl
    | rollback => rfl

theorem committed_after {l : Log} (h : (.commit, none) ∉ l) (k : Ledger) :
    (k.after l).committed = k.committed := by
  induction l generalizing k with
  | nil => rfl
  | cons c cs ih =>
    have hc : c ≠ (.commit, none) := fun hc ↦ h (by rw [hc]; exact List.mem_cons_self)
    exact (ih (fun hcs ↦ h (List.mem_cons_of_mem c hcs)) (k.step c)).trans (committed_step k hc)

theorem committed_prefix_step (k : Ledger) (c : DatabaseCall × Option Fault) :
    k.committed <+: (k.step c).committed := by
  by_cases hc : c = (.commit, none)
  · rw [hc]
    exact List.prefix_append _ _
  · have hsame := committed_step k hc
    exact ⟨[], by rw [hsame, List.append_nil]⟩

theorem committed_prefix (k : Ledger) (l : Log) : k.committed <+: (k.after l).committed := by
  induction l generalizing k with
  | nil => exact List.prefix_rfl
  | cons c cs ih => exact (committed_prefix_step k c).trans (ih (k.step c))

theorem committed_append_pending {l : Log} (h : ∀ c ∈ l, c.1 ≠ .rollback) (k : Ledger) :
    (k.after l).committed ++ (k.after l).pending = k.committed ++ k.pending ++ Log.executed l := by
  induction l generalizing k with
  | nil => exact (List.append_nil _).symm
  | cons c cs ih =>
    obtain ⟨hc, hcs⟩ := List.forall_mem_cons.mp h
    have hstep : (k.step c).committed ++ (k.step c).pending =
        k.committed ++ k.pending ++ Log.executed [c] := by
      obtain ⟨call, fault⟩ := c
      cases fault with
      | some f => cases call <;> simp [step, Log.executed]
      | none =>
        cases call with
        | execute sql binds => simp [step, Log.executed]
        | rollback => exact absurd rfl hc
        | fetchOne => simp [step, Log.executed]
        | fetchAll => simp [step, Log.executed]
        | commit => simp [step, Log.executed]
    rw [Log.executed_cons, ← List.append_assoc, ← hstep]
    exact ih hcs (k.step c)

theorem pending_step_subset (k : Ledger) (c : DatabaseCall × Option Fault) :
    ∀ x ∈ (k.step c).pending, x ∈ k.pending ++ Log.executed [c] := by
  obtain ⟨call, fault⟩ := c
  cases fault with
  | some f => cases call <;> simp [step, Log.executed]
  | none => cases call <;> simp [step, Log.executed]

theorem pending_subset (k : Ledger) (l : Log) :
    ∀ x ∈ (k.after l).pending, x ∈ k.pending ++ Log.executed l := by
  induction l generalizing k with
  | nil => exact fun x hx ↦ List.mem_append_left _ hx
  | cons c cs ih =>
    intro x hx
    rw [Log.executed_cons, ← List.append_assoc]
    rcases List.mem_append.mp (ih (k.step c) x hx) with hp | he
    · exact List.mem_append_left _ (pending_step_subset k c x hp)
    · exact List.mem_append_right _ he

end Ledger

end RelMapper
