import RelMapper.Database.Recorded
namespace RelMapper

inductive CallKind
  | execute
  | fetchOne
  | fetchAll
  | commit
  | rollback
deriving DecidableEq

/-- When a call fails: when its statement contains a text, when it is the call of its kind with
that number, counted from one, or at any time. -/
inductive FailureCondition
  | mentions (text : String)
  | nth (n : Nat)
  | always

structure FailureRule where
  kind : CallKind
  condition : FailureCondition
  message : String

def occursIn (p : List Char) : List Char → Bool
  | [] => p.isEmpty
  | c :: cs => p.isPrefixOf (c :: cs) || occursIn p cs

def FailureRule.applies (r : FailureRule) (kind : CallKind) (sql : Option String) (count : Nat) :
    Bool :=
  r.kind == kind && match r.condition with
    | .mentions text => sql.any fun s ↦ occursIn text.toList s.toList
    | .nth n => n == count
    | .always => true

/-- A database whose results and failures are fixed in advance. It has no tables: statements that
begin with SELECT get one result after the other, whatever they ask for. -/
structure Script where
  results : List (List Row)
  rules : List FailureRule
  /-- What is left of the current result. -/
  rows : List Row := []
  past : List CallKind := []

namespace Script

/-- Counts a call, and lets it fail by the first rule that applies. A failing call takes no rows. -/
def call {α : Type} (kind : CallKind) (sql : Option String) (act : Script → α × Script) :
    DatabaseM Script α :=
  ExceptT.mk fun s ↦
    let s := { s with past := kind :: s.past }
    match s.rules.find? (·.applies kind sql (s.past.count kind)) with
    | some r => (.error (.ofDatabase (.stated r.message)), s)
    | none =>
      let (a, s) := act s
      (.ok a, s)

def isSelect (sql : String) : Bool :=
  "SELECT".toList.isPrefixOf sql.toList

def advance (sql : String) (s : Script) : Script :=
  if isSelect sql then { s with results := s.results.tail, rows := s.results.headD [] }
  else { s with rows := [] }

instance : Database Script where
  execute sql _ := call .execute (some sql) fun s ↦ ((), s.advance sql)
  fetchOne := call .fetchOne none fun s ↦ (s.rows.head?, { s with rows := s.rows.tail })
  fetchAll := call .fetchAll none fun s ↦ (s.rows, { s with rows := [] })
  commit := call .commit none fun s ↦ ((), s)
  rollback := call .rollback none fun s ↦ ((), s)

def queue (rows : List Row) (s : Script) : Script :=
  { s with results := s.results ++ [rows] }

end Script

end RelMapper
