namespace RelMapper

inductive AggregateFunction
  | count
  | sum
  | avg
  | min
  | max
deriving DecidableEq

def AggregateFunction.sqlName : AggregateFunction → String
  | count => "COUNT"
  | sum => "SUM"
  | avg => "AVG"
  | min => "MIN"
  | max => "MAX"

/-- A scalar that stands for a collection; without a column the function counts whole rows. -/
structure Aggregation where
  function : AggregateFunction
  column : Option String
deriving DecidableEq

/-- Many-to-one: the owner's column `foreignKey` holds the foreign model's `foreignColumn`.
One-to-many: the foreign rows refer to the owner by `backReference`, or by the name of the owner's
primary key. Many-to-many: rows of `junction` pair an owner with a foreign row. -/
inductive RelationKind
  | manyToOne (foreignKey foreignColumn : String) (lookupColumn : Option String) (loadAll : Bool)
  | oneToMany (backReference : Option String) (aggregation : Option Aggregation)
  | manyToMany (junction foreignKey : String) (aggregation : Option Aggregation)
deriving DecidableEq

structure Relation where
  name : String
  foreignModel : String
  kind : RelationKind
  /-- A lazy relation is loaded by a query of its own after the owner. -/
  lazy : Bool := true
deriving DecidableEq

namespace Relation

def manyToOne (name foreignModel foreignKey foreignColumn : String) : Relation :=
  { name, foreignModel, kind := .manyToOne foreignKey foreignColumn none false }

def oneToMany (name foreignModel : String) : Relation :=
  { name, foreignModel, kind := .oneToMany none none }

def manyToMany (name foreignModel junction foreignKey : String) : Relation :=
  { name, foreignModel, kind := .manyToMany junction foreignKey none }

def lookedUpIn (r : Relation) (column : String) : Relation :=
  match r.kind with
  | .manyToOne fk key _ loadAll => { r with kind := .manyToOne fk key (some column) loadAll }
  | _ => r

def loadingAll (r : Relation) : Relation :=
  match r.kind with
  | .manyToOne fk key lookup _ => { r with kind := .manyToOne fk key lookup true }
  | _ => r

def referredToBy (r : Relation) (column : String) : Relation :=
  match r.kind with
  | .oneToMany _ a => { r with kind := .oneToMany (some column) a }
  | _ => r

def aggregated (r : Relation) (a : Aggregation) : Relation :=
  match r.kind with
  | .oneToMany back _ => { r with kind := .oneToMany back (some a) }
  | .manyToMany junction fk _ => { r with kind := .manyToMany junction fk (some a) }
  | .manyToOne .. => r

def withLazy (r : Relation) (lazy : Bool) : Relation :=
  { r with lazy }

def isManyToOne (r : Relation) : Bool :=
  match r.kind with
  | .manyToOne .. => true
  | _ => false

theorem isManyToOne_of_kind {r : Relation} {foreignKey foreignColumn : String}
    {lookupColumn : Option String} {loadAll : Bool}
    (hkind : r.kind = .manyToOne foreignKey foreignColumn lookupColumn loadAll) :
    r.isManyToOne = true := by
  rw [isManyToOne, hkind]

def isOneToMany (r : Relation) : Bool :=
  match r.kind with
  | .oneToMany .. => true
  | _ => false

def isManyToMany (r : Relation) : Bool :=
  match r.kind with
  | .manyToMany .. => true
  | _ => false

def aggregation (r : Relation) : Option Aggregation :=
  match r.kind with
  | .oneToMany _ a | .manyToMany _ _ a => a
  | .manyToOne .. => none

def isEagerAggregate (r : Relation) : Bool :=
  !r.lazy && r.aggregation.isSome

def junction (r : Relation) : Option String :=
  match r.kind with
  | .manyToMany junction _ _ => some junction
  | _ => none

end Relation

end RelMapper
