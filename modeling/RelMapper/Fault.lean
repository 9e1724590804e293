import RelMapper.Value
namespace RelMapper

inductive Connective
  | and
  | or
deriving DecidableEq

def Connective.keyword : Connective → String
  | .and => "AND"
  | .or => "OR"

inductive JoinKind
  | inner
  | leftOuter
  | rightOuter
  | fullOuter
  | natural
  | cross
deriving DecidableEq

namespace JoinKind

def keyword : JoinKind → String
  | inner => "INNER JOIN"
  | leftOuter => "LEFT OUTER JOIN"
  | rightOuter => "RIGHT OUTER JOIN"
  | fullOuter => "FULL OUTER JOIN"
  | natural => "NATURAL JOIN"
  | cross => "CROSS JOIN"

/-- Natural and cross joins take no condition, and all others need one. -/
def takesCondition : JoinKind → Bool
  | natural | cross => false
  | _ => true

end JoinKind

inductive RelationShape
  | manyToOne
  | manyToMany
  | collection
deriving DecidableEq

def RelationShape.phrase : RelationShape → String
  | .manyToOne => "many-to-one"
  | .manyToMany => "many-to-many"
  | .collection => "a collection"

inductive Misuse
  | noTable (model : String)
  | noPrimaryKey (model : String)
  | severalPrimaryKeys (model : String)
  | unknownField (model field : String)
  | emptyCombination (op : Connective)
  | joinWithoutCondition (kind : JoinKind)
  | joinWithCondition (kind : JoinKind)
  | emptyProjection
  | insertWithoutColumns (table : String)
  | updateWithoutColumns (table : String)
  | deleteWithoutCondition (table : String)
  | createWithoutColumns (table : String)
  | filterOutOfScope (scope model : String)
  | relationMismatch (relation model : String) (expected : RelationShape)
  | mixedFilters
  | noSearchColumns (model : String)
  | malformedForeignKey (reference table field : String)
  | circularForeignKeys (tables : List String)
  | junctionColumnClash (table column : String)
  | blankLastInsertIdQuery
  | zeroPageSize
  | updateWithoutTarget (model : String)
  | linksWithoutOwner (model : String)
  | oneToManyWrite (relation model : String)
  | unreadableIdList (typeName : String)
  | stated (message : String)

namespace Misuse

def message : Misuse → String
  | noTable model => "model '" ++ model ++ "' declares no table"
  | noPrimaryKey model => "model '" ++ model ++ "' declares no primary key"
  | severalPrimaryKeys model => "model '" ++ model ++ "' declares more than one primary key"
  | unknownField model field => "model '" ++ model ++ "' has no field '" ++ field ++ "'"
  | emptyCombination op => "cannot combine an empty predicate list with " ++ op.keyword
  | joinWithoutCondition kind => kind.keyword ++ " requires a join condition"
  | joinWithCondition kind => kind.keyword ++ " does not take a join condition"
  | emptyProjection => "SELECT clause needs at least one item"
  | insertWithoutColumns table => "INSERT into " ++ table ++ " has no columns"
  | updateWithoutColumns table => "UPDATE of " ++ table ++ " has nothing to set"
  | deleteWithoutCondition table => "DELETE from " ++ table ++ " requires a condition"
  | createWithoutColumns table => "CREATE TABLE " ++ table ++ " has no columns"
  | filterOutOfScope scope model =>
    "filter for model '" ++ scope ++ "' applied to '" ++ model ++ "'"
  | relationMismatch relation model expected =>
    "relation '" ++ relation ++ "' of '" ++ model ++ "' is not " ++ expected.phrase
  | mixedFilters => "filter with exactly one of: a predicate, filter objects, or keyword equality"
  | noSearchColumns model => "no search columns given and model '" ++ model ++ "' declares none"
  | malformedForeignKey reference table field =>
    "foreign key '" ++ reference ++ "' on " ++ table ++ "." ++ field ++
      " is not of the form table.column"
  | circularForeignKeys tables =>
    "circular foreign keys between tables: " ++ String.intercalate ", " tables
  | junctionColumnClash table column =>
    "junction table " ++ table ++ " would name both of its columns '" ++ column ++ "'"
  | blankLastInsertIdQuery => "last_insert_id_sql must not be empty"
  | zeroPageSize => "default_page_size must be greater than zero"
  | updateWithoutTarget model =>
    "updating '" ++ model ++ "' needs a condition or an instance with an id"
  | linksWithoutOwner model =>
    "updating many-to-many relations of '" ++ model ++ "' needs the row's id"
  | oneToManyWrite relation model =>
    "one-to-many relation '" ++ relation ++ "' of '" ++ model ++ "' is written from the other side"
  | unreadableIdList typeName => "cannot read a list of ids from a " ++ typeName ++ " value"
  | stated message => message

end Misuse

/-- What the database itself reports, and results of it that do not fit the question. -/
inductive DatabaseIssue
  | shortRow (model : String) (found expected : Nat)
  | noInsertId (sql : String)
  | stated (message : String)

def DatabaseIssue.message : DatabaseIssue → String
  | shortRow model found expected =>
    "result row for '" ++ model ++ "' has " ++ toString found ++ " columns, expected " ++
      toString expected
  | noInsertId sql => "'" ++ sql ++ "' returned no id"
  | stated message => message

/-- Everything that can go wrong. A statement that failed carries its text, its binds and the
fault behind it. -/
inductive Fault
  | modelNotFound (name : String) (registered : List String)
  | relationNotFound (model relation : String)
  | objectNotFound (model : String) (id : Value)
  | foreignIdNotFound (relation lookupColumn : String) (value : Value)
  | statement (sql : String) (binds : List Value) (message : String) (cause : Option Fault)
  | database (issue : DatabaseIssue) (cause : Option Fault)
  | mistyped (expected found : String) (column : Option String)
  | misuse (reason : Misuse) (cause : Option Fault)
  | serialization (message : String)

namespace Fault

def detail : Fault → String
  | modelNotFound name registered =>
    "'" ++ name ++ "' is not registered (registered models: " ++
      String.intercalate ", " registered ++ ")"
  | relationNotFound model relation =>
    "model '" ++ model ++ "' has no relation '" ++ relation ++ "'"
  | objectNotFound model id => "no " ++ model ++ " with id " ++ id.display
  | foreignIdNotFound relation lookupColumn value =>
    "relation '" ++ relation ++ "': no row where " ++ lookupColumn ++ " = " ++ value.display
  | statement sql _ message _ => message ++ "\nSQL: " ++ sql
  | database issue _ => issue.message
  | mistyped expected found none => "expected " ++ expected ++ ", found " ++ found
  | mistyped expected found (some column) =>
    "expected " ++ expected ++ " for column '" ++ column ++ "', found " ++ found
  | misuse reason _ => reason.message
  | serialization message => message

def label : Fault → String
  | modelNotFound .. => "Model not found"
  | relationNotFound .. => "Relation not found"
  | objectNotFound .. => "Object not found"
  | foreignIdNotFound .. => "Foreign id not found"
  | statement .. => "SQL error"
  | database .. => "Database error"
  | mistyped .. => "Type error"
  | misuse .. => "Configuration error"
  | serialization .. => "Serialization error"

def message (e : Fault) : String :=
  e.label ++ ": " ++ e.detail

def ofMisuse (reason : Misuse) : Fault :=
  misuse reason none

def ofDatabase (issue : DatabaseIssue) : Fault :=
  database issue none

def ofStatement (sql : String) (binds : List Value) (cause : Fault) : Fault :=
  statement sql binds cause.message (some cause)

def cause : Fault → Option Fault
  | statement _ _ _ c | database _ c | misuse _ c => c
  | _ => none

def causes : Fault → List Fault
  | statement _ _ _ (some c) | database _ (some c) | misuse _ (some c) => c :: c.causes
  | _ => []

def sql : Fault → Option String
  | statement sql .. => some sql
  | _ => none

def isNotFound : Fault → Bool
  | objectNotFound .. | foreignIdNotFound .. => true
  | _ => false

def isMisuse : Fault → Bool
  | misuse .. => true
  | _ => false

end Fault

end RelMapper
