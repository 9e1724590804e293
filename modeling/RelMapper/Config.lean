import RelMapper.Fault
import RelMapper.Json.Document
namespace RelMapper

structure Config where
  /-- The statement that tells the id of the last row inserted. -/
  lastInsertIdSql : String := "SELECT last_insert_rowid()"
  /-- The size of a page when only its number is given. -/
  defaultPageSize : UInt64 := 20
  logParams : Bool := false
deriving DecidableEq

namespace Config

def check (c : Config) : Except Fault Unit :=
  if Text.isBlankText c.lastInsertIdSql then .error (.ofMisuse .blankLastInsertIdQuery)
  else if c.defaultPageSize = 0 then .error (.ofMisuse .zeroPageSize)
  else .ok ()

def readMember (c : Config) (seen : List String) (key : String) (value : Document) :
    Option Config :=
  match key with
  | "last_insert_id_sql" => do
    guard (!seen.contains key)
    return { c with lastInsertIdSql := ← value.text? }
  | "default_page_size" => do
    guard (!seen.contains key)
    return { c with defaultPageSize := ← value.uint64? }
  | "log_params" => do
    guard (!seen.contains key)
    return { c with logParams := ← value.bool? }
  | _ => some c

def readMembers (c : Config) (seen : List String) :
    List (List StringUnit × Document) → Option Config
  | [] => some c
  | (units, value) :: rest => do
    let key := String.ofList (← Document.decode units)
    (← c.readMember seen key value).readMembers (key :: seen) rest

def readItems (c : Config) : List Document → Option Config
  | [] => some c
  | [sql] => return { c with lastInsertIdSql := ← sql.text? }
  | [sql, size] =>
    return { c with lastInsertIdSql := ← sql.text?, defaultPageSize := ← size.uint64? }
  | [sql, size, log] =>
    return { lastInsertIdSql := ← sql.text?, defaultPageSize := ← size.uint64?,
             logParams := ← log.bool? }
  | _ => none

/-- Settings may be given by name or, in an array, by position. -/
def ofDocument : Document → Option Config
  | .object members => readMembers {} [] members
  | .array items => readItems {} items
  | _ => none

def ofText (s : String) : Except Fault Config :=
  match (Document.read? s).bind ofDocument with
  | some c => c.check.map fun _ ↦ c
  | none => .error (.serialization "the text is no configuration")

end Config

end RelMapper
