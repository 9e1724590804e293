import RelMapper.Fault
namespace RelMapper

/-- How a result type is read from a value, and the name that faults call it by. -/
structure Reading (α : Type) where
  name : String
  read : Value → Except Fault α

namespace Reading

def mistyped (expected : String) (v : Value) : Fault :=
  .mistyped expected v.typeName none

def ofView {α : Type} (name : String) (view : Value → Option α) : Value → Except Fault α :=
  fun v ↦ (view v).elim (.error (mistyped name v)) .ok

def bool : Reading Bool :=
  ⟨"bool", ofView "bool" Value.asBool⟩

def int64 : Reading Int64 :=
  ⟨"i64", ofView "i64" fun
    | .text s => Text.readInt64 (Text.trim s)
    | v => v.asInt64⟩

def double : Reading Double :=
  ⟨"f64", ofView "f64" Value.asDouble⟩

def text : Reading String :=
  ⟨"alloc::string::String", ofView "String" Value.asText⟩

def optional {α : Type} (r : Reading α) : Reading (Option α) :=
  ⟨"core::option::Option<" ++ r.name ++ ">", fun
    | .null => .ok none
    | v => (r.read v).map some⟩

end Reading

abbrev Row := List Value

def Row.getAs {α : Type} (r : Reading α) (row : Row) (index : Nat) : Except Fault α :=
  match row[index]? with
  | some v => r.read v
  | none => .error (.mistyped r.name ("index " ++ toString index ++ " out of bounds (row has " ++
      toString row.length ++ " columns)") none)

end RelMapper
