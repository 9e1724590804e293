import RelMapper.Double.Reader
import RelMapper.Double.Shortest
import RelMapper.Text.Blank
namespace RelMapper

/-- A value bound to a placeholder, read from a column or kept in an entity's field. Dates and
timestamps are carried as text, and arrays hold the ids written to a many-to-many relation. -/
inductive Value
  | null
  | bool (b : Bool)
  | int (n : Int32)
  | bigInt (n : Int64)
  | double (x : Double)
  | text (s : String)
  | bytes (bs : List UInt8)
  | array (items : List Value)

instance : Inhabited Value := ⟨.null⟩

namespace Value

def isNull : Value → Bool
  | null => true
  | _ => false

def typeName : Value → String
  | null => "NULL"
  | bool _ => "BOOLEAN"
  | int _ => "INTEGER"
  | bigInt _ => "BIGINT"
  | double _ => "DOUBLE"
  | text _ => "TEXT"
  | bytes _ => "BLOB"
  | array _ => "ARRAY"

/-- Null, false, zero and everything empty are not truthy. -/
def isTruthy : Value → Bool
  | null => false
  | bool b => b
  | int n => n != 0
  | bigInt n => n != 0
  | double x => !x.isZero
  | text s => s != ""
  | bytes bs => !bs.isEmpty
  | array items => !items.isEmpty

def asBool : Value → Option Bool
  | bool b => some b
  | int n => some (n != 0)
  | bigInt n => some (n != 0)
  | _ => none

def asInteger : Value → Option Int64
  | int n => some n.toInt64
  | bigInt n => some n
  | _ => none

def asInt64 : Value → Option Int64
  | bool b => some (if b then 1 else 0)
  | v => v.asInteger

def asDouble : Value → Option Double
  | double x => some x
  | v => v.asInteger.map fun n ↦ Double.ofInt n.toInt

def asText : Value → Option String
  | text s => some s
  | _ => none

mutual

protected def beq : Value → Value → Bool
  | null, null => true
  | bool a, bool b => a == b
  | int a, int b => a == b
  | bigInt a, bigInt b => a == b
  | double a, double b => a == b
  | text a, text b => a == b
  | bytes a, bytes b => a == b
  | array a, array b => beqList a b
  | _, _ => false

def beqList : List Value → List Value → Bool
  | [], [] => true
  | a :: as, b :: bs => a.beq b && beqList as bs
  | _, _ => false

end

instance : BEq Value := ⟨Value.beq⟩

/-- Equality that does not distinguish the two integer widths: an id keeps its identity when it
comes back from the database in a wider column. -/
def sameAs (v w : Value) : Bool :=
  match v.asInteger, w.asInteger with
  | some a, some b => a == b
  | _, _ => v == w

mutual

def display : Value → String
  | null => "NULL"
  | bool b => if b then "true" else "false"
  | int n => toString n.toInt
  | bigInt n => toString n.toInt
  | double x => x.toText
  | text s => s
  | bytes bs => "<" ++ toString bs.length ++ " bytes>"
  | array items => "[" ++ displayItems items ++ "]"

def displayItems : List Value → String
  | [] => ""
  | [v] => v.display
  | v :: vs => v.display ++ ", " ++ displayItems vs

end

end Value

class ToValue (α : Type) where
  toValue : α → Value

export ToValue (toValue)

instance : ToValue Value := ⟨id⟩
instance : ToValue Bool := ⟨.bool⟩
instance : ToValue Int32 := ⟨.int⟩
instance : ToValue Int64 := ⟨.bigInt⟩
instance : ToValue UInt32 := ⟨fun n ↦ .bigInt (Int64.ofNat n.toNat)⟩
instance : ToValue Double := ⟨.double⟩
instance : ToValue String := ⟨.text⟩
instance : ToValue (List UInt8) := ⟨.bytes⟩
instance : ToValue (List Int64) := ⟨fun ns ↦ .array (ns.map .bigInt)⟩
instance : ToValue (List Value) := ⟨.array⟩

instance {α : Type} [ToValue α] : ToValue (Option α) :=
  ⟨fun | some a => toValue a | none => .null⟩

end RelMapper
