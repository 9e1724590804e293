import RelMapper.Slots
import RelMapper.Value
namespace RelMapper

inductive Json
  | null
  | bool (b : Bool)
  | integer (n : Int)
  | double (x : Double)
  | text (s : String)
  | array (items : List Json)
  | object (members : List (String × Json))

namespace Value

mutual

/-- Doubles without a number are null, and bytes are written as an array of numbers. -/
def toJson : Value → Json
  | null => .null
  | bool b => .bool b
  | int n => .integer n.toInt
  | bigInt n => .integer n.toInt
  | double x => if x.isFinite then .double x else .null
  | text s => .text s
  | bytes bs => .array (bs.map fun b ↦ .integer b.toNat)
  | array items => .array (itemsToJson items)

def itemsToJson : List Value → List Json
  | [] => []
  | v :: vs => v.toJson :: itemsToJson vs

end

end Value

end RelMapper
