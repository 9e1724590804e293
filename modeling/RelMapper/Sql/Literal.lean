import RelMapper.Double.Reader
import RelMapper.Double.Shortest
import RelMapper.Text.Blank
import RelMapper.Text.Split
namespace RelMapper

/-- A number as written in a statement. Text that is no number is kept as it stands. -/
inductive Numeral
  | integer (n : Int64)
  | decimal (x : Double)
  | verbatim (s : String)

namespace Numeral

def read (s : String) : Numeral :=
  match Text.readInt64 (Text.trim s), Double.read? (Text.trim s) with
  | some n, _ => integer n
  | none, some x => decimal x
  | none, none => verbatim s

def sql : Numeral → String
  | integer n => toString n.toInt
  | decimal x => x.toText
  | verbatim s => s

end Numeral

/-- The truth values of SQL; `none` is the third one. -/
abbrev Truth := Option Bool

def Truth.sql : Truth → String
  | some true => "TRUE"
  | some false => "FALSE"
  | none => "UNKNOWN"

inductive Literal
  | text (s : String)
  | date (s : String)
  | numeral (n : Numeral)
  | truth (t : Truth)

namespace Literal

/-- A quote inside quoted text is written twice. -/
def quoted (s : String) : String :=
  String.ofList ('\'' :: Text.double '\'' s.toList ++ ['\''])

def sql : Literal → String
  | text s | date s => quoted s
  | numeral n => n.sql
  | truth t => Truth.sql t

end Literal

end RelMapper
