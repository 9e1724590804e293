namespace RelMapper.Text

def splitFirst (sep : Char) (s : String) : Option (String × String) :=
  match s.toList.dropWhile (· != sep) with
  | [] => none
  | _ :: rest => some (String.ofList (s.toList.takeWhile (· != sep)), String.ofList rest)

/-- Writes `c` twice wherever it occurs. -/
def double (c : Char) (cs : List Char) : List Char :=
  cs.flatMap fun d ↦ if d = c then [d, d] else [d]

end RelMapper.Text
