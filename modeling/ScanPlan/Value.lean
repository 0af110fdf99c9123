namespace ScanPlan

inductive ValueKind where
  | null
  | boolean
  | integer
  | real
  | text
  | bytes
  | list
  | object
  deriving DecidableEq, Repr

def ValueKind.name : ValueKind → String
  | .null => "NoneType"
  | .boolean => "bool"
  | .integer => "int"
  | .real => "float"
  | .text => "str"
  | .bytes => "bytes"
  | .list => "list"
  | .object => "dict"

/-- A value where a text is wanted: the text, or what stands in its place. -/
inductive Value where
  | text (s : String)
  | other (kind : ValueKind)
  deriving DecidableEq, Repr

end ScanPlan
