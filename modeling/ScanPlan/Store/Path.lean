namespace ScanPlan

/-- Steps from the root of a store or, where there is one, from a top. -/
structure Path where
  top : Option String
  steps : List String
  deriving DecidableEq, Repr

namespace Path

def up : String := ".."

/-- The top that a text begins at. Two slashes are a top of their own, and any other
number of them counts as one. -/
def topOf (s : String) : Option String :=
  match (s.toList.takeWhile (· = '/')).length with
  | 0 => none
  | 2 => some "//"
  | _ => some "/"

def ofText (s : String) : Path :=
  ⟨topOf s, (s.splitOn "/").filter fun step => step ≠ "" && step ≠ "."⟩

def text (root : String) (p : Path) : String :=
  match p.top with
  | none => String.intercalate "/" (root :: p.steps)
  | some top => top ++ String.intercalate "/" p.steps

def child (p : Path) (name : String) : Path :=
  ⟨p.top, p.steps ++ [name]⟩

def nameLimit : Nat := 255

def textLimit : Nat := 4095

end Path

end ScanPlan
