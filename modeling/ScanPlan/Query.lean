import ScanPlan.Query.Parameters

namespace ScanPlan

structure Query where
  text : String
  parameters : Parameters
  deriving DecidableEq, Repr

/-- Named values. Of two values with one name the later counts. -/
abbrev Properties := List (String × Value)

namespace Properties

/-- The value of a name. A null value counts as absent. -/
def get? (ps : Properties) (name : String) : Option Value :=
  match ps.reverse.lookup name with
  | some (.other .null) => none
  | v => v

/-- The text of a name. It is meant for names whose values are texts or absent, as those of the
text and the count of a query are. A value of another kind counts as absent here. -/
def text? (ps : Properties) (name : String) : Option String :=
  match ps.get? name with
  | some (.text s) => some s
  | _ => none

end Properties

namespace Query

def textName : String := "rangesplit.query"

def countName : String := "rangesplit.paramno"

def parameterName (i : Int) : String := "rangesplit.param." ++ toString i

def toProperties (q : Query) : Properties :=
  (textName, .text q.text) ::
    (countName, .text (toString q.parameters.count)) ::
    q.parameters.entries.map fun e => (parameterName e.1, .text e.2)

def countOf (limit : Option Nat) (ps : Properties) : Except Failure Int :=
  match ps.text? countName with
  | none => .ok 0
  | some s =>
      match Text.readInt limit s with
      | .ok n => .ok n
      | .error fault => .error (.notANumeral s fault)

def takeParameter (ps : Properties) (found : Parameters) (i : Nat) :
    Except Failure Parameters :=
  match ps.get? (parameterName i) with
  | none => .ok found
  | some v => found.set i v

def takeParameters (ps : Properties) : Nat → Nat → Parameters → Except Failure Parameters
  | 0, _, found => .ok found
  | n + 1, i, found =>
      match takeParameter ps found i with
      | .ok found => takeParameters ps n (i + 1) found
      | .error f => .error f

theorem takeParameters_eq_foldlM (ps : Properties) (n i : Nat) (found : Parameters) :
    takeParameters ps n i found = (List.range' i n).foldlM (takeParameter ps) found := by
  induction n generalizing i found with
  | zero => rfl
  | succ n ih =>
      rw [takeParameters, List.range'_succ, List.foldlM_cons]
      cases takeParameter ps found i with
      | ok found => exact ih (i + 1) found
      | error f => rfl

/-- Reads a query back. Its text is looked for first, then the count is read, and
then the parameters below the count in ascending order. -/
def ofProperties? (limit : Option Nat) (ps : Properties) : Except Failure Query :=
  match ps.text? textName with
  | none => .error (.missingProperty textName)
  | some text => do
      let count ← countOf limit ps
      let parameters ← takeParameters ps count.toNat 0 .empty
      pure ⟨text, parameters⟩

end Query

end ScanPlan
