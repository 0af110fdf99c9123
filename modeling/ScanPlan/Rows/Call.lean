import ScanPlan.Rows.Passage

namespace ScanPlan

inductive Call where
  | advance
  | current
  | close
  | take (limit : Option Nat)
  /-- Read rows, then fail if told so, and close the cursor in any case. -/
  | within (limit : Option Nat) (raised : Option Failure)
  deriving DecidableEq, Repr

inductive Reply (ρ : Type) where
  | moved (reached : Bool)
  | row (r : ρ)
  | closed
  | rows (rs : List ρ) (failure? : Option Failure)
  | failed (f : Failure)
  deriving DecidableEq, Repr

def Passage.reply {ρ : Type} (p : Passage ρ) : Reply ρ × Cursor ρ :=
  (.rows p.rows p.failure?, p.cursor)

namespace Cursor

variable {ρ : Type}

def answer (c : Cursor ρ) : Call → Reply ρ × Cursor ρ
  | .advance =>
      match c.advance with
      | (.ok reached, c') => (.moved reached, c')
      | (.error f, c') => (.failed f, c')
  | .current =>
      match c.current with
      | .ok r => (.row r, c)
      | .error f => (.failed f, c)
  | .close =>
      match c.close with
      | (.ok _, c') => (.closed, c')
      | (.error f, c') => (.failed f, c')
  | .take limit => (c.take limit).reply
  | .within limit raised => ((c.take limit).raise raised).finish.reply

def answers (c : Cursor ρ) : List Call → List (Reply ρ × Cursor ρ)
  | [] => []
  | call :: calls =>
      let (reply, c') := c.answer call
      (reply, c') :: c'.answers calls

def after (c : Cursor ρ) (calls : List Call) : Cursor ρ :=
  calls.foldl (fun c call => (c.answer call).2) c

end Cursor

end ScanPlan
