import ScanPlan.Failure

namespace ScanPlan

inductive Field where
  | null
  | text (s : String)
  | bytes (k : Key)
  | numbers (ns : List Int)
  deriving DecidableEq, Repr

namespace Field

def text? : Field → Option String
  | text s => some s
  | _ => none

def byte? (n : Int) : Except Failure UInt8 :=
  if 0 ≤ n ∧ n < 256 then .ok (UInt8.ofNat n.toNat) else .error .byteOutOfRange

def key? : Field → Except Failure Key
  | bytes k => .ok k
  | numbers ns => ns.mapM byte?
  | null => .error (.notBytes .null)
  | text _ => .error (.notBytes .text)

def ofEnd : Option Key → Field
  | none => null
  | some k => bytes k

def end? : Option Field → Except Failure (Option Key)
  | none | some null => .ok none
  | some f => f.key?.map some

def ofText? : Option String → Field
  | none => null
  | some s => text s

end Field

/-- Named fields. Of two fields with one name the later counts. -/
abbrev Record := List (String × Field)

namespace Record

def get? (r : Record) (name : String) : Option Field :=
  r.reverse.lookup name

def get (r : Record) (name : String) : Except Failure Field :=
  match r.get? name with
  | some f => .ok f
  | none => .error (.missingField name)

end Record

namespace Split

def toRecord (s : Split) : Record :=
  [("host", .ofText? s.host),
    ("partition_set_id", .ofText? s.partitionSet),
    ("start", .bytes s.range.start),
    ("end", .ofEnd s.range.stop)]

/-- Reads a record as a split: its partition set, then its start and then its end. Fields of other
names count for nothing. -/
def ofRecord? (r : Record) : Except Failure Split := do
  let partitionSet ← r.get "partition_set_id"
  let start ← (← r.get "start").key?
  let stop ← Field.end? (r.get? "end")
  pure {
    host := (r.get? "host").bind Field.text?
    partitionSet := partitionSet.text?
    range := ⟨start, stop⟩ }

end Split

end ScanPlan
