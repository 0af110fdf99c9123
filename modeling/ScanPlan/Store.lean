import ScanPlan.Store.Path
import ScanPlan.Store.Table

namespace ScanPlan

abbrev Location := List String

inductive Node where
  | directory
  | table (t : Table)
  | other
  deriving DecidableEq, Repr

/-- A tree of nodes below a root, which messages call by its name. -/
structure Store where
  root : String
  nodes : List (Location × Node)
  distinct : (nodes.map (·.1)).Nodup
  deriving DecidableEq, Repr

/-- Where a path leads: to a location of a store, or out of the store. -/
inductive Place where
  | inside (l : Location)
  | outside
  deriving DecidableEq, Repr

inductive Lost where
  | missing
  | tooLong
  deriving DecidableEq, Repr

def Lost.failure (text : String) : Lost → Failure
  | missing => .missingDirectory text
  | tooLong => .nameTooLong text

namespace Store

def suffix : String := ".parquet"

def empty (root : String) : Store :=
  ⟨root, [([], .directory)], by simp⟩

def at? (s : Store) (l : Location) : Option Node :=
  s.nodes.lookup l

def put (s : Store) (l : Location) (n : Node) : Store :=
  ⟨s.root, Named.put l n s.nodes, Named.nodup_put s.distinct⟩

def cover (s : Store) (l : Location) : Store :=
  if (s.at? l).isSome then s else s.put l .directory

def makeWay (s : Store) (l : Location) : List String → Store × Location
  | [] => (s, l)
  | step :: rest =>
      if step = Path.up then s.makeWay l.dropLast rest
      else (s.cover (l ++ [step])).makeWay (l ++ [step]) rest

def addDirectory (s : Store) (p : Path) : Store :=
  (s.makeWay [] p.steps).1

def addFile (s : Store) (p : Path) (n : Node) : Store :=
  match p.steps.getLast? with
  | none => s
  | some name =>
      let (s, l) := s.makeWay [] p.steps.dropLast
      s.put (l ++ [name]) n

def build (root : String) (directories : List Path) (files : List (Path × Node)) : Store :=
  files.foldl (fun s f => s.addFile f.1 f.2) (directories.foldl addDirectory (empty root))

def step (s : Store) (place : Place) (name : String) : Except Lost Place :=
  match place with
  | .outside =>
      if name = Path.up then .ok .outside
      else if Path.nameLimit < name.utf8ByteSize then .error .tooLong
      else .error .missing
  | .inside l =>
      if s.at? l ≠ some .directory then .error .missing
      else if name = Path.up then
        .ok (if l.isEmpty then .outside else .inside l.dropLast)
      else if Path.nameLimit < name.utf8ByteSize then .error .tooLong
      else if (s.at? (l ++ [name])).isSome then .ok (.inside (l ++ [name]))
      else .error .missing

/-- The place that a path leads to. A path with a null character in it leads nowhere. -/
def resolve (s : Store) (p : Path) : Except Lost Place :=
  if p.steps.any fun step => step.contains '\x00' then .error .missing
  else if Path.textLimit < (p.text s.root).utf8ByteSize then .error .tooLong
  else p.steps.foldlM s.step (if p.top.isSome then .outside else .inside [])

def nameIn (directory l : Location) : Option String :=
  match l.drop directory.length with
  | [name] => if directory.isPrefixOf l then some name else none
  | _ => none

def entryFor (root : String) (p : Path) (name : String) : Node → Option Entry
  | .table t => some ⟨name, (p.child name).text root, some t⟩
  | .directory => some ⟨name, (p.child name).text root, none⟩
  | .other => none

def entryIn (root : String) (p : Path) (directory : Location) (node : Location × Node) :
    Option Entry :=
  match nameIn directory node.1 with
  | some name => if name.endsWith suffix then entryFor root p name node.2 else none
  | none => none

def entries (s : Store) (p : Path) : Place → List Entry
  | .outside => []
  | .inside l =>
      (s.nodes.filterMap (entryIn s.root p l)).mergeSort fun e f => decide (e.name ≤ f.name)

def reader (s : Store) (directory keyColumn : String) : Except Failure Reader :=
  let p := Path.ofText directory
  match s.resolve p with
  | .ok place => .ok ⟨s.entries p place, keyColumn⟩
  | .error lost => .error (lost.failure (p.text s.root))

/-- The executor that reads each interval from the directory of its partition
set. -/
def executor (s : Store) (keyColumn : String) (batchSize : Nat) : Executor Row :=
  fun range partitionSet => do
    let r ← .ofExcept (s.reader partitionSet keyColumn)
    .report (.tablesFound partitionSet r.entries.length)
    pure (.iterator (r.items batchSize range) none .succeeds)

end Store

end ScanPlan
