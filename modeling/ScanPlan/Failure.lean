import ScanPlan.Partitioning
import ScanPlan.Split
import ScanPlan.Text.Numeral
import ScanPlan.Text.Quoted
import ScanPlan.Value

namespace ScanPlan

inductive Family where
  | base
  | planning
  | execution
  deriving DecidableEq, Repr

/-- What callers can tell failures apart by. -/
inductive Kind where
  | value
  | type
  | key
  | runtime
  | system
  | timeout
  | connection
  | grammar
  | missingFile
  | library
  | planning
  | partitionSetMismatch
  | groupLengthMismatch
  | boundaries
  | collaborator
  | execution
  | unassigned
  /-- Any other kind of ordinary failure by its name. A collaborator can put a kind of its own
  into a family. -/
  | other (name : String) (family? : Option Family)
  deriving DecidableEq, Repr

def Kind.family? : Kind → Option Family
  | .library => some .base
  | .planning | .partitionSetMismatch | .groupLengthMismatch | .boundaries | .collaborator =>
      some .planning
  | .execution | .unassigned => some .execution
  | .other _ family? => family?
  | _ => none

inductive Task where
  | prepare
  | listBoundaries (partitionSet : String)
  | resolveHost (partitionSet : String)
  deriving DecidableEq, Repr

def Task.text : Task → String
  | .prepare => "prepare query"
  | .listBoundaries p => s!"list partition boundaries of {p}"
  | .resolveHost p => s!"resolve host in {p}"

/-- Every way in which planning a query or running a split can fail, by its cause. A failure is
one that handlers of ordinary failures catch, as those of the planner and of the delivery do.
What passes such handlers, like a request to stop the whole program, is none. -/
inductive Failure where
  | foreign (kind : Kind) (text : String)
  | wrapped (task : Task) (cause : Failure)
  | windowOutside (offset length : Int) (size : Nat)
  | negativeGroupLength (length : Int)
  | reversedScan (first last : Key)
  | noScans
  | partitionSetsDiffer (expected found : String)
  | groupLengthsDiffer (expected found : Nat)
  | badBoundaries (partitionSet : String) (defect : Partitioning.Defect)
  | unknownPartitionSet (partitionSet : String)
  | missingField (name : String)
  | byteOutOfRange
  | notBytes (kind : ValueKind)
  | missingProperty (name : String)
  | notANumeral (text : String) (fault : Text.Fault)
  | negativeParameter (index : Int)
  | parameterNotText (index : Int) (kind : ValueKind)
  | unassignedSplit (split : Split)
  | noCurrentRow
  | tooFewWorkers (workers : Int)
  | missingDirectory (path : String)
  | nameTooLong (path : String)
  | directoryForTable (path : String)
  | missingColumn (name : String)
  | incomparableKey (kind : ValueKind)
  deriving DecidableEq, Repr

namespace Failure

def kind : Failure → Kind
  | foreign kind _ => kind
  | wrapped _ _ => .collaborator
  | windowOutside _ _ _ => .value
  | negativeGroupLength _ => .value
  | reversedScan _ _ => .value
  | noScans => .value
  | partitionSetsDiffer _ _ => .partitionSetMismatch
  | groupLengthsDiffer _ _ => .groupLengthMismatch
  | badBoundaries _ _ => .boundaries
  | unknownPartitionSet _ => .key
  | missingField _ => .key
  | byteOutOfRange => .value
  | notBytes _ => .type
  | missingProperty _ => .value
  | notANumeral _ _ => .value
  | negativeParameter _ => .value
  | parameterNotText _ _ => .type
  | unassignedSplit _ => .unassigned
  | noCurrentRow => .runtime
  | tooFewWorkers _ => .value
  | missingDirectory _ => .missingFile
  | nameTooLong _ => .system
  | directoryForTable _ => .system
  | missingColumn _ => .key
  | incomparableKey _ => .type

def family? (f : Failure) : Option Family :=
  f.kind.family?

def isPlanning (f : Failure) : Bool :=
  f.family? == some .planning

def cause? : Failure → Option Failure
  | wrapped _ cause => some cause
  | _ => none

def numeralWidth : Nat := 200

def limitText (limit : Nat) (about : String) : String :=
  s!"Exceeds the limit ({limit} digits) for integer string conversion{about}; " ++
    "use sys.set_int_max_str_digits() to increase the limit"

/-- The message about a window of a key. It cannot be given when an end of the window
has too many digits to be written. -/
def windowText (offset stop : Int) (size : Nat) : String :=
  if [offset, stop].all (Text.isWritable Text.usualLimit) then
    s!"Window [{offset}, {stop}) is outside key of length {size}"
  else limitText Text.usualLimit ""

def numeralText (text : String) : Text.Fault → String
  | .malformed =>
      "invalid literal for int() with base 10: " ++
        String.ofList ((Text.quoted text).toList.take numeralWidth)
  | .tooLong limit digits => limitText limit s!": value has {digits} digits"

def message : Failure → String
  | foreign .key text => Text.quoted text
  | foreign _ text => text
  | wrapped task cause => s!"Failed to {task.text}: {cause.message}"
  | windowOutside offset length size => windowText offset (offset + length) size
  | negativeGroupLength length => s!"group_key_len must be >= 0, got {length}"
  | reversedScan first last => s!"Scan range start {first.text} is after end {last.text}"
  | noScans => "Cannot build an overall range from zero scan ranges"
  | partitionSetsDiffer expected found =>
      s!"Scan ranges target different partition sets ({Text.quoted expected} and " ++
        s!"{Text.quoted found}); cross-partition-set plans are not supported"
  | groupLengthsDiffer expected found =>
      s!"Scan ranges use different grouping key lengths ({expected} and {found})"
  | badBoundaries partitionSet defect =>
      s!"Cannot align splits for {partitionSet}: {defect.text}"
  | unknownPartitionSet partitionSet => Text.quoted s!"Unknown partition set: {partitionSet}"
  | missingField name => Text.quoted name
  | byteOutOfRange => "bytes must be in range(0, 256)"
  | notBytes .text => "string argument without an encoding"
  | notBytes kind => s!"cannot convert '{kind.name}' object to bytes"
  | missingProperty name => s!"Missing required property {Text.quoted name}"
  | notANumeral text fault => numeralText text fault
  | negativeParameter index => s!"Parameter index must be >= 0, got {index}"
  | parameterNotText index kind => s!"Parameter {index} must be a string, got {kind.name}"
  | unassignedSplit split =>
      s!"{split.text} has no partition set identifier; planning produced an invalid split"
  | noCurrentRow => "No current row: call advance() first"
  | tooFewWorkers workers => s!"max_workers must be >= 1, got {workers}"
  | missingDirectory path => s!"Data directory not found: {path}"
  | nameTooLong path => s!"[Errno 36] File name too long: {Text.quoted path}"
  | directoryForTable path => s!"Cannot open for reading: path '{path}' is a directory"
  | missingColumn name => Text.quoted name
  | incomparableKey kind => s!"'<' not supported between instances of '{kind.name}' and 'bytes'"

end Failure

end ScanPlan
