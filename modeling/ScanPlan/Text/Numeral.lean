/-!
# Integer numerals

An integer is written as an optional sign and decimal digits, where single
underscores may stand between digits and white space may surround the whole. The
digits of every script count (general category Nd of Unicode 14.0), and so does
every character with the property White_Space. Reading and writing can be limited to
a number of digits, in which underscores do not count and leading zeros do.
-/

namespace ScanPlan.Text

def blankRanges : List (Nat × Nat) :=
  [(0x09, 0x0D), (0x20, 0x20), (0x85, 0x85), (0xA0, 0xA0), (0x1680, 0x1680),
   (0x2000, 0x200A), (0x2028, 0x2029), (0x202F, 0x202F), (0x205F, 0x205F),
   (0x3000, 0x3000)]

def isBlank (c : Char) : Bool :=
  blankRanges.any fun r => r.1 ≤ c.toNat && c.toNat ≤ r.2

/-- The code points of the digit zero in every script that has decimal digits. The
other nine digits follow it. -/
def zeros : List Nat :=
  [0x30, 0x660, 0x6F0, 0x7C0, 0x966, 0x9E6, 0xA66, 0xAE6, 0xB66, 0xBE6, 0xC66, 0xCE6,
   0xD66, 0xDE6, 0xE50, 0xED0, 0xF20, 0x1040, 0x1090, 0x17E0, 0x1810, 0x1946, 0x19D0,
   0x1A80, 0x1A90, 0x1B50, 0x1BB0, 0x1C40, 0x1C50, 0xA620, 0xA8D0, 0xA900, 0xA9D0, 0xA9F0,
   0xAA50, 0xABF0, 0xFF10, 0x104A0, 0x10D30, 0x11066, 0x110F0, 0x11136, 0x111D0, 0x112F0,
   0x11450, 0x114D0, 0x11650, 0x116C0, 0x11730, 0x118E0, 0x11950, 0x11C50, 0x11D50,
   0x11DA0, 0x16A60, 0x16AC0, 0x16B50, 0x1D7CE, 0x1D7D8, 0x1D7E2, 0x1D7EC, 0x1D7F6,
   0x1E140, 0x1E2F0, 0x1E950, 0x1FBF0]

def digitValue? (c : Char) : Option Nat :=
  (zeros.find? fun z => z ≤ c.toNat && c.toNat ≤ z + 9).map (c.toNat - ·)

def usualLimit : Nat := 4300

def exceeded? (limit : Option Nat) (digits : Nat) : Option Nat :=
  limit.filter (· < digits)

inductive Fault where
  | malformed
  | tooLong (limit digits : Nat)
  deriving DecidableEq, Repr

/-- Scans the digits that follow the ones found so far, of which the last comes
first. A single underscore may stand before a digit, and nowhere else. What is left
begins with neither a digit nor an underscore. -/
def scanFrom (found : List Nat) : List Char → Option (List Nat × List Char)
  | [] => some (found, [])
  | '_' :: c :: rest =>
      match digitValue? c with
      | some d => scanFrom (d :: found) rest
      | none => none
  | c :: rest =>
      match digitValue? c with
      | some d => scanFrom (d :: found) rest
      | none => if c = '_' then none else some (found, c :: rest)

def scanDigits : List Char → Option (List Nat × List Char)
  | [] => none
  | c :: rest =>
      match digitValue? c with
      | some d => scanFrom [d] rest
      | none => none

def valueOf (digits : List Nat) : Nat :=
  digits.foldr (fun d n => 10 * n + d) 0

/-- Reads an unsigned number with white space after it. Whether there are too many
digits is decided before anything after them is looked at. -/
def readNat (limit : Option Nat) (cs : List Char) : Except Fault Nat :=
  match scanDigits cs with
  | none => .error .malformed
  | some (digits, rest) =>
      match exceeded? limit digits.length with
      | some most => .error (.tooLong most digits.length)
      | none => if rest.all isBlank then .ok (valueOf digits) else .error .malformed

def readInt (limit : Option Nat) (s : String) : Except Fault Int :=
  match s.toList.dropWhile isBlank with
  | '-' :: cs => (readNat limit cs).map fun n => -(n : Int)
  | '+' :: cs => (readNat limit cs).map Int.ofNat
  | cs => (readNat limit cs).map Int.ofNat

def isWritable (limit : Nat) (n : Int) : Bool :=
  decide (n.natAbs < Nat.pow 10 limit)

end ScanPlan.Text
