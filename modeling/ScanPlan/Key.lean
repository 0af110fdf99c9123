/-!
# Keys

A key is a string of bytes. Keys are compared byte by byte as unsigned numbers,
and a proper prefix sorts before its extensions: the lexicographic order that
`List` carries over `UInt8`. The exclusive end of a range is an `Option Key`,
where `none` runs to the end of the key space.
-/

namespace ScanPlan

/-- A key of a table, ordered lexicographically by unsigned bytes. -/
abbrev Key := List UInt8

namespace Key

def byteDigits (b : UInt8) : List Char :=
  [Nat.digitChar (b.toNat / 16), Nat.digitChar (b.toNat % 16)]

def digits (k : Key) : List Char :=
  k.flatMap byteDigits

@[simp] theorem digits_length (k : Key) : k.digits.length = 2 * k.length := by
  induction k with
  | nil => rfl
  | cons b k ih =>
      simp only [digits, List.flatMap_cons, List.length_append] at ih ⊢
      simp [ih, byteDigits]
      omega

def text (k : Key) : String :=
  if k = [] then "<empty>" else String.ofList k.digits

def endText : Option Key → String
  | none => "<unbounded>"
  | some k => k.text

end Key

end ScanPlan
