import ScanPlan.Failure
import ScanPlan.Key.Successor

namespace ScanPlan.Key

/-- A key with the bytes of a window increased by one, and whether the carry left
the window. The window has to lie inside the key. -/
def increment (k : Key) (offset length : Int) : Except Failure (Key × Bool) :=
  if offset < 0 ∨ length < 0 ∨ (k.length : Int) < offset + length then
    .error (.windowOutside offset length k.length)
  else
    let o := offset.toNat
    let n := length.toNat
    let (window, carry) := next ((k.drop o).take n)
    .ok (k.take o ++ window ++ k.drop (o + n), carry)

end ScanPlan.Key
