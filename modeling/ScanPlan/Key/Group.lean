import ScanPlan.Key.Successor

/-!
# Group boundaries

The first `g` bytes of a key name its group. A boundary of a group is a key whose
bytes after the first `g` are all zero. A key is moved to the boundary of its own
group or of the next one, as the byte after the group's bytes says: below `0x80`
down, otherwise up.
-/

namespace ScanPlan.Key

/-- The group boundary near a key, at the length of the key. Keys of at most `g`
bytes are boundaries already. There is none when the next group would lie past
the last one. -/
def nearestGroup (g : Nat) (k : Key) : Option Key :=
  match k.drop g with
  | [] => some k
  | b :: rest =>
      let zeros := List.replicate (rest.length + 1) 0
      if b < 0x80 then some (k.take g ++ zeros)
      else (successor? (k.take g)).map (· ++ zeros)

theorem nearestGroup_of_length_le {g : Nat} {k : Key} (h : k.length ≤ g) :
    nearestGroup g k = some k := by
  simp [nearestGroup, List.drop_eq_nil_of_le h]

end ScanPlan.Key
