import ScanPlan.Key

namespace ScanPlan

/-- The start keys of a table's partitions, in order. -/
structure Partitioning where
  first : Key
  rest : List Key
  ascending : (first :: rest).Pairwise (· < ·)
  deriving DecidableEq, Repr

namespace Partitioning

inductive Defect where
  | noPartitions
  | notAscendingAt (index : Nat)
  deriving DecidableEq, Repr

def Defect.text : Defect → String
  | .noPartitions => "no-partitions"
  | .notAscendingAt i => s!"not-ascending-at-{i}"

def descentFrom (i : Nat) (previous : Key) : List Key → Option Nat
  | [] => none
  | k :: ks => if k ≤ previous then some i else descentFrom (i + 1) k ks

theorem pairwise_of_descentFrom_eq_none {i : Nat} {previous : Key} {ks : List Key}
    (h : descentFrom i previous ks = none) : (previous :: ks).Pairwise (· < ·) := by
  induction ks generalizing i previous with
  | nil => simp
  | cons k ks ih =>
      simp only [descentFrom] at h
      split at h
      · contradiction
      · rename_i hk
        have hlt : previous < k := List.not_le.mp hk
        have hrest := ih h
        refine List.pairwise_cons.mpr ⟨fun x hx => ?_, hrest⟩
        rcases List.mem_cons.mp hx with rfl | hx
        · exact hlt
        · exact List.lt_trans hlt ((List.pairwise_cons.mp hrest).1 x hx)

/-- Boundaries cut a table when there is at least one and each lies after the one before. -/
def ofList? : List Key → Except Defect Partitioning
  | [] => .error .noPartitions
  | k :: ks =>
      match h : descentFrom 1 k ks with
      | some i => .error (.notAscendingAt i)
      | none => .ok ⟨k, ks, pairwise_of_descentFrom_eq_none h⟩

def verdict (ks : List Key) : String :=
  match ofList? ks with
  | .ok _ => "ok"
  | .error d => d.text

def accepts (ks : List Key) : Bool :=
  (ofList? ks).toOption.isSome

def boundaries (p : Partitioning) : List Key :=
  p.first :: p.rest

theorem boundaries_of_ofList? {ks : List Key} {p : Partitioning} (h : ofList? ks = .ok p) :
    p.boundaries = ks := by
  unfold ofList? at h
  split at h
  · contradiction
  · split at h
    · contradiction
    · cases h
      rfl

def coversStart (ks : List Key) : Bool :=
  ks.head? == some []

end Partitioning

end ScanPlan
