import ScanPlan.Text.Numeral

namespace ScanPlan.Proofs.NumeralReading

open ScanPlan.Text

variable {c : Char} {cs : List Char}

theorem toNat_bounds_of_isDigit (h : c.isDigit = true) : 48 ≤ c.toNat ∧ c.toNat ≤ 57 := by
  simp only [Char.isDigit, Bool.and_eq_true, decide_eq_true_eq] at h
  exact ⟨UInt32.le_iff_toNat_le.mp h.1, UInt32.le_iff_toNat_le.mp h.2⟩

theorem digitValue?_of_isDigit (h : c.isDigit = true) :
    digitValue? c = some (c.toNat - 48) := by
  obtain ⟨hlow, hhigh⟩ := toNat_bounds_of_isDigit h
  have hscript : (decide (48 ≤ c.toNat) && decide (c.toNat ≤ 48 + 9)) = true := by
    simp only [Bool.and_eq_true, decide_eq_true_eq]
    omega
  have hfind : zeros.find? (fun z => z ≤ c.toNat && c.toNat ≤ z + 9) = some 48 :=
    List.find?_cons_of_pos hscript
  rw [digitValue?, hfind]
  rfl

theorem isBlank_of_isDigit (h : c.isDigit = true) : isBlank c = false := by
  obtain ⟨hlow, hhigh⟩ := toNat_bounds_of_isDigit h
  apply Bool.eq_false_iff.mpr
  intro hblank
  simp only [isBlank, blankRanges, List.any_cons, List.any_nil, Bool.or_eq_true,
    Bool.and_eq_true, decide_eq_true_eq, Bool.false_eq_true, or_false] at hblank
  omega

theorem ne_of_isDigit {sign : Char} (h : c.isDigit = true) (hsign : sign.isDigit = false) :
    c ≠ sign := by
  rintro rfl
  rw [h] at hsign
  contradiction

theorem scanFrom_of_isDigit (h : ∀ c ∈ cs, c.isDigit = true) (found : List Nat) :
    ∃ digits, scanFrom found cs = some (digits, []) ∧
      valueOf digits = Nat.ofDigitChars 10 cs (valueOf found) := by
  induction cs generalizing found with
  | nil => exact ⟨found, rfl, rfl⟩
  | cons c cs ih =>
      obtain ⟨hc, hcs⟩ := List.forall_mem_cons.mp h
      obtain ⟨digits, hscan, hvalue⟩ := ih hcs ((c.toNat - 48) :: found)
      refine ⟨digits, ?_, ?_⟩
      · rw [scanFrom.eq_3 _ _ _ fun _ _ heq _ => ne_of_isDigit hc rfl heq]
        simp only [digitValue?_of_isDigit hc]
        exact hscan
      · rw [hvalue, Nat.ofDigitChars_cons]
        rfl

theorem readNat_of_isDigit (hne : cs ≠ []) (h : ∀ c ∈ cs, c.isDigit = true) :
    readNat none cs = .ok (Nat.ofDigitChars 10 cs 0) := by
  cases cs with
  | nil => exact absurd rfl hne
  | cons c cs =>
      obtain ⟨hc, hcs⟩ := List.forall_mem_cons.mp h
      obtain ⟨digits, hscan, hvalue⟩ := scanFrom_of_isDigit hcs [c.toNat - 48]
      have hdigits : scanDigits (c :: cs) = some (digits, []) := by
        simp only [scanDigits, digitValue?_of_isDigit hc]
        exact hscan
      rw [readNat, hdigits, Nat.ofDigitChars_cons]
      exact congrArg Except.ok hvalue

theorem readNat_toDigits (n : Nat) : readNat none (Nat.toDigits 10 n) = .ok n := by
  rw [readNat_of_isDigit Nat.toDigits_ne_nil, Nat.ofDigitChars_ten_toDigits]
  intro c hc
  exact Nat.isDigit_of_mem_toDigits (by decide) (by decide) hc

theorem exists_toDigits_eq_cons (n : Nat) :
    ∃ c cs, Nat.toDigits 10 n = c :: cs ∧ c.isDigit = true := by
  obtain ⟨c, cs, heq⟩ := List.exists_cons_of_ne_nil (Nat.toDigits_ne_nil (b := 10) (n := n))
  refine ⟨c, cs, heq, ?_⟩
  apply Nat.isDigit_of_mem_toDigits (b := 10) (n := n) (by decide) (by decide)
  rw [heq]
  exact List.mem_cons_self

theorem readInt_repr (n : Nat) : readInt none n.repr = .ok (n : Int) := by
  obtain ⟨c, cs, heq, hc⟩ := exists_toDigits_eq_cons n
  have hread := readNat_toDigits n
  have hstart : ¬ isBlank c = true := by
    rw [isBlank_of_isDigit hc]
    exact Bool.false_ne_true
  rw [readInt, Nat.toList_repr, heq, List.dropWhile_cons_of_neg hstart]
  rw [heq] at hread
  split
  · rename_i hsign
    exact absurd (List.cons.inj hsign).1 (ne_of_isDigit hc rfl)
  · rename_i hsign
    exact absurd (List.cons.inj hsign).1 (ne_of_isDigit hc rfl)
  · rw [hread]
    rfl

theorem readInt_neg_repr (n : Nat) : readInt none ("-" ++ n.repr) = .ok (-(n : Int)) := by
  have hlist : ("-" ++ n.repr).toList = '-' :: Nat.toDigits 10 n := by
    rw [String.toList_append, Nat.toList_repr]
    rfl
  rw [readInt, hlist, List.dropWhile_cons_of_neg (by decide)]
  simp only [readNat_toDigits]
  rfl

theorem readInt_toString (n : Int) : readInt none (toString n) = .ok n := by
  change readInt none n.repr = .ok n
  rw [Int.repr_eq_if]
  split
  · rename_i hn
    rw [readInt_repr, Int.toNat_of_nonneg hn]
  · rename_i hn
    rw [readInt_neg_repr, Int.toNat_of_nonneg (by omega), Int.neg_neg]

end ScanPlan.Proofs.NumeralReading
