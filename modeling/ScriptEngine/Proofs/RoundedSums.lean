import Mathlib
import ScriptEngine.Proofs.SharedLists

/-! # Sums of numbers

A sum is rounded once. Rounding does not pass by a number that the format can hold, so adding
something above zero never leads back, and it leads forward unless it leads nowhere. Whole numbers
up to the precision are held exactly, so on these sums and comparisons are those of the integers. -/

namespace ScriptEngine

/- Powers are those of core arithmetic. -/
attribute [local instance (high)] instPowNat

/-! ### Rounding keeps the order -/

namespace Format

variable {f : Format} {units num : Nat}

theorem significand_bounds (f : Format) (num : Nat) :
    num / 2 ^ f.excess num 1 ≤ f.significand num 1 ∧
      f.significand num 1 * 2 ^ f.excess num 1 < num + 2 ^ f.excess num 1 := by
  have hstep := Nat.two_pow_pos (f.excess num 1)
  have hdiv := Nat.div_add_mod num (2 ^ f.excess num 1)
  rw [Nat.mul_comm] at hdiv
  simp only [significand, Nat.one_mul]
  split
  · rename_i hup
    rw [Nat.add_mul]
    omega
  · omega

/-- Rounding does not pass by a multiple of the last bit that is kept. -/
theorem multiple_le_round {q : Nat} (h : q * 2 ^ f.excess num 1 ≤ num) :
    q * 2 ^ f.excess num 1 ≤ f.round num 1 := by
  have hquotient : q ≤ num / 2 ^ f.excess num 1 :=
    (Nat.le_div_iff_mul_le (Nat.two_pow_pos _)).mpr h
  exact Nat.mul_le_mul_right _ (Nat.le_trans hquotient (f.significand_bounds num).1)

theorem le_round (hfits : f.Fits units) (hle : units ≤ num) : units ≤ f.round num 1 := by
  obtain ⟨-, m, s, hm, hunits⟩ := hfits
  rcases Nat.lt_or_ge s (f.excess num 1) with hcoarse | hfine
  · -- The power of two that `num` starts with lies between them.
    obtain ⟨e, he⟩ : ∃ e, f.excess num 1 = e + 1 := ⟨f.excess num 1 - 1, by omega⟩
    have hprecision := f.precision_pos
    have hpower : 2 ^ (f.precision - 1) * 2 ^ f.excess num 1 = 2 ^ (f.precision + e) := by
      rw [he, ← Nat.pow_add]
      congr 1
      omega
    have hlead : 2 ^ (f.precision + e) ≤ num := by
      by_contra hlt
      have hexcess : f.excess num 1 ≤ e := excess_le (by omega)
      omega
    have hbelow : units ≤ 2 ^ (f.precision + e) := by
      rw [hunits, Nat.pow_add]
      exact Nat.mul_le_mul (Nat.le_of_lt hm) (Nat.pow_le_pow_right (by decide) (by omega))
    rw [← hpower] at hlead hbelow
    exact Nat.le_trans hbelow (multiple_le_round hlead)
  · have hmultiple : units = m * 2 ^ (s - f.excess num 1) * 2 ^ f.excess num 1 := by
      rw [hunits, Nat.mul_assoc, ← Nat.pow_add, Nat.sub_add_cancel hfine]
    rw [hmultiple] at hle ⊢
    exact multiple_le_round hle

theorem round_le (hfits : f.Fits units) (hle : num ≤ units) : f.round num 1 ≤ units := by
  obtain ⟨-, m, s, hm, hunits⟩ := hfits
  have hbelow : num < 2 ^ (f.precision + s) * 1 := by
    rw [Nat.mul_one, Nat.pow_add]
    exact Nat.lt_of_le_of_lt (hunits ▸ hle) (Nat.mul_lt_mul_of_pos_right hm (Nat.two_pow_pos s))
  have hfine : f.excess num 1 ≤ s := excess_le hbelow
  have hmultiple : units = m * 2 ^ (s - f.excess num 1) * 2 ^ f.excess num 1 := by
    rw [hunits, Nat.mul_assoc, ← Nat.pow_add, Nat.sub_add_cancel hfine]
  have hupper := (f.significand_bounds num).2
  rw [hmultiple] at hle ⊢
  refine Nat.mul_le_mul_right _ (Nat.le_of_lt_succ ?_)
  refine Nat.lt_of_mul_lt_mul_right (a := 2 ^ f.excess num 1) ?_
  rw [Nat.succ_mul]
  omega

/-- A count of units with its sign, rounded. -/
def roundSigned (f : Format) (num : Int) : Int :=
  if num < 0 then -(f.round num.natAbs 1 : Int) else f.round num.natAbs 1

end Format

namespace Number

variable {f : Format} {s t u : Bool} {m n k : Magnitude f} {num : Int}

theorem natAbs_signed (s : Bool) (m : Magnitude f) : (signed s m).natAbs = m.units := by
  cases s <;> simp [signed]

theorem le_roundSigned (hle : signed s m ≤ num) : signed s m ≤ f.roundSigned num := by
  have hlow : m.units ≤ num.natAbs → m.units ≤ f.round num.natAbs 1 := Format.le_round m.fits
  have hhigh : num.natAbs ≤ m.units → f.round num.natAbs 1 ≤ m.units := Format.round_le m.fits
  unfold Format.roundSigned
  cases s <;> simp only [signed] at hle ⊢ <;> split <;> grind

theorem roundSigned_le (hle : num ≤ signed s m) : f.roundSigned num ≤ signed s m := by
  have hlow : m.units ≤ num.natAbs → m.units ≤ f.round num.natAbs 1 := Format.le_round m.fits
  have hhigh : num.natAbs ≤ m.units → f.round num.natAbs 1 ≤ m.units := Format.round_le m.fits
  unfold Format.roundSigned
  cases s <;> simp only [signed] at hle ⊢ <;> split <;> grind

/-! ### Adding leads forward -/

theorem eq_of_signed_eq (h : signed s m = signed t n) (hzero : signed s m ≠ 0) :
    finite s m = finite t n := by
  obtain ⟨a, ha⟩ := m
  obtain ⟨b, hb⟩ := n
  have hsign : s = t := by
    cases s <;> cases t <;> simp only [signed] at h hzero <;> grind
  subst hsign
  have ha' := natAbs_signed s ⟨a, ha⟩
  rw [h, natAbs_signed s ⟨b, hb⟩] at ha'
  subst ha'
  rfl

/-- A rounded count is a number, unless it is out of range. -/
theorem ofSigned_cases (sign : Bool) (num : Int) :
    (∃ u k, (ofSigned sign num 1 : Number f) = .finite u k ∧ signed u k = f.roundSigned num) ∨
      (ofSigned sign num 1 : Number f) = .infinite (num < 0) ∧
        2 ^ f.limit ≤ f.round num.natAbs 1 := by
  have hzero : f.round 0 1 = 0 := Nat.le_zero.mp (Format.round_le f.fits_zero (Nat.le_refl 0))
  unfold ofSigned ofUnits Format.roundSigned
  split
  · refine .inl ⟨_, _, rfl, ?_⟩
    by_cases hnum : num = 0
    · subst hnum
      simp [signed, hzero]
    · by_cases hneg : num < 0 <;> simp [signed, hnum, hneg]
  · rename_i hrange
    refine .inr ⟨?_, Nat.le_of_not_lt hrange⟩
    have hnum : num ≠ 0 := by
      rintro rfl
      exact hrange (hzero ▸ Nat.two_pow_pos _)
    simp [hnum]

/-- Adding a number other than zero leaves a number as it is or moves it the way of the sign,
perhaps out of range. -/
theorem add_finite (s : Bool) (m : Magnitude f) (hn : signed t n ≠ 0) :
    (finite s m).add (finite t n) = .infinite (signed t n < 0) ∨
      ∃ u k, (finite s m).add (finite t n) = .finite u k ∧
        (finite u k = finite s m ∨
          (0 < signed t n ∧ signed s m < signed u k) ∨
          (signed t n < 0 ∧ signed u k < signed s m)) := by
  have hup : signed s m ≤ signed s m + signed t n →
      signed s m ≤ f.roundSigned (signed s m + signed t n) := le_roundSigned
  have hdown : signed s m + signed t n ≤ signed s m →
      f.roundSigned (signed s m + signed t n) ≤ signed s m := roundSigned_le
  rcases ofSigned_cases (f := f) (s && t) (signed s m + signed t n) with
    ⟨u, k, hsum, hk⟩ | ⟨hsum, hrange⟩
  · refine .inr ⟨u, k, hsum, ?_⟩
    by_cases heq : signed u k = signed s m
    · refine .inl (eq_of_signed_eq heq fun hzero => ?_)
      have hup' : signed t n ≤ signed s m + signed t n →
          signed t n ≤ f.roundSigned (signed s m + signed t n) := le_roundSigned
      have hdown' : signed s m + signed t n ≤ signed t n →
          f.roundSigned (signed s m + signed t n) ≤ signed t n := roundSigned_le
      omega
    · omega
  · left
    have hmagnitude := natAbs_signed s m
    have hfits := m.fits.1
    have hinside : (signed s m + signed t n).natAbs ≤ m.units →
        f.round (signed s m + signed t n).natAbs 1 ≤ m.units := Format.round_le m.fits
    have hsign : (signed s m + signed t n < 0) = (signed t n < 0) := by
      apply propext
      omega
    simp only [add, hsum, hsign]

/-! ### Whole numbers -/

/-- The number is the integer `i`; both zeros are the integer zero. -/
def IsInt (x : Number f) (i : Int) : Prop :=
  ∃ s m, x = .finite s m ∧ signed s m = i * (2 ^ f.scale : Nat)

theorem IsInt.lt_iff {x y : Number f} {a b : Int} (hx : x.IsInt a) (hy : y.IsInt b) :
    x.lt y = true ↔ a < b := by
  obtain ⟨s, m, rfl, hm⟩ := hx
  obtain ⟨t, n, rfl, hn⟩ := hy
  have hpos : (0 : Int) < (2 ^ f.scale : Nat) := by exact_mod_cast Nat.two_pow_pos f.scale
  simp only [lt, decide_eq_true_eq, hm, hn]
  exact Int.mul_lt_mul_right hpos

theorem IsInt.unique {x : Number f} {a b : Int} (ha : x.IsInt a) (hb : x.IsInt b) : a = b := by
  have hirrefl : ¬ x.lt x = true := mt (ha.lt_iff ha).mp (Int.lt_irrefl a)
  have hlt := mt (ha.lt_iff hb).mpr hirrefl
  have hgt := mt (hb.lt_iff ha).mpr hirrefl
  omega

/-- An integer of no more bits than the precision is held exactly. -/
theorem isInt_ofInt (hwide : f.precision + f.scale < f.limit) {i : Int}
    (hi : i.natAbs ≤ 2 ^ f.precision) : (ofInt i : Number f).IsInt i := by
  have hlimit : i.natAbs * 2 ^ f.scale < 2 ^ f.limit := by
    refine Nat.lt_of_le_of_lt (Nat.mul_le_mul_right _ hi) ?_
    rw [← Nat.pow_add]
    exact Nat.pow_lt_pow_right (by decide) hwide
  have hfits : f.Fits (i.natAbs * 2 ^ f.scale) := f.fits_of_le _ _ hi hlimit
  have hexact := ofUnits_exact (decide (i < 0)) ⟨_, hfits⟩ Nat.one_pos
  rw [Nat.mul_one] at hexact
  refine ⟨_, _, hexact, ?_⟩
  by_cases hneg : i < 0
  · have habs : (i.natAbs : Int) = -i := by omega
    simp only [signed, hneg, decide_true, if_true, Int.natCast_mul, habs, Int.neg_mul, Int.neg_neg]
  · have habs : (i.natAbs : Int) = i := by omega
    simp only [signed, hneg, decide_false, Bool.false_eq_true, if_false, Int.natCast_mul, habs]

/-- The sum of two integers, of which the second is not zero, is that of the integers, rounded. -/
theorem IsInt.add {x y : Number f} {a b : Int} (hx : x.IsInt a) (hy : y.IsInt b) (hb : b ≠ 0) :
    x.add y = ofInt (a + b) := by
  obtain ⟨s, m, rfl, hm⟩ := hx
  obtain ⟨t, n, rfl, hn⟩ := hy
  have hpos : (0 : Int) < (2 ^ f.scale : Nat) := by exact_mod_cast Nat.two_pow_pos f.scale
  have hsum : signed s m + signed t n = (a + b) * (2 ^ f.scale : Nat) := by
    rw [hm, hn, ← Int.add_mul]
  have hunits : (signed s m + signed t n).natAbs = (a + b).natAbs * 2 ^ f.scale := by
    rw [hsum, Int.natAbs_mul, Int.natAbs_natCast]
  have hsign : (if signed s m + signed t n = 0 then s && t
      else decide (signed s m + signed t n < 0)) = decide (a + b < 0) := by
    by_cases hzero : a + b = 0
    · -- Two numbers with a minus add up to zero only if both are zero.
      have hopposite : (s && t) = false := by
        have hne : signed t n ≠ 0 := by
          rw [hn]
          exact Int.mul_ne_zero hb (Int.ne_of_gt hpos)
        rw [hzero, Int.zero_mul] at hsum
        cases s <;> cases t <;> simp only [signed] at hsum hne ⊢ <;> grind
      simp [hsum, hzero, hopposite]
    · have hne : signed s m + signed t n ≠ 0 := by
        rw [hsum]
        exact Int.mul_ne_zero hzero (Int.ne_of_gt hpos)
      have hlt : signed s m + signed t n < 0 ↔ a + b < 0 := by
        rw [hsum, ← Int.mul_lt_mul_right (b := a + b) hpos, Int.zero_mul]
      simp only [hne, if_false, hlt]
  simp only [Number.add, ofSigned, hunits, hsign]
  rfl

end Number

end ScriptEngine
