import ScriptEngine.Number.Decimal

/-! # Decimal text reads back

The shortest digits of a magnitude lie in the interval around it, and what lies in that interval
rounds to the magnitude. The text of the digits is read as the decimal that it was written for. -/

namespace ScriptEngine

/- Powers are those of core arithmetic. -/
attribute [local instance (high)] instPowNat

open Decimal

/-! ### Rounding -/

/-- The multiple of `step` nearest to `num`, the even one of two. -/
theorem nearest_eq {num step m : Nat} (hstep : 0 < step) (hlow : 2 * (m * step) ≤ 2 * num + step)
    (hhigh : 2 * num ≤ 2 * (m * step) + step)
    (hodd : m % 2 = 1 → 2 * (m * step) < 2 * num + step ∧ 2 * num < 2 * (m * step) + step) :
    (if step < 2 * (num % step) ∨ (2 * (num % step) = step ∧ num / step % 2 = 1)
      then num / step + 1 else num / step) = m := by
  have hdiv := Nat.div_add_mod num step
  have hmod := Nat.mod_lt num hstep
  rw [Nat.mul_comm step] at hdiv
  generalize num / step = q at *
  generalize num % step = r at *
  have hle : m ≤ q + 1 := by
    rcases Nat.lt_or_ge (q + 1) m with hlt | hge
    · have hmul : (q + 2) * step ≤ m * step := Nat.mul_le_mul_right step hlt
      rw [Nat.add_mul] at hmul
      omega
    · exact hge
  have hge : q ≤ m := by
    rcases Nat.lt_or_ge m q with hlt | hge
    · have hmul : (m + 1) * step ≤ q * step := Nat.mul_le_mul_right step hlt
      rw [Nat.add_mul] at hmul
      omega
    · exact hge
  rcases Nat.lt_or_ge q m with hup | hdown
  · obtain rfl : m = q + 1 := by omega
    rw [Nat.add_mul] at hlow hhigh hodd
    split
    · rfl
    · omega
  · obtain rfl : m = q := by omega
    split
    · omega
    · rfl

namespace Format

variable {f : Format} {units num den : Nat}

/-- The low bits that a magnitude has in excess are zero. -/
theorem Fits.multiple (h : f.Fits units) :
    units = units / 2 ^ f.excess units 1 * 2 ^ f.excess units 1 := by
  obtain ⟨-, m, s, hm, hunits⟩ := h
  have hdvd : 2 ^ f.excess units 1 ∣ units := by
    by_cases hzero : units = 0
    · rw [hzero]
      exact Nat.dvd_zero _
    · have hs : f.excess units 1 ≤ s := by
        have hbelow : units < 2 ^ (f.precision + s) := by
          rw [hunits, Nat.pow_add]
          exact Nat.mul_lt_mul_of_pos_right hm (Nat.two_pow_pos s)
        have hlog := (Nat.log2_lt hzero).mpr hbelow
        rw [excess, Nat.div_one]
        omega
      rw [hunits]
      exact Nat.dvd_trans (Nat.pow_dvd_pow 2 (hunits ▸ hs)) (Nat.dvd_mul_left _ _)
  rw [Nat.div_mul_cancel hdvd]

theorem Fits.step_le (h : f.Fits units) (hpos : 0 < units) : 2 ^ f.excess units 1 ≤ units := by
  rcases Nat.lt_or_ge units (2 ^ f.excess units 1) with hlt | hge
  · have hunits := h.multiple
    rw [Nat.div_eq_of_lt hlt, Nat.zero_mul] at hunits
    omega
  · exact hge

end Format

/-! ### The interval around a magnitude -/

namespace Format

variable {f : Format} {units num den : Nat}

theorem round_of_significand {m e : Nat} (he : f.excess num den = e)
    (hm : (if den * 2 ^ e < 2 * (num % (den * 2 ^ e)) ∨
      (2 * (num % (den * 2 ^ e)) = den * 2 ^ e ∧ num / (den * 2 ^ e) % 2 = 1)
        then num / (den * 2 ^ e) + 1 else num / (den * 2 ^ e)) = m) :
    f.round num den = m * 2 ^ e := by
  rw [round, significand, he, hm]

theorem excess_le {e : Nat} (h : num < 2 ^ (f.precision + e) * den) :
    f.excess num den ≤ e := by
  have hquotient : num / den < 2 ^ (f.precision + e) :=
    Nat.div_lt_of_lt_mul (Nat.mul_comm den _ ▸ h)
  have hprecision := f.precision_pos
  rw [excess]
  by_cases hzero : num / den = 0
  · rw [hzero, Nat.log2_zero]
    omega
  · have hlog := (Nat.log2_lt hzero).mpr hquotient
    omega

theorem le_excess {e : Nat} (hden : 0 < den) (h : 2 ^ (f.precision + e) * den ≤ num) :
    e + 1 ≤ f.excess num den := by
  have hquotient : 2 ^ (f.precision + e) ≤ num / den := (Nat.le_div_iff_mul_le hden).mpr h
  have hne : num / den ≠ 0 := Nat.ne_of_gt (Nat.lt_of_lt_of_le (Nat.two_pow_pos _) hquotient)
  have hlog := (Nat.le_log2 hne).mpr hquotient
  rw [excess]
  omega

/-- What lies in the interval around a magnitude, with its ends if the significand is even. -/
structure Around (f : Format) (units num den : Nat) : Prop where
  high : 4 * num ≤ 4 * (units * den) + 2 * (2 ^ f.excess units 1 * den)
  low : 4 * (units * den) ≤ 4 * num + 2 * (2 ^ f.excess units 1 * den)
  fine : f.excess units 1 ≠ 0 → units = 2 ^ (f.excess units 1 + f.precision - 1) →
    4 * (units * den) ≤ 4 * num + 2 ^ f.excess units 1 * den
  odd : units / 2 ^ f.excess units 1 % 2 = 1 →
    4 * num < 4 * (units * den) + 2 * (2 ^ f.excess units 1 * den) ∧
      4 * (units * den) < 4 * num + 2 * (2 ^ f.excess units 1 * den)

/-- Where the quotient has the excess of the magnitude. -/
theorem Around.round_eq_of_same (h : f.Around units num den) (hfits : f.Fits units)
    (hden : 0 < den) (he : f.excess num den = f.excess units 1) : f.round num den = units := by
  have hunits := hfits.multiple
  obtain ⟨hhigh, hlow, -, hodd⟩ := h
  generalize f.excess units 1 = e at *
  generalize units / 2 ^ e = m at *
  have hstep : 0 < den * 2 ^ e := Nat.mul_pos hden (Nat.two_pow_pos e)
  have hproduct : units * den = m * (den * 2 ^ e) := by
    rw [hunits, Nat.mul_assoc, Nat.mul_comm den]
  rw [hproduct, Nat.mul_comm (2 ^ e) den] at hhigh hlow hodd
  rw [round_of_significand he (nearest_eq hstep (m := m) ?_ ?_ ?_), ← hunits]
  · omega
  · omega
  · intro hm
    have hstrict := hodd hm
    omega

/-- Below a power of two the steps become finer. -/
theorem Around.round_eq_of_finer (h : f.Around units num den) (hfits : f.Fits units)
    (hden : 0 < den) (he : f.excess num den < f.excess units 1) : f.round num den = units := by
  have hprecision := f.precision_pos
  have hunits := hfits.multiple
  obtain ⟨e, hstep⟩ : ∃ e, f.excess units 1 = e + 1 := ⟨f.excess units 1 - 1, by omega⟩
  obtain ⟨p, hp⟩ : ∃ p, f.precision = p + 1 := ⟨f.precision - 1, by omega⟩
  have hbelow : num < 2 ^ (f.precision + e) * den := by
    rcases Nat.lt_or_ge num (2 ^ (f.precision + e) * den) with hlt | hge
    · exact hlt
    · have hle := le_excess hden hge
      omega
  have hlarge : 2 ^ (f.precision + e) ≤ units := by
    have hne : units ≠ 0 := by
      rintro rfl
      rw [excess, Nat.div_one, Nat.log2_zero] at hstep
      omega
    refine (Nat.le_log2 hne).mp ?_
    rw [excess, Nat.div_one] at hstep
    omega
  obtain ⟨-, hlow, hfine, -⟩ := h
  rw [hstep] at hlow hfine hunits
  generalize hm : units / 2 ^ (e + 1) = m at *
  have hpower : 2 ^ (f.precision + e) = 2 ^ p * 2 ^ (e + 1) := by
    rw [hp, ← Nat.pow_add, Nat.add_assoc, Nat.add_comm 1 e]
  -- Above the power of two the quotient would have the excess of the magnitude.
  have hexact : m = 2 ^ p := by
    rcases Nat.lt_or_ge (2 ^ p) m with hlt | hge
    · exfalso
      have hmul : (2 ^ p + 1) * 2 ^ (e + 1) ≤ m * 2 ^ (e + 1) := Nat.mul_le_mul_right _ hlt
      rw [← hunits, Nat.add_mul, Nat.one_mul, ← hpower] at hmul
      have hmul' := Nat.mul_le_mul_right den hmul
      rw [Nat.add_mul] at hmul'
      omega
    · refine Nat.le_antisymm hge ?_
      rw [hpower, hunits] at hlarge
      exact Nat.le_of_mul_le_mul_right hlarge (Nat.two_pow_pos _)
  have hvalue : units = 2 ^ (f.precision + e) := by
    rw [hpower, hunits, hexact]
  have hquarter := hfine (by omega) (by rw [hvalue]; congr 1; omega)
  have hdouble : 2 ^ (e + 1) * den = 2 * (den * 2 ^ e) := by
    rw [Nat.pow_succ, Nat.mul_comm, ← Nat.mul_assoc, Nat.mul_comm]
  have hproduct : units * den = 2 ^ f.precision * (den * 2 ^ e) := by
    rw [hvalue, Nat.pow_add, Nat.mul_assoc, Nat.mul_comm den]
  have hexcess : f.excess num den = e := by
    have hgrow : den * 2 ^ e ≤ 2 ^ f.precision * (den * 2 ^ e) :=
      Nat.le_mul_of_pos_left _ (Nat.two_pow_pos _)
    cases e with
    | zero => omega
    | succ e =>
      have hle : 2 ^ (f.precision + e) * den ≤ num := by
        have hhalf : units * den = 2 * (2 ^ (f.precision + e) * den) := by
          rw [hvalue, ← Nat.add_assoc, Nat.pow_succ, Nat.mul_right_comm, Nat.mul_comm]
        omega
      have hge := le_excess hden hle
      omega
  rw [hdouble, hproduct] at hquarter
  rw [round_of_significand hexcess (nearest_eq (Nat.mul_pos hden (Nat.two_pow_pos e))
    (m := 2 ^ f.precision) ?_ ?_ ?_), hvalue, Nat.pow_add]
  · omega
  · rw [← hvalue, hproduct] at hbelow
    omega
  · intro hone
    rw [hp, Nat.pow_succ] at hone
    omega

/-- What lies in the interval around a magnitude rounds to it. -/
theorem Around.round_eq (h : f.Around units num den) (hfits : f.Fits units) (hden : 0 < den) :
    f.round num den = units := by
  have hle : f.excess num den ≤ f.excess units 1 := by
    refine excess_le ?_
    have hm := f.quotient_lt units 1
    have hunits := hfits.multiple
    have hhigh := h.high
    rw [Nat.one_mul] at hm
    have hmul : (units / 2 ^ f.excess units 1 + 1) * 2 ^ f.excess units 1 ≤
        2 ^ f.precision * 2 ^ f.excess units 1 := Nat.mul_le_mul_right _ hm
    rw [Nat.add_mul, ← hunits, Nat.one_mul, ← Nat.pow_add] at hmul
    have hmul' := Nat.mul_le_mul_right den hmul
    rw [Nat.add_mul] at hmul'
    have hpos : 0 < 2 ^ f.excess units 1 * den := Nat.mul_pos (Nat.two_pow_pos _) hden
    omega
  rcases Nat.lt_or_eq_of_le hle with hlt | heq
  · exact h.round_eq_of_finer hfits hden hlt
  · exact h.round_eq_of_same hfits hden heq

end Format


namespace Decimal

/-! ### The search for digits -/

namespace Interval

theorem contains_iff (i : Interval) (x : Nat) :
    i.contains x = true ↔ i.low ≤ x ∧ x ≤ i.high ∧ (i.closed = false → i.low < x ∧ x < i.high) := by
  unfold contains
  cases i.closed with
  | true =>
    rw [if_pos rfl, Bool.and_eq_true, decide_eq_true_eq, decide_eq_true_eq]
    exact ⟨fun h => ⟨h.1, h.2, nofun⟩, fun h => ⟨h.1, h.2.1⟩⟩
  | false =>
    rw [if_neg Bool.false_ne_true, Bool.and_eq_true, decide_eq_true_eq, decide_eq_true_eq]
    exact ⟨fun h => ⟨Nat.le_of_lt h.1, Nat.le_of_lt h.2, fun _ => h⟩, fun h => h.2.2 rfl⟩

theorem scaled_contains {i : Interval} {a b x y : Nat} (ha : 0 < a) (hb : 0 < b)
    (h : x * b = y * a) (hx : (i.scaled a).contains x = true) :
    (i.scaled b).contains y = true := by
  have hle : ∀ {u v : Nat}, u * a ≤ v → v * b = y * a → u * b ≤ y := fun {u v} huv hv => by
    refine Nat.le_of_mul_le_mul_right ?_ ha
    rw [← hv, Nat.mul_right_comm]
    exact Nat.mul_le_mul_right b huv
  have hlt : ∀ {u v : Nat}, u * a < v → v * b = y * a → u * b < y := fun {u v} huv hv => by
    refine Nat.lt_of_mul_lt_mul_right (a := a) ?_
    rw [← hv, Nat.mul_right_comm]
    exact Nat.mul_lt_mul_of_pos_right huv hb
  have hge : ∀ {u v : Nat}, v ≤ u * a → v * b = y * a → y ≤ u * b := fun {u v} huv hv => by
    refine Nat.le_of_mul_le_mul_right ?_ ha
    rw [← hv, Nat.mul_right_comm]
    exact Nat.mul_le_mul_right b huv
  have hgt : ∀ {u v : Nat}, v < u * a → v * b = y * a → y < u * b := fun {u v} huv hv => by
    refine Nat.lt_of_mul_lt_mul_right (a := a) ?_
    rw [← hv, Nat.mul_right_comm]
    exact Nat.mul_lt_mul_of_pos_right huv hb
  rw [contains_iff] at hx ⊢
  obtain ⟨hlow, hhigh, hopen⟩ := hx
  exact ⟨hle hlow h, hge hhigh h, fun hclosed =>
    ⟨hlt (hopen hclosed).1 h, hgt (hopen hclosed).2 h⟩⟩

theorem nearest?_contains {i : Interval} {grid digits : Nat} (h : i.nearest? grid = some digits) :
    i.contains (digits * grid) = true := by
  unfold nearest? at h
  dsimp only at h
  split at h
  · rename_i hbelow habove
    cases h
    split
    · exact hbelow
    · exact habove
  · rename_i hbelow _
    cases h
    exact hbelow
  · rename_i _ habove
    cases h
    exact habove
  · cases h

/-- The digits that the search finds lie in the interval. -/
theorem search_contains {i : Interval} (hvalue : i.contains i.value = true)
    (hfour : i.value / 4 * 4 = i.value) (n : Nat) :
    i.contains (4 * ((i.search n).1 * 10 ^ (i.search n).2)) = true := by
  induction n with
  | zero =>
    rw [search]
    dsimp only
    rw [Nat.pow_zero, Nat.mul_one, Nat.mul_comm, hfour]
    exact hvalue
  | succ n ih =>
    rw [search]
    cases hnearest : i.nearest? (4 * 10 ^ (n + 1)) with
    | some digits =>
      have hcontains := nearest?_contains hnearest
      rw [Nat.mul_left_comm] at hcontains
      exact hcontains
    | none => exact ih

variable {f : Format} {units num den : Nat}

theorem around_contains_value (hpos : 0 < units) (hden : 0 < den) :
    ((around f units).scaled den).contains (4 * units * den) = true := by
  have hstep : 0 < 2 ^ f.excess units 1 := Nat.two_pow_pos _
  rw [contains_iff]
  have hlow : (around f units).low < 4 * units := by
    unfold around
    dsimp only
    split <;> omega
  have hhigh : 4 * units < (around f units).high := by
    unfold around
    dsimp only
    omega
  have hlow' := Nat.mul_lt_mul_of_pos_right hlow hden
  have hhigh' := Nat.mul_lt_mul_of_pos_right hhigh hden
  exact ⟨Nat.le_of_lt hlow', Nat.le_of_lt hhigh', fun _ => ⟨hlow', hhigh'⟩⟩

theorem around_of_contains (h : ((around f units).scaled den).contains (4 * num) = true) :
    f.Around units num den := by
  rw [contains_iff] at h
  obtain ⟨hlow, hhigh, hopen⟩ := h
  have hclosed : units / 2 ^ f.excess units 1 % 2 = 1 →
      ((around f units).scaled den).closed = false := fun hodd => by
    show (units / 2 ^ f.excess units 1 % 2 == 0) = false
    rw [hodd]
    rfl
  have hhigh' : ((around f units).scaled den).high =
      4 * (units * den) + 2 * (2 ^ f.excess units 1 * den) := by
    show (4 * units + 2 * 2 ^ f.excess units 1) * den = _
    rw [Nat.add_mul, Nat.mul_assoc, Nat.mul_assoc]
  -- The lower end is a whole or a half step away, seen from four times the magnitude.
  obtain ⟨below, hbelow, hle, hfine⟩ : ∃ below, ((around f units).scaled den).low =
      4 * (units * den) - below ∧ below ≤ 2 * (2 ^ f.excess units 1 * den) ∧
        (f.excess units 1 ≠ 0 → units = 2 ^ (f.excess units 1 + f.precision - 1) →
          below = 2 ^ f.excess units 1 * den) := by
    by_cases hpower : f.excess units 1 ≠ 0 ∧ units = 2 ^ (f.excess units 1 + f.precision - 1)
    · refine ⟨2 ^ f.excess units 1 * den, ?_, by omega, fun _ _ => rfl⟩
      show (4 * units - if f.excess units 1 ≠ 0 ∧ _ then _ else _) * den = _
      rw [if_pos hpower, Nat.sub_mul, Nat.mul_assoc]
    · refine ⟨2 * (2 ^ f.excess units 1 * den), ?_, Nat.le_refl _,
        fun hne hunits => absurd ⟨hne, hunits⟩ hpower⟩
      show (4 * units - if f.excess units 1 ≠ 0 ∧ _ then _ else _) * den = _
      rw [if_neg hpower, Nat.sub_mul, Nat.mul_assoc, Nat.mul_assoc]
  rw [hbelow] at hlow hopen
  rw [hhigh'] at hhigh hopen
  refine ⟨hhigh, by omega, fun hne hunits => ?_, fun hodd => ?_⟩
  · have hexact := hfine hne hunits
    omega
  · have hstrict := hopen (hclosed hodd)
    omega

end Interval

end Decimal


/-! ### Reading the shortest digits -/

namespace Number

variable {f : Format} {num den : Nat}

theorem ofRatio_of_around {m : Magnitude f} (hden : 0 < den)
    (h : f.Around m.units (num * 2 ^ f.scale) den) : ofRatio false num den = .finite false m := by
  have hround := h.round_eq m.fits hden
  obtain ⟨units, fits⟩ := m
  subst hround
  rw [ofRatio, ofUnits, dif_pos fits.1]

end Number

namespace Decimal

variable {f : Format} {m : Magnitude f}

/-- The decimal as it is read from its text: a whole number has no exponent. -/
def plain (d : Decimal) : Decimal :=
  match d.exponent with
  | .ofNat n => ⟨d.digits * 10 ^ n, 0⟩
  | .negSucc _ => d

theorem ten_pow (n : Nat) : 10 ^ n = 2 ^ n * 5 ^ n := by
  rw [← Nat.mul_pow]

theorem length_digitChars_le {n k : Nat} (hk : 0 < k) (h : n < 10 ^ k) :
    (digitChars n).length ≤ k :=
  (Nat.length_toDigits_le_iff (by decide) hk).mpr h

theorem length_digitChars_pos (n : Nat) : 0 < (digitChars n).length :=
  Nat.length_toDigits_pos

/-- A decimal in the interval around a magnitude is in the range of the format. -/
theorem digits_lt {digits den : Nat} (hscale : 0 < f.scale) (hpos : 0 < m.units) (hden : 0 < den)
    (h : f.Around m.units (digits * 2 ^ f.scale) den) : digits < 2 ^ f.limit * den := by
  have hstep := Nat.mul_le_mul_right den (m.fits.step_le hpos)
  have hlimit : m.units * den < 2 ^ f.limit * den :=
    Nat.mul_lt_mul_of_pos_right m.fits.1 hden
  have hhigh := h.high
  have htwo : 2 * digits ≤ digits * 2 ^ f.scale := by
    rw [Nat.mul_comm]
    refine Nat.mul_le_mul_left digits ?_
    exact Nat.pow_le_pow_right (n := 2) (by decide) hscale
  omega

theorem digits_ne_zero {digits den : Nat} (hpos : 0 < m.units) (hden : 0 < den)
    (h : f.Around m.units (digits * 2 ^ f.scale) den) : digits ≠ 0 := by
  rintro rfl
  have hstep := Nat.mul_le_mul_right den (m.fits.step_le hpos)
  have hlow := h.low
  have hvalue : 0 < m.units * den := Nat.mul_pos hpos hden
  rw [Nat.zero_mul] at hlow
  omega

theorem two_pow_le_ten_pow (n : Nat) : 2 ^ n ≤ 10 ^ n :=
  Nat.pow_le_pow_left (by decide) n

/-- The decimal is read as the magnitude that it is around. -/
theorem toNumber_whole {digits : Nat} (hscale : 0 < f.scale) (hpos : 0 < m.units)
    (h : f.Around m.units (digits * 2 ^ f.scale) 1) :
    toNumber false ⟨digits, 0⟩ = Number.finite false m := by
  have hne := digits_ne_zero hpos Nat.one_pos h
  have hlt := digits_lt hscale hpos Nat.one_pos h
  have hlimit : 0 < f.limit := by
    rcases Nat.eq_zero_or_pos f.limit with hzero | hlimit
    · have hunits := m.fits.1
      rw [hzero, Nat.pow_zero] at hunits
      omega
    · exact hlimit
  have hten := two_pow_le_ten_pow f.limit
  have hlength := length_digitChars_le hlimit (n := digits) (by omega)
  have hlong := length_digitChars_pos digits
  unfold toNumber
  dsimp only
  rw [if_neg hne, if_neg (by omega), if_neg (by omega)]
  show Number.ofRatio false (digits * 10 ^ 0) 1 = _
  rw [Nat.pow_zero, Nat.mul_one]
  exact Number.ofRatio_of_around Nat.one_pos h

theorem toNumber_fraction {digits n : Nat} (hscale : 0 < f.scale) (hpos : 0 < m.units)
    (hn : n + 1 ≤ f.scale) (h : f.Around m.units (digits * 2 ^ f.scale) (10 ^ (n + 1))) :
    toNumber false ⟨digits, .negSucc n⟩ = Number.finite false m := by
  have hden : 0 < 10 ^ (n + 1) := Nat.pow_pos (by decide)
  have hne := digits_ne_zero hpos hden h
  have hlt := digits_lt hscale hpos hden h
  have hten := Nat.mul_le_mul_right (10 ^ (n + 1)) (two_pow_le_ten_pow f.limit)
  rw [← Nat.pow_add] at hten
  have hlength := length_digitChars_le (n := digits) (k := f.limit + (n + 1)) (by omega) (by omega)
  have hlong := length_digitChars_pos digits
  unfold toNumber
  dsimp only
  rw [if_neg hne, if_neg (by omega), if_neg (by omega)]
  exact Number.ofRatio_of_around hden h

theorem toNumber_shortest (hscale : 0 < f.scale) (m : Magnitude f) :
    toNumber false (shortest m).plain = Number.finite false m := by
  by_cases hzero : m.units = 0
  · obtain ⟨units, fits⟩ := m
    subst hzero
    rfl
  have hpos : 0 < m.units := Nat.pos_of_ne_zero hzero
  have hfive : 0 < 5 ^ f.scale := Nat.pow_pos (by decide)
  rw [shortest, if_neg hzero]
  dsimp only
  generalize hi : (Interval.around f m.units).scaled (5 ^ f.scale) = i
  have hvalue : i.contains i.value = true := by
    rw [← hi]
    exact Interval.around_contains_value hpos hfive
  have hfour : i.value / 4 * 4 = i.value := by
    rw [← hi]
    show 4 * m.units * 5 ^ f.scale / 4 * 4 = 4 * m.units * 5 ^ f.scale
    rw [Nat.mul_assoc, Nat.mul_div_cancel_left _ (by decide), Nat.mul_comm]
  have hcontains := Interval.search_contains hvalue hfour (i.high.log2 / 3 + 1)
  generalize i.search (i.high.log2 / 3 + 1) = found at hcontains
  obtain ⟨digits, places⟩ := found
  rw [← hi] at hcontains
  rcases Nat.lt_or_ge places f.scale with hlt | hge
  · obtain ⟨n, hn⟩ : ∃ n, f.scale = places + (n + 1) := ⟨f.scale - places - 1, by omega⟩
    have hexponent : (places : Int) - f.scale = .negSucc n := by omega
    rw [plain, hexponent]
    refine toNumber_fraction hscale hpos (by omega) (Interval.around_of_contains
      (Interval.scaled_contains hfive (Nat.pow_pos (by decide)) ?_ hcontains))
    rw [Nat.mul_assoc 4, Nat.mul_assoc 4, Nat.mul_assoc, ← Nat.pow_add, ← hn, ten_pow,
      Nat.mul_assoc]
  · obtain ⟨n, hn⟩ : ∃ n, places = n + f.scale := ⟨places - f.scale, by omega⟩
    have hexponent : (places : Int) - f.scale = .ofNat n := by
      rw [Int.ofNat_eq_natCast]
      omega
    rw [plain, hexponent]
    refine toNumber_whole hscale hpos (Interval.around_of_contains
      (Interval.scaled_contains hfive Nat.one_pos ?_ hcontains))
    rw [Nat.mul_one, hn, Nat.pow_add, ten_pow f.scale, Nat.mul_assoc 4, Nat.mul_assoc,
      Nat.mul_assoc]

end Decimal

/-! ### Text -/

namespace Decimal

theorem digit?_of_isDigit {c : Char} (h : c.isDigit = true) : digit? c = some (c.toNat - '0'.toNat) := by
  rw [Char.isDigit, Bool.and_eq_true, decide_eq_true_eq, decide_eq_true_eq] at h
  exact if_pos ⟨h.1, h.2⟩

theorem digit?_point : digit? '.' = none := by
  decide

/-- Digits are read up to the end of the text or a point. -/
theorem readDigits_digits {ds : List Char} (hds : ∀ c ∈ ds, c.isDigit = true) {rest : List Char}
    (hrest : rest = [] ∨ ∃ more, rest = '.' :: more) (value count : Nat) :
    readDigits (ds ++ rest) value count =
      (Nat.ofDigitChars 10 ds value, count + ds.length, rest) := by
  induction ds generalizing value count with
  | nil =>
    rcases hrest with rfl | ⟨more, rfl⟩
    · rfl
    · rw [List.nil_append, readDigits, digit?_point]
      rfl
  | cons c ds ih =>
    have hc := digit?_of_isDigit (hds c List.mem_cons_self)
    rw [List.cons_append, readDigits, hc]
    dsimp only
    rw [ih (fun d hd => hds d (List.mem_cons_of_mem c hd)), Nat.ofDigitChars_cons, List.length_cons,
      Nat.add_assoc, Nat.add_comm 1]

theorem isDigit_digitChars (n : Nat) : ∀ c ∈ digitChars n, c.isDigit = true :=
  fun _ hc => Nat.isDigit_of_mem_toDigits (by decide) (by decide) hc

/-- Digits, with a point and more digits behind them if there is an exponent below zero. -/
inductive Written (d : Decimal) : List Char → Prop where
  | whole (front : List Char) (hne : front ≠ []) (hfront : ∀ c ∈ front, c.isDigit = true)
    (hvalue : d = ⟨Nat.ofDigitChars 10 front 0, 0⟩) : Written d front
  | pointed (front back : List Char) (hne : front ≠ []) (hfront : ∀ c ∈ front, c.isDigit = true)
    (hback : ∀ c ∈ back, c.isDigit = true)
    (hvalue : d = ⟨Nat.ofDigitChars 10 (front ++ back) 0, -(back.length : Int)⟩) :
    Written d (front ++ '.' :: back)

theorem isDigit_replicate (n : Nat) : ∀ c ∈ List.replicate n '0', c.isDigit = true := by
  intro c hc
  rw [(List.mem_replicate.mp hc).2]
  rfl

theorem written_layout (d : Decimal) : Written d.plain d.layout := by
  obtain ⟨digits, exponent⟩ := d
  cases exponent with
  | ofNat n =>
    refine .whole _ ?_ ?_ ?_
    · exact fun h => Nat.toDigits_ne_nil (List.append_eq_nil_iff.mp h).1
    · intro c hc
      rcases List.mem_append.mp hc with hc | hc
      · exact isDigit_digitChars digits c hc
      · exact isDigit_replicate n c hc
    · show (⟨digits * 10 ^ n, 0⟩ : Decimal) =
        ⟨Nat.ofDigitChars 10 (digitChars digits ++ List.replicate n '0') 0, 0⟩
      rw [Nat.ofDigitChars_append, digitChars, Nat.ofDigitChars_ten_toDigits,
        Nat.ofDigitChars_replicate_zero, Nat.mul_comm]
  | negSucc n =>
    show Written ⟨digits, .negSucc n⟩ (pointed (n + 1) (digitChars digits))
    unfold pointed
    dsimp only
    generalize hpadded : List.replicate (n + 1 + 1 - (digitChars digits).length) '0' ++
      digitChars digits = padded
    have hlength : n + 2 ≤ padded.length := by
      rw [← hpadded, List.length_append, List.length_replicate]
      omega
    have hdigits : ∀ c ∈ padded, c.isDigit = true := by
      intro c hc
      rw [← hpadded] at hc
      rcases List.mem_append.mp hc with hc | hc
      · exact isDigit_replicate _ c hc
      · exact isDigit_digitChars digits c hc
    have hvalue : Nat.ofDigitChars 10 padded 0 = digits := by
      rw [← hpadded, Nat.ofDigitChars_append, Nat.ofDigitChars_replicate_zero, Nat.mul_zero,
        digitChars, Nat.ofDigitChars_ten_toDigits]
    refine .pointed _ _ ?_ ?_ ?_ ?_
    · intro h
      have hzero := congrArg List.length h
      rw [List.length_take, List.length_nil] at hzero
      omega
    · exact fun c hc => hdigits c (List.mem_of_mem_take hc)
    · exact fun c hc => hdigits c (List.mem_of_mem_drop hc)
    · rw [List.take_append_drop, hvalue, List.length_drop]
      have hback : padded.length - (padded.length - (n + 1)) = n + 1 := by omega
      rw [hback]
      rfl

/-- A point behind a whole number changes nothing. -/
theorem read?_whole {front : List Char} (hne : front ≠ [])
    (hfront : ∀ c ∈ front, c.isDigit = true) {rest : List Char} (hrest : rest = [] ∨ rest = ['.']) :
    read? (front ++ rest) = some ⟨Nat.ofDigitChars 10 front 0, 0⟩ := by
  have hend : rest = [] ∨ ∃ more, rest = '.' :: more := hrest.imp id fun h => ⟨[], h⟩
  have hread := readDigits_digits hfront hend 0 0
  have hlength : 0 < front.length := List.length_pos_iff.mpr hne
  rw [read?, hread]
  rcases hrest with rfl | rfl
  · dsimp only
    rw [if_neg (by omega)]
    rfl
  · have hmore : readDigits [] (Nat.ofDigitChars 10 front 0) 0 =
        (Nat.ofDigitChars 10 front 0, 0, []) := rfl
    simp only [hmore]
    rw [if_neg (by omega)]
    rfl

theorem read?_written {d : Decimal} {cs : List Char} (h : Written d cs) : read? cs = some d := by
  cases h with
  | whole front hne hfront hvalue =>
    have hread := read?_whole hne hfront (.inl rfl)
    rw [List.append_nil] at hread
    rw [hread, hvalue]
  | pointed front back hne hfront hback hvalue =>
    have hread := readDigits_digits hfront (.inr ⟨back, rfl⟩) 0 0
    have hmore := readDigits_digits hback (.inl rfl) (Nat.ofDigitChars 10 front 0) 0
    rw [List.append_nil] at hmore
    have hlength : 0 < front.length := List.length_pos_iff.mpr hne
    rw [read?, hread]
    simp only [hmore]
    rw [if_neg (by omega), hvalue, Nat.ofDigitChars_append]
    show some (Decimal.mk _ (0 - ((0 + back.length : Nat) : Int))) = _
    rw [Nat.zero_add, Int.zero_sub]

end Decimal

/-! ### Texts of numbers -/

namespace Number

theorem toLower_of_isDigit {c : Char} (h : c.isDigit = true) : c.toLower = c := by
  rw [Char.isDigit, Bool.and_eq_true, decide_eq_true_eq, decide_eq_true_eq] at h
  unfold Char.toLower
  have hlow : ¬ (c.val ≥ 'A'.val ∧ c.val ≤ 'Z'.val) := by
    intro hupper
    have hle := UInt32.le_trans hupper.1 h.2
    exact absurd hle (by decide)
  exact dif_neg hlow

/-- A text that starts with a digit is no name. -/
theorem lower_ne_name {c : Char} (h : c.isDigit = true) (cs : List Char) {name : String}
    (hname : name.toList.head?.all (fun d => !d.isDigit) = true) :
    String.ofList ((c :: cs).map Char.toLower) ≠ name := by
  intro heq
  subst heq
  rw [String.toList_ofList, List.map_cons, toLower_of_isDigit h, List.head?_cons, Option.all_some, h]
    at hname
  cases hname

/-- Digits behind a sign are read as a decimal. -/
theorem ofChars?_of_sign {f : Format} {cs : List Char} {negative : Bool} {c : Char}
    {body : List Char} (hsign : Decimal.readSign cs = (negative, c :: body))
    (h : c.isDigit = true) :
    (ofChars? cs : Option (Number f)) =
      (Decimal.read? (c :: body)).map (Decimal.toNumber negative) := by
  unfold ofChars?
  rw [hsign]
  dsimp only
  rw [if_neg (lower_ne_name h body (by decide)), if_neg ?_]
  rintro (hinf | hinfinity)
  · exact lower_ne_name h body (by decide) hinf
  · exact lower_ne_name h body (by decide) hinfinity

/-- A text that starts with a digit has no sign and is no name. -/
theorem ofChars?_of_isDigit {f : Format} {c : Char} (h : c.isDigit = true) (cs : List Char) :
    (ofChars? (c :: cs) : Option (Number f)) = (Decimal.read? (c :: cs)).map (Decimal.toNumber false) := by
  have hminus : c ≠ '-' := by
    rintro rfl
    exact absurd h (by decide)
  have hplus : c ≠ '+' := by
    rintro rfl
    exact absurd h (by decide)
  have hsign : Decimal.readSign (c :: cs) = (false, c :: cs) := by
    unfold Decimal.readSign
    split
    · rename_i heq
      exact absurd (List.cons.inj heq).1 hminus
    · rename_i heq
      exact absurd (List.cons.inj heq).1 hplus
    · rfl
  exact ofChars?_of_sign hsign h

theorem ofText?_of_read {f : Format} {cs : List Char} {d : Decimal}
    (hfirst : ∀ c ∈ cs.head?, c.isDigit = true) (h : Decimal.read? cs = some d) :
    (ofText? (String.ofList cs) : Option (Number f)) = some (Decimal.toNumber false d) := by
  rw [ofText?, String.toList_ofList]
  cases cs with
  | nil => cases h
  | cons c cs =>
    rw [ofChars?_of_isDigit (hfirst c rfl), h]
    rfl

theorem isDigit_head {front : List Char} (hne : front ≠ []) (hfront : ∀ c ∈ front, c.isDigit = true)
    (rest : List Char) : ∀ c ∈ (front ++ rest).head?, c.isDigit = true := by
  cases front with
  | nil => exact absurd rfl hne
  | cons d front =>
    rintro c ⟨⟩
    exact hfront d List.mem_cons_self

/-- The text of a magnitude reads back as the magnitude. -/
theorem ofText?_layout (m : Magnitude Format.single) :
    ofText? (String.ofList (Decimal.shortest m).layout) = some (Number.finite false m) := by
  have hwritten := Decimal.written_layout (Decimal.shortest m)
  generalize (Decimal.shortest m).layout = cs at hwritten
  rw [ofText?_of_read ?_ (Decimal.read?_written hwritten),
    Decimal.toNumber_shortest (by decide) m]
  cases hwritten with
  | whole _ hne hfront _ =>
    rw [← List.append_nil cs]
    exact isDigit_head hne hfront []
  | pointed front back hne hfront _ _ => exact isDigit_head hne hfront _

/-- A point behind the text of a whole magnitude changes nothing. -/
theorem ofText?_layout_point (m : Magnitude Format.single)
    (h : (Decimal.shortest m).layout.contains '.' = false) :
    ofText? (String.ofList (Decimal.shortest m).layout ++ ".") = some (Number.finite false m) := by
  have hwritten := Decimal.written_layout (Decimal.shortest m)
  have htext : String.ofList (Decimal.shortest m).layout ++ "." =
      String.ofList ((Decimal.shortest m).layout ++ ['.']) := by
    rw [String.ofList_append]
  rw [htext]
  generalize (Decimal.shortest m).layout = cs at h hwritten
  cases hwritten with
  | whole _ hne hfront hvalue =>
    rw [ofText?_of_read (isDigit_head hne hfront _) (Decimal.read?_whole hne hfront (.inr rfl)),
      ← hvalue, Decimal.toNumber_shortest (by decide) m]
  | pointed front back _ _ _ _ =>
    rw [List.contains_eq_mem, decide_eq_false_iff_not] at h
    exact absurd (List.mem_append_right front List.mem_cons_self) h

end Number

end ScriptEngine
