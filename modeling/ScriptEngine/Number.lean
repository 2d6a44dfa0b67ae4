/-! # Binary floating-point numbers

A format fixes how many significant bits a number keeps and how finely it counts. Every finite
number of a format is a sign and a whole count of the format's smallest step, its *units*, so sums,
products and comparisons are integer arithmetic followed by one rounding: to nearest, and of two
equally near numbers to the one with the even last bit. -/

namespace ScriptEngine

/- Powers are those of core arithmetic. -/
attribute [local instance (high)] instPowNat

/-- A binary format: `precision` significant bits, units of `2 ^ -scale`, and every magnitude
below `2 ^ limit` units. -/
structure Format where
  precision : Nat
  scale : Nat
  limit : Nat
  precision_pos : 0 < precision := by decide

namespace Format

/-- Thirty-two bits: the numbers of the script language. -/
def single : Format where
  precision := 24
  scale := 149
  limit := 277

/-- Sixty-four bits: the numbers of the host. -/
def double : Format where
  precision := 53
  scale := 1074
  limit := 2098

/-- A count of units that `f` can hold: in range, and with at most `precision` significant bits. -/
def Fits (f : Format) (units : Nat) : Prop :=
  units < 2 ^ f.limit ∧ ∃ m s : Nat, m < 2 ^ f.precision ∧ units = m * 2 ^ s

/-- How many low bits of the quotient `num / den` lie beyond the precision. -/
def excess (f : Format) (num den : Nat) : Nat :=
  (num / den).log2 + 1 - f.precision

/-- The significand nearest to `num / den` after its excess bits are dropped; ties go to even. -/
def significand (f : Format) (num den : Nat) : Nat :=
  let step := den * 2 ^ f.excess num den
  let m := num / step
  let r := num % step
  if step < 2 * r ∨ (2 * r = step ∧ m % 2 = 1) then m + 1 else m

/-- The quotient `num / den` rounded to `precision` significant bits. -/
def round (f : Format) (num den : Nat) : Nat :=
  f.significand num den * 2 ^ f.excess num den

theorem quotient_lt (f : Format) (num den : Nat) :
    num / (den * 2 ^ f.excess num den) < 2 ^ f.precision := by
  rw [← Nat.div_div_eq_div_mul]
  apply Nat.div_lt_of_lt_mul
  have bound : num / den < 2 ^ ((num / den).log2 + 1) := Nat.lt_log2_self
  refine Nat.lt_of_lt_of_le bound ?_
  rw [← Nat.pow_add]
  apply Nat.pow_le_pow_right (by decide)
  unfold excess
  omega

theorem significand_le (f : Format) (num den : Nat) :
    f.significand num den ≤ 2 ^ f.precision := by
  have bound := f.quotient_lt num den
  simp only [significand]
  split <;> omega

theorem fits_of_le (f : Format) (m s : Nat) (hm : m ≤ 2 ^ f.precision)
    (hl : m * 2 ^ s < 2 ^ f.limit) : f.Fits (m * 2 ^ s) := by
  refine ⟨hl, ?_⟩
  rcases Nat.lt_or_eq_of_le hm with h | h
  · exact ⟨m, s, h, rfl⟩
  · refine ⟨2 ^ (f.precision - 1), s + 1, ?_, ?_⟩
    · exact Nat.pow_lt_pow_right (by decide) (Nat.sub_lt f.precision_pos (by decide))
    · have hp : f.precision = (f.precision - 1) + 1 := by
        have := f.precision_pos
        omega
      rw [h, hp, Nat.pow_succ, Nat.pow_succ, Nat.add_sub_cancel, Nat.mul_assoc,
        Nat.mul_comm 2 (2 ^ s)]

theorem fits_round (f : Format) (num den : Nat) (h : f.round num den < 2 ^ f.limit) :
    f.Fits (f.round num den) :=
  f.fits_of_le _ _ (f.significand_le num den) h

theorem fits_zero (f : Format) : f.Fits 0 :=
  ⟨Nat.pow_pos (by decide), 0, 0, Nat.pow_pos (by decide), by simp⟩

end Format

/-- A count of units that the format can hold. -/
structure Magnitude (f : Format) where
  units : Nat
  fits : f.Fits units
  deriving DecidableEq

/-- A number of the format `f`. -/
inductive Number (f : Format) where
  | nan
  | infinite (negative : Bool)
  | finite (negative : Bool) (magnitude : Magnitude f)
  deriving DecidableEq

/-- The numbers of the script language. -/
abbrev Single := Number Format.single

/-- The numbers of the host. -/
abbrev Double := Number Format.double

namespace Number

variable {f : Format}

/-! ### Building numbers -/

/-- Zero with the given sign. -/
def zero (negative : Bool) : Number f :=
  .finite negative ⟨0, f.fits_zero⟩

/-- The number nearest to `num / den` units; a magnitude out of range is infinite. -/
def ofUnits (negative : Bool) (num den : Nat) : Number f :=
  if h : f.round num den < 2 ^ f.limit then
    .finite negative ⟨f.round num den, f.fits_round num den h⟩
  else .infinite negative

/-- The number nearest to `num / den`. -/
def ofRatio (negative : Bool) (num den : Nat) : Number f :=
  ofUnits negative (num * 2 ^ f.scale) den

/-- The number nearest to a natural number. -/
def ofNat (n : Nat) : Number f :=
  ofRatio false n 1

/-- The number nearest to an integer. -/
def ofInt (n : Int) : Number f :=
  ofRatio (n < 0) n.natAbs 1

/-- One for true, zero for false. -/
def ofBool (b : Bool) : Number f :=
  if b then ofNat 1 else zero false

instance : Inhabited (Number f) := ⟨zero false⟩

/-- The signed count of units of a finite number. -/
def signed (negative : Bool) (m : Magnitude f) : Int :=
  if negative then -(m.units : Int) else m.units

/-- The number nearest to `num / den` units, `sign` deciding the sign of zero. -/
def ofSigned (sign : Bool) (num : Int) (den : Nat) : Number f :=
  ofUnits (if num = 0 then sign else num < 0) num.natAbs den

/-! ### Comparison -/

/-- Strictly less; nothing is less than, or greater than, a number that is not one. -/
def lt : Number f → Number f → Bool
  | .nan, _ | _, .nan => false
  | .infinite s, .infinite t => s && !t
  | .infinite s, .finite _ _ => s
  | .finite _ _, .infinite t => !t
  | .finite s m, .finite t n => signed s m < signed t n

/-- Equal in value: the two zeros are equal, and a number that is not one equals nothing. -/
def equal : Number f → Number f → Bool
  | .nan, _ | _, .nan => false
  | .infinite s, .infinite t => s == t
  | .infinite _, .finite _ _ | .finite _ _, .infinite _ => false
  | .finite s m, .finite t n => signed s m == signed t n

def le (a b : Number f) : Bool :=
  lt a b || equal a b

/-- Equal to zero, whatever the sign. -/
def isZero (a : Number f) : Bool :=
  equal a (zero false)

/-! ### Arithmetic -/

def neg : Number f → Number f
  | .nan => .nan
  | .infinite s => .infinite (!s)
  | .finite s m => .finite (!s) m

def abs : Number f → Number f
  | .nan => .nan
  | .infinite _ => .infinite false
  | .finite _ m => .finite false m

def add : Number f → Number f → Number f
  | .nan, _ | _, .nan => .nan
  | .infinite s, .infinite t => if s = t then .infinite s else .nan
  | .infinite s, .finite _ _ => .infinite s
  | .finite _ _, .infinite t => .infinite t
  | .finite s m, .finite t n => ofSigned (s && t) (signed s m + signed t n) 1

def sub (a b : Number f) : Number f :=
  add a (neg b)

def mul : Number f → Number f → Number f
  | .nan, _ | _, .nan => .nan
  | .infinite s, .infinite t => .infinite (s != t)
  | .infinite s, .finite t n => if n.units = 0 then .nan else .infinite (s != t)
  | .finite s m, .infinite t => if m.units = 0 then .nan else .infinite (s != t)
  | .finite s m, .finite t n => ofUnits (s != t) (m.units * n.units) (2 ^ f.scale)

def div : Number f → Number f → Number f
  | .nan, _ | _, .nan => .nan
  | .infinite _, .infinite _ => .nan
  | .infinite s, .finite t _ => .infinite (s != t)
  | .finite s _, .infinite t => zero (s != t)
  | .finite s m, .finite t n =>
    if n.units = 0 then (if m.units = 0 then .nan else .infinite (s != t))
    else ofUnits (s != t) (m.units * 2 ^ f.scale) n.units

/-- Remainder of the division rounded toward zero; it has the sign of the dividend. -/
def rem : Number f → Number f → Number f
  | .nan, _ | _, .nan => .nan
  | .infinite _, _ => .nan
  | .finite s m, .infinite _ => .finite s m
  | .finite s m, .finite _ n => if n.units = 0 then .nan else ofUnits s (m.units % n.units) 1

/-- `a * b + c` with one rounding at the end. -/
def mulAdd : Number f → Number f → Number f → Number f
  | .finite s m, .finite t n, .finite u k =>
    let product := signed s m * signed t n
    ofSigned ((s != t) && u) (product + signed u k * 2 ^ f.scale) (2 ^ f.scale)
  | a, b, c => add (mul a b) c

/-- Sets the bits of the whole square root of `n` from bit `i - 1` down, above those in `root`. -/
def rootBits (n : Nat) : Nat → Nat → Nat
  | 0, root => root
  | i + 1, root =>
    let next := root + 2 ^ i
    rootBits n i (if next * next ≤ n then next else root)

/-- The whole part of the square root. -/
def wholeRoot (n : Nat) : Nat :=
  rootBits n (n.log2 / 2 + 1) 0

/-- The square root; a half unit stands for the part beyond the whole root. -/
def sqrt : Number f → Number f
  | .nan => .nan
  | .infinite s => if s then .nan else .infinite false
  | .finite s m =>
    if m.units = 0 then .finite s m
    else if s then .nan
    else
      let square := m.units * 2 ^ f.scale
      let root := wholeRoot square
      ofUnits false (2 * root + if root * root = square then 0 else 1) 2

/-! ### Whole numbers -/

/-- The whole part, toward zero. -/
def whole (m : Magnitude f) : Nat :=
  m.units / 2 ^ f.scale

/-- Nothing stands behind the point. -/
def isWhole (m : Magnitude f) : Bool :=
  m.units % 2 ^ f.scale == 0

/-- The next whole number toward zero, or away from it when `outward` and the number is not whole. -/
def toWhole (outward : Bool) (negative : Bool) (m : Magnitude f) : Number f :=
  ofRatio negative (if outward && !isWhole m then whole m + 1 else whole m) 1

def floor : Number f → Number f
  | .finite s m => toWhole s s m
  | a => a

def ceil : Number f → Number f
  | .finite s m => toWhole (!s) s m
  | a => a

/-- Minus one, zero or one; a number that is not one stays so. -/
def sign : Number f → Number f
  | .nan => .nan
  | a => if isZero a then zero false else if lt a (zero false) then neg (ofNat 1) else ofNat 1

/-- The smaller of two numbers, the second of two equal ones, which tells the zeros apart; of one
number and one that is not, the number. -/
def min (a b : Number f) : Number f :=
  match a, b with
  | .nan, b => b
  | a, .nan => a
  | a, b => if lt a b then a else b

/-- The greater of two numbers, the second of two equal ones, which tells the zeros apart; of one
number and one that is not, the number. -/
def max (a b : Number f) : Number f :=
  match a, b with
  | .nan, b => b
  | a, .nan => a
  | a, b => if lt b a then a else b

/-- The whole part as a signed word of `bits` bits, held at the ends of its range. -/
def toWord (bits : Nat) : Number f → Int
  | .nan => 0
  | .infinite s => if s then -(2 ^ (bits - 1) : Int) else 2 ^ (bits - 1) - 1
  | .finite s m =>
    let n : Int := if s then -(whole m : Int) else whole m
    if n < -(2 ^ (bits - 1) : Int) then -(2 ^ (bits - 1) : Int)
    else if (2 ^ (bits - 1) - 1 : Int) < n then 2 ^ (bits - 1) - 1
    else n

/-! ### Changing the format -/

/-- The nearest number of another format. -/
def convert {g : Format} : Number f → Number g
  | .nan => .nan
  | .infinite s => .infinite s
  | .finite s m => ofRatio s m.units (2 ^ f.scale)

end Number

end ScriptEngine
