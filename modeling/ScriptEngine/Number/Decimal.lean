import ScriptEngine.Number

/-! # Decimal text of numbers

Writing takes the fewest digits that still read back as the same number, the nearest such digits,
and of two equally near the greater; the text is positional and never has an exponent. Reading
takes a sign, digits with at most one point and an optional exponent, or a name for infinity or
for what is not a number, and rounds the exact decimal once. -/

namespace ScriptEngine

/- Powers are those of core arithmetic. -/
attribute [local instance (high)] instPowNat

/-- The decimal number `digits * 10 ^ exponent`. -/
structure Decimal where
  digits : Nat
  exponent : Int
  deriving DecidableEq, Repr

namespace Decimal

/-! ### Layout -/

/-- `n` as decimal digits, the most significant first. -/
def digitChars (n : Nat) : List Char :=
  Nat.toDigits 10 n

/-- Digits with a point before the last `places` of them. -/
def pointed (places : Nat) (ds : List Char) : List Char :=
  let padded := List.replicate (places + 1 - ds.length) '0' ++ ds
  let cut := padded.length - places
  padded.take cut ++ '.' :: padded.drop cut

/-- Positional text: zeros fill the gap up to the point on either side. -/
def layout (d : Decimal) : List Char :=
  let ds := digitChars d.digits
  match d.exponent with
  | .ofNat n => ds ++ List.replicate n '0'
  | .negSucc n => pointed (n + 1) ds

/-! ### Shortest digits -/

/-- The numbers that read back as one magnitude, in quarters of a unit: the magnitude itself, the
two ends, and whether the ends belong to it. -/
structure Interval where
  low : Nat
  value : Nat
  high : Nat
  closed : Bool

/-- The interval around a magnitude. Half a step lies on either side, but only a quarter of a step
below a power of two, where the steps become finer; the ends round to an even significand. -/
def Interval.around (f : Format) (units : Nat) : Interval :=
  let shift := f.excess units 1
  let step := 2 ^ shift
  let below := if shift ≠ 0 ∧ units = 2 ^ (shift + f.precision - 1) then step else 2 * step
  { low := 4 * units - below
    value := 4 * units
    high := 4 * units + 2 * step
    closed := units / step % 2 == 0 }

def Interval.contains (i : Interval) (x : Nat) : Bool :=
  if i.closed then i.low ≤ x && x ≤ i.high else i.low < x && x < i.high

/-- The interval with every bound multiplied by `k`. -/
def Interval.scaled (i : Interval) (k : Nat) : Interval :=
  { i with low := i.low * k, value := i.value * k, high := i.high * k }

/-- The multiple of `grid` inside the interval that is nearest to its value, the upper one on a
tie, counted in multiples. -/
def Interval.nearest? (i : Interval) (grid : Nat) : Option Nat :=
  let below := i.value / grid
  let above := below + 1
  let gap := i.value % grid
  match i.contains (below * grid), i.contains (above * grid) with
  | true, true => some (if 2 * gap < grid then below else above)
  | true, false => some below
  | false, true => some above
  | false, false => none

/-- Searches the grids of `10 ^ places` steps from coarse to fine; the finest one has a step for
every unit of the interval. -/
def Interval.search (i : Interval) : Nat → Nat × Nat
  | 0 => (i.value / 4, 0)
  | places + 1 =>
    match i.nearest? (4 * 10 ^ (places + 1)) with
    | some digits => (digits, places + 1)
    | none => i.search places

/-- The shortest decimal that reads back as the magnitude. A unit of `2 ^ -scale` is `5 ^ scale`
steps of `10 ^ -scale`, so the search runs over whole numbers. -/
def shortest {f : Format} (m : Magnitude f) : Decimal :=
  if m.units = 0 then { digits := 0, exponent := 0 }
  else
    let i := (Interval.around f m.units).scaled (5 ^ f.scale)
    let (digits, places) := i.search (i.high.log2 / 3 + 1)
    { digits := digits, exponent := (places : Int) - f.scale }

/-! ### Reading -/

/-- The number nearest to the decimal. A decimal far out of range is decided by the place of its
first digit, without raising ten to its exponent. -/
def toNumber {f : Format} (negative : Bool) (d : Decimal) : Number f :=
  let size : Int := (digitChars d.digits).length + d.exponent
  if d.digits = 0 then .zero negative
  else if (f.limit : Int) < size then .infinite negative
  else if size < -(f.scale : Int) - 1 then .zero negative
  else match d.exponent with
    | .ofNat n => .ofRatio negative (d.digits * 10 ^ n) 1
    | .negSucc n => .ofRatio negative d.digits (10 ^ (n + 1))

/-- The value of a digit. -/
def digit? (c : Char) : Option Nat :=
  if '0' ≤ c ∧ c ≤ '9' then some (c.toNat - '0'.toNat) else none

/-- The number written by leading digits of the text, how many there are, and the rest. -/
def readDigits : List Char → Nat → Nat → Nat × Nat × List Char
  | [], value, count => (value, count, [])
  | c :: cs, value, count =>
    match digit? c with
    | some d => readDigits cs (10 * value + d) (count + 1)
    | none => (value, count, c :: cs)

/-- A sign in front of the text: whether it is a minus, and the rest. -/
def readSign : List Char → Bool × List Char
  | '-' :: cs => (true, cs)
  | '+' :: cs => (false, cs)
  | cs => (false, cs)

/-- The exponent that ends the text; nothing is an exponent of zero. -/
def readExponent : List Char → Option Int
  | [] => some 0
  | c :: cs =>
    if c = 'e' ∨ c = 'E' then
      let (negative, body) := readSign cs
      match readDigits body 0 0 with
      | (value, count, []) => if count = 0 then none else some (if negative then -value else value)
      | _ => none
    else none

/-- Digits with at most one point among them, at least one digit, then an exponent. -/
def read? (cs : List Char) : Option Decimal :=
  let (whole, before, rest) := readDigits cs 0 0
  let (digits, after, rest) := match rest with
    | '.' :: rest => readDigits rest whole 0
    | rest => (whole, 0, rest)
  if before + after = 0 then none
  else (readExponent rest).map fun e => { digits := digits, exponent := e - after }

end Decimal

namespace Number

variable {f : Format}

/-- The text of a number: the shortest digits, without an exponent. -/
def text : Number f → String
  | .nan => "NaN"
  | .infinite s => if s then "-inf" else "inf"
  | .finite s m => String.ofList ((if s then ['-'] else []) ++ (Decimal.shortest m).layout)

/-- The number that a text names. -/
def ofChars? (cs : List Char) : Option (Number f) :=
  let (negative, body) := Decimal.readSign cs
  let name := String.ofList (body.map Char.toLower)
  if name = "nan" then some .nan
  else if name = "inf" ∨ name = "infinity" then some (.infinite negative)
  else (Decimal.read? body).map (Decimal.toNumber negative)

def ofText? (s : String) : Option (Number f) :=
  ofChars? s.toList

end Number

end ScriptEngine
