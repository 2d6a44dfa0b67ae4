import ScriptEngine.Number

/-! # Sine and cosine

The argument is taken to the nearest multiple of a quarter turn, the rest of it is put into an odd
or an even polynomial of the host's format, and the result is rounded back once. Every sum of a
product is rounded once. -/

namespace ScriptEngine

namespace Number.Trigonometry

/- Powers are those of core arithmetic. -/
attribute [local instance (high)] instPowNat

/-- The host number `±m * 2 ^ -places`. -/
def constant (negative : Bool) (m places : Nat) : Double :=
  .ofRatio negative m (2 ^ places)

/-- A quarter turn. -/
def quarterTurn : Double := constant false 0x1921FB54442D18 52

/-- Quarter turns in one radian, times `2 ^ 24`. -/
def quarterTurns : Double := constant false 0x145F306DC9C883 29

/-- The leading 192 binary places of the number of quarter turns in one radian. -/
def quarterTurnBits : Nat := 0xA2F9836E4E441529FC2757D1F534DDC0DB6295993C439041

/-- The sine of an argument of at most an eighth of a turn. -/
def sineNear (x : Double) : Double :=
  let x2 := x.mul x
  let x3 := x.mul x2
  let x7 := x3.mul x2
  let high := x2.mulAdd (constant true 0x1994EB3774CF24 65) (constant false 0x11107605230BC4 59)
  let low := x3.mulAdd (constant true 0x1555545995A603 55) x
  x7.mulAdd high low

/-- The cosine of an argument of at most an eighth of a turn. -/
def cosineNear (x : Double) : Double :=
  let x2 := x.mul x
  let x4 := x2.mul x2
  let x6 := x4.mul x2
  let high := x2.mulAdd (constant false 0x199343027BF8C3 68) (constant true 0x16C087E89A359D 62)
  let low := x2.mulAdd (constant true 0x1FFFFFFD0C621C 54) (.ofNat 1)
  let low := x4.mulAdd (constant false 0x155553E1068F19 57) low
  x6.mulAdd high low

/-- Quarter turns in a moderate argument, and what is left of it. -/
def reduceNear (x : Double) : Int × Double :=
  let n := ((x.mul quarterTurns).toWord 32 + 0x800000) / 0x1000000
  (n, (neg (.ofInt n)).mulAdd quarterTurn x)

/-- Quarter turns, modulo four, in a magnitude of at least `2 ^ 6`, and what is left of it. The
product with the bits of a radian keeps two places before the point and sixty-two behind it. -/
def reduceFar (m : Magnitude Format.single) : Int × Double :=
  let exponent := m.units.log2 - Format.single.scale
  let group := (exponent - 1) / 8
  let factor := quarterTurnBits / 2 ^ (120 - 8 * group)
  let mantissa := m.units / 2 ^ (m.units.log2 - 23) * 2 ^ ((exponent - 1) % 8)
  let turns := mantissa * factor / 0x100000000 % 0x10000000000000000
  let n : Nat := (turns + 0x2000000000000000) / 0x4000000000000000
  let rest : Double := .ofInt (turns - n * 0x4000000000000000)
  (n, rest.mul (constant false 0x1921FB54442D18 114))

/-- Below this the sine is its argument and the cosine is one. -/
def tiny : Single := .ofRatio false 1 4096

/-- Below this the argument needs no reduction. -/
def near : Single := .ofRatio false 3 4

/-- From here on the argument is reduced with the long factor. -/
def far : Single := .ofNat 120

/-- Quarter turns in the argument, and the rest of it. -/
def reduce (negative : Bool) (m : Magnitude Format.single) : Int × Double :=
  let x : Single := .finite negative m
  if x.abs.lt near then (0, x.convert)
  else if x.abs.lt far then reduceNear x.convert
  else
    let (n, rest) := reduceFar m
    if negative then (-n, rest.neg) else (n, rest)

/-- The sine of `n` quarter turns and `rest`. -/
def sineAt (n : Int) (rest : Double) : Double :=
  let wave := if n % 2 = 0 then sineNear rest else cosineNear rest
  if n % 4 < 2 then wave else wave.neg

end Number.Trigonometry

namespace Number

open Trigonometry

def sine : Single → Single
  | .finite s m =>
    if lt (.finite false m) tiny then .finite s m
    else let (n, rest) := reduce s m; (sineAt n rest).convert
  | _ => .nan

def cosine : Single → Single
  | .finite s m =>
    if lt (.finite false m) tiny then ofNat 1
    else let (n, rest) := reduce s m; (sineAt (n + 1) rest).convert
  | _ => .nan

end Number

end ScriptEngine
