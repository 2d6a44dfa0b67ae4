/-! # Character classes as boundary lists

A class of characters beyond the first 128 is given by the code points at which membership
changes: a code point belongs to the class if an odd number of boundaries lie at or below it. -/

namespace ScriptEngine.Text

/-- How many of the ascending boundaries at positions `low` to `low + size - 1` are at most `n`,
added to `low`. -/
def rank (boundaries : Array Nat) (n : Nat) : Nat → Nat → Nat → Nat
  | 0, low, _ => low
  | fuel + 1, low, size =>
    if size = 0 then low
    else
      let half := size / 2
      if boundaries.getD (low + half) 0 ≤ n then
        rank boundaries n fuel (low + half + 1) (size - half - 1)
      else rank boundaries n fuel low half

/-- The code point lies inside one of the ranges. -/
def inRanges (boundaries : Array Nat) (n : Nat) : Bool :=
  rank boundaries n (boundaries.size.log2 + 1) 0 boundaries.size % 2 == 1

end ScriptEngine.Text
