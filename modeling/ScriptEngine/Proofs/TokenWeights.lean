import ScriptEngine.Token
import ScriptEngine.Tree

/-! # Weights of tokens and trees

Most tokens leave a trace in the tree that they are parsed to: the *weight* of the tokens of a tree
is the weight of the tree, whatever parentheses, commas and line breaks stand among them. The
parentheses of a tree match each other, which is told by where they close. -/

namespace ScriptEngine

/-! ### Weights -/

/-- How much of a tree such a token stands for. Brackets count where they open, and those around an
expression or a parameter list do not count at all. -/
def TokenKind.weight : TokenKind → Nat
  | .lParen | .rParen | .rSquare | .rBrace | .colon | .comma | .newline | .endOfCode => 0
  | .plusPlus | .minusMinus => 2
  | _ => 1

def weight : List Token → Nat
  | [] => 0
  | t :: ts => t.kind.weight + weight ts

theorem weight_append (ts us : List Token) : weight (ts ++ us) = weight ts + weight us := by
  induction ts with
  | nil => exact (Nat.zero_add _).symm
  | cons t ts ih =>
    rw [List.cons_append, weight, weight, ih]
    omega

theorem weight_suffix_le {ts us : List Token} (h : ts <:+ us) : weight ts ≤ weight us := by
  obtain ⟨front, rfl⟩ := h
  rw [weight_append]
  omega

/-- Of two ends of one list that weigh the same and start with something of weight, neither is
longer. -/
theorem suffix_eq_of_weight {all ts us : List Token} {t u : Token} (ht : t :: ts <:+ all)
    (hu : u :: us <:+ all) (hw : weight (t :: ts) = weight (u :: us)) (htpos : 0 < t.kind.weight)
    (hupos : 0 < u.kind.weight) : t :: ts = u :: us := by
  rcases List.suffix_or_suffix_of_suffix ht hu with hsub | hsub
  · obtain ⟨front, heq⟩ := hsub
    cases front with
    | nil => exact heq
    | cons v front =>
      rw [List.cons_append, List.cons.injEq] at heq
      have hsum := congrArg weight heq.2
      rw [weight_append] at hsum
      rw [weight, weight] at hw
      rw [weight] at hsum
      omega
  · obtain ⟨front, heq⟩ := hsub
    cases front with
    | nil => exact heq.symm
    | cons v front =>
      rw [List.cons_append, List.cons.injEq] at heq
      have hsum := congrArg weight heq.2
      rw [weight_append] at hsum
      rw [weight, weight] at hw
      rw [weight] at hsum
      omega

mutual

/-- The weight of the tokens that a tree is parsed from. -/
def Node.weight : Node → Nat
  | .number _ _ | .text _ _ | .read _ _ | .this _ | .continue_ _ | .break_ _ => 1
  | .list _ items => 1 + weightAll items
  | .binary _ _ left right => 1 + left.weight + right.weight
  | .unary _ _ operand => 1 + operand.weight
  | .declare _ _ value => 3 + value.weight
  | .assign _ _ value | .update _ _ _ value => 2 + value.weight
  | .choose _ arms => arms.weight
  | .count _ _ start stop step _ body =>
    4 + start.weight + stop.weight + weightSome step + body.weight
  | .each _ _ items _ body => 3 + items.weight + body.weight
  | .loop _ condition _ body => 1 + condition.weight + body.weight
  | .function _ name params _ body => 1 + name.toList.length + params.length + body.weight
  | .call _ callee args => callee.weight + weightAll args
  | .sequence _ statements => 1 + weightAll statements
  | .members _ segments => weightSegments segments
  | .object _ _ params parent body => 2 + params.length + 2 * parent.toList.length + body.weight
  | .create _ _ args => 2 + weightAll args
  | .return_ _ none => 1
  | .return_ _ (some value) => 1 + value.weight
  | .include_ _ paths => 1 + weightAll paths
termination_by structural n => n

def Arms.weight : Arms → Nat
  | .done => 0
  | .otherwise _ body => 1 + body.weight
  | .arm condition _ body more => 1 + condition.weight + body.weight + more.weight
termination_by structural arms => arms

def weightAll : List Node → Nat
  | [] => 0
  | n :: ns => n.weight + weightAll ns
termination_by structural ns => ns

def weightSegments : List Node → Nat
  | [] => 0
  | n :: ns => n.weight + weightMore ns
termination_by structural ns => ns

/-- Segments with a point before each. -/
def weightMore : List Node → Nat
  | [] => 0
  | n :: ns => 1 + n.weight + weightMore ns
termination_by structural ns => ns

/-- An option with its keyword. -/
def weightSome : Option Node → Nat
  | none => 0
  | some n => 1 + n.weight
termination_by structural n => n

end

-- The equations of the whole recursion are made here, once for all the modules that rewrite by them.
attribute [local simp] Node.weight Arms.weight weightAll weightSegments weightMore weightSome

/-! ### Matching parentheses -/

/-- What stands behind the parenthesis that closes the innermost of `d + 1` open ones together with
all that are around it. -/
def closing : Nat → List Token → Option (List Token)
  | _, [] => none
  | d, t :: ts =>
    match t.kind with
    | .lParen => closing (d + 1) ts
    | .rParen =>
      match d with
      | 0 => some ts
      | d + 1 => closing d ts
    | _ => closing d ts

theorem closing_open {t : Token} (ht : t.kind = .lParen) (d : Nat) (ts : List Token) :
    closing d (t :: ts) = closing (d + 1) ts := by
  rw [closing.eq_def]
  dsimp only
  rw [ht]

theorem closing_close {t : Token} (ht : t.kind = .rParen) (d : Nat) (ts : List Token) :
    closing (d + 1) (t :: ts) = closing d ts := by
  rw [closing, ht]

theorem closing_close_zero {t : Token} (ht : t.kind = .rParen) (ts : List Token) :
    closing 0 (t :: ts) = some ts := by
  rw [closing, ht]

/-- A parenthesis of either side. -/
def TokenKind.isParen : TokenKind → Bool
  | .lParen | .rParen => true
  | _ => false

theorem closing_other {t : Token} (ht : t.kind.isParen = false) (d : Nat) (ts : List Token) :
    closing d (t :: ts) = closing d ts := by
  rw [closing.eq_def]
  dsimp only
  split
  · rename_i h
    rw [h] at ht
    cases ht
  · rename_i h
    rw [h] at ht
    cases ht
  · rfl

end ScriptEngine
