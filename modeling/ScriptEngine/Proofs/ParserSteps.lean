import ScriptEngine.Tree.Parser

/-! # What every rule of the grammar does to the tokens ahead

A property of rules is *closed* if the primitive rules have it and every way of putting rules
together keeps it; all rules of the grammar have a closed property, by induction on the bound that
ties the knot. In particular a rule leaves an end of the tokens that it was given, also when it
fails, and an expression that starts at all takes at least one of them. -/

namespace ScriptEngine

/-! ### Replies -/

namespace Reply

def rest {α : Type} : Reply α → Stream
  | .ok _ r => r
  | .error _ r => r

end Reply

namespace Parse

variable {α β : Type}

theorem bind_apply (p : Parse α) (f : α → Parse β) (s : Stream) :
    (p >>= f) s = match p s with
      | .ok a r => f a r
      | .error d r => .error d r :=
  rfl

theorem bind_of_ok {p : Parse α} {f : α → Parse β} {s r : Stream} {a : α}
    (h : p s = .ok a r) : (p >>= f) s = f a r := by
  rw [bind_apply, h]

theorem bind_of_error {p : Parse α} {f : α → Parse β} {s r : Stream} {d : Diagnostic}
    (h : p s = .error d r) : (p >>= f) s = .error d r := by
  rw [bind_apply, h]

theorem bind_eq_ok {p : Parse α} {f : α → Parse β} {s r : Stream} {b : β}
    (h : (p >>= f) s = .ok b r) : ∃ a r₁, p s = .ok a r₁ ∧ f a r₁ = .ok b r := by
  cases hp : p s with
  | ok a r₁ =>
    rw [bind_of_ok hp] at h
    exact ⟨a, r₁, rfl, h⟩
  | error d r₁ =>
    rw [bind_of_error hp] at h
    cases h

theorem bind_assoc {γ : Type} (p : Parse α) (f : α → Parse β) (g : β → Parse γ) :
    (p >>= f >>= g) = (p >>= fun a => f a >>= g) := by
  funext s
  rw [bind_apply, bind_apply, bind_apply]
  cases p s with
  | ok a r => rfl
  | error d r => rfl

theorem discard_bind (p : Parse α) (f : Unit → Parse β) :
    (discard p >>= f) = (p >>= fun _ => f ()) := by
  funext s
  show ((p >>= fun _ => Parse.done ()) >>= f) s = _
  rw [bind_apply, bind_apply, bind_apply]
  cases p s with
  | ok a r => rfl
  | error d r => rfl

theorem map_bind {γ : Type} (g : α → γ) (p : Parse α) (f : γ → Parse β) :
    (g <$> p >>= f) = (p >>= fun a => f (g a)) := by
  funext s
  show ((p >>= fun a => Parse.done (g a)) >>= f) s = _
  rw [bind_apply, bind_apply, bind_apply]
  cases p s with
  | ok a r => rfl
  | error d r => rfl

/-- Goes on behind the next token that is not a line break, if it starts something; else nothing is
taken. -/
def beyond (next : TokenKind → Option (Parse α)) (a : α) : Parse α :=
  fun s =>
    match next s.skipNewlines.peek.kind with
    | some p => p s.skipNewlines.advance
    | none => .ok a s

end Parse

/-! ### Rules that look ahead -/

/-- The kinds of tokens that numbers are written with. -/
def TokenKind.isNumeral : TokenKind → Bool
  | .int | .float => true
  | _ => false

namespace Grammar

open Parse

/-- The arm that such a token starts, behind it. -/
def nextArm (self : Rules) (n : Nat) : TokenKind → Option (Parse Arms)
  | .keyword .elseif_ => some do
    let (condition, braced, body) ← arm self
    return .arm condition braced body (← armsRest self n)
  | .keyword .else_ => some do
    discard (accept .colon)
    let (braced, body) ← branch self
    return .otherwise braced body
  | _ => none

theorem armsRest_succ (self : Rules) (n : Nat) :
    armsRest self (n + 1) = beyond (nextArm self n) .done := by
  funext s
  rw [armsRest, beyond]
  dsimp only
  split
  · rename_i hkind
    rw [hkind]
    rfl
  · rename_i hkind
    rw [hkind]
    rfl
  · rename_i hif helse
    have hnone : nextArm self n s.skipNewlines.peek.kind = none := by
      unfold nextArm
      split
      · rename_i hkind
        exact absurd hkind hif
      · rename_i hkind
        exact absurd hkind helse
      · rfl
    rw [hnone]

/-- The rule that such a token starts. -/
def factorRule (self : Rules) (token : Token) : Parse Node :=
  match token.kind with
  | .int | .float => numeral
  | .text => do discard advance; return .text token.position token.lexeme
  | .identifier => named self
  | .lSquare => list self
  | .plus => signed self .plus
  | .minus => signed self .negate
  | .keyword .true_ => do
    discard advance
    return .number token.position (.ofNat 1)
  | .keyword .false_ | .keyword .null_ => do
    discard advance
    return .number token.position (.zero false)
  | .keyword .if_ => choice self
  | .keyword .for_ => forLoop self
  | .keyword .while_ => whileLoop self
  | .keyword .function_ => function self
  | .keyword .object_ => object self
  | .keyword .new_ => creation self
  | .keyword .this_ => do discard advance; return .this token.position
  | .keyword .include_ => inclusion self
  | .lParen => parens self
  | .lBrace => block self
  | _ => unexpected

theorem factor_eq (self : Rules) (s : Stream) :
    factor self s = factorRule self s.skipNewlines.peek s.skipNewlines :=
  rfl

theorem factorRule_of_isNumeral (self : Rules) {token : Token}
    (h : token.kind.isNumeral = true) : factorRule self token = numeral := by
  have hkind : token.kind = .int ∨ token.kind = .float := by
    cases hk : token.kind <;> simp_all [TokenKind.isNumeral]
  rcases hkind with hk | hk
  · simp only [factorRule, hk]
  · simp only [factorRule, hk]

end Grammar

/-! ### Closed properties of rules -/

/-- A property of rules that the primitive ones have and that composition keeps. -/
structure ParseClosed (P : ∀ α : Type, Parse α → Prop) : Prop where
  done : ∀ {α : Type} (a : α), P α (Parse.done a)
  bind : ∀ {α β : Type} {p : Parse α} {f : α → Parse β}, P α p → (∀ a, P β (f a)) → P β (p >>= f)
  peek : P Token Parse.peek
  advance : P Token Parse.advance
  remaining : P Nat Parse.remaining
  skipNewlines : P Unit Parse.skipNewlines
  expected : ∀ {α : Type} (what : String), P α (Parse.fail (.expected what))
  unexpected : ∀ {α : Type}, P α Parse.unexpected
  numeral : ∀ {rule : Token → Parse Node},
    (∀ token, token.kind.isNumeral = true → rule token = Grammar.numeral) →
    (∀ token, token.kind.isNumeral = false → P Node (rule token)) → P Node (Parse.peek >>= rule)
  accept : ∀ kind, P Bool (Parse.accept kind)
  expect : ∀ kind what, P Token (Parse.expect kind what)
  attempt : ∀ {α : Type} {p : Parse α}, P α p → P (Option α) (Parse.attempt p)
  beyond : ∀ {α : Type} (next : TokenKind → Option (Parse α)) (a : α),
    (∀ kind p, next kind = some p → P α p) → P α (Parse.beyond next a)

/-- What the rules of the grammar refer back to has the property. -/
structure Rules.Has (rules : Rules) (P : ∀ α : Type, Parse α → Prop) : Prop where
  expression : P Node rules.expression
  negation : P Node rules.negation
  access : P Node rules.access
  statement : P Node rules.statement
  statements : P Node rules.statements

namespace ParseClosed

open Parse Grammar

variable {P : ∀ α : Type, Parse α → Prop} {α β : Type} {self : Rules}

/-! ### Composition -/

theorem map (hP : ParseClosed P) (f : α → β) {p : Parse α} (hp : P α p) : P β (f <$> p) :=
  hP.bind hp fun _ => hP.done _

theorem discard (hP : ParseClosed P) {p : Parse α} (hp : P α p) : P Unit (discard p) :=
  hP.bind hp fun _ => hP.done _

theorem check (hP : ParseClosed P) (kind : TokenKind) : P Bool (check kind) :=
  show P Bool (Parse.peek >>= fun t => Parse.done (t.kind == kind)) from
    hP.bind hP.peek fun _ => hP.done _

theorem separated (hP : ParseClosed P) {item : Parse α} (hi : P α item) (close : TokenKind)
    (what : String) (n : Nat) : P (List α) (separated item close what n) := by
  induction n with
  | zero => exact hP.bind hi fun _ => hP.done _
  | succ n ih =>
    refine hP.bind hi fun _ => hP.bind hP.skipNewlines fun _ =>
      hP.bind (hP.accept _) fun more => ?_
    split
    · exact hP.bind hP.skipNewlines fun _ => hP.bind ih fun _ => hP.done _
    · exact hP.bind (hP.discard (hP.expect _ _)) fun _ => hP.done _

theorem enclosed (hP : ParseClosed P) {item : Parse α} (hi : P α item) (close : TokenKind)
    (what : String) : P (List α) (enclosed item close what) := by
  refine hP.bind hP.skipNewlines fun _ => hP.bind (hP.accept _) fun none => ?_
  split
  · exact hP.done _
  · exact hP.bind hP.remaining fun _ => hP.separated hi _ _ _

theorem chainRest (hP : ParseClosed P) {operand : Parse Node} (ho : P Node operand)
    (op? : TokenKind → Option BinaryOp) (n : Nat) (left : Node) :
    P Node (chainRest operand op? n left) := by
  induction n generalizing left with
  | zero => exact hP.done _
  | succ n ih =>
    refine hP.bind hP.peek fun token => ?_
    split
    · exact hP.done _
    · exact hP.bind (hP.discard hP.advance) fun _ => hP.bind hP.skipNewlines fun _ =>
        hP.bind ho fun _ => ih _

theorem chain (hP : ParseClosed P) {operand : Parse Node} (ho : P Node operand)
    (op? : TokenKind → Option BinaryOp) : P Node (chain operand op?) :=
  hP.bind ho fun _ => hP.bind hP.remaining fun _ => hP.chainRest ho op? _ _

/-! ### Bodies -/

theorem block (hP : ParseClosed P) (hs : self.Has P) : P Node (block self) :=
  hP.bind (hP.discard (hP.expect _ _)) fun _ => hP.bind hs.statements fun _ =>
    hP.bind hP.skipNewlines fun _ => hP.bind (hP.discard (hP.expect _ _)) fun _ => hP.done _

theorem bracedOr (hP : ParseClosed P) (hs : self.Has P) {inline_ : Parse Node}
    (hi : P Node inline_) : P (Bool × Node) (bracedOr self inline_) := by
  refine hP.bind (hP.check _) fun braced => ?_
  split
  · exact hP.bind (hP.block hs) fun _ => hP.done _
  · exact hP.bind hi fun _ => hP.done _

theorem branch (hP : ParseClosed P) (hs : self.Has P) : P (Bool × Node) (branch self) :=
  hP.bind hP.skipNewlines fun _ => hP.bracedOr hs hs.statement

theorem loopBody (hP : ParseClosed P) (hs : self.Has P) {inline_ : Parse Node}
    (hi : P Node inline_) : P (Bool × Node) (loopBody self inline_) :=
  hP.bind hP.skipNewlines fun _ => hP.bind (hP.discard (hP.accept _)) fun _ =>
    hP.bind hP.skipNewlines fun _ => hP.bracedOr hs hi

/-! ### Expressions that start with a keyword or a bracket -/

theorem arm (hP : ParseClosed P) (hs : self.Has P) : P (Node × Bool × Node) (arm self) :=
  hP.bind hP.skipNewlines fun _ => hP.bind hs.expression fun _ =>
    hP.bind (hP.discard (hP.accept _)) fun _ => hP.bind (hP.branch hs) fun _ => hP.done _

theorem armsRest (hP : ParseClosed P) (hs : self.Has P) (n : Nat) :
    P Arms (armsRest self n) := by
  induction n with
  | zero => exact hP.done _
  | succ n ih =>
    rw [armsRest_succ]
    refine hP.beyond _ _ fun kind p hp => ?_
    unfold nextArm at hp
    split at hp
    · cases hp
      exact hP.bind (hP.arm hs) fun _ => hP.bind ih fun _ => hP.done _
    · cases hp
      exact hP.bind (hP.discard (hP.accept _)) fun _ => hP.bind (hP.branch hs) fun _ => hP.done _
    · cases hp

theorem choice (hP : ParseClosed P) (hs : self.Has P) : P Node (choice self) :=
  hP.bind hP.advance fun _ => hP.bind (hP.arm hs) fun _ => hP.bind hP.remaining fun _ =>
    hP.bind (hP.armsRest hs _) fun _ => hP.done _

theorem forLoop (hP : ParseClosed P) (hs : self.Has P) : P Node (forLoop self) := by
  refine hP.bind hP.advance fun _ => hP.bind hP.skipNewlines fun _ =>
    hP.bind (hP.expect _ _) fun name => hP.bind hP.skipNewlines fun _ =>
      hP.bind (hP.accept _) fun each => ?_
  split
  · exact hP.bind hs.expression fun _ => hP.bind (hP.loopBody hs hs.expression) fun _ => hP.done _
  · refine hP.bind (hP.discard (hP.expect _ _)) fun _ => hP.bind hP.skipNewlines fun _ =>
      hP.bind hs.expression fun _ => hP.bind hP.skipNewlines fun _ =>
        hP.bind (hP.discard (hP.expect _ _)) fun _ => hP.bind hP.skipNewlines fun _ =>
          hP.bind hs.expression fun _ => hP.bind hP.skipNewlines fun _ =>
            hP.bind (hP.accept _) fun step => ?_
    split
    · exact hP.bind (hP.map _ hs.expression) fun _ =>
        hP.bind (hP.loopBody hs hs.expression) fun _ => hP.done _
    · exact hP.bind (hP.done _) fun _ => hP.bind (hP.loopBody hs hs.expression) fun _ => hP.done _

theorem whileLoop (hP : ParseClosed P) (hs : self.Has P) : P Node (whileLoop self) :=
  hP.bind hP.advance fun _ => hP.bind hP.skipNewlines fun _ => hP.bind hs.expression fun _ =>
    hP.bind (hP.loopBody hs hs.statement) fun _ => hP.done _

theorem parameters (hP : ParseClosed P) : P (List String) parameters :=
  hP.bind (hP.discard (hP.expect _ _)) fun _ => hP.enclosed (hP.map _ (hP.expect _ _)) _ _

theorem arguments (hP : ParseClosed P) (hs : self.Has P) : P (List Node) (arguments self) :=
  hP.bind (hP.discard (hP.expect _ _)) fun _ => hP.enclosed hs.expression _ _

theorem functionName (hP : ParseClosed P) : P (Option String) functionName := by
  refine hP.bind (hP.check _) fun named => ?_
  split
  · exact hP.bind hP.advance fun _ => hP.bind hP.skipNewlines fun _ => hP.done _
  · exact hP.done _

theorem function (hP : ParseClosed P) (hs : self.Has P) : P Node (function self) := by
  refine hP.bind hP.advance fun _ => hP.bind hP.skipNewlines fun _ =>
    hP.bind hP.functionName fun name => hP.bind (hP.check _) fun opens => ?_
  split
  · exact hP.expected _
  · refine hP.bind hP.parameters fun _ => hP.bind hP.skipNewlines fun _ =>
      hP.bind (hP.accept _) fun inline_ => ?_
    split
    · exact hP.bind hP.skipNewlines fun _ => hP.bind hs.statement fun _ => hP.done _
    · exact hP.bind (hP.block hs) fun _ => hP.done _

theorem parentName (hP : ParseClosed P) : P (Option String) parentName := by
  refine hP.bind (hP.accept _) fun extends_ => ?_
  split
  · exact hP.bind hP.skipNewlines fun _ => hP.bind (hP.expect _ _) fun _ =>
      hP.bind hP.skipNewlines fun _ => hP.done _
  · exact hP.done _

theorem object (hP : ParseClosed P) (hs : self.Has P) : P Node (object self) :=
  hP.bind hP.advance fun _ => hP.bind hP.skipNewlines fun _ => hP.bind (hP.expect _ _) fun _ =>
    hP.bind hP.skipNewlines fun _ => hP.bind hP.parameters fun _ => hP.bind hP.skipNewlines fun _ =>
      hP.bind hP.parentName fun _ => hP.bind (hP.block hs) fun _ => hP.done _

theorem creation (hP : ParseClosed P) (hs : self.Has P) : P Node (creation self) :=
  hP.bind hP.advance fun _ => hP.bind hP.skipNewlines fun _ => hP.bind (hP.expect _ _) fun _ =>
    hP.bind hP.skipNewlines fun _ => hP.bind (hP.arguments hs) fun _ => hP.done _

theorem pathsRest (hP : ParseClosed P) (hs : self.Has P) (n : Nat) :
    P (List Node) (pathsRest self n) := by
  induction n with
  | zero => exact hP.done _
  | succ n ih =>
    refine hP.bind (hP.accept _) fun more => ?_
    split
    · exact hP.bind hP.skipNewlines fun _ => hP.bind hs.expression fun _ => hP.bind ih fun _ =>
        hP.done _
    · exact hP.done _

theorem inclusion (hP : ParseClosed P) (hs : self.Has P) : P Node (inclusion self) :=
  hP.bind hP.advance fun _ => hP.bind hP.skipNewlines fun _ => hP.bind hs.expression fun _ =>
    hP.bind hP.remaining fun _ => hP.bind (hP.pathsRest hs _) fun _ => hP.done _

theorem list (hP : ParseClosed P) (hs : self.Has P) : P Node (list self) :=
  hP.bind hP.advance fun _ => hP.bind (hP.enclosed hs.expression _ _) fun _ => hP.done _

theorem parens (hP : ParseClosed P) (hs : self.Has P) : P Node (parens self) :=
  hP.bind (hP.discard hP.advance) fun _ => hP.bind hP.skipNewlines fun _ =>
    hP.bind hs.expression fun _ => hP.bind hP.skipNewlines fun _ =>
      hP.bind (hP.discard (hP.expect _ _)) fun _ => hP.done _

/-! ### Names and signs -/

theorem named (hP : ParseClosed P) (hs : self.Has P) : P Node (named self) := by
  refine hP.bind hP.advance fun token => hP.bind hP.peek fun next => ?_
  split
  · exact hP.bind (hP.discard hP.advance) fun _ => hP.bind hP.skipNewlines fun _ =>
      hP.bind hs.expression fun _ => hP.done _
  · exact hP.bind (hP.discard hP.advance) fun _ => hP.done _
  · exact hP.bind (hP.discard hP.advance) fun _ => hP.done _
  · split
    · exact hP.bind (hP.discard hP.advance) fun _ => hP.bind hP.skipNewlines fun _ =>
        hP.bind hs.expression fun _ => hP.done _
    · exact hP.done _

theorem signed (hP : ParseClosed P) (hs : self.Has P) (op : UnaryOp) : P Node (signed self op) :=
  hP.bind hP.advance fun _ => hP.bind hP.skipNewlines fun _ => hP.bind hs.access fun _ => hP.done _

/-! ### Tiers -/

theorem factorRule (hP : ParseClosed P) (hs : self.Has P) {token : Token}
    (hkind : token.kind.isNumeral = false) : P Node (factorRule self token) := by
  unfold Grammar.factorRule
  split
  · simp_all [TokenKind.isNumeral]
  · simp_all [TokenKind.isNumeral]
  · exact hP.bind (hP.discard hP.advance) fun _ => hP.done _
  · exact hP.named hs
  · exact hP.list hs
  · exact hP.signed hs _
  · exact hP.signed hs _
  · exact hP.bind (hP.discard hP.advance) fun _ => hP.done _
  · exact hP.bind (hP.discard hP.advance) fun _ => hP.done _
  · exact hP.bind (hP.discard hP.advance) fun _ => hP.done _
  · exact hP.choice hs
  · exact hP.forLoop hs
  · exact hP.whileLoop hs
  · exact hP.function hs
  · exact hP.object hs
  · exact hP.creation hs
  · exact hP.bind (hP.discard hP.advance) fun _ => hP.done _
  · exact hP.inclusion hs
  · exact hP.parens hs
  · exact hP.block hs
  · exact hP.unexpected

theorem factor (hP : ParseClosed P) (hs : self.Has P) : P Node (factor self) :=
  show P Node (Parse.skipNewlines >>= fun _ => Parse.peek >>= Grammar.factorRule self) from
    hP.bind hP.skipNewlines fun _ =>
      hP.numeral (fun _ => factorRule_of_isNumeral self) fun _ => hP.factorRule hs

theorem call (hP : ParseClosed P) (hs : self.Has P) : P Node (call self) := by
  refine hP.bind (hP.factor hs) fun callee => hP.bind (hP.check _) fun called => ?_
  split
  · exact hP.bind (hP.arguments hs) fun _ => hP.done _
  · exact hP.done _

theorem segmentsRest (hP : ParseClosed P) (hs : self.Has P) (n : Nat) :
    P (List Node) (segmentsRest self n) := by
  induction n with
  | zero => exact hP.done _
  | succ n ih =>
    refine hP.bind (hP.accept _) fun more => ?_
    split
    · exact hP.bind hP.skipNewlines fun _ => hP.bind (hP.bracedOr hs (hP.call hs)) fun _ =>
        hP.bind ih fun _ => hP.done _
    · exact hP.done _

theorem access (hP : ParseClosed P) (hs : self.Has P) : P Node (access self) := by
  refine hP.bind (hP.call hs) fun first => hP.bind hP.remaining fun _ =>
    hP.bind (hP.segmentsRest hs _) fun more => ?_
  split
  · exact hP.done _
  · exact hP.done _

theorem term (hP : ParseClosed P) (hs : self.Has P) : P Node (term self) :=
  hP.chain (hP.access hs) _

theorem sum (hP : ParseClosed P) (hs : self.Has P) : P Node (sum self) :=
  hP.chain (hP.term hs) _

theorem comparison (hP : ParseClosed P) (hs : self.Has P) : P Node (comparison self) :=
  hP.chain (hP.sum hs) _

theorem negation (hP : ParseClosed P) (hs : self.Has P) : P Node (negation self) := by
  refine hP.bind (hP.check _) fun negated => ?_
  split
  · exact hP.bind hP.advance fun _ => hP.bind hP.skipNewlines fun _ =>
      hP.bind hs.negation fun _ => hP.done _
  · exact hP.comparison hs

theorem declaration (hP : ParseClosed P) (hs : self.Has P) : P Node (declaration self) :=
  hP.bind hP.advance fun _ => hP.bind hP.skipNewlines fun _ => hP.bind (hP.expect _ _) fun _ =>
    hP.bind hP.skipNewlines fun _ => hP.bind (hP.discard (hP.expect _ _)) fun _ =>
      hP.bind hP.skipNewlines fun _ => hP.bind hs.expression fun _ => hP.done _

theorem expression (hP : ParseClosed P) (hs : self.Has P) : P Node (expression self) := by
  refine hP.bind (hP.check _) fun declares => ?_
  split
  · exact hP.declaration hs
  · exact hP.chain (hP.negation hs) _

/-! ### Statements -/

theorem statement (hP : ParseClosed P) (hs : self.Has P) : P Node (statement self) := by
  refine hP.bind hP.peek fun token => ?_
  split
  · exact hP.bind (hP.discard hP.advance) fun _ => hP.bind hP.skipNewlines fun _ =>
      hP.bind (hP.attempt hs.expression) fun _ => hP.done _
  · exact hP.bind (hP.discard hP.advance) fun _ => hP.done _
  · exact hP.bind (hP.discard hP.advance) fun _ => hP.done _
  · exact hP.expression hs

theorem statementsRest (hP : ParseClosed P) (hs : self.Has P) (n : Nat) :
    P (List Node) (statementsRest self n) := by
  induction n with
  | zero => exact hP.done _
  | succ n ih =>
    refine hP.bind (hP.check _) fun more => ?_
    split
    · refine hP.bind hP.skipNewlines fun _ => hP.bind (hP.attempt (hP.statement hs)) fun next => ?_
      split
      · exact hP.done _
      · exact hP.bind ih fun _ => hP.done _
    · exact hP.done _

theorem statements (hP : ParseClosed P) (hs : self.Has P) : P Node (statements self) := by
  refine hP.bind hP.skipNewlines fun _ => hP.bind hP.peek fun token => ?_
  split
  · exact hP.done _
  · exact hP.bind (hP.statement hs) fun _ => hP.bind hP.remaining fun _ =>
      hP.bind (hP.statementsRest hs _) fun _ => hP.done _

theorem program (hP : ParseClosed P) (hs : self.Has P) : P Node (program self) := by
  refine hP.bind hP.skipNewlines fun _ => hP.bind hP.peek fun token => ?_
  split
  · exact hP.done _
  · refine hP.bind (hP.statements hs) fun _ => hP.bind hP.skipNewlines fun _ =>
      hP.bind (hP.check _) fun ended => ?_
    split
    · exact hP.done _
    · exact hP.unexpected

/-- All rules have every closed property. -/
theorem rules (hP : ParseClosed P) (n : Nat) : (rules n).Has P := by
  induction n with
  | zero =>
    exact ⟨hP.unexpected, hP.unexpected, hP.unexpected, hP.unexpected, hP.unexpected⟩
  | succ n ih =>
    exact ⟨hP.expression ih, hP.negation ih, hP.access ih, hP.statement ih, hP.statements ih⟩

end ParseClosed

/-! ### What a rule leaves -/

/-- Also when it fails, the rule leaves an end of the tokens that it was given. -/
def Trails (α : Type) (p : Parse α) : Prop :=
  ∀ s, (p s).rest.ahead <:+ s.ahead ∧ (p s).rest.finish = s.finish

namespace Trails

open Parse

variable {α β : Type}

theorem advance_suffix (s : Stream) : s.advance.ahead <:+ s.ahead :=
  List.tail_suffix _

theorem skipNewlines_suffix (s : Stream) : s.skipNewlines.ahead <:+ s.ahead :=
  List.dropWhile_suffix _

theorem bind {p : Parse α} {f : α → Parse β} (hp : Trails α p) (hf : ∀ a, Trails β (f a)) :
    Trails β (p >>= f) := by
  intro s
  have hfirst := hp s
  rw [bind_apply]
  cases h : p s with
  | ok a r =>
    rw [h] at hfirst
    have hsecond := hf a r
    exact ⟨hsecond.1.trans hfirst.1, hsecond.2.trans hfirst.2⟩
  | error d r =>
    rw [h] at hfirst
    exact hfirst

theorem accept (kind : TokenKind) : Trails Bool (accept kind) := by
  intro s
  unfold Parse.accept
  split
  · exact ⟨advance_suffix s, rfl⟩
  · exact ⟨List.suffix_refl _, rfl⟩

theorem expect (kind : TokenKind) (what : String) : Trails Token (expect kind what) := by
  intro s
  unfold Parse.expect
  split
  · exact ⟨advance_suffix s, rfl⟩
  · exact ⟨List.suffix_refl _, rfl⟩

theorem attempt {p : Parse α} (hp : Trails α p) : Trails (Option α) (attempt p) := by
  intro s
  have hrun := hp s
  unfold Parse.attempt
  cases h : p s with
  | ok a r =>
    rw [h] at hrun
    exact hrun
  | error d r =>
    rw [h] at hrun
    dsimp only
    split
    · exact ⟨List.suffix_refl _, rfl⟩
    · exact hrun

theorem beyond (next : TokenKind → Option (Parse α)) (a : α)
    (hnext : ∀ kind p, next kind = some p → Trails α p) : Trails α (beyond next a) := by
  intro s
  unfold Parse.beyond
  split
  · rename_i p hp
    have hrun := hnext _ p hp s.skipNewlines.advance
    exact ⟨hrun.1.trans ((advance_suffix _).trans (skipNewlines_suffix s)), hrun.2⟩
  · exact ⟨List.suffix_refl _, rfl⟩

/-- What follows the token of a number takes nothing. -/
theorem numeralValue (token : Token) :
    Trails Node (match Number.ofText? token.lexeme with
      | some value => pure (.number token.position value)
      | none => fun s => .error (.located (.invalidNumber token.lexeme) token.position) s) := by
  intro s
  cases Number.ofText? (f := Format.single) token.lexeme with
  | some value => exact ⟨List.suffix_refl _, rfl⟩
  | none => exact ⟨List.suffix_refl _, rfl⟩

theorem numeral {rule : Token → Parse Node}
    (hnumeral : ∀ token, token.kind.isNumeral = true → rule token = Grammar.numeral)
    (hrule : ∀ token, token.kind.isNumeral = false → Trails Node (rule token)) :
    Trails Node (Parse.peek >>= rule) := by
  refine bind (fun s => ⟨List.suffix_refl _, rfl⟩) fun token => ?_
  cases hkind : token.kind.isNumeral with
  | true =>
    rw [hnumeral token hkind]
    exact bind (fun s => ⟨advance_suffix s, rfl⟩) numeralValue
  | false => exact hrule token hkind

theorem closed : ParseClosed Trails where
  done _ := fun _ => ⟨List.suffix_refl _, rfl⟩
  bind := bind
  peek := fun _ => ⟨List.suffix_refl _, rfl⟩
  advance := fun s => ⟨advance_suffix s, rfl⟩
  remaining := fun _ => ⟨List.suffix_refl _, rfl⟩
  skipNewlines := fun s => ⟨skipNewlines_suffix s, rfl⟩
  expected _ := fun _ => ⟨List.suffix_refl _, rfl⟩
  unexpected := fun _ => ⟨List.suffix_refl _, rfl⟩
  numeral := numeral
  accept := accept
  expect := expect
  attempt := attempt
  beyond := beyond

end Trails

/-! ### What starts an expression -/

/-- An expression can start with such a token. -/
def TokenKind.starts : TokenKind → Bool
  | .int | .float | .text | .identifier | .lSquare | .plus | .minus | .lParen | .lBrace => true
  | .keyword k =>
    match k with
    | .var_ | .not_ | .true_ | .false_ | .null_ | .if_ | .for_ | .while_ | .function_ | .object_
    | .new_ | .this_ | .include_ => true
    | _ => false
  | _ => false

/-- From this stream the rule takes at least one token, also when it fails. -/
def Parse.Bites {α : Type} (p : Parse α) (s : Stream) : Prop :=
  (p s).rest.ahead.length < s.ahead.length

namespace Parse.Bites

variable {α β : Type}

theorem bind {p : Parse α} {f : α → Parse β} {s : Stream} (hp : p.Bites s)
    (hf : ∀ a, Trails β (f a)) : (p >>= f).Bites s := by
  unfold Bites at hp ⊢
  rw [bind_apply]
  cases h : p s with
  | ok a r =>
    rw [h] at hp
    exact Nat.lt_of_le_of_lt (hf a r).1.length_le hp
  | error d r =>
    rw [h] at hp
    exact hp

theorem advance_lt {s : Stream} (hs : s.ahead ≠ []) :
    s.advance.ahead.length < s.ahead.length := by
  show s.ahead.tail.length < s.ahead.length
  rw [List.length_tail]
  have hpos := List.length_pos_iff.mpr hs
  omega

theorem advance {f : Token → Parse β} {s : Stream} (hs : s.ahead ≠ [])
    (hf : ∀ t, Trails β (f t)) : (Parse.advance >>= f).Bites s := by
  refine bind ?_ hf
  exact advance_lt hs

end Parse.Bites

namespace Grammar

open Parse

theorem ahead_ne_nil {s : Stream} (hs : s.peek.kind ≠ .endOfCode) : s.ahead ≠ [] := by
  intro hnil
  rw [Stream.peek, hnil] at hs
  exact hs rfl

theorem skipNewlines_eq {s : Stream} (hs : s.peek.kind ≠ .newline) : s.skipNewlines = s := by
  obtain ⟨ahead, finish⟩ := s
  cases ahead with
  | nil => rfl
  | cons t ts =>
    have hkind : (t.kind == TokenKind.newline) = false := by simpa [Stream.peek] using hs
    simp [Stream.skipNewlines, hkind]

variable (self : Rules)

theorem check_apply (kind : TokenKind) (s : Stream) :
    check kind s = .ok (s.peek.kind == kind) s :=
  rfl

theorem peek_apply (s : Stream) : Parse.peek s = .ok s.peek s :=
  rfl

theorem advance_apply (s : Stream) : Parse.advance s = .ok s.peek s.advance :=
  rfl

theorem skipNewlines_apply (s : Stream) : Parse.skipNewlines s = .ok () s.skipNewlines :=
  rfl

theorem remaining_apply (s : Stream) : Parse.remaining s = .ok s.ahead.length s :=
  rfl

/-- An expression that is not a declaration. -/
theorem expression_eq {s : Stream} (hs : s.peek.kind ≠ .keyword .var_) :
    expression self s = chain (negation self) logicOp? s := by
  rw [expression, bind_of_ok (check_apply _ s), beq_false_of_ne hs]
  rfl

theorem negation_eq {s : Stream} (hs : s.peek.kind ≠ .keyword .not_) :
    negation self s = comparison self s := by
  rw [negation, bind_of_ok (check_apply _ s), beq_false_of_ne hs]
  rfl

/-- What starts no expression is left where it stands. -/
theorem expression_miss {s : Stream} (hstart : s.peek.kind.starts = false)
    (hline : s.peek.kind ≠ .newline) : ∃ d, expression self s = .error d s := by
  refine ⟨.located (.unexpected s.peek.render) s.peek.position, ?_⟩
  have hvar : s.peek.kind ≠ .keyword .var_ := fun hk => by
    rw [hk] at hstart
    cases hstart
  have hnot : s.peek.kind ≠ .keyword .not_ := fun hk => by
    rw [hk] at hstart
    cases hstart
  have hrule : factorRule self s.peek = unexpected := by
    -- All kinds that have a rule start an expression.
    unfold factorRule
    split
    all_goals first
      | rename_i hkind
        rw [hkind] at hstart
        cases hstart
      | rfl
  have hfactor : factor self s = unexpected s := by
    rw [factor_eq, skipNewlines_eq hline, hrule]
  have hcall : call self s = unexpected s := bind_of_error hfactor
  have haccess : access self s = unexpected s := bind_of_error hcall
  have hterm : term self s = unexpected s := bind_of_error haccess
  have hsum : sum self s = unexpected s := bind_of_error hterm
  have hcomparison : comparison self s = unexpected s := bind_of_error hsum
  rw [expression_eq self hvar]
  exact bind_of_error ((negation_eq self hnot).trans hcomparison)

theorem discard_advance_bites {α : Type} {f : Unit → Parse α} {s : Stream} (hs : s.ahead ≠ [])
    (hf : ∀ u, Trails α (f u)) : (discard advance >>= f).Bites s :=
  Bites.bind (Bites.advance hs fun _ => Trails.closed.done _) hf

/-- Every rule of a factor starts by taking a token. -/
theorem factorRule_bites {s : Stream} (hs : self.Has Trails) (hstart : s.peek.kind.starts = true)
    (hvar : s.peek.kind ≠ .keyword .var_) (hnot : s.peek.kind ≠ .keyword .not_) :
    (factorRule self s.peek).Bites s := by
  have hend : s.peek.kind ≠ .endOfCode := fun hk => by
    rw [hk] at hstart
    cases hstart
  have hne := ahead_ne_nil hend
  have hP := Trails.closed
  have hdone : ∀ n : Node, ∀ _ : Unit, Trails Node (pure n) := fun n _ => hP.done n
  have hnumeral : numeral.Bites s := Bites.advance hne Trails.numeralValue
  have hsigned : ∀ op, (signed self op).Bites s := fun op => Bites.advance hne fun _ =>
    hP.bind hP.skipNewlines fun _ => hP.bind hs.access fun _ => hP.done _
  unfold factorRule
  split
  · exact hnumeral
  · exact hnumeral
  · exact discard_advance_bites hne (hdone _)
  · refine Bites.advance hne fun token => hP.bind hP.peek fun next => ?_
    split
    · exact hP.bind (hP.discard hP.advance) fun _ => hP.bind hP.skipNewlines fun _ =>
        hP.bind hs.expression fun _ => hP.done _
    · exact hP.bind (hP.discard hP.advance) fun _ => hP.done _
    · exact hP.bind (hP.discard hP.advance) fun _ => hP.done _
    · split
      · exact hP.bind (hP.discard hP.advance) fun _ => hP.bind hP.skipNewlines fun _ =>
          hP.bind hs.expression fun _ => hP.done _
      · exact hP.done _
  · exact Bites.advance hne fun _ => hP.bind (hP.enclosed hs.expression _ _) fun _ => hP.done _
  · exact hsigned _
  · exact hsigned _
  · exact discard_advance_bites hne (hdone _)
  · exact discard_advance_bites hne (hdone _)
  · exact discard_advance_bites hne (hdone _)
  · exact Bites.advance hne fun _ => hP.bind (hP.arm hs) fun _ => hP.bind hP.remaining fun _ =>
      hP.bind (hP.armsRest hs _) fun _ => hP.done _
  · refine Bites.advance hne fun _ => hP.bind hP.skipNewlines fun _ => hP.bind (hP.expect _ _)
      fun name => hP.bind hP.skipNewlines fun _ => hP.bind (hP.accept _) fun each => ?_
    split
    · exact hP.bind hs.expression fun _ => hP.bind (hP.loopBody hs hs.expression) fun _ =>
        hP.done _
    · refine hP.bind (hP.discard (hP.expect _ _)) fun _ => hP.bind hP.skipNewlines fun _ =>
        hP.bind hs.expression fun _ => hP.bind hP.skipNewlines fun _ =>
          hP.bind (hP.discard (hP.expect _ _)) fun _ => hP.bind hP.skipNewlines fun _ =>
            hP.bind hs.expression fun _ => hP.bind hP.skipNewlines fun _ =>
              hP.bind (hP.accept _) fun step => ?_
      split
      · exact hP.bind (hP.map _ hs.expression) fun _ =>
          hP.bind (hP.loopBody hs hs.expression) fun _ => hP.done _
      · exact hP.bind (hP.done _) fun _ =>
          hP.bind (hP.loopBody hs hs.expression) fun _ => hP.done _
  · exact Bites.advance hne fun _ => hP.bind hP.skipNewlines fun _ => hP.bind hs.expression
      fun _ => hP.bind (hP.loopBody hs hs.statement) fun _ => hP.done _
  · refine Bites.advance hne fun _ => hP.bind hP.skipNewlines fun _ => hP.bind hP.functionName
      fun name => hP.bind (hP.check _) fun opens => ?_
    split
    · exact hP.expected _
    · refine hP.bind hP.parameters fun _ => hP.bind hP.skipNewlines fun _ =>
        hP.bind (hP.accept _) fun inline_ => ?_
      split
      · exact hP.bind hP.skipNewlines fun _ => hP.bind hs.statement fun _ => hP.done _
      · exact hP.bind (hP.block hs) fun _ => hP.done _
  · exact Bites.advance hne fun _ => hP.bind hP.skipNewlines fun _ => hP.bind (hP.expect _ _)
      fun _ => hP.bind hP.skipNewlines fun _ => hP.bind hP.parameters fun _ =>
        hP.bind hP.skipNewlines fun _ => hP.bind hP.parentName fun _ =>
          hP.bind (hP.block hs) fun _ => hP.done _
  · exact Bites.advance hne fun _ => hP.bind hP.skipNewlines fun _ => hP.bind (hP.expect _ _)
      fun _ => hP.bind hP.skipNewlines fun _ => hP.bind (hP.arguments hs) fun _ => hP.done _
  · exact discard_advance_bites hne (hdone _)
  · exact Bites.advance hne fun _ => hP.bind hP.skipNewlines fun _ => hP.bind hs.expression
      fun _ => hP.bind hP.remaining fun _ => hP.bind (hP.pathsRest hs _) fun _ => hP.done _
  · exact discard_advance_bites hne fun _ => hP.bind hP.skipNewlines fun _ =>
      hP.bind hs.expression fun _ => hP.bind hP.skipNewlines fun _ =>
        hP.bind (hP.discard (hP.expect _ _)) fun _ => hP.done _
  · rename_i hk
    have hexpect : (expect .lBrace "'\x7b'").Bites s := by
      show (expect .lBrace "'\x7b'" s).rest.ahead.length < s.ahead.length
      rw [expect, hk]
      exact Bites.advance_lt hne
    exact Bites.bind (Bites.bind hexpect fun _ => hP.done _) fun _ => hP.bind hs.statements
      fun _ => hP.bind hP.skipNewlines fun _ => hP.bind (hP.discard (hP.expect _ _)) fun _ =>
        hP.done _
  · rename_i hother
    exfalso
    cases hk : s.peek.kind with
    | keyword k => cases k <;> simp_all [TokenKind.starts]
    | _ => simp_all [TokenKind.starts]

theorem chain_bites {operand : Parse Node} (op? : TokenKind → Option BinaryOp) {s : Stream}
    (ho : Trails Node operand) (hb : operand.Bites s) : (chain operand op?).Bites s :=
  Bites.bind hb fun _ => Trails.closed.bind Trails.closed.remaining fun _ =>
    Trails.closed.chainRest ho op? _ _

/-- What starts an expression is taken, also if the expression fails. -/
theorem expression_bites {s : Stream} (hs : self.Has Trails) (hstart : s.peek.kind.starts = true) :
    (expression self).Bites s := by
  have hP := Trails.closed
  have hline : s.peek.kind ≠ .newline := fun hk => by
    rw [hk] at hstart
    cases hstart
  have hend : s.peek.kind ≠ .endOfCode := fun hk => by
    rw [hk] at hstart
    cases hstart
  have hne := ahead_ne_nil hend
  by_cases hvar : s.peek.kind = .keyword .var_
  · have hdeclare : (declaration self).Bites s := Bites.advance hne fun _ =>
      hP.bind hP.skipNewlines fun _ => hP.bind (hP.expect _ _) fun _ => hP.bind hP.skipNewlines
        fun _ => hP.bind (hP.discard (hP.expect _ _)) fun _ => hP.bind hP.skipNewlines fun _ =>
          hP.bind hs.expression fun _ => hP.done _
    unfold Bites at hdeclare ⊢
    rw [expression, bind_of_ok (check_apply _ s), hvar]
    exact hdeclare
  · have hnegation : (negation self).Bites s := by
      by_cases hnot : s.peek.kind = .keyword .not_
      · have hnegated : (advance >>= fun token => skipNewlines >>= fun _ => self.negation >>=
            fun operand => pure (.unary token.position .not_ operand) : Parse Node).Bites s :=
          Bites.advance hne fun _ => hP.bind hP.skipNewlines fun _ => hP.bind hs.negation
            fun _ => hP.done _
        unfold Bites at hnegated ⊢
        rw [negation, bind_of_ok (check_apply _ s), hnot]
        exact hnegated
      · have hfactor : (factor self).Bites s := by
          have hrule := factorRule_bites self hs hstart hvar hnot
          unfold Bites at hrule ⊢
          rw [factor_eq, skipNewlines_eq hline]
          exact hrule
        have hcall : (call self).Bites s := Bites.bind hfactor fun _ =>
          hP.bind (hP.check _) fun _ => by
            split
            · exact hP.bind (hP.arguments hs) fun _ => hP.done _
            · exact hP.done _
        have haccess : (access self).Bites s := Bites.bind hcall fun _ =>
          hP.bind hP.remaining fun _ => hP.bind (hP.segmentsRest hs _) fun _ => by
            split
            · exact hP.done _
            · exact hP.done _
        have hcomparison : (comparison self).Bites s :=
          chain_bites _ (hP.sum hs)
            (chain_bites _ (hP.term hs) (chain_bites _ (hP.access hs) haccess))
        unfold Bites at hcomparison ⊢
        rw [negation_eq self hnot]
        exact hcomparison
    have hchain := chain_bites logicOp? (hP.negation hs) hnegation
    unfold Bites at hchain ⊢
    rw [expression_eq self hvar]
    exact hchain

end Grammar

end ScriptEngine
