import ScriptEngine.Proofs.ParserSteps

/-! # Parsing is blind to places

The places of tokens only end up in the places of nodes and in diagnostics: with all places
forgotten a rule succeeds on the same tokens, and with the same tree up to places. -/

namespace ScriptEngine

/-- The token at no place. -/
def Token.bare (t : Token) : Token :=
  { t with position := .none }

/-- The stream with all places forgotten. -/
def Stream.bare (s : Stream) : Stream :=
  { ahead := s.ahead.map Token.bare, finish := .none }

namespace Stream

theorem peek_bare (s : Stream) : s.bare.peek = s.peek.bare := by
  obtain ⟨ahead, finish⟩ := s
  cases ahead with
  | nil => rfl
  | cons t ts => rfl

theorem advance_bare (s : Stream) : s.bare.advance = s.advance.bare := by
  obtain ⟨ahead, finish⟩ := s
  cases ahead with
  | nil => rfl
  | cons t ts => rfl

theorem skipNewlines_bare (s : Stream) : s.bare.skipNewlines = s.skipNewlines.bare := by
  obtain ⟨ahead, finish⟩ := s
  simp only [bare, skipNewlines, mk.injEq, and_true]
  induction ahead with
  | nil => rfl
  | cons t ts ih =>
    have hkind : (t.bare.kind == TokenKind.newline) = (t.kind == TokenKind.newline) := rfl
    rw [List.map_cons, List.dropWhile_cons, List.dropWhile_cons, hkind]
    split
    · exact ih
    · rfl

theorem length_bare (s : Stream) : s.bare.ahead.length = s.ahead.length :=
  List.length_map _

end Stream

/-! ### Rules that are blind to places -/

/-- The second reply is the first one with all places forgotten, where `e` forgets them in the
result. -/
inductive Reply.Mirrors {α : Type} (e : α → α) : Reply α → Reply α → Prop where
  | ok (a : α) (r : Stream) : Mirrors e (.ok a r) (.ok (e a) r.bare)
  | error (d d' : Diagnostic) (r : Stream) : Mirrors e (.error d r) (.error d' r.bare)

/-- The second rule does without places what the first one does with them. -/
def Blind {α : Type} (e : α → α) (p q : Parse α) : Prop :=
  ∀ s, Reply.Mirrors e (p s) (q s.bare)

structure Rules.Blind (rules : Rules) : Prop where
  expression : ScriptEngine.Blind Node.erase rules.expression rules.expression
  negation : ScriptEngine.Blind Node.erase rules.negation rules.negation
  access : ScriptEngine.Blind Node.erase rules.access rules.access
  statement : ScriptEngine.Blind Node.erase rules.statement rules.statement
  statements : ScriptEngine.Blind Node.erase rules.statements rules.statements

theorem Node.pos_erase (n : Node) : n.erase.pos = .none := by
  cases n <;> rfl

theorem eraseAll_eq_map (ns : List Node) : eraseAll ns = ns.map Node.erase := by
  induction ns with
  | nil => rfl
  | cons n ns ih => rw [eraseAll, ih, List.map_cons]

/-- Forgets the places in a body. -/
def eraseBody (b : Bool × Node) : Bool × Node :=
  (b.1, b.2.erase)

namespace Blind

open Parse Grammar

variable {α β : Type} {e : α → α} {e' : β → β} {self : Rules}

/-! ### Primitive rules -/

theorem bind {p q : Parse α} {f g : α → Parse β} (hp : Blind e p q)
    (hf : ∀ a, Blind e' (f a) (g (e a))) : Blind e' (p >>= f) (q >>= g) := by
  intro s
  have hfirst := hp s
  rw [bind_apply, bind_apply]
  generalize p s = x at hfirst ⊢
  generalize q s.bare = y at hfirst ⊢
  cases hfirst with
  | ok a r => exact hf a r
  | error d d' r => exact .error d d' r

theorem done (a : α) : Blind e (Parse.done a) (Parse.done (e a)) :=
  fun s => .ok a s

theorem fault (d d' : Stream → Diagnostic) :
    Blind e (fun s => .error (d s) s) (fun s => .error (d' s) s) :=
  fun s => .error (d s) (d' s.bare) s

theorem fail (fault : Fault) : Blind e (fail fault) (fail fault) :=
  Blind.fault _ _

theorem unexpected : Blind e unexpected unexpected :=
  Blind.fault _ _

theorem peek : Blind Token.bare peek peek := by
  intro s
  unfold Parse.peek
  rw [Stream.peek_bare]
  exact .ok _ s

theorem advance : Blind Token.bare advance advance := by
  intro s
  unfold Parse.advance
  rw [Stream.peek_bare, Stream.advance_bare]
  exact .ok _ s.advance

theorem remaining : Blind id remaining remaining := by
  intro s
  unfold Parse.remaining
  rw [Stream.length_bare]
  exact .ok _ s

theorem skipNewlines : Blind id skipNewlines skipNewlines := by
  intro s
  unfold Parse.skipNewlines
  rw [Stream.skipNewlines_bare]
  exact .ok _ s.skipNewlines

theorem check (kind : TokenKind) : Blind id (check kind) (check kind) := by
  intro s
  unfold Parse.check
  rw [Stream.peek_bare]
  exact .ok _ s

theorem accept (kind : TokenKind) : Blind id (accept kind) (accept kind) := by
  intro s
  unfold Parse.accept
  rw [Stream.peek_bare]
  show Reply.Mirrors id (if s.peek.kind == kind then _ else _)
    (if s.peek.kind == kind then _ else _)
  split
  · rw [Stream.advance_bare]
    exact .ok true s.advance
  · exact .ok false s

theorem expect (kind : TokenKind) (what : String) :
    Blind Token.bare (expect kind what) (expect kind what) := by
  intro s
  unfold Parse.expect
  rw [Stream.peek_bare]
  show Reply.Mirrors Token.bare (if s.peek.kind == kind then _ else _)
    (if s.peek.kind == kind then _ else _)
  split
  · rw [Stream.advance_bare]
    exact .ok s.peek s.advance
  · exact fail _ s

theorem attempt {p : Parse Node} (hp : Blind Node.erase p p) :
    Blind eraseSome (attempt p) (attempt p) := by
  intro s
  have hrun := hp s
  unfold Parse.attempt
  generalize p s = x at hrun ⊢
  generalize p s.bare = y at hrun ⊢
  cases hrun with
  | ok a r => exact .ok (some a) r
  | error d d' r =>
    dsimp only
    rw [Stream.length_bare, Stream.length_bare]
    split
    · exact .ok none s
    · exact .error d d' r

/-! ### Composition -/

theorem discard {p q : Parse α} (hp : Blind e p q) : Blind id (discard p) (discard q) :=
  hp.bind fun _ => done ()

theorem map (f g : α → β) (hf : ∀ a, g (e a) = e' (f a)) {p q : Parse α} (hp : Blind e p q) :
    Blind e' (f <$> p) (g <$> q) := by
  refine hp.bind fun a => ?_
  show Blind e' (Parse.done (f a)) (Parse.done (g (e a)))
  rw [hf a]
  exact done _

theorem separated {item : Parse α} (hi : Blind e item item) (close : TokenKind) (what : String)
    (n : Nat) : Blind (List.map e) (separated item close what n) (separated item close what n) := by
  induction n with
  | zero => exact hi.bind fun _ => done [_]
  | succ n ih =>
    refine hi.bind fun a => skipNewlines.bind fun _ => (accept _).bind fun more => ?_
    dsimp only [id_eq]
    split
    · exact skipNewlines.bind fun _ => ih.bind fun _ => done (_ :: _)
    · exact (discard (expect _ _)).bind fun _ => done [_]

theorem enclosed {item : Parse α} (hi : Blind e item item) (close : TokenKind) (what : String) :
    Blind (List.map e) (enclosed item close what) (enclosed item close what) := by
  refine skipNewlines.bind fun _ => (accept _).bind fun none => ?_
  dsimp only [id_eq]
  split
  · exact done []
  · exact remaining.bind fun _ => separated hi _ _ _

theorem nodes {item : Parse Node} (hi : Blind Node.erase item item) (close : TokenKind)
    (what : String) : Blind eraseAll (Parse.enclosed item close what)
      (Parse.enclosed item close what) := by
  have hmap := enclosed hi close what
  rwa [← funext eraseAll_eq_map] at hmap

theorem chainRest {operand : Parse Node} (ho : Blind Node.erase operand operand)
    (op? : TokenKind → Option BinaryOp) (n : Nat) (left : Node) :
    Blind Node.erase (chainRest operand op? n left) (chainRest operand op? n left.erase) := by
  induction n generalizing left with
  | zero => exact done left
  | succ n ih =>
    refine peek.bind fun token => ?_
    have hkind : token.bare.kind = token.kind := rfl
    rw [hkind]
    split
    · exact done left
    · exact (discard advance).bind fun _ => skipNewlines.bind fun _ => ho.bind fun _ =>
        ih (.binary _ _ _ _)

theorem chain {operand : Parse Node} (ho : Blind Node.erase operand operand)
    (op? : TokenKind → Option BinaryOp) :
    Blind Node.erase (chain operand op?) (chain operand op?) :=
  ho.bind fun _ => remaining.bind fun _ => chainRest ho op? _ _

/-! ### Bodies -/

theorem block (hs : self.Blind) : Blind Node.erase (block self) (block self) :=
  (discard (expect _ _)).bind fun _ => hs.statements.bind fun _ => skipNewlines.bind fun _ =>
    (discard (expect _ _)).bind fun _ => done _

theorem bracedOr (hs : self.Blind) {inline_ : Parse Node}
    (hi : Blind Node.erase inline_ inline_) :
    Blind eraseBody (bracedOr self inline_) (bracedOr self inline_) := by
  refine (check _).bind fun braced => ?_
  dsimp only [id_eq]
  split
  · exact (block hs).bind fun _ => done (true, _)
  · exact hi.bind fun _ => done (false, _)

theorem branch (hs : self.Blind) : Blind eraseBody (branch self) (branch self) :=
  skipNewlines.bind fun _ => bracedOr hs hs.statement

theorem loopBody (hs : self.Blind) {inline_ : Parse Node}
    (hi : Blind Node.erase inline_ inline_) :
    Blind eraseBody (loopBody self inline_) (loopBody self inline_) :=
  skipNewlines.bind fun _ => (discard (accept _)).bind fun _ => skipNewlines.bind fun _ =>
    bracedOr hs hi

/-! ### Expressions that start with a keyword or a bracket -/

theorem arm (hs : self.Blind) :
    Blind (fun a => (a.1.erase, eraseBody a.2)) (arm self) (arm self) :=
  skipNewlines.bind fun _ => hs.expression.bind fun _ => (discard (accept _)).bind fun _ =>
    (branch hs).bind fun _ => done (_, _, _)

theorem armsRest (hs : self.Blind) (n : Nat) :
    Blind Arms.erase (armsRest self n) (armsRest self n) := by
  induction n with
  | zero => exact done Arms.done
  | succ n ih =>
    intro s
    rw [armsRest_succ, Parse.beyond, Parse.beyond, Stream.skipNewlines_bare, Stream.peek_bare,
      Stream.advance_bare]
    have hkind : s.skipNewlines.peek.bare.kind = s.skipNewlines.peek.kind := rfl
    rw [hkind]
    cases hk : nextArm self n s.skipNewlines.peek.kind with
    | none => exact Reply.Mirrors.ok Arms.done s
    | some p =>
      dsimp only
      unfold nextArm at hk
      split at hk
      · cases hk
        exact (arm hs).bind (fun _ => ih.bind fun _ => done (Arms.arm _ _ _ _)) _
      · cases hk
        exact (discard (accept _)).bind (fun _ => (branch hs).bind fun _ => done (Arms.otherwise _ _)) _
      · cases hk

theorem choice (hs : self.Blind) : Blind Node.erase (choice self) (choice self) :=
  advance.bind fun _ => (arm hs).bind fun _ => remaining.bind fun _ =>
    (armsRest hs _).bind fun _ => done (Node.choose _ _)

theorem forLoop (hs : self.Blind) : Blind Node.erase (forLoop self) (forLoop self) := by
  refine advance.bind fun _ => skipNewlines.bind fun _ => (expect _ _).bind fun name =>
    skipNewlines.bind fun _ => (accept _).bind fun each => ?_
  dsimp only [id_eq]
  split
  · exact hs.expression.bind fun _ => (loopBody hs hs.expression).bind fun _ =>
      done (Node.each _ _ _ _ _)
  · refine (discard (expect _ _)).bind fun _ => skipNewlines.bind fun _ =>
      hs.expression.bind fun _ => skipNewlines.bind fun _ => (discard (expect _ _)).bind fun _ =>
        skipNewlines.bind fun _ => hs.expression.bind fun _ => skipNewlines.bind fun _ =>
          (accept _).bind fun step => ?_
    dsimp only [id_eq]
    split
    · have hstep : Blind eraseSome (some <$> self.expression) (some <$> self.expression) :=
        map some some (fun _ => rfl) hs.expression
      exact hstep.bind fun _ => (loopBody hs hs.expression).bind fun _ =>
        done (Node.count _ _ _ _ _ _ _)
    · have hnone : Blind eraseSome (pure none) (pure none) := done none
      exact hnone.bind fun _ => (loopBody hs hs.expression).bind fun _ =>
        done (Node.count _ _ _ _ _ _ _)

theorem whileLoop (hs : self.Blind) : Blind Node.erase (whileLoop self) (whileLoop self) :=
  advance.bind fun _ => skipNewlines.bind fun _ => hs.expression.bind fun _ =>
    (loopBody hs hs.statement).bind fun _ => done (Node.loop _ _ _ _)

theorem parameters : Blind (List.map id) parameters parameters :=
  (discard (expect _ _)).bind fun _ =>
    enclosed (map Token.lexeme Token.lexeme (fun _ => rfl) (expect _ _)) _ _

theorem arguments (hs : self.Blind) : Blind eraseAll (arguments self) (arguments self) :=
  (discard (expect _ _)).bind fun _ => nodes hs.expression _ _

theorem functionName : Blind id functionName functionName := by
  refine (check _).bind fun named => ?_
  dsimp only [id_eq]
  split
  · exact advance.bind fun _ => skipNewlines.bind fun _ => done (some _)
  · exact done none

theorem function (hs : self.Blind) : Blind Node.erase (function self) (function self) := by
  refine advance.bind fun _ => skipNewlines.bind fun _ => functionName.bind fun name =>
    (check _).bind fun opens => ?_
  dsimp only [id_eq]
  split
  · exact fail _
  · refine parameters.bind fun params => skipNewlines.bind fun _ => (accept _).bind fun inline_ => ?_
    rw [List.map_id]
    dsimp only [id_eq]
    split
    · exact skipNewlines.bind fun _ => hs.statement.bind fun _ => done (Node.function _ _ _ _ _)
    · exact (block hs).bind fun _ => done (Node.function _ _ _ _ _)

theorem parentName : Blind id parentName parentName := by
  refine (accept _).bind fun extends_ => ?_
  dsimp only [id_eq]
  split
  · exact skipNewlines.bind fun _ => (expect _ _).bind fun _ => skipNewlines.bind fun _ =>
      done (some _)
  · exact done none

theorem object (hs : self.Blind) : Blind Node.erase (object self) (object self) := by
  refine advance.bind fun _ => skipNewlines.bind fun _ => (expect _ _).bind fun name =>
    skipNewlines.bind fun _ => parameters.bind fun params => skipNewlines.bind fun _ => ?_
  rw [List.map_id]
  exact parentName.bind fun _ => (block hs).bind fun _ => done (Node.object _ _ _ _ _)

theorem creation (hs : self.Blind) : Blind Node.erase (creation self) (creation self) :=
  advance.bind fun _ => skipNewlines.bind fun _ => (expect _ _).bind fun _ =>
    skipNewlines.bind fun _ => (arguments hs).bind fun _ => done (Node.create _ _ _)

theorem pathsRest (hs : self.Blind) (n : Nat) :
    Blind eraseAll (pathsRest self n) (pathsRest self n) := by
  induction n with
  | zero => exact done []
  | succ n ih =>
    refine (accept _).bind fun more => ?_
    dsimp only [id_eq]
    split
    · exact skipNewlines.bind fun _ => hs.expression.bind fun _ => ih.bind fun _ => done (_ :: _)
    · exact done []

theorem inclusion (hs : self.Blind) : Blind Node.erase (inclusion self) (inclusion self) :=
  advance.bind fun _ => skipNewlines.bind fun _ => hs.expression.bind fun _ =>
    remaining.bind fun _ => (pathsRest hs _).bind fun _ => done (Node.include_ _ (_ :: _))

theorem list (hs : self.Blind) : Blind Node.erase (list self) (list self) :=
  advance.bind fun _ => (nodes hs.expression _ _).bind fun _ => done (Node.list _ _)

theorem parens (hs : self.Blind) : Blind Node.erase (parens self) (parens self) :=
  (discard advance).bind fun _ => skipNewlines.bind fun _ => hs.expression.bind fun _ =>
    skipNewlines.bind fun _ => (discard (expect _ _)).bind fun _ => done _

/-! ### Names and numbers -/

theorem named (hs : self.Blind) : Blind Node.erase (named self) (named self) := by
  refine advance.bind fun token => peek.bind fun next => ?_
  have hkind : next.bare.kind = next.kind := rfl
  rw [hkind]
  split
  · exact (discard advance).bind fun _ => skipNewlines.bind fun _ => hs.expression.bind fun _ =>
      done (Node.assign _ _ _)
  · exact (discard advance).bind fun _ => done (Node.update _ _ _ (Node.number _ _))
  · exact (discard advance).bind fun _ => done (Node.update _ _ _ (Node.number _ _))
  · split
    · exact (discard advance).bind fun _ => skipNewlines.bind fun _ => hs.expression.bind fun _ =>
        done (Node.update _ _ _ _)
    · exact done (Node.read _ _)

theorem numeral : Blind Node.erase numeral numeral := by
  refine advance.bind fun token => ?_
  have hlexeme : token.bare.lexeme = token.lexeme := rfl
  rw [hlexeme]
  split
  · exact done (Node.number _ _)
  · exact fault _ _

theorem signed (hs : self.Blind) (op : UnaryOp) :
    Blind Node.erase (signed self op) (signed self op) :=
  advance.bind fun _ => skipNewlines.bind fun _ => hs.access.bind fun _ => done (Node.unary _ _ _)

/-! ### Tiers -/

theorem factorRule (hs : self.Blind) (token : Token) :
    Blind Node.erase (factorRule self token) (factorRule self token.bare) := by
  unfold Grammar.factorRule
  have hkind : token.bare.kind = token.kind := rfl
  rw [hkind]
  split
  · exact numeral
  · exact numeral
  · exact (discard advance).bind fun _ => done (Node.text _ _)
  · exact named hs
  · exact list hs
  · exact signed hs _
  · exact signed hs _
  · exact (discard advance).bind fun _ => done (Node.number _ _)
  · exact (discard advance).bind fun _ => done (Node.number _ _)
  · exact (discard advance).bind fun _ => done (Node.number _ _)
  · exact choice hs
  · exact forLoop hs
  · exact whileLoop hs
  · exact function hs
  · exact object hs
  · exact creation hs
  · exact (discard advance).bind fun _ => done (Node.this _)
  · exact inclusion hs
  · exact parens hs
  · exact block hs
  · exact unexpected

theorem factor (hs : self.Blind) : Blind Node.erase (factor self) (factor self) :=
  show Blind Node.erase (Parse.skipNewlines >>= fun _ => Parse.peek >>= Grammar.factorRule self)
      (Parse.skipNewlines >>= fun _ => Parse.peek >>= Grammar.factorRule self) from
    skipNewlines.bind fun _ => peek.bind fun token => factorRule hs token

theorem call (hs : self.Blind) : Blind Node.erase (call self) (call self) := by
  refine (factor hs).bind fun callee => (check _).bind fun called => ?_
  rw [Node.pos_erase]
  dsimp only [id_eq]
  split
  · exact (arguments hs).bind fun _ => done (Node.call _ _ _)
  · exact done _

theorem segmentsRest (hs : self.Blind) (n : Nat) :
    Blind eraseAll (segmentsRest self n) (segmentsRest self n) := by
  induction n with
  | zero => exact done []
  | succ n ih =>
    refine (accept _).bind fun more => ?_
    dsimp only [id_eq]
    split
    · exact skipNewlines.bind fun _ => (bracedOr hs (call hs)).bind fun _ => ih.bind fun _ =>
        done (_ :: _)
    · exact done []

theorem access (hs : self.Blind) : Blind Node.erase (access self) (access self) := by
  refine (call hs).bind fun first => remaining.bind fun _ => (segmentsRest hs _).bind fun more => ?_
  rw [Node.pos_erase]
  cases more with
  | nil => exact done _
  | cons n ns => exact done (Node.members _ (_ :: _ :: _))

theorem term (hs : self.Blind) : Blind Node.erase (term self) (term self) :=
  chain (access hs) _

theorem sum (hs : self.Blind) : Blind Node.erase (sum self) (sum self) :=
  chain (term hs) _

theorem comparison (hs : self.Blind) : Blind Node.erase (comparison self) (comparison self) :=
  chain (sum hs) _

theorem negation (hs : self.Blind) : Blind Node.erase (negation self) (negation self) := by
  refine (check _).bind fun negated => ?_
  dsimp only [id_eq]
  split
  · exact advance.bind fun _ => skipNewlines.bind fun _ => hs.negation.bind fun _ =>
      done (Node.unary _ _ _)
  · exact comparison hs

theorem declaration (hs : self.Blind) : Blind Node.erase (declaration self) (declaration self) :=
  advance.bind fun _ => skipNewlines.bind fun _ => (expect _ _).bind fun _ =>
    skipNewlines.bind fun _ => (discard (expect _ _)).bind fun _ => skipNewlines.bind fun _ =>
      hs.expression.bind fun _ => done (Node.declare _ _ _)

theorem expression (hs : self.Blind) : Blind Node.erase (expression self) (expression self) := by
  refine (check _).bind fun declares => ?_
  dsimp only [id_eq]
  split
  · exact declaration hs
  · exact chain (negation hs) _

/-! ### Statements -/

theorem statement (hs : self.Blind) : Blind Node.erase (statement self) (statement self) := by
  refine peek.bind fun token => ?_
  have hkind : token.bare.kind = token.kind := rfl
  rw [hkind]
  split
  · exact (discard advance).bind fun _ => skipNewlines.bind fun _ =>
      (attempt hs.expression).bind fun _ => done (Node.return_ _ _)
  · exact (discard advance).bind fun _ => done (Node.continue_ _)
  · exact (discard advance).bind fun _ => done (Node.break_ _)
  · exact expression hs

theorem statementsRest (hs : self.Blind) (n : Nat) :
    Blind eraseAll (statementsRest self n) (statementsRest self n) := by
  induction n with
  | zero => exact done []
  | succ n ih =>
    refine (check _).bind fun more => ?_
    dsimp only [id_eq]
    split
    · refine skipNewlines.bind fun _ => (attempt (statement hs)).bind fun next => ?_
      cases next with
      | none => exact done []
      | some n => exact ih.bind fun _ => done (_ :: _)
    · exact done []

theorem statements (hs : self.Blind) : Blind Node.erase (statements self) (statements self) := by
  refine skipNewlines.bind fun _ => peek.bind fun token => ?_
  have hkind : token.bare.kind = token.kind := rfl
  rw [hkind]
  split
  · exact done (Node.number _ _)
  · exact (statement hs).bind fun _ => remaining.bind fun _ => (statementsRest hs _).bind fun _ =>
      done (Node.sequence _ (_ :: _))

/-- All rules are blind to places. -/
theorem rules (n : Nat) : (rules n).Blind := by
  induction n with
  | zero => exact ⟨unexpected, unexpected, unexpected, unexpected, unexpected⟩
  | succ n ih =>
    exact ⟨expression ih, negation ih, access ih, statement ih, statements ih⟩

theorem program (hs : self.Blind) : Blind Node.erase (program self) (program self) := by
  refine skipNewlines.bind fun _ => peek.bind fun token => ?_
  have hkind : token.bare.kind = token.kind := rfl
  rw [hkind]
  split
  · exact done (Node.sequence _ [])
  · refine (statements hs).bind fun _ => skipNewlines.bind fun _ => (check _).bind fun ended => ?_
    dsimp only [id_eq]
    split
    · exact done _
    · exact unexpected

end Blind

end ScriptEngine
