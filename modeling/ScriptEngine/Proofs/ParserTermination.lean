import ScriptEngine.Proofs.FollowedRules
import ScriptEngine.Proofs.GrammarExtension

/-! # The parser ends within the code

The bounds that tie the grammar together are never reached: on any list of tokens the plain
recursion of the rules ends, with the same outcome. On the way the cursor does not come past the
first end of code, and a parser that gives a tree has come right to it. -/

namespace ScriptEngine

open Parse Grammar

/-! ### The grammar -/

/-- The unbounded rules follow those that the grammar refers back to. -/
structure Rules.Follow (tape : Tape) (n : Nat) (rules : Rules) : Prop where
  needy : rules.Needy
  expression : Follows tape n (Tape.expression tape) rules.expression
  negation : Follows tape n (Tape.negation tape) rules.negation
  access : Follows tape n (Tape.access tape) rules.access
  statement : Follows tape n (Tape.statement tape) rules.statement
  statements : Follows tape n (Tape.statements tape) rules.statements

namespace Follows

variable {tape : Tape} {m n : Nat} {self : Rules}

theorem block (hs : self.Follow tape n) :
    Follows tape (n + 1) (Tape.block tape) (Grammar.block self) := by
  rw [Tape.block, Walk.discard_bind, Grammar.block, discard_bind]
  exact expect_bind (by decide) fun _ => hs.statements.bind fun body =>
    skipNewlines.bind fun _ => (expect (by decide)).discard.bind fun _ => done body

theorem bracedOr {rule : Tape.Inner} {inline_ : Parse Node} (hs : self.Follow tape n)
    (hm : m ≤ n + 1) (hi : Follows tape m (Tape.inner tape rule) inline_) :
    Follows tape m (Tape.bracedOr tape rule) (Grammar.bracedOr self inline_) := by
  rw [Tape.bracedOr]
  refine (check .lBrace).bind fun braced => ?_
  cases braced with
  | true => exact ((block hs).mono hm).bind fun body => done (true, body)
  | false => exact hi.bind fun body => done (false, body)

theorem inner_expression (hs : self.Follow tape n) :
    Follows tape n (Tape.inner tape .expression) self.expression := by
  rw [Tape.inner]
  exact hs.expression

theorem inner_statement (hs : self.Follow tape n) :
    Follows tape n (Tape.inner tape .statement) self.statement := by
  rw [Tape.inner]
  exact hs.statement

theorem branch (hs : self.Follow tape n) :
    Follows tape n (Tape.branch tape) (Grammar.branch self) := by
  rw [Tape.branch]
  exact skipNewlines.bind fun _ => bracedOr hs (Nat.le_succ n) (inner_statement hs)

theorem loopBody {rule : Tape.Inner} {inline_ : Parse Node} (hs : self.Follow tape n)
    (hi : Follows tape n (Tape.inner tape rule) inline_) :
    Follows tape n (Tape.loopBody tape rule) (Grammar.loopBody self inline_) := by
  rw [Tape.loopBody]
  exact skipNewlines.bind fun _ => (accept (by decide)).discard.bind fun _ =>
    skipNewlines.bind fun _ => bracedOr hs (Nat.le_succ n) hi

theorem arm (hs : self.Follow tape n) :
    Follows tape n (Tape.arm tape) (Grammar.arm self) := by
  rw [Tape.arm]
  exact skipNewlines.bind fun _ => hs.expression.bind fun condition =>
    (accept (by decide)).discard.bind fun _ => (branch hs).bind fun body => done (condition, body)

theorem further_arm (hs : self.Follow tape n) {k : Nat} (hm : m ≤ n)
    (ih : Follows tape m (Tape.armsRest tape) (Grammar.armsRest self k)) :
    Follows tape m
      (do
        let (condition, braced, body) ← Tape.arm tape
        return Arms.arm condition braced body (← Tape.armsRest tape))
      (do
        let (condition, braced, body) ← Grammar.arm self
        return Arms.arm condition braced body (← Grammar.armsRest self k)) :=
  ((arm hs).mono hm).bind fun _ => ih.bind fun _ => done _

theorem last_arm (hs : self.Follow tape n) (hm : m ≤ n) :
    Follows tape m
      (do
        Functor.discard (Tape.accept tape .colon)
        let (braced, body) ← Tape.branch tape
        return Arms.otherwise braced body)
      (do
        Functor.discard (Parse.accept .colon)
        let (braced, body) ← Grammar.branch self
        return Arms.otherwise braced body) :=
  (accept (by decide)).discard.bind fun _ => ((branch hs).mono hm).bind fun _ => done _

/-- One more arm. Without one the cursor goes back to where the line breaks began. -/
theorem armsRest_step (hs : self.Follow tape n) {k : Nat} (hm : m ≤ n)
    (ih : Follows tape m (Tape.armsRest tape) (Grammar.armsRest self k)) :
    Follows tape (m + 1) (Tape.armsRest tape) (Grammar.armsRest self (k + 1)) := by
  intro c hc hlt
  obtain ⟨c₁, hskip, hc₁, hle, hstream⟩ := FollowsAt.outcome_skipNewlines hc
  have hget : outcome (get : Walk Cursor) c = some (.ok c, c) := rfl
  rw [Tape.armsRest, armsRest_succ]
  by_cases helseif : (tape.read c₁.current).kind = .keyword .elseif_
  · obtain ⟨c₂, haccept, hc₂, hcurrent, hstream₂⟩ :=
      FollowsAt.outcome_accept (by decide) hc₁ helseif
    have hback := hc₂.current
    refine .shift (by omega) ((outcome_bind_ok hget).trans ((outcome_bind_ok hskip).trans
      (outcome_bind_ok haccept))) ?_ (further_arm hs hm ih c₂ hc₂ (by omega))
    rw [beyond, hstream, tape.peek_stream hc₁.current, helseif, hstream₂]
    rfl
  · have hmiss := FollowsAt.outcome_accept_not helseif
    by_cases helse : (tape.read c₁.current).kind = .keyword .else_
    · obtain ⟨c₂, haccept, hc₂, hcurrent, hstream₂⟩ :=
        FollowsAt.outcome_accept (by decide) hc₁ helse
      have hback := hc₂.current
      refine .shift (by omega) ((outcome_bind_ok hget).trans ((outcome_bind_ok hskip).trans
        ((outcome_bind_ok hmiss).trans (outcome_bind_ok haccept)))) ?_
        (last_arm hs hm c₂ hc₂ (by omega))
      rw [beyond, hstream, tape.peek_stream hc₁.current, helse, hstream₂]
      rfl
    · refine ⟨.ok .done, { c₁ with current := c.current }, ?_,
        ⟨Nat.le_trans hle hc₁.reached, hc₁.furthest⟩, Nat.le_refl _, ?_⟩
      · exact (outcome_bind_ok hget).trans ((outcome_bind_ok hskip).trans
          ((outcome_bind_ok hmiss).trans (outcome_bind_ok (FollowsAt.outcome_accept_not helse))))
      · have hnone : nextArm self k (tape.read c₁.current).kind = none := by
          unfold nextArm
          split <;> simp_all
        rw [beyond, hstream, tape.peek_stream hc₁.current, hnone]
        rfl

theorem armsRest (hs : self.Follow tape n) (k : Nat) :
    Follows tape (min n (k + 1)) (Tape.armsRest tape) (Grammar.armsRest self k) := by
  refine loop (u := fun _ : Unit => Tape.armsRest tape)
    (q := fun k _ => Grammar.armsRest self k) ?_ ?_ k ()
  · intro _ s hs
    rw [armsRest_succ, beyond, skipNewlines_nil hs, peek_nil hs]
    rfl
  · intro k m hm ih _
    exact armsRest_step hs (Nat.le_of_lt hm) (ih ())

theorem choice (hs : self.Follow tape n) (hn : 0 < n) :
    Follows tape (n + 1) (Tape.choice tape) (Grammar.choice self) := by
  rw [Tape.choice]
  exact advance_bind hn fun token => (arm hs).bind fun first =>
    remaining fun k => (armsRest hs k).bind fun more => done _

theorem forLoop (hs : self.Follow tape n) (hn : 0 < n) :
    Follows tape (n + 1) (Tape.forLoop tape) (Grammar.forLoop self) := by
  rw [Tape.forLoop]
  refine advance_bind hn fun token => skipNewlines.bind fun _ =>
    (expect (by decide)).bind fun name => skipNewlines.bind fun _ =>
    (accept (by decide)).bind fun through => ?_
  cases through with
  | true =>
    exact hs.expression.bind fun items => (loopBody hs (inner_expression hs)).bind fun _ => done _
  | false =>
    refine (expect (by decide)).discard.bind fun _ => skipNewlines.bind fun _ =>
      hs.expression.bind fun start => skipNewlines.bind fun _ =>
      (expect (by decide)).discard.bind fun _ => skipNewlines.bind fun _ =>
      hs.expression.bind fun stop => skipNewlines.bind fun _ =>
      (accept (by decide)).bind fun stepped => ?_
    cases stepped with
    | true =>
      exact (hs.expression.map some).bind fun step =>
        (loopBody hs (inner_expression hs)).bind fun _ => done _
    | false =>
      exact (done none).bind fun step => (loopBody hs (inner_expression hs)).bind fun _ => done _

theorem whileLoop (hs : self.Follow tape n) (hn : 0 < n) :
    Follows tape (n + 1) (Tape.whileLoop tape) (Grammar.whileLoop self) := by
  rw [Tape.whileLoop]
  exact advance_bind hn fun token => skipNewlines.bind fun _ => hs.expression.bind fun condition =>
    (loopBody hs (inner_statement hs)).bind fun _ => done _

theorem pathsRest (hs : self.Follow tape n) (k : Nat) :
    Follows tape (min n (k + 1)) (Tape.pathsRest tape) (Grammar.pathsRest self k) := by
  refine loop (u := fun _ : Unit => Tape.pathsRest tape)
    (q := fun k _ => Grammar.pathsRest self k) ?_ ?_ k ()
  · intro _ s hs
    have hend : s.peek.kind ≠ .comma := by simp [peek_nil hs]
    rw [pathsRest_stop 0 hend, pathsRest_stop 1 hend]
  · intro k m hm ih _
    rw [Tape.pathsRest]
    exact accept_bind (by decide) (skipNewlines.bind fun _ =>
      (hs.expression.mono (Nat.le_of_lt hm)).bind fun path => (ih ()).bind fun _ => done _)
      (done [])

theorem inclusion (hs : self.Follow tape n) (hn : 0 < n) :
    Follows tape (n + 1) (Tape.inclusion tape) (Grammar.inclusion self) := by
  rw [Tape.inclusion]
  exact advance_bind hn fun token => skipNewlines.bind fun _ => hs.expression.bind fun path =>
    remaining fun k => (pathsRest hs k).bind fun more => done _

/-- Items with commas between them: each round ends with a comma or closes the list. -/
theorem separated {α : Type} {v : Walk α} {u : Walk (List α)} {item : Parse α} {close : TokenKind}
    {what : String} (hclose : close ≠ .endOfCode) (hi : Follows tape n v item)
    (hhungry : Hungry item)
    (hu : u = do
      let x ← v
      Tape.skipNewlines tape
      if ← Tape.accept tape .comma then
        Tape.skipNewlines tape
        return x :: (← u)
      else
        Functor.discard (Tape.expect tape close what)
        return [x]) (k : Nat) :
    Follows tape (min n (k + 1)) u (Parse.separated item close what k) := by
  refine loop (u := fun _ : Unit => u) (q := fun k _ => Parse.separated item close what k)
    ?_ ?_ k ()
  · intro _ s hs
    show (item >>= _) s = (item >>= _) s
    cases hitem : item s with
    | ok a r => exact absurd hitem (hhungry s hs a r)
    | error d r => rw [bind_of_error hitem, bind_of_error hitem]
  · intro k m hm ih _
    have hround : Follows tape (m + 1) (do
        let x ← v
        Tape.skipNewlines tape
        if ← Tape.accept tape .comma then
          Tape.skipNewlines tape
          return x :: (← u)
        else
          Functor.discard (Tape.expect tape close what)
          return [x]) (Parse.separated item close what (k + 1)) :=
      (hi.mono hm).bind fun x => skipNewlines.bind fun _ => accept_bind (by decide)
        (skipNewlines.bind fun _ => (ih ()).bind fun _ => done _)
        ((expect hclose).discard.bind fun _ => done [x])
    rw [← hu] at hround
    exact hround

theorem parametersRest (k : Nat) :
    Follows tape (min n (k + 1)) (Tape.parametersRest tape)
      (Parse.separated (Token.lexeme <$> Parse.expect .identifier "identifier") .rParen
        "',' or ')'" k) := by
  refine separated (v := Token.lexeme <$> Tape.expect tape .identifier "identifier") (by decide)
    ((expect (by decide)).map _) ((Hungry.expect (by decide) _).map _) ?_ k
  rw [bind_map_left]
  conv_lhs => rw [Tape.parametersRest]

theorem parameters : Follows tape n (Tape.parameters tape) Grammar.parameters := by
  rw [Tape.parameters]
  refine (expect (by decide)).discard.bind fun _ => skipNewlines.bind fun _ =>
    (accept (by decide)).bind fun closed => ?_
  cases closed with
  | true => exact done []
  | false => exact remaining fun k => parametersRest k

theorem itemsRest (hs : self.Follow tape n) {close : TokenKind} (hclose : close ≠ .endOfCode)
    (what : String) (k : Nat) :
    Follows tape (min n (k + 1)) (Tape.itemsRest tape close what)
      (Parse.separated self.expression close what k) := by
  refine separated hclose hs.expression hs.needy.expression ?_ k
  conv_lhs => rw [Tape.itemsRest]

theorem items (hs : self.Follow tape n) {close : TokenKind} (hclose : close ≠ .endOfCode)
    (what : String) :
    Follows tape n (Tape.items tape close what) (enclosed self.expression close what) := by
  rw [Tape.items]
  refine skipNewlines.bind fun _ => (accept hclose).bind fun closed => ?_
  cases closed with
  | true => exact done []
  | false => exact remaining fun k => itemsRest hs hclose what k

theorem arguments (hs : self.Follow tape n) :
    Follows tape (n + 1) (Tape.arguments tape) (Grammar.arguments self) := by
  rw [Tape.arguments, Walk.discard_bind, Grammar.arguments, discard_bind]
  exact expect_bind (by decide) fun _ => items hs (by decide) _

theorem functionName : Follows tape n (Tape.functionName tape) Grammar.functionName := by
  rw [Tape.functionName]
  refine (check .identifier).bind fun named => ?_
  cases named with
  | true => exact advance.bind fun name => skipNewlines.bind fun _ => done _
  | false => exact done none

theorem parentName : Follows tape n (Tape.parentName tape) Grammar.parentName := by
  rw [Tape.parentName]
  refine (accept (by decide)).bind fun extends_ => ?_
  cases extends_ with
  | true =>
    exact skipNewlines.bind fun _ => (expect (by decide)).bind fun parent =>
      skipNewlines.bind fun _ => done _
  | false => exact done none

theorem function (hs : self.Follow tape n) (hn : 0 < n) :
    Follows tape (n + 1) (Tape.function tape) (Grammar.function self) := by
  rw [Tape.function]
  refine advance_bind hn fun token => skipNewlines.bind fun _ => functionName.bind fun name =>
    (check .lParen).bind fun opened => ?_
  cases opened with
  | false => exact fail _
  | true =>
    refine parameters.bind fun params => skipNewlines.bind fun _ =>
      (accept (by decide)).bind fun inline_ => ?_
    cases inline_ with
    | true => exact skipNewlines.bind fun _ => hs.statement.bind fun body => done _
    | false => exact ((block hs).mono (Nat.le_succ n)).bind fun body => done _

theorem object (hs : self.Follow tape n) (hn : 0 < n) :
    Follows tape (n + 1) (Tape.object tape) (Grammar.object self) := by
  rw [Tape.object]
  exact advance_bind hn fun token => skipNewlines.bind fun _ =>
    (expect (by decide)).bind fun name =>
    skipNewlines.bind fun _ => parameters.bind fun params => skipNewlines.bind fun _ =>
    parentName.bind fun parent => ((block hs).mono (Nat.le_succ n)).bind fun body => done _

theorem creation (hs : self.Follow tape n) (hn : 0 < n) :
    Follows tape (n + 1) (Tape.creation tape) (Grammar.creation self) := by
  rw [Tape.creation]
  exact advance_bind hn fun token => skipNewlines.bind fun _ =>
    (expect (by decide)).bind fun name =>
    skipNewlines.bind fun _ => ((arguments hs).mono (Nat.le_succ n)).bind fun args => done _

theorem list (hs : self.Follow tape n) (hn : 0 < n) :
    Follows tape (n + 1) (Tape.list tape) (Grammar.list self) := by
  rw [Tape.list]
  exact advance_bind hn fun token => (items hs (by decide) _).bind fun elements => done _

theorem parens (hs : self.Follow tape n) (hn : 0 < n) :
    Follows tape (n + 1) (Tape.parens tape) (Grammar.parens self) := by
  rw [Tape.parens, Walk.discard_bind, Grammar.parens, discard_bind]
  exact advance_bind hn fun _ => skipNewlines.bind fun _ => hs.expression.bind fun inside =>
    skipNewlines.bind fun _ => (expect (by decide)).discard.bind fun _ => done inside

theorem signed (hs : self.Follow tape n) (hn : 0 < n) (op : UnaryOp) :
    Follows tape (n + 1) (Tape.signed tape op) (Grammar.signed self op) := by
  rw [Tape.signed]
  exact advance_bind hn fun token => skipNewlines.bind fun _ => hs.access.bind fun operand => done _

theorem declaration (hs : self.Follow tape n) (hn : 0 < n) :
    Follows tape (n + 1) (Tape.declaration tape) (Grammar.declaration self) := by
  rw [Tape.declaration]
  exact advance_bind hn fun token => skipNewlines.bind fun _ =>
    (expect (by decide)).bind fun name =>
    skipNewlines.bind fun _ => (expect (by decide)).discard.bind fun _ => skipNewlines.bind fun _ =>
    hs.expression.bind fun value => done _

theorem numeral : Follows tape n (Tape.numeral tape) Grammar.numeral := by
  rw [Tape.numeral]
  refine advance.bind fun token => ?_
  cases Number.ofText? token.lexeme with
  | some value => exact done _
  | none => exact fun c hc _ => ⟨_, c, rfl, hc, Nat.le_refl _, rfl⟩

theorem named (hs : self.Follow tape n) (hn : 0 < n) :
    Follows tape (n + 1) (Tape.named tape) (Grammar.named self) := by
  rw [Tape.named]
  refine advance_bind hn fun token c hc hlt => .peek_bind hc ?_
  generalize tape.read c.current = next
  have hvalue : ∀ build : Node → Node, Follows tape n
      (do
        Functor.discard (Tape.advance tape)
        Tape.skipNewlines tape
        let value ← Tape.expression tape
        return build value)
      (do
        Functor.discard Parse.advance
        Parse.skipNewlines
        let value ← self.expression
        return build value) :=
    fun build => advance.discard.bind fun _ => skipNewlines.bind fun _ =>
      hs.expression.bind fun value => done (build value)
  cases next.kind with
  | equals => exact hvalue (.assign token.position token.lexeme) c hc hlt
  | plusPlus | minusMinus => exact (advance.discard.bind fun _ => done _) c hc hlt
  | plusEqual | minusEqual | multEqual | divEqual => exact hvalue (.update _ _ _) c hc hlt
  | _ => exact .done _ hc

theorem factor (hs : self.Follow tape n) :
    Follows tape (n + 1) (Tape.factor tape) (Grammar.factor self) := by
  rw [Tape.factor]
  refine skipNewlines.bind fun _ c hc hlt => .peek_bind hc ?_
  -- Every case but the end of the code has a token to take before it refers back to the rules.
  have hn : ∀ kind, kind ≠ .endOfCode → (tape.read c.current).kind = kind → 0 < n := by
    intro kind hkind hnext
    have := FollowsAt.lt_finish hkind hc hnext
    omega
  have hword : ∀ node : Node, Follows tape (n + 1)
      (do Functor.discard (Tape.advance tape); return node)
      (do Functor.discard Parse.advance; return node) :=
    fun node => advance.discard.bind fun _ => done node
  cases hnext : (tape.read c.current).kind with
  | int | float => exact numeral c hc hlt
  | text => exact hword _ c hc hlt
  | identifier => exact named hs (hn _ (by decide) hnext) c hc hlt
  | lSquare => exact list hs (hn _ (by decide) hnext) c hc hlt
  | plus => exact signed hs (hn _ (by decide) hnext) .plus c hc hlt
  | minus => exact signed hs (hn _ (by decide) hnext) .negate c hc hlt
  | lParen => exact parens hs (hn _ (by decide) hnext) c hc hlt
  | lBrace => exact block hs c hc hlt
  | keyword word =>
    cases word with
    | true_ | false_ | null_ | this_ => exact hword _ c hc hlt
    | if_ => exact choice hs (hn _ (by decide) hnext) c hc hlt
    | for_ => exact forLoop hs (hn _ (by decide) hnext) c hc hlt
    | while_ => exact whileLoop hs (hn _ (by decide) hnext) c hc hlt
    | function_ => exact function hs (hn _ (by decide) hnext) c hc hlt
    | object_ => exact object hs (hn _ (by decide) hnext) c hc hlt
    | new_ => exact creation hs (hn _ (by decide) hnext) c hc hlt
    | include_ => exact inclusion hs (hn _ (by decide) hnext) c hc hlt
    | _ => exact .unexpected hc
  | _ => exact .unexpected hc

theorem call (hs : self.Follow tape n) :
    Follows tape (n + 1) (Tape.call tape) (Grammar.call self) := by
  rw [Tape.call]
  refine (factor hs).bind fun callee => (check .lParen).bind fun called => ?_
  cases called with
  | true => exact (arguments hs).bind fun args => done _
  | false => exact done callee

theorem segmentsRest (hs : self.Follow tape n) (k : Nat) :
    Follows tape (min (n + 1) (k + 1)) (Tape.segmentsRest tape)
      (Grammar.segmentsRest self k) := by
  refine loop (u := fun _ : Unit => Tape.segmentsRest tape)
    (q := fun k _ => Grammar.segmentsRest self k) ?_ ?_ k ()
  · intro _ s hs
    have hend : s.peek.kind ≠ .point := by simp [peek_nil hs]
    rw [segmentsRest_stop 0 hend, segmentsRest_stop 1 hend]
  · intro k m hm ih _
    rw [Tape.segmentsRest]
    have hcall : Follows tape m (Tape.inner tape .call) (Grammar.call self) := by
      rw [Tape.inner]
      exact (call hs).mono (Nat.le_of_lt hm)
    exact accept_bind (by decide) (skipNewlines.bind fun _ =>
      (bracedOr hs (Nat.le_of_lt hm) hcall).bind fun _ => (ih ()).bind fun _ => done _) (done [])

theorem access (hs : self.Follow tape n) :
    Follows tape (n + 1) (Tape.access tape) (Grammar.access self) := by
  rw [Tape.access]
  refine (call hs).bind fun first => remaining fun k => (segmentsRest hs k).bind fun more => ?_
  cases more with
  | nil => exact done first
  | cons segment rest => exact done _

theorem chainRest {kind : Tape.Chain} {operand : Parse Node}
    (ho : Follows tape n (Tape.operand tape kind) operand) (k : Nat) (left : Node) :
    Follows tape (min n (k + 1)) (Tape.chainRest tape kind left)
      (Grammar.chainRest operand kind.op? k left) := by
  have hend : kind.op? .endOfCode = none := by cases kind <;> rfl
  refine loop (u := fun left => Tape.chainRest tape kind left)
    (q := fun k left => Grammar.chainRest operand kind.op? k left) ?_ ?_ k left
  · intro left s hs
    have hnone : kind.op? s.peek.kind = none := by rw [peek_nil hs, hend]
    rw [chainRest_stop 0 hnone, chainRest_stop 1 hnone]
  · intro k m hm ih left c hc hlt
    rw [Tape.chainRest]
    refine .peek_bind hc ?_
    cases hop : kind.op? (tape.read c.current).kind with
    | none => exact .done left hc
    | some op =>
      have hnext : (tape.read c.current).kind ≠ .endOfCode := by
        intro hkind
        rw [hkind, hend] at hop
        cases hop
      have hm₀ : 0 < m := by
        have := FollowsAt.lt_finish hnext hc rfl
        omega
      exact discard_advance_bind hm₀ (skipNewlines.bind fun _ =>
        (ho.mono (Nat.le_of_lt hm)).bind fun right => ih _) c hc hlt

theorem chain {kind : Tape.Chain} {operand : Parse Node}
    (ho : Follows tape n (Tape.operand tape kind) operand) :
    Follows tape n (Tape.chain tape kind) (Grammar.chain operand kind.op?) := by
  rw [Tape.chain]
  exact ho.bind fun left => remaining fun k => chainRest ho k left

theorem term (hs : self.Follow tape n) :
    Follows tape (n + 1) (Tape.chain tape .term) (Grammar.term self) := by
  refine chain ?_
  rw [Tape.operand]
  exact access hs

theorem sum (hs : self.Follow tape n) :
    Follows tape (n + 1) (Tape.chain tape .sum) (Grammar.sum self) := by
  refine chain ?_
  rw [Tape.operand]
  exact term hs

theorem comparison (hs : self.Follow tape n) :
    Follows tape (n + 1) (Tape.chain tape .comparison) (Grammar.comparison self) := by
  refine chain ?_
  rw [Tape.operand]
  exact sum hs

theorem negation (hs : self.Follow tape n) :
    Follows tape (n + 1) (Tape.negation tape) (Grammar.negation self) := by
  rw [Tape.negation]
  exact check_bind (by decide)
    (fun hn => advance_bind hn fun token => skipNewlines.bind fun _ =>
      hs.negation.bind fun operand => done _)
    (comparison hs)

theorem expression (hs : self.Follow tape n) :
    Follows tape (n + 1) (Tape.expression tape) (Grammar.expression self) := by
  rw [Tape.expression]
  refine check_bind (by decide) (fun hn => declaration hs hn) (chain ?_)
  rw [Tape.operand]
  exact negation hs

theorem statement (hs : self.Follow tape n) :
    Follows tape (n + 1) (Tape.statement tape) (Grammar.statement self) := by
  rw [Tape.statement]
  intro c hc hlt
  refine .peek_bind hc ?_
  cases hnext : (tape.read c.current).kind with
  | keyword word =>
    cases word with
    | return_ =>
      have hn : 0 < n := by
        have := FollowsAt.lt_finish (by decide) hc hnext
        omega
      exact discard_advance_bind hn (skipNewlines.bind fun _ =>
        (attempt (inner_expression hs)).bind fun value => done _) c hc hlt
    | continue_ | break_ => exact (advance.discard.bind fun _ => done _) c hc hlt
    | _ => exact expression hs c hc hlt
  | _ => exact expression hs c hc hlt

theorem next_line (hs : self.Follow tape n) {k : Nat} (hm : m ≤ n + 1)
    (ih : Follows tape m (Tape.statementsRest tape) (Grammar.statementsRest self k)) :
    Follows tape m
      (do
        Tape.skipNewlines tape
        match ← Tape.attempt tape .statement with
        | none => return []
        | some next => return next :: (← Tape.statementsRest tape))
      (do
        Parse.skipNewlines
        match ← Parse.attempt (Grammar.statement self) with
        | none => return []
        | some next => return next :: (← Grammar.statementsRest self k)) := by
  have hinner : Follows tape m (Tape.inner tape .statement) (Grammar.statement self) := by
    rw [Tape.inner]
    exact (statement hs).mono hm
  refine skipNewlines.bind fun _ => (attempt hinner).bind fun next => ?_
  cases next with
  | none => exact done []
  | some next => exact ih.bind fun more => done _

theorem statementsRest (hs : self.Follow tape n) (k : Nat) :
    Follows tape (min (n + 1) (k + 1)) (Tape.statementsRest tape)
      (Grammar.statementsRest self k) := by
  refine loop (u := fun _ : Unit => Tape.statementsRest tape)
    (q := fun k _ => Grammar.statementsRest self k) ?_ ?_ k ()
  · intro _ s hs
    have hend : s.peek.kind ≠ .newline := by simp [peek_nil hs]
    rw [statementsRest_same_line 0 hend, statementsRest_same_line 1 hend]
  · intro k m hm ih _ c hc hlt
    -- The bounded rule skips the line breaks in one step; here the first one is taken by itself.
    rw [Tape.statementsRest]
    by_cases hnext : (tape.read c.current).kind = .newline
    · obtain ⟨c', haccept, hc', hcurrent, hstream⟩ :=
        FollowsAt.outcome_accept (by decide) hc hnext
      have hback := hc'.current
      refine .shift (by omega) (outcome_bind_ok haccept) ?_
        (next_line hs (Nat.le_of_lt hm) (ih ()) c' hc' (by omega))
      rw [← tape.peek_stream hc.current] at hnext
      rw [statementsRest_newline k hnext, FollowsAt.skipNewlines_of_newline hnext, hstream]
      rfl
    · refine ⟨.ok [], c, outcome_bind_ok (FollowsAt.outcome_accept_not hnext), hc, Nat.le_refl _,
        ?_⟩
      rw [← tape.peek_stream hc.current] at hnext
      rw [statementsRest_same_line (k + 1) hnext]
      rfl

theorem statements (hs : self.Follow tape n) :
    Follows tape (n + 1) (Tape.statements tape) (Grammar.statements self) := by
  rw [Tape.statements]
  refine skipNewlines.bind fun _ c hc hlt => .peek_bind hc ?_
  cases (tape.read c.current).kind == .rBrace with
  | true => exact .done _ hc
  | false =>
    exact ((statement hs).bind fun first => remaining fun k =>
      (statementsRest hs k).bind fun more => done _) c hc hlt

theorem rules (tape : Tape) (n : Nat) : (Grammar.rules n).Follow tape n := by
  induction n with
  | zero =>
    refine ⟨Hungry.rules 0, ?_, ?_, ?_, ?_, ?_⟩ <;> intro c _ hlt <;> omega
  | succ n ih =>
    exact ⟨Hungry.rules (n + 1), expression ih, negation ih, access ih, statement ih,
      statements ih⟩

theorem program (hs : self.Follow tape n) :
    Follows tape (n + 1) (Tape.program tape) (Grammar.program self) := by
  refine skipNewlines.bind fun _ c hc hlt => .peek_bind hc ?_
  cases (tape.read c.current).kind == .endOfCode with
  | true => exact .done _ hc
  | false =>
    refine ((statements hs).bind fun root => skipNewlines.bind fun _ =>
      (check .endOfCode).bind fun ended => ?_) c hc hlt
    cases ended with
    | true => exact done root
    | false => exact fun c hc _ => .unexpected hc

end Follows

/-! ### Whole token lists -/

namespace Tape

theorem stream_zero (tape : Tape) : tape.stream 0 = Stream.ofTokens tape.tokens := by
  have hlt := tape.finish_lt
  have hkind : tape.tokens[tape.finish].kind = .endOfCode :=
    beq_iff_eq.mp (List.findIdx_getElem (w := hlt))
  have hfind : tape.tokens.find? (·.kind == .endOfCode) = some tape.tokens[tape.finish] := by
    rw [List.find?_eq_some_iff_getElem]
    refine ⟨beq_iff_eq.mpr hkind, tape.finish, hlt, rfl, fun j hj => ?_⟩
    simpa using List.not_of_lt_findIdx hj
  have hahead : tape.tokens.takeWhile (·.kind != .endOfCode) = tape.tokens.take tape.finish := by
    rw [List.takeWhile_eq_take_findIdx_not]
    simp only [bne, Bool.not_not]
    rfl
  simp only [stream, Stream.ofTokens, List.drop_zero, hfind, hahead, read_eq tape hlt, hkind,
    if_true]

theorem ofTokens_tokens (tokens : List Token) :
    Stream.ofTokens (Tape.ofTokens tokens).tokens = Stream.ofTokens tokens := by
  unfold Tape.ofTokens
  split
  · rfl
  · simp only [Stream.ofTokens, List.find?_append, Stream.mk.injEq]
    constructor
    · rw [List.takeWhile_append]
      split
      · rename_i hall
        have hfront := List.takeWhile_prefix (p := fun t : Token => t.kind != .endOfCode)
          (l := tokens)
        rw [hfront.eq_of_length hall]
        simp
      · rfl
    · cases tokens.find? (·.kind == .endOfCode) <;> rfl

end Tape

/-- A program is read to the end of the code. -/
theorem peek_of_program {self : Rules} {s r : Stream} {root : Node}
    (h : Grammar.program self s = .ok root r) : r.peek.kind = .endOfCode := by
  rw [Grammar.program, bind_of_ok (skipNewlines_apply s), bind_of_ok (peek_apply _)] at h
  cases hempty : s.skipNewlines.peek.kind == .endOfCode with
  | true =>
    rw [hempty] at h
    cases h
    exact beq_iff_eq.mp hempty
  | false =>
    rw [hempty] at h
    obtain ⟨node, r₁, -, h⟩ := bind_eq_ok h
    rw [bind_of_ok (skipNewlines_apply _), bind_of_ok (check_apply _ _)] at h
    cases hend : r₁.skipNewlines.peek.kind == .endOfCode with
    | true =>
      rw [hend] at h
      cases h
      exact beq_iff_eq.mp hend
    | false =>
      rw [hend] at h
      cases h

/-- The parser ends on every list of tokens: the plain recursion of its rules has an outcome, and it
is the one that parsing gives, with all tokens before the cursor consumed. The cursor was never past
the first end of code, and where a tree was parsed it is there. -/
theorem parser_ends_within_code (tokens : List Token) :
    ∃ result c, outcome (Tape.program (Tape.ofTokens tokens)) Cursor.start = some (result, c) ∧
      parseTokens tokens = { result := result, consumed := c.current } ∧
      c.current ≤ c.furthest ∧
      c.furthest ≤ (tokens.takeWhile (·.kind != .endOfCode)).length ∧
      ∀ root, result = .ok root →
        c.current = (tokens.takeWhile (·.kind != .endOfCode)).length := by
  let tape := Tape.ofTokens tokens
  have hstream : tape.stream 0 = Stream.ofTokens tokens := by
    rw [tape.stream_zero, Tape.ofTokens_tokens]
  have hfinish : (tokens.takeWhile (·.kind != .endOfCode)).length = tape.finish := by
    have hlength := tape.length_stream 0
    rw [hstream] at hlength
    exact hlength
  obtain ⟨result, c, hends, hc, -, hreply⟩ := Follows.program (Follows.rules tape tape.finish)
    Cursor.start ⟨Nat.le_refl _, Nat.zero_le _⟩ (Nat.lt_succ_self _)
  refine ⟨result, c, hends, ?_, hc.reached, ?_, ?_⟩
  · have hreplied : Grammar.program (Grammar.rules tape.finish) (Stream.ofTokens tokens) =
        replied (tape.stream c.current) result := by
      rw [← hstream]
      exact hreply
    have hconsumed : tape.finish - (tape.finish - c.current) = c.current := by
      have := hc.current
      omega
    have hlength : (Stream.ofTokens tokens).ahead.length = tape.finish := hfinish
    cases result with
    | ok root => simp only [parseTokens, hreplied, replied, hlength, tape.length_stream, hconsumed]
    | error d => simp only [parseTokens, hreplied, replied, hlength, tape.length_stream, hconsumed]
  · rw [hfinish]
    exact hc.furthest
  · rintro root rfl
    have hend := peek_of_program hreply
    rw [tape.peek_stream hc.current, tape.kind_read_iff hc.current] at hend
    rw [hfinish, hend]

end ScriptEngine
