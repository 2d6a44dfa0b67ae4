import ScriptEngine.Proofs.LineBreakRuns
import ScriptEngine.Proofs.ParserTermination

/-! # The grammar on condensed tokens

Every rule of the grammar is even. A rule skips line breaks before it looks behind them, stops at
one as it is, or goes back to the first of a run, and in none of these does it matter how many there
are. So parsing gives the same for a list of tokens and for the condensed one. -/

namespace ScriptEngine

open Parse Grammar

/-- What the grammar refers back to is even. -/
structure Rules.Level (rules : Rules) : Prop where
  needy : rules.Needy
  expression : Even rules.expression
  negation : Even rules.negation
  access : Even rules.access
  statement : Even rules.statement
  statements : Even rules.statements

/-! ### Bodies -/

namespace Even

variable {self : Rules}

theorem block (hs : self.Level) : Even (block self) :=
  (expect (by decide) _).discard.bind fun _ => hs.statements.bind fun body =>
    skipNewlines.bind fun _ => (expect (by decide) _).discard.bind fun _ => done body

theorem bracedOr (hs : self.Level) {inline_ : Parse Node} (hi : Even inline_) :
    Even (bracedOr self inline_) := by
  refine (check .lBrace).bind fun braced => ?_
  cases braced with
  | true => exact (block hs).bind fun body => done (true, body)
  | false => exact hi.bind fun body => done (false, body)

theorem branch (hs : self.Level) : Even (branch self) :=
  skipNewlines.bind fun _ => bracedOr hs hs.statement

theorem loopBody (hs : self.Level) {inline_ : Parse Node} (hi : Even inline_) :
    Even (loopBody self inline_) :=
  skipNewlines.bind fun _ => (accept (by decide)).discard.bind fun _ =>
    skipNewlines.bind fun _ => bracedOr hs hi

theorem arm (hs : self.Level) : Even (arm self) :=
  skipNewlines.bind fun _ => hs.expression.bind fun condition =>
    (accept (by decide)).discard.bind fun _ => (branch hs).bind fun body => done (condition, body)

theorem parameters : Even parameters :=
  (expect (by decide) _).discard.bind fun _ =>
    enclosed ((expect (by decide) _).map _) (Trails.closed.map _ (Trails.expect _ _))
      ((Hungry.expect (by decide) _).map _) (by decide) _

theorem arguments (hs : self.Level) : Even (arguments self) :=
  (expect (by decide) _).discard.bind fun _ =>
    enclosed hs.expression hs.needy.trails.expression hs.needy.expression (by decide) _

theorem functionName : Even functionName :=
  check_bind (by decide) (EvenInLine.advance.bind fun _ => skipNewlines.bind fun _ => done _)
    (done none)

theorem parentName : Even parentName := by
  refine (accept (by decide)).bind fun extends_ => ?_
  cases extends_ with
  | true =>
    exact skipNewlines.bind fun _ => (expect (by decide) _).bind fun parent =>
      skipNewlines.bind fun _ => done _
  | false => exact done none

end Even

/-! ### Loops -/

/-- The rule of a further arm matches where the arms behind it do. -/
theorem MatchesOn.nextArm {self : Rules} (hs : self.Level) {ts : List Token} {n m : Nat}
    (hmore : MatchesOn ts (armsRest self n) (armsRest self m)) (kind : TokenKind) :
    Option.Rel (MatchesOn ts) (nextArm self n kind) (nextArm self m kind) := by
  have hP := Trails.closed
  unfold Grammar.nextArm
  split
  · exact .some (.bind (.arm hs) (hP.arm hs.needy.trails) fun _ r hr =>
      (hmore r hr).bind fun _ _ _ => .done _)
  · exact .some (.bind (Even.accept (by decide)).discard (hP.discard (hP.accept _)) fun _ =>
      .bind (.branch hs) (hP.branch hs.needy.trails) fun _ _ _ => .done _)
  · exact .none

namespace Even

variable {self : Rules}

/-- Without an arm the line breaks are left alone, all of them or the one that is left of them. -/
theorem armsRest (hs : self.Level) : Even (remaining >>= armsRest self) := by
  refine loop (q := fun n (_ : Unit) => Grammar.armsRest self n) ?_ ?_ ()
  · intro _ s hnil
    rw [armsRest_succ, beyond, skipNewlines_nil hnil, peek_nil hnil]
    rfl
  · intro n m _ s hrounds
    rw [armsRest_succ, armsRest_succ, Matches, beyond, beyond, Stream.skipNewlines_condense,
      Stream.peek_condense]
    have hline := not_newline_of_skip s
    by_cases hend : s.skipNewlines.peek.kind = .endOfCode
    · rw [hend]
      rfl
    · have hmore := MatchesOn.rounds (hrounds ()) (Trails.skipNewlines_suffix s) hend hline
      have hnext := MatchesOn.nextArm hs hmore s.skipNewlines.peek.kind
      rw [Stream.advance_condense hline]
      generalize nextArm self n s.skipNewlines.peek.kind = here at hnext ⊢
      generalize nextArm self m s.skipNewlines.peek.kind = there at hnext ⊢
      cases hnext with
      | some hnext => exact hnext _ (List.suffix_refl _)
      | none => rfl

theorem pathsRest (hs : self.Level) : Even (remaining >>= pathsRest self) :=
  repeated hs.expression hs.needy.trails.expression (by decide) (by decide) id rfl fun _ => rfl

theorem chainRest {operand : Parse Node} (ho : Even operand) (ht : Trails Node operand)
    {op? : TokenKind → Option BinaryOp} (hline : op? .newline = none)
    (hend : op? .endOfCode = none) (left : Node) :
    Even (remaining >>= fun n => chainRest operand op? n left) := by
  refine loop (q := fun n left => Grammar.chainRest operand op? n left) ?_ ?_ left
  · intro left s hnil
    have hnone : op? s.peek.kind = none := by rw [peek_nil hnil, hend]
    rw [chainRest_stop 0 hnone, chainRest_stop 1 hnone]
  · intro n m left s hrounds
    refine .peek_bind ?_
    cases hop : op? s.peek.kind with
    | none => exact .done left
    | some op =>
      have hends : s.peek.kind ≠ .endOfCode := fun hkind => by simp [hkind, hend] at hop
      have hbreaks : s.peek.kind ≠ .newline := fun hkind => by simp [hkind, hline] at hop
      have hmore : ∀ right, MatchesOn s.advance.ahead
          (Grammar.chainRest operand op? n (.binary s.peek.position op left right))
          (Grammar.chainRest operand op? m (.binary s.peek.position op left right)) :=
        fun right => .rounds (hrounds _) (List.suffix_refl _) hends hbreaks
      dsimp only
      rw [discard_bind, discard_bind]
      exact .advance_bind hbreaks (MatchesOn.bind skipNewlines Trails.closed.skipNewlines (fun _ =>
        .bind ho ht hmore) _ (List.suffix_refl _))

theorem chain {operand : Parse Node} (ho : Even operand) (ht : Trails Node operand)
    {op? : TokenKind → Option BinaryOp} (hline : op? .newline = none)
    (hend : op? .endOfCode = none) : Even (chain operand op?) :=
  ho.bind fun left => chainRest ho ht hline hend left

end Even

/-! ### Rules that start with a token -/

namespace EvenInLine

variable {self : Rules}

theorem choice (hs : self.Level) : EvenInLine (choice self) :=
  advance.bind fun _ => (Even.arm hs).bind fun _ => (Even.armsRest hs).bind_remaining fun _ =>
    .done _

theorem forLoop (hs : self.Level) : EvenInLine (forLoop self) := by
  refine advance.bind fun token => Even.skipNewlines.bind fun _ =>
    (Even.expect (by decide) _).bind fun name => Even.skipNewlines.bind fun _ =>
    (Even.accept (by decide)).bind fun through => ?_
  cases through with
  | true =>
    exact hs.expression.bind fun items => (Even.loopBody hs hs.expression).bind fun _ => .done _
  | false =>
    refine (Even.expect (by decide) _).discard.bind fun _ => Even.skipNewlines.bind fun _ =>
      hs.expression.bind fun start => Even.skipNewlines.bind fun _ =>
      (Even.expect (by decide) _).discard.bind fun _ => Even.skipNewlines.bind fun _ =>
      hs.expression.bind fun stop => Even.skipNewlines.bind fun _ =>
      (Even.accept (by decide)).bind fun stepped => ?_
    cases stepped with
    | true =>
      exact (hs.expression.map some).bind fun step =>
        (Even.loopBody hs hs.expression).bind fun _ => .done _
    | false =>
      exact (Even.done none).bind fun step => (Even.loopBody hs hs.expression).bind fun _ => .done _

theorem whileLoop (hs : self.Level) : EvenInLine (whileLoop self) :=
  advance.bind fun _ => Even.skipNewlines.bind fun _ => hs.expression.bind fun _ =>
    (Even.loopBody hs hs.statement).bind fun _ => .done _

theorem function (hs : self.Level) : EvenInLine (function self) := by
  refine advance.bind fun token => Even.skipNewlines.bind fun _ =>
    Even.functionName.bind fun name => (Even.check .lParen).bind fun opened => ?_
  cases opened with
  | false => exact .fail _
  | true =>
    refine Even.parameters.bind fun params => Even.skipNewlines.bind fun _ =>
      (Even.accept (by decide)).bind fun inline_ => ?_
    cases inline_ with
    | true => exact Even.skipNewlines.bind fun _ => hs.statement.bind fun _ => .done _
    | false => exact (Even.block hs).bind fun _ => .done _

theorem object (hs : self.Level) : EvenInLine (object self) :=
  advance.bind fun _ => Even.skipNewlines.bind fun _ => (Even.expect (by decide) _).bind fun _ =>
    Even.skipNewlines.bind fun _ => Even.parameters.bind fun _ => Even.skipNewlines.bind fun _ =>
    Even.parentName.bind fun _ => (Even.block hs).bind fun _ => .done _

theorem creation (hs : self.Level) : EvenInLine (creation self) :=
  advance.bind fun _ => Even.skipNewlines.bind fun _ => (Even.expect (by decide) _).bind fun _ =>
    Even.skipNewlines.bind fun _ => (Even.arguments hs).bind fun _ => .done _

theorem inclusion (hs : self.Level) : EvenInLine (inclusion self) :=
  advance.bind fun _ => Even.skipNewlines.bind fun _ => hs.expression.bind fun _ =>
    (Even.pathsRest hs).bind_remaining fun _ => .done _

theorem list (hs : self.Level) : EvenInLine (list self) :=
  advance.bind fun _ => (Even.enclosed hs.expression hs.needy.trails.expression
    hs.needy.expression (by decide) _).bind fun _ => .done _

theorem parens (hs : self.Level) : EvenInLine (parens self) :=
  advance.discard.bind fun _ => Even.skipNewlines.bind fun _ => hs.expression.bind fun inner =>
    Even.skipNewlines.bind fun _ => (Even.expect (by decide) _).discard.bind fun _ => .done inner

theorem numeral : EvenInLine numeral := by
  refine advance.bind fun token => ?_
  split
  · exact .done _
  · exact fun _ => rfl

theorem signed (hs : self.Level) (op : UnaryOp) : EvenInLine (signed self op) :=
  advance.bind fun _ => Even.skipNewlines.bind fun _ => hs.access.bind fun _ => .done _

/-- An operator behind a name is on the line of the name. -/
theorem named (hs : self.Level) : EvenInLine (named self) := by
  refine advance.bind fun token s => .peek_bind ?_
  have hvalue : ∀ make : Node → Node, Even (do
      Parse.skipNewlines
      let value ← self.expression
      return make value) := fun make =>
    Even.skipNewlines.bind fun _ => hs.expression.bind fun _ => .done _
  split
  · exact (advance.discard.bind fun _ => hvalue _) s (by simp [*])
  · exact (advance.discard.bind fun _ => .done _) s (by simp [*])
  · exact (advance.discard.bind fun _ => .done _) s (by simp [*])
  · split
    · rename_i op hop
      refine (advance.discard.bind fun _ => hvalue _) s fun hline => ?_
      rw [hline] at hop
      cases hop
    · exact .done _

theorem factorRule (hs : self.Level) (token : Token) : EvenInLine (factorRule self token) := by
  unfold Grammar.factorRule
  split
  · exact numeral
  · exact numeral
  · exact advance.discard.bind fun _ => .done _
  · exact named hs
  · exact list hs
  · exact signed hs _
  · exact signed hs _
  · exact advance.discard.bind fun _ => .done _
  · exact advance.discard.bind fun _ => .done _
  · exact advance.discard.bind fun _ => .done _
  · exact choice hs
  · exact forLoop hs
  · exact whileLoop hs
  · exact function hs
  · exact object hs
  · exact creation hs
  · exact advance.discard.bind fun _ => .done _
  · exact inclusion hs
  · exact parens hs
  · exact (Even.block hs).inLine
  · exact Even.unexpected.inLine

theorem declaration (hs : self.Level) : EvenInLine (declaration self) :=
  advance.bind fun _ => Even.skipNewlines.bind fun _ => (Even.expect (by decide) _).bind fun _ =>
    Even.skipNewlines.bind fun _ => (Even.expect (by decide) _).discard.bind fun _ =>
    Even.skipNewlines.bind fun _ => hs.expression.bind fun _ => .done _

end EvenInLine

/-! ### Tiers -/

namespace Even

variable {self : Rules}

theorem factor (hs : self.Level) : Even (factor self) :=
  skip fun s hline => .peek_bind (EvenInLine.factorRule hs s.peek s hline)

theorem call (hs : self.Level) : Even (call self) := by
  refine (factor hs).bind fun callee => (check .lParen).bind fun opens => ?_
  cases opens with
  | true => exact (arguments hs).bind fun _ => done _
  | false => exact done callee

theorem segmentsRest (hs : self.Level) : Even (remaining >>= segmentsRest self) := by
  have hcall := Trails.closed.call hs.needy.trails
  exact repeated (bracedOr hs (call hs)) (Trails.closed.bracedOr hs.needy.trails hcall) (by decide)
    (by decide) Prod.snd rfl fun _ => rfl

theorem access (hs : self.Level) : Even (access self) := by
  refine (call hs).bind fun first => (segmentsRest hs).bind_remaining fun more => ?_
  cases more with
  | nil => exact done first
  | cons segment rest => exact done _

theorem term (hs : self.Level) : Even (term self) :=
  chain (access hs) (Trails.closed.access hs.needy.trails) rfl rfl

theorem sum (hs : self.Level) : Even (sum self) :=
  chain (term hs) (Trails.closed.term hs.needy.trails) rfl rfl

theorem comparison (hs : self.Level) : Even (comparison self) :=
  chain (sum hs) (Trails.closed.sum hs.needy.trails) rfl rfl

theorem negation (hs : self.Level) : Even (negation self) :=
  check_bind (by decide) (EvenInLine.advance.bind fun _ => skipNewlines.bind fun _ =>
    hs.negation.bind fun _ => done _) (comparison hs)

theorem expression (hs : self.Level) : Even (expression self) :=
  check_bind (by decide) (EvenInLine.declaration hs)
    (chain (negation hs) (Trails.closed.negation hs.needy.trails) rfl rfl)

/-! ### Statements -/

theorem statement (hs : self.Level) : Even (statement self) := by
  refine fun s => .peek_bind ?_
  split
  · exact (EvenInLine.advance.discard.bind fun _ => skip
      ((hs.expression.inLine.attempt hs.needy.trails.expression).bind fun _ => done _)) s
      (by simp [*])
  · exact (EvenInLine.advance.discard.bind fun _ => done _) s (by simp [*])
  · exact (EvenInLine.advance.discard.bind fun _ => done _) s (by simp [*])
  · exact expression hs s

/-- A statement is tried behind the line breaks that separate it from the one before. -/
theorem statementsRest (hs : self.Level) : Even (remaining >>= statementsRest self) := by
  refine loop (q := fun n (_ : Unit) => Grammar.statementsRest self n) ?_ ?_ ()
  · intro _ s hnil
    have hline : s.peek.kind ≠ .newline := by simp [peek_nil hnil]
    rw [statementsRest_same_line 0 hline, statementsRest_same_line 1 hline]
  · intro n m _ s hrounds
    have htrails := Trails.closed.statement hs.needy.trails
    by_cases hline : s.peek.kind = .newline
    · rw [Matches, statementsRest_newline m (by rwa [Stream.peek_condense]),
        statementsRest_newline n hline, Stream.skipNewlines_condense]
      have htry := (statement hs s.skipNewlines).attempt htrails (not_newline_of_skip s)
      refine htry.bind fun next r hr => ?_
      have hbelow : Below r s :=
        (Below.skip hline).mono (htrails.attempt.of_ok hr).1 (List.suffix_refl _)
      cases next with
      | none => exact .done []
      | some next => exact (hrounds () r hbelow).bind fun more _ _ => .done (next :: more)
    · rw [Matches, statementsRest_same_line (m + 1) (by rwa [Stream.peek_condense]),
        statementsRest_same_line (n + 1) hline]
      rfl

theorem statements (hs : self.Level) : Even (statements self) := by
  refine skipNewlines.bind fun _ s => .peek_bind ?_
  split
  · exact .done _
  · exact ((statement hs).bind fun first => (statementsRest hs).bind_remaining fun _ => done _) s

theorem program (hs : self.Level) : Even (program self) := by
  refine skipNewlines.bind fun _ s => .peek_bind ?_
  split
  · exact .done _
  · refine ((statements hs).bind fun root => skipNewlines.bind fun _ =>
      (check .endOfCode).bind fun ended => ?_) s
    cases ended with
    | true => exact done root
    | false => exact unexpected

end Even

theorem level_rules (n : Nat) : (rules n).Level := by
  induction n with
  | zero =>
    exact ⟨Hungry.rules 0, .unexpected, .unexpected, .unexpected, .unexpected, .unexpected⟩
  | succ n ih =>
    exact ⟨Hungry.rules (n + 1), .expression ih, .negation ih, .access ih, .statement ih,
      .statements ih⟩

/-! ### Whole token lists -/

/-- A bound beyond the number of tokens makes no difference: the plain recursion of the rules ends
the same way. -/
theorem program_bound (tokens : List Token) {n : Nat}
    (hn : (Stream.ofTokens tokens).ahead.length ≤ n) :
    program (rules n) (Stream.ofTokens tokens) =
      program (rules (Stream.ofTokens tokens).ahead.length) (Stream.ofTokens tokens) := by
  let tape := Tape.ofTokens tokens
  have hstream : tape.stream 0 = Stream.ofTokens tokens := by
    rw [tape.stream_zero, Tape.ofTokens_tokens]
  have hfinish : (Stream.ofTokens tokens).ahead.length = tape.finish := by
    rw [← hstream, tape.length_stream, Nat.sub_zero]
  have hends : ∀ k, tape.finish ≤ k → ∃ result c, outcome (Tape.program tape) Cursor.start =
      some (result, c) ∧ program (rules k) (Stream.ofTokens tokens) =
        replied (tape.stream c.current) result := by
    intro k hk
    obtain ⟨result, c, hends, -, -, hreply⟩ := Follows.program (Follows.rules tape k) Cursor.start
      ⟨Nat.le_refl _, Nat.zero_le _⟩ (Nat.lt_succ_of_le hk)
    refine ⟨result, c, hends, ?_⟩
    rw [← hstream]
    exact hreply
  rw [hfinish] at hn ⊢
  obtain ⟨result, c, hfirst, hreply⟩ := hends n hn
  obtain ⟨result', c', hsecond, hreply'⟩ := hends tape.finish (Nat.le_refl _)
  cases hfirst.symm.trans hsecond
  rw [hreply, hreply']

theorem ofTokens_append {front back : List Token} {e : Token} (he : e.kind = .endOfCode)
    (hfront : ∀ t ∈ front, t.kind ≠ .endOfCode) :
    Stream.ofTokens (front ++ e :: back) = ⟨front, e.position⟩ := by
  have hahead : (front ++ e :: back).takeWhile (·.kind != .endOfCode) = front := by
    rw [List.takeWhile_append_of_pos (by simpa using hfront)]
    simp [he]
  have hfind : (front ++ e :: back).find? (·.kind == .endOfCode) = some e := by
    rw [List.find?_append, List.find?_eq_none.mpr (by simpa using hfront)]
    simp [he]
  simp only [Stream.ofTokens, hahead, hfind]

theorem ofTokens_condense {tokens : List Token} (h : ∃ e ∈ tokens, e.kind = .endOfCode) :
    Stream.ofTokens (condense tokens) = (Stream.ofTokens tokens).condense := by
  obtain ⟨e, he⟩ : ∃ e, tokens.find? (·.kind == .endOfCode) = some e := by
    rw [← Option.isSome_iff_exists, List.find?_isSome]
    simpa using h
  obtain ⟨hkind, front, back, rfl, hfront⟩ := List.find?_eq_some_iff_append.mp he
  have hend : e.kind = .endOfCode := by simpa using hkind
  have hline : e.kind ≠ .newline := by simp [hend]
  have hplain : ∀ t ∈ front, t.kind ≠ .endOfCode := by simpa using hfront
  have hcondensed : ∀ t ∈ condense front, t.kind ≠ .endOfCode :=
    fun t ht => hplain t ((List.destutter_sublist _ front).mem ht)
  rw [condense_append hline, condense_cons hline, ofTokens_append hend hcondensed,
    ofTokens_append hend hplain]
  rfl

/-- Only the presence of line breaks matters, not how many there are in a row: a list of tokens that
is closed by an end of code parses like the condensed one, to the same tree with the same positions
or with the same fault at the same position. -/
theorem parseTokens_condense (tokens : List Token)
    (h : tokens.getLast?.map Token.kind = some .endOfCode) :
    (parseTokens (condense tokens)).result = (parseTokens tokens).result := by
  have hmem : ∃ e ∈ tokens, e.kind = .endOfCode := by
    obtain ⟨e, hlast, he⟩ := Option.map_eq_some_iff.mp h
    exact ⟨e, List.mem_of_getLast? hlast, he⟩
  let s := Stream.ofTokens tokens
  have hs : Stream.ofTokens (condense tokens) = s.condense := ofTokens_condense hmem
  have hle : (Stream.ofTokens (condense tokens)).ahead.length ≤ s.ahead.length := by
    rw [hs]
    exact (List.destutter_sublist _ s.ahead).length_le
  have heven : program (rules s.ahead.length) s.condense =
      (program (rules s.ahead.length) s).condense := Even.program (level_rules _) s
  have hbound := program_bound (condense tokens) hle
  rw [hs, heven] at hbound
  simp only [parseTokens, hs, ← hbound]
  cases hreply : program (rules s.ahead.length) s with
  | ok root r => rfl
  | error d r => rfl

theorem parseTokens_condense_choice :
    (condense (tokenize "if a: b\n\n\nelse: c\n\nd" none).tokens).length + 3 =
        (tokenize "if a: b\n\n\nelse: c\n\nd" none).tokens.length ∧
      (parseTokens (condense (tokenize "if a: b\n\n\nelse: c\n\nd" none).tokens)).result =
        (parseTokens (tokenize "if a: b\n\n\nelse: c\n\nd" none).tokens).result :=
  ⟨by decide +kernel, parseTokens_condense _ (by decide +kernel)⟩

end ScriptEngine
