import ScriptEngine.Proofs.ParserExtension

/-! # The grammar with more behind

Every rule of the grammar does the same with a line break and more behind its tokens, and with a
larger bound on them. The rules of the inside of a block are the exception: they take the line
breaks that they end with, so that something has to be left for them. -/

namespace ScriptEngine

open Parse Grammar

/-! ### Single rules -/

/-- A jump that is tried is taken. -/
theorem jump_bites {self : Rules} {s : Stream} (hs : self.Has Trails)
    (hjumps : s.peek.kind.jumps = true) :
    (Grammar.statement self).Bites s := by
  have hne : s.ahead ≠ [] := ahead_ne_nil fun hk => by
    rw [hk] at hjumps
    cases hjumps
  have hkinds : s.peek.kind = .keyword .return_ ∨ s.peek.kind = .keyword .continue_ ∨
      s.peek.kind = .keyword .break_ := by
    unfold TokenKind.jumps at hjumps
    split at hjumps <;> simp_all
  have hP := Trails.closed
  unfold Bites
  rw [Grammar.statement, bind_of_ok (peek_apply s)]
  rcases hkinds with hkind | hkind | hkind
  · rw [hkind]
    exact discard_advance_bites hne fun _ => hP.bind hP.skipNewlines fun _ =>
      hP.bind (hP.attempt hs.expression) fun _ => hP.done _
  · rw [hkind]
    exact discard_advance_bites hne fun _ => hP.done _
  · rw [hkind]
    exact discard_advance_bites hne fun _ => hP.done _

theorem attempt_congr {α : Type} {p q : Parse α} {s : Stream} (h : p s = q s) :
    attempt p s = attempt q s := by
  unfold Parse.attempt
  rw [h]

theorem length_skip_of_line {s : Stream} (hline : s.peek.kind = .newline) :
    s.skipNewlines.ahead.length < s.ahead.length := by
  obtain ⟨t, hkind, hahead⟩ := ahead_of_peek (by decide) hline
  have hdrop : s.skipNewlines.ahead = s.advance.skipNewlines.ahead := by
    rw [Stream.skipNewlines, hahead, List.dropWhile_cons_of_pos (by rw [hkind]; rfl)]
    rfl
  have hle := (Trails.skipNewlines_suffix s.advance).length_le
  rw [hdrop, hahead, List.length_cons]
  omega

theorem pathsRest_stop {self : Rules} {s : Stream} (n : Nat) (h : s.peek.kind ≠ .comma) :
    pathsRest self n s = .ok [] s := by
  cases n with
  | zero => rfl
  | succ n =>
    rw [Grammar.pathsRest, bind_apply, Parse.accept, beq_false_of_ne h]
    rfl

/-! ### The grammar at the end of the tokens -/

/-- What the grammar refers back to needs a token. -/
structure Rules.Needy (rules : Rules) : Prop where
  trails : rules.Has Trails
  expression : Hungry rules.expression
  negation : Hungry rules.negation
  access : Hungry rules.access
  statement : Hungry rules.statement

namespace Hungry

variable {α : Type} {self : Rules}

theorem separated {item : Parse α} (hi : Hungry item) (close : TokenKind) (what : String)
    (n : Nat) : Hungry (separated item close what n) := by
  cases n with
  | zero => exact hi.bind _
  | succ n => exact hi.bind _

theorem chain {operand : Parse Node} (ho : Hungry operand) (op? : TokenKind → Option BinaryOp) :
    Hungry (chain operand op?) :=
  ho.bind _

theorem block : Hungry (block self) :=
  (expect (by decide) _).discard.bind _

theorem bracedOr {inline_ : Parse Node} (hi : Hungry inline_) : Hungry (bracedOr self inline_) :=
  check (by decide) (hi.bind _)

theorem loopBody {inline_ : Parse Node} (hi : Hungry inline_) : Hungry (loopBody self inline_) :=
  (after (Trails.closed.discard (Trails.accept _)) fun _ => (bracedOr hi).skip).skip

theorem factor : Hungry (factor self) := by
  intro s hs a r h
  have hrule : factorRule self s.peek = unexpected := by
    unfold factorRule
    rw [peek_nil hs]
  rw [factor_eq, skipNewlines_nil hs, hrule] at h
  cases h

theorem call : Hungry (call self) :=
  factor.bind _

theorem access : Hungry (access self) :=
  call.bind _

theorem term : Hungry (term self) :=
  access.chain _

theorem sum : Hungry (sum self) :=
  term.chain _

theorem negation : Hungry (negation self) :=
  check (by decide) (sum.chain _)

theorem expression : Hungry (expression self) :=
  check (by decide) (negation.chain _)

theorem statement : Hungry (statement self) := by
  intro s hs a r h
  have hjumps : s.peek.kind.jumps = false := by
    rw [peek_nil hs]
    rfl
  rw [statement_eq hjumps] at h
  exact expression s hs a r h

theorem rules (n : Nat) : (rules n).Needy := by
  have hstuck : Hungry (unexpected : Parse Node) := fun s _ a r h => by cases h
  cases n with
  | zero => exact ⟨trails_rules 0, hstuck, hstuck, hstuck, hstuck⟩
  | succ n => exact ⟨trails_rules (n + 1), expression, negation, access, statement⟩

end Hungry

/-! ### The grammar with more behind -/

/-- What the grammar refers back to does the same on at most `k` tokens. -/
structure Rules.Agree (tail : List Token) (k : Nat) (rules rules' : Rules) : Prop where
  needy : rules.Needy
  expression : Stable tail k rules.expression rules'.expression
  negation : Stable tail k rules.negation rules'.negation
  access : Stable tail k rules.access rules'.access
  statement : Stable tail k rules.statement rules'.statement
  statements : StableInside tail k rules.statements rules'.statements
  attempt : ∀ s, s.ahead.length ≤ k → Complete tail s → (s.ahead = [] → tail = []) →
    s.peek.kind ≠ .newline → Extends tail (attempt rules.expression) (attempt rules'.expression) s

namespace Stable

variable {α : Type} {tail : List Token} {k : Nat} {self self' : Rules}

/-! Lists and chains -/

theorem separated (ht : Detached tail) {item item' : Parse α} (hi : Stable tail k item item')
    (hhungry : Hungry item) {close : TokenKind} (hclose : close ≠ .endOfCode) (what : String)
    {n n' : Nat} (hnk : n ≤ k) (hnn' : n ≤ n') :
    Stable tail n (separated item close what n) (separated item' close what n') := by
  induction n generalizing n' with
  | zero =>
    intro s hs _ a r h
    exact absurd h (hhungry.separated close what 0 s (ahead_of_bound hs) a r)
  | succ n ih =>
    obtain ⟨m, rfl⟩ : ∃ m, n' = m + 1 := ⟨n' - 1, by omega⟩
    refine (hi.mono hnk).bind fun x => Stable.skip ?_ ?_
    · refine acceptBind ht (by decide) (by decide) ?_ ?_
      · exact ((ih (by omega) (by omega)).bind fun _ => done _).skip
          ((hhungry.separated close what n).bind _)
      · exact (expect hclose what).discard.bind fun _ => done _
    · exact .accept (by decide) ((Hungry.expect hclose what).discard.bind _)

theorem enclosed (ht : Detached tail) {item item' : Parse α} (hi : Stable tail k item item')
    (hhungry : Hungry item) {close : TokenKind} (hclose : close ≠ .endOfCode)
    (hline : close ≠ .newline) (what : String) :
    Stable tail k (enclosed item close what) (enclosed item' close what) := by
  refine Stable.skip ?_ ?_
  · refine (accept ht hclose hline).bind fun closed => ?_
    cases closed with
    | true => exact done _
    | false => exact remainingBind fun n n' hn hnn' => separated ht hi hhungry hclose what hn hnn'
  · exact .accept hclose (.after Trails.closed.remaining fun _ => hhungry.separated _ _ _)

/-- A loop without a bound left is at the end of the tokens. -/
theorem ended {a : α} {q : Parse α}
    (hq : ∀ s : Stream, s.ahead = [] → q (s.followedBy tail) = .ok a (s.followedBy tail)) :
    Stable tail 0 (Parse.done a) q := by
  intro s hs _ b r h
  cases h
  exact ⟨List.suffix_refl _, hq s (ahead_of_bound hs)⟩

theorem chainRest (ht : Detached tail) {operand operand' : Parse Node}
    (ho : Stable tail k operand operand') (hhungry : Hungry operand)
    {op? : TokenKind → Option BinaryOp} (hline : op? .newline = none) (hend : op? .endOfCode = none)
    {n n' : Nat} (hnk : n ≤ k) (hnn' : n ≤ n') (left : Node) :
    Stable tail n (chainRest operand op? n left) (chainRest operand' op? n' left) := by
  have hstop : ∀ (s : Stream) n' left, op? s.peek.kind = none →
      Grammar.chainRest operand' op? n' left (s.followedBy tail) =
        .ok left (s.followedBy tail) := fun s n' left hs =>
    chainRest_stop n' (peek_keeps ht (P := fun kind => op? kind = none) hline hend hs)
  induction n generalizing n' left with
  | zero =>
    refine ended fun s hs => hstop s n' left ?_
    rw [peek_nil hs, hend]
  | succ n ih =>
    obtain ⟨m, rfl⟩ : ∃ m, n' = m + 1 := ⟨n' - 1, by omega⟩
    intro s hs hcomplete a r h
    cases hop : op? s.peek.kind with
    | none =>
      rw [chainRest_stop (n + 1) hop] at h
      cases h
      exact ⟨List.suffix_refl _, hstop s (m + 1) left hop⟩
    | some op =>
      have hne : s.ahead ≠ [] := ahead_ne_nil fun hk => by
        rw [hk, hend] at hop
        cases hop
      have hlt := Bites.advance_lt hne
      have hsuffix := Trails.advance_suffix s
      have hrest : Stable tail n
          (skipNewlines >>= fun _ => operand >>= fun right =>
            Grammar.chainRest operand op? n (.binary s.peek.position op left right))
          (skipNewlines >>= fun _ => operand' >>= fun right =>
            Grammar.chainRest operand' op? m (.binary s.peek.position op left right)) :=
        ((ho.mono (by omega)).bind fun right => ih (by omega) (by omega) _).skip (hhungry.bind _)
      have hop' : op? (s.followedBy tail).peek.kind = some op := by
        rw [peek_followedBy hne, hop]
      rw [chainRest_go n hop] at h
      rw [chainRest_go m hop', peek_followedBy hne, advance_followedBy hne]
      obtain ⟨hsuffix', hg⟩ := hrest s.advance (by omega) (hcomplete.suffix hsuffix) a r h
      exact ⟨hsuffix'.trans hsuffix, hg⟩

theorem chain (ht : Detached tail) {operand operand' : Parse Node}
    (ho : Stable tail k operand operand') (hhungry : Hungry operand)
    {op? : TokenKind → Option BinaryOp} (hline : op? .newline = none)
    (hend : op? .endOfCode = none) : Stable tail k (chain operand op?) (chain operand' op?) :=
  ho.bind fun left => remainingBind fun _ _ hn hnn' =>
    chainRest ht ho hhungry hline hend hn hnn' left

/-! Bodies -/

theorem block (hs : self.Agree tail k self') : Stable tail (k + 1) (block self) (block self') := by
  refine (expect (by decide) _).discard.bindTaken (Takes.expect (by decide) _).discard fun _ => ?_
  have hclose := (Hungry.expect (show TokenKind.rBrace ≠ .endOfCode by decide) "'\x7d'").discard
  refine hs.statements.bindHungry (fun body => ?_) fun body => (hclose.bind _).skip
  exact ((expect (by decide) _).discard.bind fun _ => done _).skip (hclose.bind _)

theorem bracedOr (ht : Detached tail) (hs : self.Agree tail k self') {j : Nat} (hj : j ≤ k + 1)
    {inline_ inline' : Parse Node} (hi : Stable tail j inline_ inline') :
    Stable tail j (bracedOr self inline_) (bracedOr self' inline') := by
  refine (check ht (by decide) (by decide)).bind fun braced => ?_
  cases braced with
  | true => exact ((block hs).mono hj).bind fun _ => done _
  | false => exact hi.bind fun _ => done _

theorem branch (ht : Detached tail) (hs : self.Agree tail k self') :
    Stable tail k (branch self) (branch self') :=
  (bracedOr ht hs (Nat.le_succ k) hs.statement).skip (.bracedOr hs.needy.statement)

theorem loopBody (ht : Detached tail) (hs : self.Agree tail k self') {inline_ inline' : Parse Node}
    (hi : Stable tail k inline_ inline') (hhungry : Hungry inline_) :
    Stable tail k (loopBody self inline_) (loopBody self' inline') := by
  have hbody := (bracedOr ht hs (Nat.le_succ k) hi).skip (.bracedOr hhungry)
  refine ((accept ht (by decide) (by decide)).discard.bind fun _ => hbody).skip ?_
  exact .after (Trails.closed.discard (Trails.accept _)) fun _ => (Hungry.bracedOr hhungry).skip

/-! Arms -/

theorem arm (ht : Detached tail) (hs : self.Agree tail k self') :
    Stable tail k (arm self) (arm self') := by
  refine (hs.expression.bind fun condition => ?_).skip (hs.needy.expression.bind _)
  exact (accept ht (by decide) (by decide)).discard.bind fun _ => (branch ht hs).bind fun _ =>
    done _

/-- The tail is no arm. -/
theorem armsRest_end (ht : Detached tail) {s : Stream} (hs : s.skipNewlines.ahead = []) (n : Nat) :
    Grammar.armsRest self' n (s.followedBy tail) = .ok .done (s.followedBy tail) := by
  cases n with
  | zero => rfl
  | succ n =>
    have hahead : (s.followedBy tail).skipNewlines.ahead =
        tail.dropWhile (·.kind == .newline) := dropWhile_append_of_eq hs
    have hnone : nextArm self' n (s.followedBy tail).skipNewlines.peek.kind = none := by
      rw [Stream.peek, hahead]
      cases hdrop : tail.dropWhile (·.kind == .newline) with
      | nil => rfl
      | cons t ts =>
        obtain ⟨hif, helse⟩ := ht.arm t (by rw [hdrop]; rfl)
        unfold nextArm
        split
        · exact absurd ‹_› hif
        · exact absurd ‹_› helse
        · rfl
    rw [armsRest_succ, beyond, hnone]

theorem nextArm (ht : Detached tail) (hs : self.Agree tail k self') {n m : Nat} (hnk : n ≤ k)
    (hmore : Stable tail n (armsRest self n) (armsRest self' m)) (kind : TokenKind) :
    Option.Rel (Stable tail n) (nextArm self n kind) (nextArm self' m kind) := by
  unfold Grammar.nextArm
  split
  · exact .some (((arm ht hs).mono hnk).bind fun _ => hmore.bind fun _ => done _)
  · exact .some ((accept ht (by decide) (by decide)).discard.bind fun _ =>
      ((branch ht hs).mono hnk).bind fun _ => done _)
  · exact .none

theorem armsRest (ht : Detached tail) (hs : self.Agree tail k self') {n n' : Nat} (hnk : n ≤ k)
    (hnn' : n ≤ n') : Stable tail n (armsRest self n) (armsRest self' n') := by
  induction n generalizing n' with
  | zero => exact ended fun s hnil => armsRest_end ht (by rw [skipNewlines_nil hnil, hnil]) n'
  | succ n ih =>
    obtain ⟨m, rfl⟩ : ∃ m, n' = m + 1 := ⟨n' - 1, by omega⟩
    intro s hlength hcomplete a r h
    -- Where only line breaks are left the rule looks past them into the tail.
    by_cases hnil : s.skipNewlines.ahead = []
    · have hnone : Grammar.nextArm self n s.skipNewlines.peek.kind = none := by
        rw [peek_nil hnil]
        rfl
      rw [armsRest_succ, beyond, hnone] at h
      cases h
      exact ⟨List.suffix_refl _, armsRest_end ht hnil (m + 1)⟩
    · have hnext := nextArm ht hs (by omega) (ih (by omega) (by omega : n ≤ m))
        s.skipNewlines.peek.kind
      rw [armsRest_succ, beyond] at h ⊢
      rw [skipNewlines_followedBy hnil, peek_followedBy hnil]
      have hskip := Trails.skipNewlines_suffix s
      have hsuffix := (Trails.advance_suffix s.skipNewlines).trans hskip
      have hlt := Bites.advance_lt hnil
      have hle := hskip.length_le
      generalize Grammar.nextArm self n s.skipNewlines.peek.kind = here at h hnext
      generalize Grammar.nextArm self' m s.skipNewlines.peek.kind = there at hnext ⊢
      cases hnext with
      | none =>
        cases h
        exact ⟨List.suffix_refl _, rfl⟩
      | some hpq =>
        dsimp only at h ⊢
        rw [advance_followedBy hnil]
        obtain ⟨hsuffix', hg⟩ := hpq s.skipNewlines.advance (by omega)
          (hcomplete.suffix hsuffix) a r h
        exact ⟨hsuffix'.trans hsuffix, hg⟩

/-! Expressions that start with a keyword or a bracket -/

theorem parameters (ht : Detached tail) : Stable tail k parameters parameters := by
  refine (expect (by decide) _).discard.bind fun _ => ?_
  exact enclosed ht ((expect (by decide) _).map _) ((Hungry.expect (by decide) _).map _)
    (by decide) (by decide) _

theorem arguments (ht : Detached tail) (hs : self.Agree tail k self') :
    Stable tail (k + 1) (arguments self) (arguments self') := by
  refine (expect (by decide) _).discard.bindTaken (Takes.expect (by decide) _).discard fun _ => ?_
  exact enclosed ht hs.expression hs.needy.expression (by decide) (by decide) _

theorem pathsRest (ht : Detached tail) (hs : self.Agree tail k self') {n n' : Nat} (hnk : n ≤ k)
    (hnn' : n ≤ n') : Stable tail n (pathsRest self n) (pathsRest self' n') := by
  induction n generalizing n' with
  | zero =>
    exact ended fun s hnil => pathsRest_stop n' (peek_ne_end ht hnil (by decide) (by decide))
  | succ n ih =>
    obtain ⟨m, rfl⟩ : ∃ m, n' = m + 1 := ⟨n' - 1, by omega⟩
    refine acceptBind ht (by decide) (by decide) ?_ (done _)
    exact ((hs.expression.mono (by omega)).bind fun path => (ih (by omega) (by omega)).bind
      fun _ => done _).skip (hs.needy.expression.bind _)

end Stable

namespace StableInside

variable {tail : List Token} {k : Nat}

theorem functionName (ht : Detached tail) : StableInside tail k functionName functionName := by
  refine bind (Stable.check ht (by decide) (by decide)).inside fun named => ?_
  cases named with
  | true => exact advance.bind fun _ => skipNewlines.bind fun _ => (Stable.done _).inside
  | false => exact (Stable.done _).inside

theorem parentName (ht : Detached tail) : StableInside tail k parentName parentName := by
  refine bind (Stable.accept ht (by decide) (by decide)).inside fun derived => ?_
  cases derived with
  | true =>
    exact skipNewlines.bind fun _ => bind (Stable.expect (by decide) _).inside fun _ =>
      skipNewlines.bind fun _ => (Stable.done _).inside
  | false => exact (Stable.done _).inside

end StableInside

namespace Extends

variable {tail : List Token} {k : Nat} {self self' : Rules} {s : Stream}

theorem choice (ht : Detached tail) (hs : self.Agree tail k self') (hr : Ready tail (k + 1) s) :
    Extends tail (choice self) (choice self') s :=
  advance hr fun _ => (Stable.arm ht hs).bind fun _ => .remainingBind fun _ _ hn hnn' =>
    (Stable.armsRest ht hs hn hnn').bind fun _ => .done _

theorem forLoop (ht : Detached tail) (hs : self.Agree tail k self') (hr : Ready tail (k + 1) s) :
    Extends tail (forLoop self) (forLoop self') s := by
  have hname := Hungry.expect (show TokenKind.identifier ≠ .endOfCode by decide) "identifier"
  have hequals := (Hungry.expect (show TokenKind.equals ≠ .endOfCode by decide) "'='").discard
  have hto := (Hungry.expect (show TokenKind.keyword .to_ ≠ .endOfCode by decide) "'to'").discard
  have hbody := Stable.loopBody ht hs hs.expression hs.needy.expression
  have hneeds : Hungry (loopBody self self.expression) := .loopBody hs.needy.expression
  refine advance hr fun _ => .skip (.bind (.expect (by decide) _) fun name => ?_) (hname.bind _)
  refine .skip (.bind (.accept ht (by decide) (by decide)) fun each => ?_)
    (.accept (by decide) (hequals.bind _))
  cases each with
  | true => exact hs.expression.bind fun items => hbody.bind fun _ => .done _
  | false =>
    refine .bind (Stable.expect (by decide) _).discard fun _ => .skip ?_
      (hs.needy.expression.bind _)
    refine hs.expression.bind fun start => .skip ?_ (hto.bind _)
    refine .bind (Stable.expect (by decide) _).discard fun _ => .skip ?_
      (hs.needy.expression.bind _)
    refine hs.expression.bind fun stop => .skip ?_ ?_
    · refine .bind (.accept ht (by decide) (by decide)) fun by_ => ?_
      cases by_ with
      | true => exact (hs.expression.map _).bind fun step => hbody.bind fun _ => .done _
      | false => exact (Stable.done _).bind fun step => hbody.bind fun _ => .done _
    · exact .accept (by decide) (.after (Trails.closed.done _) fun step => hneeds.bind _)

theorem whileLoop (ht : Detached tail) (hs : self.Agree tail k self') (hr : Ready tail (k + 1) s) :
    Extends tail (whileLoop self) (whileLoop self') s :=
  advance hr fun _ => .skip (hs.expression.bind fun _ =>
    (Stable.loopBody ht hs hs.statement hs.needy.statement).bind fun _ => .done _)
      (hs.needy.expression.bind _)

theorem function (ht : Detached tail) (hs : self.Agree tail k self') (hr : Ready tail (k + 1) s) :
    Extends tail (function self) (function self') s := by
  have hfail : ∀ fault, Hungry (fail fault : Parse Node) := fun _ _ _ _ _ h => by cases h
  refine advance hr fun token => .skip (StableInside.bindHungry (.functionName ht) (fun name => ?_)
    fun name => .check (by decide) (hfail _)) (.after Trails.closed.functionName
      fun name => .check (by decide) (hfail _))
  refine .bind (.check ht (by decide) (by decide)) fun opens => ?_
  cases opens with
  | false => exact .never fun _ _ _ h => by cases h
  | true =>
    refine .bind (.parameters ht) fun params => .skip ?_ (.accept (by decide) (.bind .block _))
    refine .bind (.accept ht (by decide) (by decide)) fun inline_ => ?_
    cases inline_ with
    | true => exact .skip (hs.statement.bind fun _ => .done _) (hs.needy.statement.bind _)
    | false => exact .bind ((Stable.block hs).mono (Nat.le_succ k)) fun _ => .done _

theorem object (ht : Detached tail) (hs : self.Agree tail k self') (hr : Ready tail (k + 1) s) :
    Extends tail (object self) (object self') s := by
  have hname := Hungry.expect (show TokenKind.identifier ≠ .endOfCode by decide)
    "identifier for the object."
  have hopen := (Hungry.expect (show TokenKind.lParen ≠ .endOfCode by decide) "'('").discard
  have hblock : Hungry (block self) := .block
  refine advance hr fun _ => .skip (.bind (.expect (by decide) _) fun name => ?_) (hname.bind _)
  refine .skip (.bind (.parameters ht) fun params => ?_) ((hopen.bind _).bind _)
  refine .skip (StableInside.bindHungry (.parentName ht) (fun parent => ?_)
    fun parent => hblock.bind _) (.after Trails.closed.parentName fun parent => hblock.bind _)
  exact .bind ((Stable.block hs).mono (Nat.le_succ k)) fun _ => .done _

theorem creation (ht : Detached tail) (hs : self.Agree tail k self') (hr : Ready tail (k + 1) s) :
    Extends tail (creation self) (creation self') s := by
  have hname := Hungry.expect (show TokenKind.identifier ≠ .endOfCode by decide) "identifier"
  have hopen := (Hungry.expect (show TokenKind.lParen ≠ .endOfCode by decide) "'('").discard
  refine advance hr fun _ => .skip (.bind (.expect (by decide) _) fun name => ?_) (hname.bind _)
  refine .skip ?_ ((hopen.bind _).bind _)
  exact ((Stable.arguments ht hs).mono (Nat.le_succ k)).bind fun _ => .done _

theorem inclusion (ht : Detached tail) (hs : self.Agree tail k self') (hr : Ready tail (k + 1) s) :
    Extends tail (inclusion self) (inclusion self') s :=
  advance hr fun _ => .skip (hs.expression.bind fun _ => .remainingBind fun _ _ hn hnn' =>
    (Stable.pathsRest ht hs hn hnn').bind fun _ => .done _) (hs.needy.expression.bind _)

theorem list (ht : Detached tail) (hs : self.Agree tail k self') (hr : Ready tail (k + 1) s) :
    Extends tail (list self) (list self') s :=
  advance hr fun _ => (Stable.enclosed ht hs.expression hs.needy.expression (by decide)
    (by decide) _).bind fun _ => .done _

theorem parens (hs : self.Agree tail k self') (hr : Ready tail (k + 1) s) :
    Extends tail (parens self) (parens self') s := by
  have hclose := (Hungry.expect (show TokenKind.rParen ≠ .endOfCode by decide) "')'").discard
  refine discardAdvance hr (.skip (hs.expression.bind fun _ => ?_) (hs.needy.expression.bind _))
  exact .skip (.bind (Stable.expect (by decide) _).discard fun _ => .done _) (hclose.bind _)

theorem signed (hs : self.Agree tail k self') (hr : Ready tail (k + 1) s) (op : UnaryOp) :
    Extends tail (signed self op) (signed self' op) s :=
  advance hr fun _ => .skip (hs.access.bind fun _ => .done _) (hs.needy.access.bind _)

theorem named (ht : Detached tail) (hs : self.Agree tail k self') (hr : Ready tail (k + 1) s) :
    Extends tail (named self) (named self') s := by
  have hvalue : ∀ make : Node → Node, Stable tail k
      (skipNewlines >>= fun _ => self.expression >>= fun value => pure (make value))
      (skipNewlines >>= fun _ => self'.expression >>= fun value => pure (make value)) :=
    fun make => .skip (hs.expression.bind fun _ => .done _) (hs.needy.expression.bind _)
  refine advance hr fun token => .peekBind ht (fun next hnext => ?_) fun next next' hend hline => ?_
  · split
    · exact discardAdvance hnext.succ (hvalue _)
    · exact discardAdvance hnext.succ (.done _)
    · exact discardAdvance hnext.succ (.done _)
    · split
      · exact discardAdvance hnext.succ (hvalue _)
      · exact Stable.done _ next hnext.length hnext.complete
  · rcases hline with hline | hline
    · simp only [hend, hline]
      exact .done _
    · simp only [hend, hline]
      exact .done _

theorem numeral (hr : Ready tail (k + 1) s) : Extends tail numeral numeral s := by
  refine advance hr fun token => ?_
  split
  · exact .done _
  · exact .never fun _ _ _ h => by cases h

/-- What a token starts is the same with more behind. -/
theorem factorRule (ht : Detached tail) (hs : self.Agree tail k self') (hr : Ready tail (k + 1) s) :
    Extends tail (factorRule self s.peek) (factorRule self' s.peek) s := by
  unfold Grammar.factorRule
  split
  · exact numeral hr
  · exact numeral hr
  · exact discardAdvance hr (.done _)
  · exact named ht hs hr
  · exact list ht hs hr
  · exact signed hs hr _
  · exact signed hs hr _
  · exact discardAdvance hr (.done _)
  · exact discardAdvance hr (.done _)
  · exact discardAdvance hr (.done _)
  · exact choice ht hs hr
  · exact forLoop ht hs hr
  · exact whileLoop ht hs hr
  · exact function ht hs hr
  · exact object ht hs hr
  · exact creation ht hs hr
  · exact discardAdvance hr (.done _)
  · exact inclusion ht hs hr
  · exact parens hs hr
  · exact Stable.block hs s hr.length hr.complete
  · exact fun a r h => by cases h

end Extends

/-! Tiers -/

namespace Stable

variable {tail : List Token} {k : Nat} {self self' : Rules}

theorem factor (ht : Detached tail) (hs : self.Agree tail k self') :
    Stable tail (k + 1) (factor self) (factor self') := by
  have hrule : Stable tail (k + 1) (peek >>= fun token => factorRule self token)
      (peek >>= fun token => factorRule self' token) := by
    refine peekBind ht (fun s hr => Extends.factorRule ht hs hr) fun t u hend _ => ?_
    refine never fun s a r h => ?_
    unfold factorRule at h
    rw [hend] at h
    cases h
  refine hrule.skip fun s hnil a r h => ?_
  rw [bind_of_ok (peek_apply s)] at h
  have hfactor : Grammar.factor self s = .ok a r := by
    rw [factor_eq, skipNewlines_nil hnil, h]
  exact Hungry.factor s hnil a r hfactor

theorem call (ht : Detached tail) (hs : self.Agree tail k self') :
    Stable tail (k + 1) (call self) (call self') := by
  refine (factor ht hs).bind fun callee => (check ht (by decide) (by decide)).bind fun opens => ?_
  cases opens with
  | true => exact (arguments ht hs).bind fun _ => done _
  | false => exact done _

theorem segmentsRest (ht : Detached tail) (hs : self.Agree tail k self') {n n' : Nat}
    (hnk : n ≤ k + 1) (hnn' : n ≤ n') :
    Stable tail n (segmentsRest self n) (segmentsRest self' n') := by
  induction n generalizing n' with
  | zero =>
    exact ended fun s hnil => segmentsRest_stop n' (peek_ne_end ht hnil (by decide) (by decide))
  | succ n ih =>
    obtain ⟨m, rfl⟩ : ∃ m, n' = m + 1 := ⟨n' - 1, by omega⟩
    refine acceptBind ht (by decide) (by decide) ?_ (done _)
    have hsegment := bracedOr ht hs (by omega : n ≤ k + 1) ((call ht hs).mono (by omega))
    exact (hsegment.bind fun segment => (ih (by omega) (by omega)).bind fun _ => done _).skip
      ((Hungry.bracedOr Hungry.call).bind _)

theorem access (ht : Detached tail) (hs : self.Agree tail k self') :
    Stable tail (k + 1) (access self) (access self') := by
  refine (call ht hs).bind fun first => remainingBind fun n n' hn hnn' => ?_
  refine (segmentsRest ht hs hn hnn').bind fun more => ?_
  split
  · exact done _
  · exact done _

theorem term (ht : Detached tail) (hs : self.Agree tail k self') :
    Stable tail (k + 1) (term self) (term self') :=
  chain ht (access ht hs) .access rfl rfl

theorem sum (ht : Detached tail) (hs : self.Agree tail k self') :
    Stable tail (k + 1) (sum self) (sum self') :=
  chain ht (term ht hs) .term rfl rfl

theorem comparison (ht : Detached tail) (hs : self.Agree tail k self') :
    Stable tail (k + 1) (comparison self) (comparison self') :=
  chain ht (sum ht hs) .sum rfl rfl

theorem negation (ht : Detached tail) (hs : self.Agree tail k self') :
    Stable tail (k + 1) (negation self) (negation self') := by
  refine checkBind ht (by decide) (by decide) (fun s hr => ?_) (comparison ht hs)
  exact Extends.advance hr fun _ => (hs.negation.bind fun _ => done _).skip
    (hs.needy.negation.bind _)

theorem declaration (hs : self.Agree tail k self') {s : Stream} (hr : Ready tail (k + 1) s) :
    Extends tail (declaration self) (declaration self') s := by
  have hname := Hungry.expect (show TokenKind.identifier ≠ .endOfCode by decide)
    "identifier for the variable"
  have hequals := (Hungry.expect (show TokenKind.equals ≠ .endOfCode by decide) "'='").discard
  refine Extends.advance hr fun _ => .skip (.bind (.expect (by decide) _) fun name => ?_)
    (hname.bind _)
  refine .skip (.bind (Stable.expect (by decide) _).discard fun _ => ?_) (hequals.bind _)
  exact .skip (hs.expression.bind fun _ => done _) (hs.needy.expression.bind _)

theorem expression (ht : Detached tail) (hs : self.Agree tail k self') :
    Stable tail (k + 1) (expression self) (expression self') :=
  checkBind ht (by decide) (by decide) (fun _ hr => declaration hs hr)
    (chain ht (negation ht hs) .negation rfl rfl)

/-- A return at the end of the tokens has nothing behind it that it could take. -/
theorem returned (hs : self.Agree tail k self') {s : Stream} (hr : Ready tail (k + 1) s)
    (hkind : s.peek.kind = .keyword .return_) (pos : Position) :
    Extends tail
      (do
        Functor.discard advance
        skipNewlines
        return .return_ pos (← attempt self.expression) : Parse Node)
      (do
        Functor.discard advance
        skipNewlines
        return .return_ pos (← attempt self'.expression)) s := by
  intro a r h
  -- A return with only line breaks behind it is the last token, which `Complete` rules out.
  have hend : s.advance.skipNewlines.ahead = [] → tail = [] := by
    intro hnil
    have hlast := lastKind_of_skip hkind (by decide) (by decide) hnil
    rcases hr.complete with htail | hreturn
    · exact htail
    · exact absurd hlast hreturn
  have hskip : (s.advance.followedBy tail).skipNewlines =
      s.advance.skipNewlines.followedBy tail := by
    by_cases hnil : s.advance.skipNewlines.ahead = []
    · rw [hend hnil, followedBy_nil, followedBy_nil]
    · exact skipNewlines_followedBy hnil
  have hsuffix := (Trails.skipNewlines_suffix s.advance).trans (Trails.advance_suffix s)
  have hlength : s.advance.skipNewlines.ahead.length ≤ k := by
    have hlt := Bites.advance_lt hr.nonempty
    have hle := (Trails.skipNewlines_suffix s.advance).length_le
    have hs := hr.length
    omega
  rw [discard_bind, bind_of_ok (advance_apply s), bind_of_ok (skipNewlines_apply _)] at h
  rw [discard_bind, bind_of_ok (advance_apply_followedBy hr.nonempty),
    bind_of_ok (skipNewlines_apply _), hskip]
  obtain ⟨value, r₁, hvalue, hdone⟩ := bind_eq_ok h
  cases hdone
  obtain ⟨hsuffix', hq⟩ := hs.attempt _ hlength (hr.complete.suffix hsuffix) hend
    (not_newline_of_skip _) value r hvalue
  rw [bind_of_ok hq]
  exact ⟨hsuffix'.trans hsuffix, rfl⟩

theorem statement (ht : Detached tail) (hs : self.Agree tail k self') :
    Stable tail (k + 1) (statement self) (statement self') := by
  refine peekBind ht (fun s hr => ?_) fun t u hend hline => ?_
  · split
    · exact returned hs hr ‹_› _
    · exact Extends.discardAdvance hr (done _)
    · exact Extends.discardAdvance hr (done _)
    · exact expression ht hs s hr.length hr.complete
  · rcases hline with hline | hline
    · simp only [hend, hline]
      exact expression ht hs
    · simp only [hend, hline]
      exact expression ht hs

/-- An expression that is tried misses at the same tokens. -/
theorem attempted (ht : Detached tail) (hs : self.Agree tail k self') (hs' : self'.Has Trails)
    {s : Stream} (hlength : s.ahead.length ≤ k + 1) (hcomplete : Complete tail s)
    (hend : s.ahead = [] → tail = []) (hline : s.peek.kind ≠ .newline) :
    Extends tail (attempt (Grammar.expression self)) (attempt (Grammar.expression self')) s := by
  intro value r h
  have hpeek : (s.followedBy tail).peek = s.peek := by
    by_cases hnil : s.ahead = []
    · rw [hend hnil, followedBy_nil]
    · exact peek_followedBy hnil
  cases value with
  | none =>
    obtain ⟨hstart, rfl⟩ := (attempt_none_iff hs.needy.trails hline).mp h
    refine ⟨List.suffix_refl _, (attempt_none_iff hs' ?_).mpr ⟨?_, rfl⟩⟩
    · rw [hpeek]
      exact hline
    · rw [hpeek]
      exact hstart
  | some value =>
    obtain ⟨hsuffix, hq⟩ := expression ht hs s hlength hcomplete value r (attempt_some_iff.mp h)
    exact ⟨hsuffix, attempt_some_iff.mpr hq⟩

theorem attemptedStatement (ht : Detached tail) (hs : self.Agree tail k self')
    (hs' : self'.Has Trails) {s : Stream} (hr : Ready tail (k + 1) s)
    (hline : s.peek.kind ≠ .newline) :
    Extends tail (attempt (Grammar.statement self)) (attempt (Grammar.statement self')) s := by
  intro value r h
  cases hjumps : s.peek.kind.jumps with
  | false =>
    have hjumps' : (s.followedBy tail).peek.kind.jumps = false := by
      rw [peek_followedBy hr.nonempty, hjumps]
    rw [attempt_congr (statement_eq hjumps)] at h
    rw [attempt_congr (statement_eq hjumps')]
    exact attempted ht hs hs' hr.length hr.complete (fun hnil => absurd hnil hr.nonempty) hline
      value r h
  | true =>
    cases value with
    | none => exact absurd (jump_bites hs.needy.trails hjumps) (not_bites_of_attempt h)
    | some value =>
      obtain ⟨hsuffix, hq⟩ := statement ht hs s hr.length hr.complete value r
        (attempt_some_iff.mp h)
      exact ⟨hsuffix, attempt_some_iff.mpr hq⟩

end Stable

namespace StableInside

variable {tail : List Token} {k : Nat} {self self' : Rules}

theorem statementsRest (ht : Detached tail) (hs : self.Agree tail k self')
    (hs' : self'.Has Trails) {n n' : Nat} (hnk : n ≤ k + 1) (hnn' : n ≤ n') :
    StableInside tail n (statementsRest self n) (statementsRest self' n') := by
  induction n generalizing n' with
  | zero =>
    intro s a r hlength _ h
    cases h
    exact ⟨List.suffix_refl _, fun hne => absurd (ahead_of_bound hlength) hne⟩
  | succ n ih =>
    obtain ⟨m, rfl⟩ : ∃ m, n' = m + 1 := ⟨n' - 1, by omega⟩
    intro s a r hlength hcomplete h
    have hsuffix : r.ahead <:+ s.ahead :=
      ((Trails.closed.statementsRest hs.needy.trails (n + 1)).of_ok h).1
    refine ⟨hsuffix, fun hne => ?_⟩
    -- A token is left at the end, so one was there at each step before.
    have hpeek : (s.followedBy tail).peek = s.peek :=
      peek_followedBy (ne_nil_of_suffix hsuffix hne)
    by_cases hline : s.peek.kind = .newline
    · rw [statementsRest_newline n hline] at h
      rw [statementsRest_newline m (by rw [hpeek, hline])]
      have hskip := length_skip_of_line hline
      have hcomplete' := hcomplete.suffix (Trails.skipNewlines_suffix s)
      obtain ⟨next, r₁, hnext, hmore⟩ := bind_eq_ok h
      have hsuffix₁ : r₁.ahead <:+ s.skipNewlines.ahead := ((Trails.attempt
        (Trails.closed.statement hs.needy.trails)).of_ok hnext).1
      have htried : r₁.ahead ≠ [] → attempt (Grammar.statement self')
          (s.followedBy tail).skipNewlines = .ok next (r₁.followedBy tail) := by
        intro hr₁
        have hskipped := ne_nil_of_suffix hsuffix₁ hr₁
        have hready : Ready tail (k + 1) s.skipNewlines := ⟨hskipped, by omega, hcomplete'⟩
        rw [skipNewlines_followedBy hskipped]
        exact (Stable.attemptedStatement ht hs hs' hready (not_newline_of_skip s) next r₁ hnext).2
      cases next with
      | none =>
        cases hmore
        rw [bind_of_ok (htried hne)]
        rfl
      | some x =>
        obtain ⟨more, r₂, hrest, hdone⟩ := bind_eq_ok hmore
        cases hdone
        have hle := hsuffix₁.length_le
        obtain ⟨hsuffix₂, hq⟩ := ih (by omega) (by omega : n ≤ m) r₁ more r (by omega)
          (hcomplete'.suffix hsuffix₁) hrest
        rw [bind_of_ok (htried (ne_nil_of_suffix hsuffix₂ hne))]
        exact bind_of_ok (hq hne)
    · rw [statementsRest_same_line (n + 1) hline] at h
      cases h
      exact statementsRest_same_line (m + 1) (by rw [hpeek]; exact hline)

theorem statements (ht : Detached tail) (hs : self.Agree tail k self') (hs' : self'.Has Trails) :
    StableInside tail (k + 1) (statements self) (statements self') := by
  refine skipNewlines.bind fun _ => peek.bind fun token => ?_
  split
  · exact (Stable.done _).inside
  · refine bind (Stable.statement ht hs).inside fun first => remainingBind fun n n' hn hnn' => ?_
    exact (statementsRest ht hs hs' hn hnn').bind fun _ => (Stable.done _).inside

end StableInside

/-- The rules do the same with a larger bound and more behind. -/
theorem Stable.rules {tail : List Token} (ht : Detached tail) {n m : Nat} (hnm : n ≤ m) :
    (rules n).Agree tail n (rules m) := by
  induction n generalizing m with
  | zero =>
    have hstuck : ∀ q : Parse Node, Stable tail 0 unexpected q := fun q =>
      .never fun s a r h => by cases h
    refine ⟨Hungry.rules 0, hstuck _, hstuck _, hstuck _, hstuck _, (hstuck _).inside, ?_⟩
    intro s hlength hcomplete hend hline value r h
    have hnil := ahead_of_bound hlength
    have hmiss : attempt (unexpected : Parse Node) s = .ok none s := by
      rw [attempt, unexpected]
      exact if_pos rfl
    rw [hend hnil, followedBy_nil, followedBy_nil]
    cases hmiss.symm.trans h
    refine ⟨List.suffix_refl _, ?_⟩
    cases m with
    | zero => exact hmiss
    | succ m =>
      refine (attempt_none_iff (trails_rules m) hline).mpr ⟨?_, rfl⟩
      rw [peek_nil hnil]
      rfl
  | succ n ih =>
    obtain ⟨m, rfl⟩ : ∃ l, m = l + 1 := ⟨m - 1, by omega⟩
    have hs := ih (Nat.le_of_succ_le_succ hnm)
    have hs' := trails_rules m
    exact ⟨Hungry.rules (n + 1), expression ht hs, negation ht hs, access ht hs, statement ht hs,
      .statements ht hs hs', fun s hlength hcomplete hend hline =>
        attempted ht hs hs' hlength hcomplete hend hline⟩

end ScriptEngine
