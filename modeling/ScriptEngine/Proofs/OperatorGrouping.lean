import ScriptEngine.Proofs.LineBreakGrammar
import ScriptEngine.Proofs.ParserGroups

/-! # How operators group

A row is a list of operands with operators between them. Its tree is given without a parser: the row
is cut at the operators that bind loosest, the pieces are grouped in the same way by the next tighter
operators, and the results are joined from the left. The grammar reads every row to that tree. -/

namespace ScriptEngine

open Parse Grammar

/-! ### Rows of operands -/

/-- Something that is written as one token. -/
structure Mark (α : Type) where
  what : α
  lexeme : String
  position : Position

inductive Sign where
  | plus | minus

def Sign.op : Sign → UnaryOp
  | plus => .plus
  | minus => .negate

/-- A name, or a number whose digits can be read. -/
inductive Atom where
  | name (lexeme : String) (position : Position)
  | number (pointed : Bool) (lexeme : String) (position : Position) (value : Single)
      (reads : Number.ofText? lexeme = some value)

/-- An atom with signs in front, and perhaps negations in front of those. -/
structure Row.Operand where
  nots : List (Mark Unit)
  signs : List (Mark Sign)
  atom : Atom

abbrev Operator : Type :=
  Mark BinaryOp

structure Row where
  first : Row.Operand
  rest : List (Operator × Row.Operand)

/-- How tight an operator binds. -/
def BinaryOp.rank : BinaryOp → Nat
  | .arithmetic .mul | .arithmetic .div => 3
  | .arithmetic .add | .arithmetic .sub => 2
  | .and_ | .or_ => 0
  | _ => 1

/-- A row in which negations only stand at the start or behind an operator of logic. -/
structure OperatorSequence extends Row where
  placed : ∀ e ∈ rest, e.2.nots ≠ [] → e.1.what = .and_ ∨ e.1.what = .or_

/-! ### Tokens -/

def Mark.token {α : Type} (m : Mark α) (kind : TokenKind) : Token :=
  ⟨kind, m.lexeme, m.position⟩

def Atom.token : Atom → Token
  | name lexeme position => ⟨.identifier, lexeme, position⟩
  | number pointed lexeme position _ _ => ⟨if pointed then .float else .int, lexeme, position⟩

def Row.Operand.tokens (x : Row.Operand) : List Token :=
  x.nots.map (·.token (.keyword .not_)) ++
    (x.signs.map (fun m => m.token m.what.op.kind) ++ [x.atom.token])

def Row.tokens (row : Row) : List Token :=
  row.first.tokens ++ row.rest.flatMap fun e => e.1.token e.1.what.kind :: e.2.tokens

/-- The place of the first token. -/
def Row.place (row : Row) : Position :=
  (row.tokens.headD row.first.atom.token).position

/-- The tokens of pieces with the operators in front of them. -/
def tokensOfPieces (pieces : List (Operator × Row)) : List Token :=
  pieces.flatMap fun e => e.1.token e.1.what.kind :: e.2.tokens

/-! ### The tree of a row -/

def Atom.tree : Atom → Node
  | name lexeme position => .read position lexeme
  | number _ _ position value _ => .number position value

def Row.Operand.signed (x : Row.Operand) : Node :=
  x.signs.foldr (fun m y => .unary m.position m.what.op y) x.atom.tree

/-- The pieces between the operators of this rank. -/
def cut (r : Nat) : Row.Operand → List (Operator × Row.Operand) → Row × List (Operator × Row)
  | x, [] => (⟨x, []⟩, [])
  | x, (op, y) :: more =>
    let (piece, pieces) := cut r y more
    if op.what.rank = r then (⟨x, []⟩, (op, piece) :: pieces)
    else (⟨x, (op, piece.first) :: piece.rest⟩, pieces)

def joinLeft (leaf : Row → Node) (left : Node) (pieces : List (Operator × Row)) : Node :=
  pieces.foldl (fun left e => .binary e.1.position e.1.what left (leaf e.2)) left

/-- Cuts the row at the operators of this rank and joins the trees of the pieces from the left. -/
def Row.grouped (r : Nat) (leaf : Row → Node) (row : Row) : Node :=
  joinLeft leaf (leaf (cut r row.first row.rest).1) (cut r row.first row.rest).2

def Row.product : Row → Node :=
  Row.grouped 3 fun row => row.first.signed

def Row.sum : Row → Node :=
  Row.grouped 2 Row.product

def Row.comparison : Row → Node :=
  Row.grouped 1 Row.sum

/-- The negations in front of the row are those of its comparison. -/
def Row.negation (row : Row) : Node :=
  row.first.nots.foldr (fun m y => .unary m.position .not_ y)
    (Row.mk { row.first with nots := [] } row.rest).comparison

/-- Signs bind tightest, then `*` and `/`, then `+` and `-`, then comparisons, then `not`, then `and`
and `or`. -/
def Row.tree : Row → Node :=
  Row.grouped 0 Row.negation

/-! ### Cutting -/

/-- No operator of the row binds looser than this rank, and negations are in place. -/
structure Row.Fits (r : Nat) (row : Row) : Prop where
  rank : ∀ e ∈ row.rest, r ≤ e.1.what.rank
  placed : ∀ e ∈ row.rest, e.2.nots ≠ [] → e.1.what.rank = 0

theorem cut_first (r : Nat) (x : Row.Operand) (rest : List (Operator × Row.Operand)) :
    (cut r x rest).1.first = x := by
  cases rest with
  | nil => rfl
  | cons e more =>
    rw [cut]
    dsimp only
    split <;> rfl

theorem cut_tokens (r : Nat) (x : Row.Operand) (rest : List (Operator × Row.Operand)) :
    (cut r x rest).1.tokens ++ tokensOfPieces (cut r x rest).2 = (Row.mk x rest).tokens := by
  induction rest generalizing x with
  | nil => simp [cut, Row.tokens, tokensOfPieces]
  | cons e more ih =>
    obtain ⟨op, y⟩ := e
    have hmore := ih y
    have hfirst := cut_first r y more
    rw [cut]
    generalize cut r y more = pieces at hmore hfirst ⊢
    obtain ⟨⟨_, rest⟩, pieces⟩ := pieces
    dsimp only at hfirst
    subst hfirst
    simp only [Row.tokens, tokensOfPieces, List.append_assoc] at hmore
    dsimp only
    split <;> simp [Row.tokens, tokensOfPieces, hmore]

/-- A piece has only tighter operators; behind an operator that is not of logic it has no negation
in front. -/
theorem cut_fits {r : Nat} {x : Row.Operand} {rest : List (Operator × Row.Operand)}
    (h : (Row.mk x rest).Fits r) :
    (cut r x rest).1.Fits (r + 1) ∧
      ∀ e ∈ (cut r x rest).2, e.1.what.rank = r ∧ e.2.Fits (r + 1) ∧
        (0 < r → e.2.first.nots = []) := by
  induction rest generalizing x with
  | nil => exact ⟨⟨by simp [cut], by simp [cut]⟩, by simp [cut]⟩
  | cons e more ih =>
    obtain ⟨op, y⟩ := e
    obtain ⟨⟨hrank, hranks⟩, ⟨hnot, hnots⟩⟩ :=
      And.intro (List.forall_mem_cons.mp h.rank) (List.forall_mem_cons.mp h.placed)
    obtain ⟨hpiece, hpieces⟩ := ih (x := y) ⟨hranks, hnots⟩
    have hfirst := cut_first r y more
    dsimp only at hrank hnot
    rw [cut]
    generalize cut r y more = pieces at hpiece hpieces hfirst ⊢
    dsimp only
    split
    · rename_i hop
      refine ⟨⟨by simp, by simp⟩, List.forall_mem_cons.mpr ⟨⟨hop, hpiece, fun hr => ?_⟩, hpieces⟩⟩
      by_contra hne
      rw [hfirst] at hne
      have hzero := hnot hne
      omega
    · rename_i hop
      refine ⟨⟨List.forall_mem_cons.mpr ⟨?_, hpiece.rank⟩,
        List.forall_mem_cons.mpr ⟨?_, hpiece.placed⟩⟩, hpieces⟩
      · dsimp only
        omega
      · rw [hfirst]
        exact hnot

/-! ### What may follow a row -/

/-- The end of the code, or an operator that binds looser than this rank. -/
def EndsRow (r : Nat) (kind : TokenKind) : Prop :=
  kind = .endOfCode ∨ ∃ op : BinaryOp, kind = op.kind ∧ op.rank < r

theorem EndsRow.mono {r r' : Nat} {kind : TokenKind} (h : EndsRow r kind) (hr : r ≤ r') :
    EndsRow r' kind :=
  h.imp_right fun ⟨op, hkind, hop⟩ => ⟨op, hkind, Nat.lt_of_lt_of_le hop hr⟩

/-- What may follow neither goes on with an atom nor separates lines. -/
theorem EndsRow.facts {r : Nat} {kind : TokenKind} (h : EndsRow r kind) :
    kind ≠ .point ∧ kind.binds = false := by
  obtain rfl | ⟨op, rfl, -⟩ := h
  · exact ⟨nofun, rfl⟩
  · cases op with
    | arithmetic op => cases op <;> exact ⟨nofun, rfl⟩
    | _ => exact ⟨nofun, rfl⟩

/-- The operators of a chain are those of one rank. -/
structure HasRank (r : Nat) (op? : TokenKind → Option BinaryOp) : Prop where
  finish : op? .endOfCode = none
  operator : ∀ op : BinaryOp, op? op.kind = if op.rank = r then some op else none

theorem HasRank.stop {r : Nat} {op? : TokenKind → Option BinaryOp} (h : HasRank r op?)
    {kind : TokenKind} (hstop : EndsRow r kind) : op? kind = none := by
  obtain rfl | ⟨op, rfl, hop⟩ := hstop
  · exact h.finish
  · rw [h.operator, if_neg (Nat.ne_of_lt hop)]

theorem hasRank_factor : HasRank 3 factorOp? := by
  refine ⟨rfl, fun op => ?_⟩
  cases op with
  | arithmetic op => cases op <;> rfl
  | _ => rfl

theorem hasRank_term : HasRank 2 termOp? := by
  refine ⟨rfl, fun op => ?_⟩
  cases op with
  | arithmetic op => cases op <;> rfl
  | _ => rfl

theorem hasRank_comparison : HasRank 1 comparisonOp? := by
  refine ⟨rfl, fun op => ?_⟩
  cases op with
  | arithmetic op => cases op <;> rfl
  | _ => rfl

theorem hasRank_logic : HasRank 0 logicOp? := by
  refine ⟨rfl, fun op => ?_⟩
  cases op with
  | arithmetic op => cases op <;> rfl
  | _ => rfl

/-! ### First tokens -/

/-- An operand can start with such a token. -/
def TokenKind.startsOperand : TokenKind → Bool
  | .identifier | .int | .float | .plus | .minus | .keyword .not_ => true
  | _ => false

theorem TokenKind.startsOperand_facts {kind : TokenKind} (h : kind.startsOperand = true) :
    kind ≠ .newline ∧ kind ≠ .endOfCode ∧ kind ≠ .rBrace ∧ kind ≠ .keyword .var_ ∧
      kind.jumps = false := by
  unfold startsOperand at h
  split at h
  all_goals first
    | exact ⟨nofun, nofun, nofun, nofun, rfl⟩
    | cases h

theorem Row.Operand.tokens_start (x : Row.Operand) :
    ∃ t ts, x.tokens = t :: ts ∧ t.kind.startsOperand = true ∧
      (x.nots = [] → t.kind ≠ .keyword .not_) := by
  obtain ⟨nots, signs, atom⟩ := x
  cases nots with
  | cons m nots => exact ⟨_, _, rfl, rfl, nofun⟩
  | nil =>
    cases signs with
    | cons m signs =>
      obtain ⟨sign, _, _⟩ := m
      cases sign <;> exact ⟨_, _, rfl, rfl, fun _ => nofun⟩
    | nil =>
      cases atom with
      | name _ _ => exact ⟨_, _, rfl, rfl, fun _ => nofun⟩
      | number pointed _ _ _ _ => cases pointed <;> exact ⟨_, _, rfl, rfl, fun _ => nofun⟩

theorem BinaryOp.kind_ne_endOfCode (op : BinaryOp) : op.kind ≠ .endOfCode := by
  cases op with
  | arithmetic op => cases op <;> nofun
  | _ => nofun

theorem Row.Operand.kind_ne_endOfCode (x : Row.Operand) : ∀ t ∈ x.tokens, t.kind ≠ .endOfCode := by
  intro t ht
  rcases List.mem_append.mp ht with hnot | ht
  · obtain ⟨m, -, rfl⟩ := List.mem_map.mp hnot
    nofun
  rcases List.mem_append.mp ht with hsign | hatom
  · obtain ⟨⟨sign, _, _⟩, -, rfl⟩ := List.mem_map.mp hsign
    cases sign <;> nofun
  · obtain rfl := List.mem_singleton.mp hatom
    cases x.atom with
    | name _ _ => nofun
    | number pointed _ _ _ _ => cases pointed <;> nofun

theorem Row.kind_ne_endOfCode (row : Row) : ∀ t ∈ row.tokens, t.kind ≠ .endOfCode := by
  intro t ht
  rcases List.mem_append.mp ht with hfirst | hrest
  · exact row.first.kind_ne_endOfCode t hfirst
  · obtain ⟨e, -, ht⟩ := List.mem_flatMap.mp hrest
    rcases List.mem_cons.mp ht with rfl | ht
    · exact e.1.what.kind_ne_endOfCode
    · exact e.2.kind_ne_endOfCode t ht

theorem Row.place_eq (row : Row) (finish : Position) :
    (⟨row.tokens, finish⟩ : Stream).peek.position = row.place := by
  obtain ⟨t, ts, htokens, -, -⟩ := row.first.tokens_start
  rw [Row.place, Row.tokens, htokens]
  rfl

theorem Row.tokens_start (row : Row) (tail : List Token) (finish : Position) :
    (⟨row.tokens ++ tail, finish⟩ : Stream).peek.kind.startsOperand = true ∧
      (row.first.nots = [] →
        (⟨row.tokens ++ tail, finish⟩ : Stream).peek.kind ≠ .keyword .not_) := by
  obtain ⟨t, ts, htokens, hstart, hnot⟩ := row.first.tokens_start
  rw [Row.tokens, htokens]
  exact ⟨hstart, hnot⟩

/-! ### Operands -/

/-- With at most `n` tokens the rule reads the rows of this rank to their trees. -/
def Groups (n r : Nat) (bare : Prop) (p : Parse Node) (tree : Row → Node) : Prop :=
  ∀ (row : Row) (tail : List Token) (finish : Position), row.Fits r →
    (bare → row.first.nots = []) → row.tokens.length ≤ n →
    EndsRow r (⟨tail, finish⟩ : Stream).peek.kind →
    p ⟨row.tokens ++ tail, finish⟩ = .ok (tree row) ⟨tail, finish⟩

theorem factor_atom (self : Rules) (a : Atom) {tail : List Token} {finish : Position}
    (h : (⟨tail, finish⟩ : Stream).peek.kind.binds = false) :
    factor self ⟨a.token :: tail, finish⟩ = .ok a.tree ⟨tail, finish⟩ := by
  cases a with
  | number pointed lexeme position value reads =>
    have hrule : factor self ⟨⟨if pointed then .float else .int, lexeme, position⟩ :: tail, finish⟩ =
        numeral ⟨⟨if pointed then .float else .int, lexeme, position⟩ :: tail, finish⟩ := by
      cases pointed <;> rfl
    have hread : Number.ofText?
        (⟨⟨if pointed then .float else .int, lexeme, position⟩ :: tail, finish⟩ :
          Stream).peek.lexeme = some value := reads
    rw [Atom.token, hrule, numeral, bind_of_ok (advance_apply _), hread]
    rfl
  | name lexeme position =>
    have hrule : factor self ⟨⟨.identifier, lexeme, position⟩ :: tail, finish⟩ =
        named self ⟨⟨.identifier, lexeme, position⟩ :: tail, finish⟩ := rfl
    rw [Atom.token, hrule, named, bind_of_ok (advance_apply _)]
    show (Parse.peek >>= _) (⟨tail, finish⟩ : Stream) = _
    rw [bind_of_ok (peek_apply _)]
    generalize (⟨tail, finish⟩ : Stream).peek.kind = kind at h ⊢
    cases kind <;> first | rfl | cases h

theorem access_of_factor {self : Rules} {s r : Stream} {x : Node} {rank : Nat}
    (h : factor self s = .ok x r) (hr : EndsRow rank r.peek.kind) :
    Grammar.access self s = .ok x r := by
  have hparen : r.peek.kind ≠ .lParen := fun hk => by
    have hbinds := hr.facts.2
    rw [hk] at hbinds
    cases hbinds
  rw [access_apply (call_of_factor h hparen), bind_of_ok (segmentsRest_stop _ hr.facts.1)]
  rfl

theorem signed_apply (self : Rules) (op : UnaryOp) (s : Stream) :
    signed self op s = (self.access >>= fun operand =>
      Parse.done (.unary s.peek.position op operand)) s.advance.skipNewlines :=
  rfl

/-- A sign takes the operand behind it, with one level of the rules for each sign. -/
theorem access_signed (n : Nat) (signs : List (Mark Sign)) (a : Atom) {rank : Nat}
    {tail : List Token} {finish : Position} (hn : signs.length ≤ n)
    (hstop : EndsRow rank (⟨tail, finish⟩ : Stream).peek.kind) :
    Grammar.access (rules n)
        ⟨signs.map (fun m => m.token m.what.op.kind) ++ [a.token] ++ tail, finish⟩ =
      .ok (signs.foldr (fun m y => .unary m.position m.what.op y) a.tree) ⟨tail, finish⟩ := by
  induction signs generalizing n with
  | nil => exact access_of_factor (factor_atom _ a hstop.facts.2) hstop
  | cons m signs ih =>
    cases n with
    | zero => cases hn
    | succ n =>
      obtain ⟨t, ts, htokens, hstart, -⟩ := (Row.Operand.mk [] signs a).tokens_start
      simp only [Row.Operand.tokens, List.map_nil, List.nil_append] at htokens
      have hinner := ih n (Nat.le_of_succ_le_succ hn)
      have hfactor : ∀ ahead, factor (rules (n + 1)) ⟨m.token m.what.op.kind :: ahead, finish⟩ =
          signed (rules (n + 1)) m.what.op ⟨m.token m.what.op.kind :: ahead, finish⟩ := by
        obtain ⟨sign, _, _⟩ := m
        cases sign <;> exact fun _ => rfl
      refine access_of_factor ?_ hstop
      rw [List.map_cons, List.cons_append, List.cons_append, hfactor, signed_apply]
      rw [htokens] at hinner ⊢
      have hskip : (⟨t :: ts ++ tail, finish⟩ : Stream).skipNewlines = ⟨t :: ts ++ tail, finish⟩ :=
        skipNewlines_eq (TokenKind.startsOperand_facts hstart).1
      show (Grammar.access (rules n) >>= _) (Stream.skipNewlines ⟨t :: ts ++ tail, finish⟩) = _
      rw [hskip, bind_of_ok hinner]
      rfl

theorem groups_operand (n : Nat) :
    Groups n 4 True (Grammar.access (rules n)) fun row => row.first.signed := by
  intro row tail finish hfits hbare hn hstop
  obtain ⟨⟨nots, signs, atom⟩, rest⟩ := row
  have hnots : nots = [] := hbare trivial
  subst hnots
  have hrest : rest = [] := by
    cases rest with
    | nil => rfl
    | cons e more =>
      have hrank := hfits.rank e List.mem_cons_self
      have hle : e.1.what.rank ≤ 3 := by
        cases e.1.what with
        | arithmetic op => cases op <;> decide
        | _ => decide
      omega
  subst hrest
  simp only [Row.tokens, Row.Operand.tokens, List.map_nil, List.nil_append, List.flatMap_nil,
    List.append_nil, List.length_append, List.length_map, List.length_singleton] at hn ⊢
  exact access_signed n signs atom (by omega) hstop

/-! ### Chains -/

theorem tokensOfPieces_cons (op : Operator) (piece : Row) (more : List (Operator × Row)) :
    tokensOfPieces ((op, piece) :: more) =
      op.token op.what.kind :: (piece.tokens ++ tokensOfPieces more) := by
  simp [tokensOfPieces]

theorem length_le_tokensOfPieces (pieces : List (Operator × Row)) :
    pieces.length ≤ (tokensOfPieces pieces).length := by
  induction pieces with
  | nil => exact Nat.le_refl 0
  | cons e more ih =>
    obtain ⟨op, piece⟩ := e
    rw [tokensOfPieces_cons, List.length_cons, List.length_cons, List.length_append]
    omega

/-- Pieces end with the row, or with an operator of their rank. -/
theorem stops_pieces {r : Nat} {pieces : List (Operator × Row)} {tail : List Token}
    {finish : Position} (hrank : ∀ e ∈ pieces, e.1.what.rank = r)
    (hstop : EndsRow r (⟨tail, finish⟩ : Stream).peek.kind) :
    EndsRow (r + 1) (⟨tokensOfPieces pieces ++ tail, finish⟩ : Stream).peek.kind := by
  cases pieces with
  | nil => exact hstop.mono (Nat.le_succ r)
  | cons e more =>
    have he := hrank e List.mem_cons_self
    exact .inr ⟨e.1.what, rfl, by omega⟩

/-- The rest of a chain takes the pieces one by one and joins each to what stands before it. -/
theorem Groups.chainRest {n r : Nat} {bare : Prop} {p : Parse Node} {leaf : Row → Node}
    {op? : TokenKind → Option BinaryOp} (hp : Groups n (r + 1) bare p leaf) (hop : HasRank r op?)
    {tail : List Token} {finish : Position} (hstop : EndsRow r (⟨tail, finish⟩ : Stream).peek.kind)
    (pieces : List (Operator × Row)) (hrank : ∀ e ∈ pieces, e.1.what.rank = r)
    (hpieces : ∀ e ∈ pieces, e.2.Fits (r + 1) ∧ (bare → e.2.first.nots = []))
    (hn : (tokensOfPieces pieces).length ≤ n) (left : Node) (k : Nat) (hk : pieces.length ≤ k) :
    Grammar.chainRest p op? k left ⟨tokensOfPieces pieces ++ tail, finish⟩ =
      .ok (joinLeft leaf left pieces) ⟨tail, finish⟩ := by
  induction pieces generalizing left k with
  | nil => exact chainRest_stop _ (hop.stop hstop)
  | cons e more ih =>
    obtain ⟨op, piece⟩ := e
    obtain ⟨hrank, hranks⟩ := List.forall_mem_cons.mp hrank
    obtain ⟨⟨hfits, hbare⟩, hmore⟩ := List.forall_mem_cons.mp hpieces
    rw [tokensOfPieces_cons, List.length_cons, List.length_append] at hn
    cases k with
    | zero => cases hk
    | succ k =>
      rw [tokensOfPieces_cons, List.cons_append, List.append_assoc]
      have hline := (TokenKind.startsOperand_facts
        (piece.tokens_start (tokensOfPieces more ++ tail) finish).1).1
      have hpiece := hp piece _ finish hfits hbare (by omega) (stops_pieces hranks hstop)
      have hkind : op? op.what.kind = some op.what := by rw [hop.operator, if_pos hrank]
      rw [chainRest_go (s := ⟨op.token op.what.kind :: _, finish⟩) k hkind]
      show (p >>= _) (Stream.skipNewlines ⟨piece.tokens ++ (tokensOfPieces more ++ tail), finish⟩) = _
      rw [skipNewlines_eq hline, bind_of_ok hpiece]
      exact ih hranks hmore (by omega) _ k (Nat.le_of_succ_le_succ hk)

/-- A chain reads the pieces between its operators as its operands are read. -/
theorem Groups.chain {n r : Nat} {bare : Prop} {p : Parse Node} {leaf : Row → Node}
    {op? : TokenKind → Option BinaryOp} (hp : Groups n (r + 1) bare p leaf) (hop : HasRank r op?)
    (hbare : bare → 0 < r) : Groups n r bare (Grammar.chain p op?) (Row.grouped r leaf) := by
  intro row tail finish hfits hnots hn hstop
  obtain ⟨x, rest⟩ := row
  obtain ⟨hpiece, hpieces⟩ := cut_fits hfits
  have hfirst : (cut r x rest).1.first = x := cut_first r x rest
  have htokens := cut_tokens r x rest
  have hlength := congrArg List.length htokens
  rw [List.length_append] at hlength
  have hrank : ∀ e ∈ (cut r x rest).2, e.1.what.rank = r := fun e he => (hpieces e he).1
  have hnone : bare → (cut r x rest).1.first.nots = [] := fun hb => by
    rw [hfirst]
    exact hnots hb
  have hhead := hp (cut r x rest).1 _ finish hpiece hnone (by omega) (stops_pieces hrank hstop)
  rw [← htokens, List.append_assoc, chain_apply hhead]
  refine hp.chainRest hop hstop _ hrank
    (fun e he => ⟨(hpieces e he).2.1, fun hb => (hpieces e he).2.2 (hbare hb)⟩) (by omega) _ _ ?_
  have hcount := length_le_tokensOfPieces (cut r x rest).2
  rw [List.length_append]
  omega

/-! ### Tiers -/

theorem groups_comparison (n : Nat) :
    Groups n 1 True (Grammar.comparison (rules n)) Row.comparison :=
  have hproduct := (groups_operand n).chain hasRank_factor fun _ => Nat.zero_lt_succ 2
  have hsum := hproduct.chain hasRank_term fun _ => Nat.zero_lt_succ 1
  hsum.chain hasRank_comparison fun _ => Nat.zero_lt_succ 0

/-- A negation takes the comparison behind it, with one level of the rules for each. -/
theorem groups_negation (n : Nat) :
    Groups n 1 False (Grammar.negation (rules n)) Row.negation := by
  intro row tail finish hfits _ hn hstop
  obtain ⟨⟨nots, signs, atom⟩, rest⟩ := row
  induction nots generalizing n with
  | nil =>
    have hstart := (Row.mk ⟨[], signs, atom⟩ rest).tokens_start tail finish
    rw [negation_eq _ (hstart.2 rfl)]
    exact groups_comparison n _ tail finish hfits (fun _ => rfl) hn hstop
  | cons m nots ih =>
    cases n with
    | zero => cases hn
    | succ n =>
      have hinner := ih n ⟨hfits.rank, hfits.placed⟩ nofun (Nat.le_of_succ_le_succ hn)
      have hline := (TokenKind.startsOperand_facts
        ((Row.mk ⟨nots, signs, atom⟩ rest).tokens_start tail finish).1).1
      rw [negation_not (show (Stream.peek _).kind = .keyword .not_ from rfl)]
      show (Grammar.negation (rules n) >>= _)
        (Stream.skipNewlines ⟨(Row.mk ⟨nots, signs, atom⟩ rest).tokens ++ tail, finish⟩) = _
      rw [skipNewlines_eq hline, bind_of_ok hinner]
      rfl

theorem groups_logic (n : Nat) :
    Groups n 0 False (Grammar.chain (Grammar.negation (rules n)) logicOp?) Row.tree :=
  (groups_negation n).chain hasRank_logic nofun

/-! ### Whole programs -/

namespace OperatorSequence

theorem fits (q : OperatorSequence) : q.toRow.Fits 0 := by
  refine ⟨fun _ _ => Nat.zero_le _, fun e he hnots => ?_⟩
  rcases q.placed e he hnots with hop | hop <;> rw [hop] <;> rfl

/-- As a statement the row is its tree. -/
theorem statement (q : OperatorSequence) (finish : Position) :
    Grammar.statement (rules q.tokens.length) ⟨q.tokens, finish⟩ = .ok q.tree ⟨[], finish⟩ := by
  have hstart := (q.toRow.tokens_start [] finish).1
  have hlogic := groups_logic q.tokens.length q.toRow [] finish q.fits nofun (Nat.le_refl _)
    (.inl rfl)
  rw [List.append_nil] at hstart hlogic
  obtain ⟨-, -, -, hvar, hjump⟩ := TokenKind.startsOperand_facts hstart
  rw [statement_eq hjump, expression_eq _ hvar]
  exact hlogic

theorem program (q : OperatorSequence) (finish : Position) :
    Grammar.program (rules q.tokens.length) ⟨q.tokens, finish⟩ =
      .ok (.sequence q.place [q.tree]) ⟨[], finish⟩ := by
  have hstart := (q.toRow.tokens_start [] finish).1
  rw [List.append_nil] at hstart
  obtain ⟨hline, hend, hbrace, -, -⟩ := TokenKind.startsOperand_facts hstart
  have hskip := skipNewlines_eq hline
  have hstatements : Grammar.statements (rules q.tokens.length) ⟨q.tokens, finish⟩ =
      .ok (.sequence q.place [q.tree]) ⟨[], finish⟩ := by
    rw [Grammar.statements, bind_of_ok (skipNewlines_apply _), hskip, bind_of_ok (peek_apply _),
      beq_false_of_ne hbrace]
    show (Grammar.statement (rules q.tokens.length) >>= _) _ = _
    rw [bind_of_ok (q.statement finish), q.place_eq finish]
    rfl
  rw [Grammar.program, bind_of_ok (skipNewlines_apply _), hskip, bind_of_ok (peek_apply _),
    beq_false_of_ne hend]
  show (Grammar.statements (rules q.tokens.length) >>= _) _ = _
  rw [bind_of_ok hstatements]
  rfl

end OperatorSequence

/-- A sequence of operands and operators is parsed to its end, as one expression: the tree of the
row. -/
theorem parseTokens_operators (q : OperatorSequence) (lexeme : String) (finish : Position) :
    parseTokens (q.tokens ++ [⟨.endOfCode, lexeme, finish⟩]) =
      { result := .ok (.sequence q.place [q.tree]), consumed := q.tokens.length } := by
  have hstream : Stream.ofTokens (q.tokens ++ [⟨.endOfCode, lexeme, finish⟩]) =
      ⟨q.tokens, finish⟩ := ofTokens_append rfl q.kind_ne_endOfCode
  simp only [parseTokens, hstream, q.program finish, List.length_nil, Nat.sub_zero]

/-- The row of `not -a - 2 * b - c and not not d`. -/
def negatedSum : OperatorSequence where
  first := ⟨[⟨(), "not", ⟨1, 0, 3, none⟩⟩], [⟨.minus, "-", ⟨1, 4, 1, none⟩⟩],
    .name "a" ⟨1, 5, 1, none⟩⟩
  rest :=
    [(⟨.arithmetic .sub, "-", ⟨1, 7, 1, none⟩⟩,
        ⟨[], [], .number false "2" ⟨1, 9, 1, none⟩ (.ofNat 2) (by decide +kernel)⟩),
      (⟨.arithmetic .mul, "*", ⟨1, 11, 1, none⟩⟩, ⟨[], [], .name "b" ⟨1, 13, 1, none⟩⟩),
      (⟨.arithmetic .sub, "-", ⟨1, 15, 1, none⟩⟩, ⟨[], [], .name "c" ⟨1, 17, 1, none⟩⟩),
      (⟨.and_, "and", ⟨1, 19, 3, none⟩⟩,
        ⟨[⟨(), "not", ⟨1, 23, 3, none⟩⟩, ⟨(), "not", ⟨1, 27, 3, none⟩⟩], [],
          .name "d" ⟨1, 31, 1, none⟩⟩)]
  placed := by simp

/-- The first `not` takes the whole sum, the sign only the name. -/
theorem parseTokens_operators_negatedSum :
    negatedSum.tokens.map (·.lexeme) =
        ["not", "-", "a", "-", "2", "*", "b", "-", "c", "and", "not", "not", "d"] ∧
      parseTokens (negatedSum.tokens ++ [⟨.endOfCode, "", ⟨1, 32, 0, none⟩⟩]) =
        { result := .ok (.sequence ⟨1, 0, 3, none⟩
            [.binary ⟨1, 19, 3, none⟩ .and_
              (.unary ⟨1, 0, 3, none⟩ .not_
                (.binary ⟨1, 15, 1, none⟩ (.arithmetic .sub)
                  (.binary ⟨1, 7, 1, none⟩ (.arithmetic .sub)
                    (.unary ⟨1, 4, 1, none⟩ .negate (.read ⟨1, 5, 1, none⟩ "a"))
                    (.binary ⟨1, 11, 1, none⟩ (.arithmetic .mul)
                      (.number ⟨1, 9, 1, none⟩ (.ofNat 2)) (.read ⟨1, 13, 1, none⟩ "b")))
                  (.read ⟨1, 17, 1, none⟩ "c")))
              (.unary ⟨1, 23, 3, none⟩ .not_
                (.unary ⟨1, 27, 3, none⟩ .not_ (.read ⟨1, 31, 1, none⟩ "d")))])
          consumed := 13 } :=
  ⟨rfl, parseTokens_operators negatedSum "" ⟨1, 32, 0, none⟩⟩

end ScriptEngine
