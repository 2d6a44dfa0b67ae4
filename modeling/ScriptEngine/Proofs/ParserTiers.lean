import ScriptEngine.Proofs.CanonicalShape

/-! # The tiers of the grammar

The rules from a call up to a statement form a tower: each runs the rule below and then goes on
while an operator of its own follows. What a rule does is thus decided by what the rule below gave
and by the token behind it. -/

namespace ScriptEngine

open Parse Grammar

/-- The rule of a tier. -/
def Tier.parser (self : Rules) : Tier → Parse Node
  | .call => Grammar.call self
  | .access => Grammar.access self
  | .term => Grammar.term self
  | .sum => Grammar.sum self
  | .comparison => Grammar.comparison self
  | .negation => Grammar.negation self
  | .expression => Grammar.expression self
  | .statement => Grammar.statement self

/-- A node that an operator between two operands makes. -/
def Node.isBinary : Node → Bool
  | .binary _ _ _ _ => true
  | _ => false

/-- A node that going on behind a complete node makes. -/
def Node.isCompound : Node → Bool
  | .binary _ _ _ _ | .members _ _ => true
  | _ => false

theorem Node.isCompound_of_isBinary {n : Node} (h : n.isBinary = true) : n.isCompound = true := by
  cases n with
  | binary _ _ _ _ => rfl
  | _ => cases h

theorem trails_rules (k : Nat) : (rules k).Has Trails :=
  Trails.closed.rules k

theorem Tier.trails {self : Rules} (hs : self.Has Trails) (t : Tier) :
    Trails Node (t.parser self) := by
  cases t with
  | call => exact Trails.closed.call hs
  | access => exact Trails.closed.access hs
  | term => exact Trails.closed.term hs
  | sum => exact Trails.closed.sum hs
  | comparison => exact Trails.closed.comparison hs
  | negation => exact Trails.closed.negation hs
  | expression => exact Trails.closed.expression hs
  | statement => exact Trails.closed.statement hs

theorem Trails.of_ok {α : Type} {p : Parse α} (hp : Trails α p) {s r : Stream} {a : α}
    (h : p s = .ok a r) : r.ahead <:+ s.ahead ∧ r.finish = s.finish := by
  have hrun := hp s
  rw [h] at hrun
  exact hrun

/-! ### Chains of operators -/

section

variable {p : Parse Node} {op? : TokenKind → Option BinaryOp} {s r s₁ : Stream} {x y m : Node}

theorem chain_apply (h : p s = .ok x r) :
    chain p op? s = chainRest p op? r.ahead.length x r := by
  rw [chain, bind_of_ok h]
  rfl

theorem chainRest_stop (n : Nat) (h : op? r.peek.kind = none) :
    chainRest p op? n x r = .ok x r := by
  cases n with
  | zero => rfl
  | succ n =>
    rw [chainRest, bind_of_ok (show Parse.peek r = .ok r.peek r from rfl), h]
    rfl

theorem chain_stop (h : p s = .ok x r) (hop : op? r.peek.kind = none) :
    chain p op? s = .ok x r := by
  rw [chain_apply h, chainRest_stop _ hop]

theorem chainRest_go {op : BinaryOp} (n : Nat) (h : op? s.peek.kind = some op) :
    chainRest p op? (n + 1) x s = (p >>= fun y =>
      chainRest p op? n (.binary s.peek.position op x y)) s.advance.skipNewlines := by
  rw [chainRest, bind_of_ok (show Parse.peek s = .ok s.peek s from rfl), h]
  dsimp only
  rw [discard_bind]
  rfl

theorem length_succ_of_kind {op : BinaryOp} (hend : op? .endOfCode = none)
    (h : op? s.peek.kind = some op) : ∃ n, s.ahead.length = n + 1 := by
  have hne : s.ahead ≠ [] := ahead_ne_nil fun hk => by
    rw [hk, hend] at h
    cases h
  exact Nat.exists_eq_succ_of_ne_zero fun hzero => hne (List.length_eq_zero_iff.mp hzero)

theorem chain_two {op : BinaryOp} (hend : op? .endOfCode = none) (hx : p s = .ok x s₁)
    (hop : op? s₁.peek.kind = some op) (hy : p s₁.advance.skipNewlines = .ok y r)
    (hstop : op? r.peek.kind = none) :
    chain p op? s = .ok (.binary s₁.peek.position op x y) r := by
  obtain ⟨n, hn⟩ := length_succ_of_kind hend hop
  rw [chain_apply hx, hn, chainRest_go n hop, bind_of_ok hy, chainRest_stop n hstop]

/-- The last operator of a chain, what stands before it and the operand behind it. -/
def LastOperator (p : Parse Node) (op? : TokenKind → Option BinaryOp) (left : Node) (s : Stream)
    (m : Node) (r : Stream) : Prop :=
  ∃ s₁ op l y, m = .binary s₁.peek.position op l y ∧ op? s₁.peek.kind = some op ∧
    s₁.finish = s.finish ∧ p s₁.advance.skipNewlines = .ok y r ∧
    ((l = left ∧ s₁ = s) ∨ (l.isBinary = true ∧ s₁.ahead <:+ s.advance.ahead))

theorem chainRest_inv (hp : Trails Node p) (n : Nat) (h : chainRest p op? n x s = .ok m r) :
    (m = x ∧ r = s ∧ (n = 0 ∨ op? s.peek.kind = none)) ∨ LastOperator p op? x s m r := by
  induction n generalizing x s with
  | zero =>
    cases h
    exact .inl ⟨rfl, rfl, .inl rfl⟩
  | succ n ih =>
    cases hop : op? s.peek.kind with
    | none =>
      rw [chainRest_stop _ hop] at h
      cases h
      exact .inl ⟨rfl, rfl, .inr rfl⟩
    | some op =>
      rw [chainRest_go n hop] at h
      obtain ⟨y, r₁, hy, h⟩ := bind_eq_ok h
      have hrest := hp.of_ok hy
      have hsuffix : r₁.ahead <:+ s.advance.ahead :=
        hrest.1.trans (Trails.skipNewlines_suffix s.advance)
      rcases ih h with ⟨rfl, rfl, -⟩ | ⟨s₁, op₁, l, z, hm, hop₁, hfin, hz, hl⟩
      · exact .inr ⟨s, op, x, y, rfl, hop, rfl, hy, .inl ⟨rfl, rfl⟩⟩
      · refine .inr ⟨s₁, op₁, l, z, hm, hop₁, hfin.trans hrest.2, hz, .inr ?_⟩
        rcases hl with ⟨rfl, rfl⟩ | ⟨hbinary, hbefore⟩
        · exact ⟨rfl, hsuffix⟩
        · exact ⟨hbinary, (hbefore.trans (Trails.advance_suffix r₁)).trans hsuffix⟩

theorem chain_inv (hp : Trails Node p) (hend : op? .endOfCode = none)
    (h : chain p op? s = .ok m r) :
    ∃ x s₁, p s = .ok x s₁ ∧
      ((m = x ∧ r = s₁ ∧ op? s₁.peek.kind = none) ∨
        ((op? s₁.peek.kind).isSome = true ∧ LastOperator p op? x s₁ m r)) := by
  obtain ⟨x, s₁, hx, -⟩ := bind_eq_ok h
  refine ⟨x, s₁, hx, ?_⟩
  rw [chain_apply hx] at h
  cases hop : op? s₁.peek.kind with
  | none =>
    rw [chainRest_stop _ hop] at h
    cases h
    exact .inl ⟨rfl, rfl, rfl⟩
  | some op =>
    refine .inr ⟨rfl, ?_⟩
    obtain ⟨n, hn⟩ := length_succ_of_kind hend hop
    rcases chainRest_inv hp _ h with ⟨-, -, hzero | hnone⟩ | hlast
    · omega
    · rw [hop] at hnone
      cases hnone
    · exact hlast

theorem LastOperator.suffix (hp : Trails Node p) (h : LastOperator p op? x s m r) :
    r.ahead <:+ s.advance.ahead ∧ m.isBinary = true := by
  obtain ⟨s₁, op, l, y, rfl, -, -, hy, hl⟩ := h
  have hrest := (hp.of_ok hy).1.trans (Trails.skipNewlines_suffix _)
  refine ⟨?_, rfl⟩
  rcases hl with ⟨-, rfl⟩ | ⟨-, hbefore⟩
  · exact hrest
  · exact (hrest.trans (Trails.advance_suffix s₁)).trans hbefore

end

/-! ### Stopping and going on -/

/-- Where the rule succeeds from `s`, it went on behind `r` and gave a node of `C`. -/
def GoesOn (C : Node → Bool) (s r : Stream) (p : Parse Node) : Prop :=
  ∀ m r', p s = .ok m r' → r'.ahead <:+ r.advance.ahead ∧ C m = true

/-- From `s` the rule stops with `x` at `r`, or goes on behind it if it takes what follows. -/
def Decided (C : Node → Bool) (s : Stream) (x : Node) (r : Stream) (takes : Bool)
    (p : Parse Node) : Prop :=
  if takes then GoesOn C s r p else p s = .ok x r

namespace Decided

variable {C : Node → Bool} {s r : Stream} {x : Node} {b : Bool} {p : Parse Node}

theorem chain {op? : TokenKind → Option BinaryOp} (hC : ∀ m : Node, m.isBinary = true → C m = true)
    (hp : Trails Node p) (hend : op? .endOfCode = none) (h : Decided C s x r b p) :
    Decided C s x r (b || (op? r.peek.kind).isSome) (chain p op?) := by
  cases b with
  | true =>
    intro m r' hm
    obtain ⟨x', s₁, hx, hcase⟩ := chain_inv hp hend hm
    obtain ⟨hsuffix, hCx⟩ := h x' s₁ hx
    rcases hcase with ⟨rfl, rfl, -⟩ | ⟨-, hlast⟩
    · exact ⟨hsuffix, hCx⟩
    · obtain ⟨hrest, hbinary⟩ := hlast.suffix hp
      exact ⟨(hrest.trans (Trails.advance_suffix s₁)).trans hsuffix, hC m hbinary⟩
  | false =>
    have hx : p s = .ok x r := h
    cases hop : op? r.peek.kind with
    | none => exact chain_stop hx hop
    | some op =>
      intro m r' hm
      obtain ⟨x', s₁, hx', hcase⟩ := chain_inv hp hend hm
      rw [hx] at hx'
      cases hx'
      rcases hcase with ⟨-, -, hnone⟩ | ⟨-, hlast⟩
      · rw [hop] at hnone
        cases hnone
      · obtain ⟨hrest, hbinary⟩ := hlast.suffix hp
        exact ⟨hrest, hC m hbinary⟩

/-- Only what the rule does at the stream counts. -/
theorem congr {q : Parse Node} (h : Decided C s x r b p) (hq : q s = p s) :
    Decided C s x r b q := by
  cases b with
  | true =>
    intro m r' hm
    exact h m r' (hq.symm.trans hm)
  | false => exact hq.trans h

/-- A node that is not of `C` is the one at which the rule stopped. -/
theorem ok_iff (h : Decided C s x r b p) {m : Node} {r' : Stream} (hm : C m = false) :
    p s = .ok m r' ↔ (Reply.ok x r = .ok m r' ∧ b = false) := by
  cases b with
  | true =>
    refine ⟨fun hrun => ?_, fun hrun => (nomatch hrun.2)⟩
    have hC := (h m r' hrun).2
    rw [hm] at hC
    cases hC
  | false =>
    have hstop : p s = .ok x r := h
    rw [hstop]
    exact ⟨fun hrun => ⟨hrun, rfl⟩, fun hrun => hrun.1⟩

end Decided

/-! ### Starts that a tier above a call handles -/

/-- Such a token starts no call. -/
def TokenKind.isSpecial (k : TokenKind) : Bool :=
  k == .keyword .var_ || k == .keyword .not_ || k.jumps

section

variable {self : Rules} {s r : Stream} {x m : Node} {d : Diagnostic}

theorem call_special (hs : s.peek.kind.isSpecial = true) : ∃ d, Grammar.call self s = .error d s := by
  have hline : s.peek.kind ≠ .newline := fun hk => by
    rw [hk] at hs
    cases hs
  have hrule : factorRule self s.peek = unexpected := by
    unfold factorRule
    split <;> first | rfl | (rename_i hk; rw [hk] at hs; cases hs)
  have hfactor : factor self s = unexpected s := by
    rw [factor_eq, skipNewlines_eq hline, hrule]
  exact ⟨_, bind_of_error hfactor⟩

theorem call_plain (h : Grammar.call self s = .ok x r) : s.peek.kind.isSpecial = false := by
  cases hs : s.peek.kind.isSpecial with
  | false => rfl
  | true =>
    obtain ⟨d, hd⟩ : ∃ d, Grammar.call self s = .error d s := call_special hs
    rw [hd] at h
    cases h

theorem isSpecial_false (hs : s.peek.kind.isSpecial = false) :
    s.peek.kind ≠ .keyword .var_ ∧ s.peek.kind ≠ .keyword .not_ ∧ s.peek.kind.jumps = false := by
  unfold TokenKind.isSpecial at hs
  simp only [Bool.or_eq_false_iff, beq_eq_false_iff_ne] at hs
  exact ⟨hs.1.1, hs.1.2, hs.2⟩

theorem statement_eq (hs : s.peek.kind.jumps = false) :
    Grammar.statement self s = Grammar.expression self s := by
  rw [Grammar.statement, bind_of_ok (show Parse.peek s = .ok s.peek s from rfl)]
  refine congrFun ?_ s
  split
  · rename_i hk
    rw [hk] at hs
    cases hs
  · rename_i hk
    rw [hk] at hs
    cases hs
  · rename_i hk
    rw [hk] at hs
    cases hs
  · rfl

/-- Accessing that fails takes the tiers above with it. -/
theorem Tier.parser_error (hs : s.peek.kind.isSpecial = false)
    (h : Grammar.access self s = .error d r) (t : Tier) (ht : t ≠ .call) :
    t.parser self s = .error d r := by
  obtain ⟨hvar, hnot, hjump⟩ := isSpecial_false hs
  have hterm : Grammar.term self s = .error d r := bind_of_error h
  have hsum : Grammar.sum self s = .error d r := bind_of_error hterm
  have hcomparison : Grammar.comparison self s = .error d r := bind_of_error hsum
  have hnegation : Grammar.negation self s = .error d r := (negation_eq self hnot).trans hcomparison
  have hexpression : Grammar.expression self s = .error d r :=
    (expression_eq self hvar).trans (bind_of_error hnegation)
  cases t with
  | call => exact absurd rfl ht
  | access => exact h
  | term => exact hterm
  | sum => exact hsum
  | comparison => exact hcomparison
  | negation => exact hnegation
  | expression => exact hexpression
  | statement => exact (statement_eq hjump).trans hexpression

/-! ### Segments -/

theorem segmentsRest_stop (n : Nat) (h : r.peek.kind ≠ .point) :
    segmentsRest self n r = .ok [] r := by
  cases n with
  | zero => rfl
  | succ n =>
    rw [segmentsRest, bind_apply, accept, beq_false_of_ne h]
    rfl

/-- The segment behind a point; the braces of a block are not looked behind. -/
def segment (self : Rules) : Parse Node := do
  let (_, segment) ← bracedOr self (Grammar.call self)
  return segment

theorem segmentsRest_go (n : Nat) (h : r.peek.kind = .point) :
    segmentsRest self (n + 1) r =
      (segment self >>= fun x => segmentsRest self n >>= fun more => Parse.done (x :: more))
        r.advance.skipNewlines := by
  rw [segmentsRest, bind_apply, accept, beq_iff_eq.mpr h]
  show (bracedOr self (Grammar.call self) >>= fun b => segmentsRest self n >>= fun more =>
    Parse.done (b.2 :: more)) r.advance.skipNewlines = _
  rw [bind_apply, bind_apply, segment, bind_apply]
  cases bracedOr self (Grammar.call self) r.advance.skipNewlines with
  | ok b r₁ => rfl
  | error d r₁ => rfl

/-- A node with the segments behind it. -/
def withSegments (x : Node) : List Node → Node
  | [] => x
  | more => .members x.pos (x :: more)

theorem access_apply (h : Grammar.call self s = .ok x r) :
    Grammar.access self s = (segmentsRest self r.ahead.length >>= fun more =>
      Parse.done (withSegments x more)) r := by
  rw [Grammar.access, bind_of_ok h, bind_of_ok (show remaining r = .ok r.ahead.length r from rfl),
    bind_apply, bind_apply]
  cases segmentsRest self r.ahead.length r with
  | ok more r₁ =>
    cases more with
    | nil => rfl
    | cons y more => rfl
  | error d r₁ => rfl

theorem length_succ_of_point (h : r.peek.kind = .point) : ∃ n, r.ahead.length = n + 1 := by
  have hne : r.ahead ≠ [] := ahead_ne_nil fun hk => by
    rw [h] at hk
    cases hk
  exact Nat.exists_eq_succ_of_ne_zero fun hzero => hne (List.length_eq_zero_iff.mp hzero)

theorem trails_segment (hs : self.Has Trails) : Trails Node (segment self) :=
  Trails.closed.bind (Trails.closed.bracedOr hs (Trails.closed.call hs)) fun _ =>
    Trails.closed.done _

theorem decided_access (hs : self.Has Trails) (h : Grammar.call self s = .ok x r) :
    Decided Node.isCompound s x r (r.peek.kind == .point) (Grammar.access self) := by
  by_cases hk : r.peek.kind = .point
  · rw [beq_iff_eq.mpr hk]
    intro m r' hm
    obtain ⟨n, hn⟩ := length_succ_of_point hk
    rw [access_apply h, hn] at hm
    obtain ⟨more, r₁, hmore, hm⟩ := bind_eq_ok hm
    cases hm
    rw [segmentsRest_go n hk] at hmore
    obtain ⟨y, r₂, hy, hmore⟩ := bind_eq_ok hmore
    obtain ⟨ys, r₃, hys, hmore⟩ := bind_eq_ok hmore
    cases hmore
    have hfirst := ((trails_segment hs).of_ok hy).1
    have hrest := ((Trails.closed.segmentsRest hs n).of_ok hys).1
    exact ⟨(hrest.trans hfirst).trans (Trails.skipNewlines_suffix _), rfl⟩
  · rw [beq_false_of_ne hk]
    show Grammar.access self s = .ok x r
    rw [access_apply h, bind_of_ok (segmentsRest_stop _ hk)]
    rfl

/-! ### Tiers above -/

theorem Decided.tier {C : Node → Bool} (hC : ∀ m : Node, m.isBinary = true → C m = true)
    (hs : self.Has Trails) (hplain : s.peek.kind.isSpecial = false)
    (h : Decided C s x r (r.peek.kind == .point) (Grammar.access self)) (t : Tier)
    (ht : t ≠ .call) : Decided C s x r (t.takes r.peek.kind) (t.parser self) := by
  obtain ⟨hvar, hnot, hjump⟩ := isSpecial_false hplain
  have hP := Trails.closed
  have hterm : Decided C s x r (Tier.takes .term r.peek.kind) (Grammar.term self) :=
    h.chain hC (hP.access hs) rfl
  have hsum : Decided C s x r (Tier.takes .sum r.peek.kind) (Grammar.sum self) :=
    hterm.chain hC (hP.term hs) rfl
  have hcomparison : Decided C s x r (Tier.takes .comparison r.peek.kind)
      (Grammar.comparison self) := hsum.chain hC (hP.sum hs) rfl
  have hnegation : Decided C s x r (Tier.takes .negation r.peek.kind) (Grammar.negation self) :=
    hcomparison.congr (negation_eq self hnot)
  have hexpression : Decided C s x r (Tier.takes .expression r.peek.kind)
      (Grammar.expression self) :=
    (hnegation.chain hC (hP.negation hs) rfl).congr (expression_eq self hvar)
  cases t with
  | call => exact absurd rfl ht
  | access => exact h
  | term => exact hterm
  | sum => exact hsum
  | comparison => exact hcomparison
  | negation => exact hnegation
  | expression => exact hexpression
  | statement => exact hexpression.congr (statement_eq hjump)

/-- What a tier does behind a call. -/
theorem Tier.decided (hs : self.Has Trails) (h : Grammar.call self s = .ok x r) (t : Tier) :
    Decided Node.isCompound s x r (t.takes r.peek.kind) (t.parser self) := by
  by_cases ht : t = .call
  · rw [ht]
    exact h
  · exact (decided_access hs h).tier (fun _ => Node.isCompound_of_isBinary) hs (call_plain h) t ht

/-- A node that no going on makes is that of the call, if nothing follows that the tier takes. -/
theorem Tier.parser_iff_call (hs : self.Has Trails) (hplain : s.peek.kind.isSpecial = false)
    (hm : m.isCompound = false) (t : Tier) :
    t.parser self s = .ok m r ↔
      Grammar.call self s = .ok m r ∧ t.takes r.peek.kind = false := by
  cases h : Grammar.call self s with
  | error d r₁ =>
    refine ⟨fun hrun => ?_, fun hrun => (nomatch hrun.1)⟩
    by_cases ht : t = .call
    · rw [ht] at hrun
      exact nomatch h.symm.trans hrun
    · have haccess : Grammar.access self s = .error d r₁ := bind_of_error h
      rw [Tier.parser_error hplain haccess t ht] at hrun
      cases hrun
  | ok x r₁ =>
    rw [(Tier.decided hs h t).ok_iff hm]
    constructor
    · rintro ⟨hx, htakes⟩
      cases hx
      exact ⟨rfl, htakes⟩
    · rintro ⟨hx, htakes⟩
      cases hx
      exact ⟨rfl, htakes⟩

theorem segmentsRest_next (hs : self.Has Trails) (n : Nat) {more : List Node} {r' : Stream}
    (hn : r.ahead.length ≤ n) (h : segmentsRest self n r = .ok more r') :
    r'.peek.kind ≠ .point := by
  induction n generalizing r more with
  | zero =>
    cases h
    intro hk
    obtain ⟨n, hn'⟩ := length_succ_of_point hk
    omega
  | succ n ih =>
    by_cases hk : r.peek.kind = .point
    · rw [segmentsRest_go n hk] at h
      obtain ⟨y, r₁, hy, h⟩ := bind_eq_ok h
      obtain ⟨ys, r₂, hys, h⟩ := bind_eq_ok h
      cases h
      obtain ⟨l, hl⟩ := length_succ_of_point hk
      have hfirst := ((trails_segment hs).of_ok hy).1.length_le
      have hskip := (Trails.skipNewlines_suffix r.advance).length_le
      have hadvance := Bites.advance_lt (s := r) (List.ne_nil_of_length_eq_add_one hl)
      exact ih (by omega) hys
    · rw [segmentsRest_stop _ hk] at h
      cases h
      exact hk

theorem access_next (hs : self.Has Trails) (h : Grammar.access self s = .ok m r) :
    r.peek.kind ≠ .point := by
  obtain ⟨x, r₁, hx, -⟩ := bind_eq_ok h
  rw [access_apply hx] at h
  obtain ⟨more, r₂, hmore, h⟩ := bind_eq_ok h
  cases h
  exact segmentsRest_next hs _ (Nat.le_refl _) hmore

/-- Accessing gives the segments in order, or a call alone. -/
theorem access_inv (h : Grammar.access self s = .ok m r) :
    ∃ x r₁ more, Grammar.call self s = .ok x r₁ ∧
      segmentsRest self r₁.ahead.length r₁ = .ok more r ∧ m = withSegments x more := by
  obtain ⟨x, r₁, hx, -⟩ := bind_eq_ok h
  rw [access_apply hx] at h
  obtain ⟨more, r₂, hmore, h⟩ := bind_eq_ok h
  cases h
  exact ⟨x, r₁, more, hx, hmore, rfl⟩

/-- What no operator makes is what accessing gave, if no operator of the tier follows. -/
theorem Tier.parser_iff_access (hs : self.Has Trails) (hplain : s.peek.kind.isSpecial = false)
    (hm : m.isBinary = false) (t : Tier) (ht : t ≠ .call) :
    t.parser self s = .ok m r ↔
      Grammar.access self s = .ok m r ∧ t.takes r.peek.kind = false := by
  cases h : Grammar.access self s with
  | error d r₁ =>
    rw [Tier.parser_error hplain h t ht]
    exact ⟨fun hrun => (nomatch hrun), fun hrun => (nomatch hrun.1)⟩
  | ok x r₁ =>
    have hdecided : Decided Node.isBinary s x r₁ (t.takes r₁.peek.kind) (t.parser self) := by
      refine Decided.tier (fun _ h => h) hs hplain ?_ t ht
      rw [beq_false_of_ne (access_next hs h)]
      exact h
    rw [hdecided.ok_iff hm]
    constructor
    · rintro ⟨hx, htakes⟩
      cases hx
      exact ⟨rfl, htakes⟩
    · rintro ⟨hx, htakes⟩
      cases hx
      exact ⟨rfl, htakes⟩

/-! ### Operators -/

/-- The operators of a tier and the tier of their operands. -/
def Reads (t : Tier) (op? : TokenKind → Option BinaryOp) : Prop :=
  op? .endOfCode = none ∧ ∀ k op, op? k = some op → k = op.kind ∧ op.operand = t

theorem reads_factor : Reads .access factorOp? := by
  refine ⟨rfl, fun k op h => ?_⟩
  unfold factorOp? at h
  split at h <;> cases h <;> exact ⟨rfl, rfl⟩

theorem reads_term : Reads .term termOp? := by
  refine ⟨rfl, fun k op h => ?_⟩
  unfold termOp? at h
  split at h <;> cases h <;> exact ⟨rfl, rfl⟩

theorem reads_comparison : Reads .sum comparisonOp? := by
  refine ⟨rfl, fun k op h => ?_⟩
  unfold comparisonOp? at h
  split at h <;> cases h <;> exact ⟨rfl, rfl⟩

theorem reads_logic : Reads .negation logicOp? := by
  refine ⟨rfl, fun k op h => ?_⟩
  unfold logicOp? at h
  split at h <;> cases h <;> exact ⟨rfl, rfl⟩

/-- From `s` the operator `op` was taken at `s₁`, between operands of its tier. The left one is the
first operand of the chain or a node that the chain made before. -/
def TookOperator (self : Rules) (s : Stream) (op : BinaryOp) (l y : Node) (r : Stream) : Prop :=
  ∃ x s₀ s₁, op.operand.parser self s = .ok x s₀ ∧ s₁.peek.kind = op.kind ∧
    s₁.finish = s₀.finish ∧ op.operand.parser self s₁.advance.skipNewlines = .ok y r ∧
    ((l = x ∧ s₁ = s₀) ∨ (l.isBinary = true ∧ s₁.ahead <:+ s₀.advance.ahead))

theorem chain_operator (hs : self.Has Trails) {t : Tier} {op? : TokenKind → Option BinaryOp}
    (hread : Reads t op?) {pos : Position} {op : BinaryOp} {l y : Node}
    (h : chain (t.parser self) op? s = .ok (.binary pos op l y) r) :
    t.parser self s = .ok (.binary pos op l y) r ∨ TookOperator self s op l y r := by
  obtain ⟨x, s₀, hx, hcase⟩ := chain_inv (t.trails hs) hread.1 h
  rcases hcase with ⟨rfl, rfl, -⟩ | ⟨-, s₁, op₁, l₁, y₁, heq, hop, hfin, hy, hl⟩
  · exact .inl hx
  · cases heq
    obtain ⟨hkind, rfl⟩ := hread.2 _ _ hop
    exact .inr ⟨x, s₀, s₁, hx, hkind, hfin, hy, hl⟩

theorem access_binary {pos : Position} {op : BinaryOp} {l y : Node}
    (h : Grammar.access self s = .ok (.binary pos op l y) r) :
    Grammar.call self s = .ok (.binary pos op l y) r := by
  obtain ⟨x, r₁, more, hx, hmore, heq⟩ := access_inv h
  cases more with
  | cons z more => cases heq
  | nil =>
    cases heq
    have hstop : r = r₁ := by
      cases hn : r₁.ahead.length with
      | zero =>
        rw [hn] at hmore
        cases hmore
        rfl
      | succ n =>
        by_cases hk : r₁.peek.kind = .point
        · rw [hn, segmentsRest_go n hk] at hmore
          obtain ⟨_, _, _, hmore⟩ := bind_eq_ok hmore
          obtain ⟨_, _, _, hmore⟩ := bind_eq_ok hmore
          cases hmore
        · rw [segmentsRest_stop _ hk] at hmore
          cases hmore
          rfl
    rw [hstop]
    exact hx

theorem expression_var (hvar : s.peek.kind = .keyword .var_) :
    Grammar.expression self s = declaration self s := by
  rw [Grammar.expression, bind_of_ok (check_apply _ s), hvar]
  rfl

theorem declaration_inv (h : declaration self s = .ok m r) :
    ∃ pos name value, m = .declare pos name value := by
  obtain ⟨_, _, _, h⟩ := bind_eq_ok h
  obtain ⟨_, _, _, h⟩ := bind_eq_ok h
  obtain ⟨_, _, _, h⟩ := bind_eq_ok h
  obtain ⟨_, _, _, h⟩ := bind_eq_ok h
  obtain ⟨_, _, _, h⟩ := bind_eq_ok h
  obtain ⟨_, _, _, h⟩ := bind_eq_ok h
  obtain ⟨_, _, _, h⟩ := bind_eq_ok h
  cases h
  exact ⟨_, _, _, rfl⟩

theorem negation_not (hnot : s.peek.kind = .keyword .not_) :
    Grammar.negation self s = (self.negation >>= fun operand =>
      Parse.done (.unary s.peek.position .not_ operand)) s.advance.skipNewlines := by
  rw [Grammar.negation, bind_of_ok (check_apply _ s), hnot]
  rfl

/-- An operator between operands comes from a group, or the expression took it. -/
theorem expression_operator (hs : self.Has Trails) {pos : Position} {op : BinaryOp} {l y : Node}
    (h : Grammar.expression self s = .ok (.binary pos op l y) r) :
    Grammar.call self s = .ok (.binary pos op l y) r ∨ TookOperator self s op l y r := by
  by_cases hvar : s.peek.kind = .keyword .var_
  · rw [expression_var hvar] at h
    obtain ⟨_, _, _, hm⟩ := declaration_inv h
    cases hm
  rw [expression_eq self hvar] at h
  refine (chain_operator hs reads_logic (t := .negation) h).elim (fun h => ?_) .inr
  change Grammar.negation self s = _ at h
  by_cases hnot : s.peek.kind = .keyword .not_
  · rw [negation_not hnot] at h
    obtain ⟨_, _, _, h⟩ := bind_eq_ok h
    cases h
  rw [negation_eq self hnot] at h
  refine (chain_operator hs reads_comparison (t := .sum) h).elim (fun h => ?_) .inr
  refine (chain_operator hs reads_term (t := .term) h).elim (fun h => ?_) .inr
  exact (chain_operator hs reads_factor (t := .access) h).imp_left access_binary

theorem plain_of_sum (h : Grammar.sum self s = .ok m r) : s.peek.kind.isSpecial = false := by
  obtain ⟨_, _, hterm, -⟩ := bind_eq_ok h
  obtain ⟨_, _, haccess, -⟩ := bind_eq_ok hterm
  obtain ⟨_, _, hcall, -⟩ := bind_eq_ok haccess
  exact call_plain hcall

theorem not_var_of_negation (h : Grammar.negation self s = .ok m r) :
    s.peek.kind ≠ .keyword .var_ := by
  intro hvar
  have hnot : s.peek.kind ≠ .keyword .not_ := fun hk => by
    rw [hvar] at hk
    cases hk
  rw [negation_eq self hnot] at h
  obtain ⟨_, _, hsum, -⟩ := bind_eq_ok h
  have hplain := plain_of_sum hsum
  rw [hvar] at hplain
  cases hplain

theorem takes_expression {k : TokenKind} (h : Tier.takes .expression k = false) :
    factorOp? k = none ∧ termOp? k = none ∧ comparisonOp? k = none ∧ logicOp? k = none := by
  simp only [Tier.takes, Bool.or_eq_false_iff, Option.isSome_eq_false_iff,
    Option.isNone_iff_eq_none] at h
  exact ⟨h.1.1.1.2, h.1.1.2, h.1.2, h.2⟩

/-- Two operands of an operator make an expression. -/
theorem expression_of_operands {op : BinaryOp} {l y : Node} {s₁ : Stream}
    (hl : op.operand.parser self s = .ok l s₁) (hop : s₁.peek.kind = op.kind)
    (hy : op.operand.parser self s₁.advance.skipNewlines = .ok y r)
    (hnext : Tier.takes .expression r.peek.kind = false) :
    Grammar.expression self s = .ok (.binary s₁.peek.position op l y) r := by
  obtain ⟨hfactor, hterm, hcomparison, hlogic⟩ := takes_expression hnext
  have of_comparison : ∀ {m}, s.peek.kind.isSpecial = false →
      Grammar.comparison self s = .ok m r → Grammar.expression self s = .ok m r := by
    intro m hplain hm
    obtain ⟨hvar, hnot, -⟩ := isSpecial_false hplain
    rw [expression_eq self hvar]
    exact chain_stop ((negation_eq self hnot).trans hm) hlogic
  have of_sum : ∀ {m}, Grammar.sum self s = .ok m r → Grammar.expression self s = .ok m r :=
    fun hm => of_comparison (plain_of_sum hm) (chain_stop hm hcomparison)
  have of_term : ∀ {m}, Grammar.term self s = .ok m r → Grammar.expression self s = .ok m r :=
    fun hm => of_sum (chain_stop hm hterm)
  cases op with
  | arithmetic op =>
    cases op with
    | mul | div => exact of_term (chain_two rfl hl (by rw [hop]; rfl) hy hfactor)
    | add | sub => exact of_sum (chain_two rfl hl (by rw [hop]; rfl) hy hterm)
  | equal | notEqual | less | lessEqual | greater | greaterEqual =>
    exact of_comparison (plain_of_sum hl) (chain_two rfl hl (by rw [hop]; rfl) hy hcomparison)
  | and_ | or_ =>
    rw [expression_eq self (not_var_of_negation hl)]
    exact chain_two rfl hl (by rw [hop]; rfl) hy hlogic

end

end ScriptEngine
