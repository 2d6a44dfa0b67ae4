import ScriptEngine.Proofs.ParserPlaces
import ScriptEngine.Proofs.ReadBackExact

/-! # Reading back calls, members and operators

These nodes are made by the rules above a factor. A factor gives one only from a group, and a group
at the front of canonical tokens closes before what makes the node. -/

namespace ScriptEngine

open Parse Grammar Canonical Printer

/-! ### What a factor gives -/

/-- Where the rule succeeds, it gives a node of this kind. -/
def Gives (C : Node → Prop) (p : Parse Node) : Prop :=
  ∀ s m r, p s = .ok m r → C m

namespace Gives

variable {C : Node → Prop} {α : Type} {self : Rules}

theorem bind {p : Parse α} {f : α → Parse Node} (hf : ∀ a, Gives C (f a)) : Gives C (p >>= f) := by
  intro s m r h
  obtain ⟨a, r₁, _, h⟩ := bind_eq_ok h
  exact hf a r₁ m r h

theorem done {m : Node} (hm : C m) : Gives C (Parse.done m) := by
  intro s m' r h
  cases h
  exact hm

theorem fault (d : Stream → Diagnostic) : Gives C fun s => .error (d s) s := by
  intro s m r h
  cases h

theorem ite {b : Bool} {p q : Parse Node} (hp : Gives C p) (hq : Gives C q) :
    Gives C (if b then p else q) := by
  cases b with
  | true => exact hp
  | false => exact hq

/-- A node that a rule above a factor makes comes from a group. -/
theorem factorRule (k : Nat) {token : Token} (h : token.kind ≠ .lParen) :
    Gives (fun m => m.isExtended = false) (factorRule (rules k) token) := by
  unfold ScriptEngine.Grammar.factorRule
  split
  · refine bind fun t => ?_
    split
    · exact done rfl
    · exact fault _
  · refine bind fun t => ?_
    split
    · exact done rfl
    · exact fault _
  · exact bind fun _ => done rfl
  · refine bind fun t => bind fun next => ?_
    split
    · exact bind fun _ => bind fun _ => bind fun _ => done rfl
    · exact bind fun _ => done rfl
    · exact bind fun _ => done rfl
    · split
      · exact bind fun _ => bind fun _ => bind fun _ => done rfl
      · exact done rfl
  · exact bind fun _ => bind fun _ => done rfl
  · exact bind fun _ => bind fun _ => bind fun _ => done rfl
  · exact bind fun _ => bind fun _ => bind fun _ => done rfl
  · exact bind fun _ => done rfl
  · exact bind fun _ => done rfl
  · exact bind fun _ => done rfl
  · exact bind fun _ => bind fun _ => bind fun _ => bind fun _ => done rfl
  · refine bind fun _ => bind fun _ => bind fun _ => bind fun _ => bind fun b => ite ?_ ?_
    · exact bind fun _ => bind fun _ => done rfl
    · refine bind fun _ => bind fun _ => bind fun _ => bind fun _ => bind fun _ => bind fun _ =>
        bind fun _ => bind fun _ => bind fun b => ite ?_ ?_
      · exact bind fun _ => bind fun _ => done rfl
      · exact bind fun _ => bind fun _ => done rfl
  · exact bind fun _ => bind fun _ => bind fun _ => bind fun _ => done rfl
  · refine bind fun _ => bind fun _ => bind fun _ => bind fun _ => ite (fault _) ?_
    refine bind fun _ => bind fun _ => bind fun b => ite ?_ ?_
    · exact bind fun _ => bind fun _ => done rfl
    · exact bind fun _ => done rfl
  · exact bind fun _ => bind fun _ => bind fun _ => bind fun _ => bind fun _ => bind fun _ =>
      bind fun _ => bind fun _ => done rfl
  · exact bind fun _ => bind fun _ => bind fun _ => bind fun _ => bind fun _ => done rfl
  · exact bind fun _ => done rfl
  · exact bind fun _ => bind fun _ => bind fun _ => bind fun _ => bind fun _ => done rfl
  · exact absurd ‹_› h
  · intro s m r hrun
    have hblock := isBlock_of_block hrun
    cases m with
    | binary _ _ _ _ | members _ _ | call _ _ _ => cases hblock
    | _ => rfl
  · exact fault _

end Gives

/-- A factor gives such a node from a group only. -/
theorem factor_extended {k : Nat} {s r : Stream} {m : Node} (hline : s.peek.kind ≠ .newline)
    (h : Grammar.factor (rules k) s = .ok m r) (hm : m.isExtended = true) :
    s.peek.kind = .lParen := by
  by_contra hparen
  rw [factor_eq, skipNewlines_eq hline] at h
  have hgives : m.isExtended = false := Gives.factorRule k hparen s m r h
  rw [hm] at hgives
  cases hgives

/-! ### Calls -/

/-- The callee of a canonical call, where `ts` are the tokens of the arguments. -/
theorem callee_exact {callee : Node} (hcallee : callee.Exact) {k : Nat} {ts : List Token}
    (hreg : callee.Regular false)
    (hk : (wrapped (!isBareCallee callee) callee.tokens ++ TokenKind.lParen.token :: ts).length ≤ k)
    (r : Stream) :
    Grammar.factor (rules k)
        (bareStream (wrapped (!isBareCallee callee) callee.tokens ++ TokenKind.lParen.token :: ts)) =
          .ok callee.erase r ↔
      callee.reads (if isBareCallee callee then .call else .expression) (.token .rParen) = true ∧
        r = bareStream (TokenKind.lParen.token :: ts) := by
  cases hbare : isBareCallee callee with
  | true =>
    rw [hbare] at hk
    exact hcallee.callee k (TokenKind.lParen.token :: ts) r hbare hreg rfl hk
  | false =>
    rw [hbare] at hk
    have hlead := callee.leads hreg
    have hline : firstKind (callee.tokens ++ TokenKind.rParen.token :: TokenKind.lParen.token :: ts) ≠
        .newline := by
      rw [firstKind_append hlead]
      exact (leads_ne hlead.firstKind.1).1
    rw [Bool.not_false, wrapped_true] at hk ⊢
    rw [List.length_cons] at hk
    obtain ⟨k, rfl⟩ : ∃ l, k = l + 1 := ⟨k - 1, by omega⟩
    rw [bareStream, factor_group (callee.shape hreg) hline,
      group_exact hcallee hreg (by omega), and_comm]
    rfl

/-- A call in front of arguments is no factor. -/
theorem callee_not_call {callee : Node} {k : Nat} {ts : List Token} {r : Stream} {m : Node}
    (hreg : callee.Regular false)
    (h : Grammar.factor (rules k) (bareStream (wrapped (!isBareCallee callee) callee.tokens ++
      TokenKind.lParen.token :: ts)) = .ok m r)
    (hr : r.peek.kind ≠ .lParen) : m.isExtended = false := by
  cases hbare : isBareCallee callee with
  | true =>
    rw [hbare, show wrapped (!true) callee.tokens = callee.tokens from rfl] at h
    cases hm : m.isExtended with
    | false => rfl
    | true =>
      have hlead := callee.leads hreg
      have hparen := factor_extended (by
        rw [bareStream, peek_kind, firstKind_append hlead]
        exact (leads_ne hlead.firstKind.1).1) h hm
      rw [bareStream, peek_kind, firstKind_append hlead] at hparen
      cases callee with
      | read _ _ | this _ | text _ _ | list _ _ => cases hparen
      | _ => cases hbare
  | false =>
    exfalso
    have hlead := callee.leads hreg
    have hline : firstKind (callee.tokens ++ TokenKind.rParen.token :: TokenKind.lParen.token :: ts) ≠
        .newline := by
      rw [firstKind_append hlead]
      exact (leads_ne hlead.firstKind.1).1
    rw [hbare, Bool.not_false, wrapped_true] at h
    obtain ⟨rfl, -⟩ := (factor_group (callee.shape hreg) hline).mp h
    exact hr rfl

theorem callee_firstKind {callee : Node} (hreg : callee.Regular false) (ts : List Token) :
    (firstKind (wrapped (!isBareCallee callee) callee.tokens ++ ts)).isSpecial = false := by
  rw [firstKind_append ((callee.leads hreg).wrap _)]
  cases callee with
  | read _ _ | this _ | text _ _ | list _ _ => rfl
  | _ => rfl

theorem Node.exact_call (pos : Position) {callee : Node} {args : List Node}
    (hcallee : callee.Exact) (hargs : AllExact args) : (Node.call pos callee args).Exact where
  tier t k rest r hreg hcalm hk := by
    replace hreg := hreg.strict rfl
    have hlist : (Node.call pos callee args).tokens ++ rest =
        wrapped (!isBareCallee callee) callee.tokens ++ TokenKind.lParen.token ::
          (itemTokens args ++ TokenKind.rParen.token :: rest) := by
      rw [Node.tokens]
      simp only [List.cons_append, List.append_assoc, List.nil_append]
    have hplain := callee_firstKind hreg.1
      (TokenKind.lParen.token :: (itemTokens args ++ TokenKind.rParen.token :: rest))
    rw [hlist] at hk ⊢
    have hfirst := callee_exact hcallee hreg.1 hk
    rw [List.length_append, List.length_cons] at hk
    obtain ⟨k, rfl⟩ : ∃ l, k = l + 1 := ⟨k - 1, by omega⟩
    have hitems := items_exact "')'" (.inl rfl) rest args hargs hreg.2 (k := k)
      (by omega)
    have harguments : arguments (rules (k + 1)) (bareStream (TokenKind.lParen.token ::
        (itemTokens args ++ TokenKind.rParen.token :: rest))) =
          enclosed (rules (k + 1)).expression .rParen "')'" (bareStream (itemTokens args ++
            TokenKind.rParen.token :: rest)) := rfl
    rw [Tier.parser_iff_call (trails_rules _) (by rw [bareStream, peek_kind]; exact hplain) rfl,
      Node.reads, Bool.and_eq_true, Bool.and_eq_true, Bool.not_eq_true']
    constructor
    · rintro ⟨hcall, htakes⟩
      rcases call_inv hcall with ⟨hfactor, hnext⟩ | ⟨x, r₁, xs, hx, -, hxs, heq⟩
      · cases callee_not_call hreg.1 hfactor hnext
      · obtain ⟨-, rfl, rfl⟩ := Node.call.inj heq
        obtain ⟨hreads, rfl⟩ := (hfirst r₁).mp hx
        obtain ⟨hmore, rfl⟩ := (hitems r).mp (harguments.symm.trans hxs)
        rw [bareStream, peek_kind] at htakes
        exact ⟨⟨⟨hreads, hmore⟩, htakes⟩, rfl⟩
    · rintro ⟨⟨⟨hreads, hmore⟩, htakes⟩, rfl⟩
      refine ⟨?_, ?_⟩
      · rw [Grammar.call, bind_of_ok ((hfirst _).mpr ⟨hreads, rfl⟩)]
        show (arguments (rules (k + 1)) >>= fun xs =>
          Parse.done (Node.call callee.erase.pos callee.erase xs)) (bareStream
            (TokenKind.lParen.token :: (itemTokens args ++ TokenKind.rParen.token :: rest))) = _
        rw [bind_of_ok (harguments.trans ((hitems _).mpr ⟨hmore, rfl⟩)), callee.pos_erase]
        rfl
      · rw [bareStream, peek_kind]
        exact htakes
  block k rest r h := nomatch h
  callee k rest r h := nomatch h


/-! ### Members -/

/-- A tier that starts with a group takes all of it. -/
theorem Tier.closing_of_group {t : Tier} {k : Nat} {s r : Stream} {m : Node} {u : Token}
    {us : List Token} (hahead : s.ahead = u :: us) (hu : u.kind = .lParen)
    (h : t.parser (rules k) s = .ok m r) :
    ∃ x r₁, Grammar.factor (rules k) s = .ok x r₁ ∧ closing 0 us = some r₁.ahead ∧
      r.ahead <:+ r₁.ahead := by
  obtain ⟨ahead, finish⟩ := s
  subst hahead
  have hkind : (⟨u :: us, finish⟩ : Stream).peek.kind = .lParen := hu
  have hplain : (⟨u :: us, finish⟩ : Stream).peek.kind.isSpecial = false := by
    rw [hkind]
    rfl
  have hs := trails_rules k
  cases hcall : Grammar.call (rules k) ⟨u :: us, finish⟩ with
  | error d r₁ =>
    by_cases ht : t = .call
    · rw [ht] at h
      exact nomatch hcall.symm.trans h
    · rw [Tier.parser_error hplain (bind_of_error hcall) t ht] at h
      cases h
  | ok y r₁ =>
    have hbehind : r.ahead <:+ r₁.ahead := by
      have hdecided := Tier.decided hs hcall t
      cases htakes : t.takes r₁.peek.kind with
      | true =>
        rw [htakes] at hdecided
        exact (hdecided m r h).1.trans (Trails.advance_suffix r₁)
      | false =>
        rw [htakes] at hdecided
        have hstop : t.parser (rules k) _ = .ok y r₁ := hdecided
        rw [h] at hstop
        cases hstop
        exact List.suffix_refl _
    obtain ⟨x, r₂, hx, hafter⟩ := bind_eq_ok hcall
    refine ⟨x, r₂, hx, ?_, hbehind.trans ?_⟩
    · rw [factor_eq, skipNewlines_eq (by rw [hkind]; decide), factorRule, hkind] at hx
      exact closing_of_parens hx
    · rcases call_inv hcall with ⟨hfactor, -⟩ | ⟨x', r₃, args, hx', -, hargs, -⟩
      · rw [hx] at hfactor
        cases hfactor
        exact List.suffix_refl _
      · rw [hx] at hx'
        cases hx'
        exact ((Trails.closed.arguments hs).of_ok hargs).1

theorem weightMore_pos (n : Node) (ns : List Node) : 0 < weightMore (n :: ns) := by
  rw [weightMore]
  omega

/-- No call gives the members that it starts. -/
theorem call_not_members {n m : Node} {ns : List Node} {rest : List Token} {k : Nat} {r : Stream}
    {pos : Position} (hreg : allRegular false (n :: m :: ns)) :
    Grammar.call (rules k) (bareStream (segmentTokens (n :: m :: ns) ++ rest)) ≠
      .ok (.members pos (eraseAll (n :: m :: ns))) r := by
  intro h
  have hlead : Leads false (segmentTokens (n :: m :: ns)) := ((n.leads hreg.1).wrap _).append _
  have hfirst := firstKind_append hlead rest
  have hfactor : Grammar.factor (rules k) (bareStream (segmentTokens (n :: m :: ns) ++ rest)) =
      .ok (.members pos (eraseAll (n :: m :: ns))) r := by
    rcases call_inv h with ⟨hfactor, -⟩ | ⟨_, _, _, _, _, _, heq⟩
    · exact hfactor
    · cases heq
  have hparen := factor_extended (by
    rw [bareStream, peek_kind, hfirst]
    exact (leads_ne hlead.firstKind.1).1) hfactor rfl
  have hshape := (n.shape hreg.1).wrap (isNumber n)
  obtain ⟨u, us, hu⟩ : ∃ u us, wrapped (isNumber n) n.tokens = u :: us := by
    obtain ⟨u, us, hu, -⟩ := (n.leads hreg.1).wrap (isNumber n)
    exact ⟨u, us, hu⟩
  have hsplit : segmentTokens (n :: m :: ns) ++ rest =
      u :: (us ++ (moreSegmentTokens (m :: ns) ++ rest)) := by
    rw [segmentTokens, hu]
    simp only [List.cons_append, List.append_assoc]
  rw [hsplit] at hparen
  obtain ⟨x, r₁, hx, hclosing, -⟩ := Tier.closing_of_group (t := .call) (s := bareStream
    (segmentTokens (n :: m :: ns) ++ rest)) hsplit hparen h
  rw [hfactor] at hx
  cases hx
  -- The group closes in front of the other segments, which weigh something.
  obtain ⟨inner, hinner⟩ := hshape.opened u us hu hparen (moreSegmentTokens (m :: ns) ++ rest)
  rw [hinner] at hclosing
  have hahead : inner ++ (moreSegmentTokens (m :: ns) ++ rest) = r.ahead :=
    Option.some.inj hclosing
  have hweight := Tier.weight_eq (t := .call) h
  have hmore := (moreSegmentTokens_shape (m :: ns) hreg.2).weighs
  have hall := (segmentTokens_shape (n :: m :: ns) hreg).weighs
  have hpos := weightMore_pos m ns
  have herase : (Node.members pos (eraseAll (n :: m :: ns))).weight =
      weightSegments (n :: m :: ns) := by
    rw [show (Node.members pos (eraseAll (n :: m :: ns))).weight =
      (Node.members pos (n :: m :: ns)).erase.weight from rfl, Node.weight_erase]
    rfl
  rw [herase, ← hahead, weight_append, weight_append] at hweight
  rw [show (bareStream (segmentTokens (n :: m :: ns) ++ rest)).ahead =
    segmentTokens (n :: m :: ns) ++ rest from rfl, weight_append] at hweight
  omega

theorem access_members_iff {n m : Node} {ns : List Node} {rest : List Token} {k : Nat} {r : Stream}
    (hreg : allRegular false (n :: m :: ns)) :
    Grammar.access (rules k) (bareStream (segmentTokens (n :: m :: ns) ++ rest)) =
        .ok (.members .none (eraseAll (n :: m :: ns))) r ↔
      withMore (Grammar.call (rules k)) (fun s => segmentsRest (rules k) s.ahead.length s)
        (bareStream (segmentTokens (n :: m :: ns) ++ rest)) = .ok (eraseAll (n :: m :: ns)) r := by
  constructor
  · intro h
    obtain ⟨x, r₁, more, hx, hmore, heq⟩ := access_inv h
    cases more with
    | nil =>
      change _ = x at heq
      rw [← heq] at hx
      exact absurd hx (call_not_members hreg)
    | cons y ys =>
      obtain ⟨-, hnodes⟩ := Node.members.inj heq
      rw [hnodes]
      exact (bind_of_ok hx).trans (bind_of_ok hmore)
  · intro h
    obtain ⟨x, r₁, hx, h⟩ := bind_eq_ok h
    obtain ⟨more, r₂, hmore, h⟩ := bind_eq_ok h
    obtain ⟨hnodes, rfl⟩ := Reply.ok.inj h
    rw [eraseAll, eraseAll, List.cons.injEq] at hnodes
    obtain ⟨rfl, rfl⟩ := hnodes
    rw [access_apply hx, bind_of_ok hmore, withSegments, n.pos_erase]
    · rfl
    · exact nofun

theorem leads_special {k : TokenKind} (h : k.leads = true) (hj : k.jumps = false)
    (hs : k.isSpecial = true) : k = .keyword .var_ := by
  revert h hj hs
  cases k with
  | keyword k => cases k <;> decide
  | _ => decide

/-- Members that start with a declaration are swallowed by it. -/
theorem members_var {n m : Node} {ns : List Node} {rest : List Token} {k : Nat}
    (hexact : n.Exact) (hreg : allRegular false (n :: m :: ns)) (t : Tier)
    (hk : (segmentTokens (n :: m :: ns) ++ rest).length ≤ k)
    (hvar : firstKind (segmentTokens (n :: m :: ns) ++ rest) = .keyword .var_) (f : Follow) :
    segmentsRead f (n :: m :: ns) = false ∧ ∀ pos segments r,
      t.parser (rules k) (bareStream (segmentTokens (n :: m :: ns) ++ rest)) ≠
        .ok (.members pos segments) r := by
  have hpeek : (bareStream (segmentTokens (n :: m :: ns) ++ rest)).peek.kind = .keyword .var_ := by
    rw [bareStream, peek_kind]
    exact hvar
  constructor
  · cases hreads : segmentsRead f (n :: m :: ns) with
    | false => rfl
    | true =>
      exfalso
      have hsplit : segmentTokens (n :: m :: ns) ++ rest = wrapped (isNumber n) n.tokens ++
          TokenKind.point.token :: (segmentTokens (m :: ns) ++ rest) := by
        simp only [segmentTokens, moreSegmentTokens, List.append_assoc, List.cons_append]
      rw [segmentsRead, Bool.and_eq_true] at hreads
      have hcall := call_segmentExact k n (TokenKind.point.token :: (segmentTokens (m :: ns) ++ rest))
        (bareStream (settle n.endsBare (TokenKind.point.token :: (segmentTokens (m :: ns) ++ rest))))
        hexact hreg.1 (Calm.cons _ rfl (by decide)) (by rw [← hsplit]; exact hk)
      rw [Follow.of_cons _ _ (by decide)] at hcall
      have hrun := hcall.mpr ⟨hreads.1, rfl⟩
      rw [← hsplit] at hrun
      have hplain := call_plain hrun
      rw [hpeek] at hplain
      cases hplain
  · intro pos segments r hrun
    cases ht : t.declares with
    | false =>
      obtain ⟨d, hd⟩ := Tier.parser_var (rules k) hpeek ht
      rw [hd] at hrun
      cases hrun
    | true =>
      rw [Tier.parser_declaration hpeek ht] at hrun
      obtain ⟨_, _, _, heq⟩ := declaration_inv hrun
      cases heq

theorem takes_point {t : Tier} (ht : t ≠ .call) {k : TokenKind} (h : t.takes k = false) :
    k ≠ .point := by
  rintro rfl
  cases t with
  | call => exact ht rfl
  | _ => cases h

theorem Node.exact_members (pos : Position) {segments : List Node} (hexact : AllExact segments) :
    (Node.members pos segments).Exact where
  tier t k rest r hreg hcalm hk := by
    replace hreg := hreg.strict rfl
    match segments with
    | [] => exact absurd hreg.1 (by decide)
    | [_] => exact absurd hreg.1 (by simp)
    | n :: m :: ns =>
      have hregular : allRegular false (n :: m :: ns) := hreg.2
      rw [show (Node.members pos (n :: m :: ns)).tokens = segmentTokens (n :: m :: ns) from rfl]
        at hk ⊢
      rw [show (Node.members pos (n :: m :: ns)).erase =
        .members .none (eraseAll (n :: m :: ns)) from rfl, Node.reads]
      by_cases ht : t = .call
      · subst ht
        exact ⟨fun h => absurd h (call_not_members hregular), fun h => (nomatch h.1)⟩
      have hlead : Leads false (segmentTokens (n :: m :: ns)) :=
        ((n.leads hregular.1).wrap _).append _
      have hfirst := firstKind_append hlead rest
      cases hspecial : (firstKind (segmentTokens (n :: m :: ns) ++ rest)).isSpecial with
      | true =>
        have hjump : (firstKind (segmentTokens (n :: m :: ns))).jumps = false := by
          cases hj : (firstKind (segmentTokens (n :: m :: ns))).jumps with
          | false => rfl
          | true => exact nomatch hlead.firstKind.2 hj
        have hvar := leads_special (by rw [hfirst]; exact hlead.firstKind.1)
          (by rw [hfirst]; exact hjump) hspecial
        obtain ⟨hreads, hrun⟩ := members_var (hexact n List.mem_cons_self) hregular t hk hvar
          (Follow.of rest)
        rw [hreads, Bool.and_false, Bool.false_and]
        exact ⟨fun h => absurd h (hrun _ _ _), fun h => (nomatch h.1)⟩
      | false =>
        rw [Tier.parser_iff_access (trails_rules k) (by rw [bareStream, peek_kind]; exact hspecial)
          rfl t ht, access_members_iff hregular,
          segments_exact hcalm (call_segmentExact k) n (m :: ns) hexact hregular
            (fun s => s.ahead.length) hk (fun _ _ => Nat.le_refl _),
          bne_iff_ne.mpr ht, Bool.true_and, Bool.and_eq_true, Bool.not_eq_true']
        constructor
        · rintro ⟨⟨⟨hreads, -⟩, rfl⟩, htakes⟩
          have hbare := segments_beyond_of_bare (n :: m :: ns) hreads
          rw [bareStream, peek_kind, settle_takes hcalm hbare] at htakes
          exact ⟨⟨hreads, htakes⟩, rfl⟩
        · rintro ⟨⟨hreads, htakes⟩, rfl⟩
          have hbare := segments_beyond_of_bare (n :: m :: ns) hreads
          refine ⟨⟨⟨hreads, takes_point ht htakes⟩, rfl⟩, ?_⟩
          show t.takes (bareStream (settle (lastEndsBare (n :: m :: ns)) rest)).peek.kind = false
          rw [bareStream, peek_kind, settle_takes hcalm hbare]
          exact htakes
  block k rest r h := nomatch h
  callee k rest r h := nomatch h


/-! ### Operators before an operand -/

/-- What no operator makes is the first operand of a chain, if no operator follows. -/
theorem chain_iff {p : Parse Node} {op? : TokenKind → Option BinaryOp} (hp : Trails Node p)
    (hend : op? .endOfCode = none) {s r : Stream} {m : Node} (hm : m.isBinary = false) :
    chain p op? s = .ok m r ↔ p s = .ok m r ∧ op? r.peek.kind = none := by
  constructor
  · intro h
    obtain ⟨x, s₁, hx, hcase⟩ := chain_inv hp hend h
    rcases hcase with ⟨rfl, rfl, hstop⟩ | ⟨-, hlast⟩
    · exact ⟨hx, hstop⟩
    · have hbinary := (hlast.suffix hp).2
      rw [hm] at hbinary
      cases hbinary
  · rintro ⟨hx, hstop⟩
    exact chain_stop hx hstop

theorem UnaryOp.operand_ne (op : UnaryOp) : (op.operand == .statement) = false := by
  cases op <;> rfl

/-- An operator and its operand, in front of the parenthesis that closes them. -/
theorem operand_exact {operand : Node} (hoperand : operand.Exact) (op : UnaryOp) {k : Nat}
    (rest : List Token) (hreg : operand.Regular false)
    (hk : (wrapped (isGreedy operand) operand.tokens ++ TokenKind.rParen.token :: rest).length ≤ k)
    (r : Stream) :
    Grammar.expression (rules (k + 1)) (bareStream (op.kind.token ::
        (wrapped (isGreedy operand) operand.tokens ++ TokenKind.rParen.token :: rest))) =
          .ok (.unary .none op operand.erase) r ↔
      wrappedReads (isGreedy operand) op.operand (.token .rParen) (fun t f => operand.reads t f) =
          true ∧ r = bareStream (TokenKind.rParen.token :: rest) := by
  have hs := trails_rules (k + 1)
  have hlead := (operand.leads hreg).wrap (isGreedy operand)
  have hskip : (bareStream (wrapped (isGreedy operand) operand.tokens ++
      TokenKind.rParen.token :: rest)).skipNewlines = bareStream (wrapped (isGreedy operand)
        operand.tokens ++ TokenKind.rParen.token :: rest) := by
    refine skipNewlines_eq ?_
    rw [bareStream, peek_kind, firstKind_append hlead]
    exact (leads_ne hlead.firstKind.1).1
  have hrun := wrapped_exact hoperand (isGreedy operand) (t := op.operand) (k := k)
    (by rw [op.operand_ne]; exact hreg) (fun _ => hreg)
    (Calm.cons (t := TokenKind.rParen.token) rest rfl (by decide)) hk
  rw [Follow.of_cons _ _ (by decide), settle_cons _ _ (by decide)] at hrun
  have hbuild := fun r' => build_exact (g := fun x => Node.unary .none op x) (r := r') hrun rfl
    fun x h => (Node.unary.inj h).2.2
  rw [← hskip] at hbuild
  -- The token behind the operand neither goes on nor calls.
  have hdrop : ∀ {P : Stream → Prop}, P (bareStream (TokenKind.rParen.token :: rest)) →
      ((wrappedReads (isGreedy operand) op.operand (.token .rParen)
        (fun t f => operand.reads t f) = true ∧ r = bareStream (TokenKind.rParen.token :: rest)) ∧
          P r ↔ wrappedReads (isGreedy operand) op.operand (.token .rParen)
            (fun t f => operand.reads t f) = true ∧
              r = bareStream (TokenKind.rParen.token :: rest)) := fun hP =>
    ⟨fun h => h.1, fun h => ⟨h, h.2 ▸ hP⟩⟩
  cases op with
  | not_ =>
    rw [expression_eq _ (fun h => by cases h), chain_iff (Trails.closed.negation hs) rfl rfl,
      negation_not rfl]
    exact (and_congr (hbuild r) Iff.rfl).trans (hdrop (P := fun r => logicOp? r.peek.kind = none) rfl)
  | plus =>
    rw [show Grammar.expression (rules (k + 1)) = Tier.parser (rules (k + 1)) .expression from rfl,
      Tier.parser_iff_call hs rfl rfl, call_iff_factor rfl, and_assoc]
    exact (and_congr (hbuild r) Iff.rfl).trans (hdrop (P := fun r => r.peek.kind ≠ .lParen ∧
      Tier.takes .expression r.peek.kind = false) ⟨fun h => (by cases h), rfl⟩)
  | negate =>
    rw [show Grammar.expression (rules (k + 1)) = Tier.parser (rules (k + 1)) .expression from rfl,
      Tier.parser_iff_call hs rfl rfl, call_iff_factor rfl, and_assoc]
    exact (and_congr (hbuild r) Iff.rfl).trans (hdrop (P := fun r => r.peek.kind ≠ .lParen ∧
      Tier.takes .expression r.peek.kind = false) ⟨fun h => (by cases h), rfl⟩)

theorem Node.exact_unary (pos : Position) (op : UnaryOp) {operand : Node}
    (hoperand : operand.Exact) : (Node.unary pos op operand).Exact where
  tier t k rest r hreg hcalm hk := by
    replace hreg := hreg.strict rfl
    have hlist : (Node.unary pos op operand).tokens ++ rest = TokenKind.lParen.token ::
        (op.kind.token :: wrapped (isGreedy operand) operand.tokens ++
          TokenKind.rParen.token :: rest) := by
      rw [Node.tokens]
      simp only [List.cons_append, List.append_assoc, List.nil_append]
    have hshape : Shape (op.kind.token :: wrapped (isGreedy operand) operand.tokens)
        (Node.unary pos op operand).erase.weight := by
      refine (((operand.shape hreg).wrap (isGreedy operand)).cons op.kind_facts.1).congr ?_
      rw [op.kind_facts.2, Node.weight_erase, Node.weight]
    have hline : firstKind (op.kind.token :: wrapped (isGreedy operand) operand.tokens ++
        TokenKind.rParen.token :: rest) ≠ .newline := by
      cases op <;> exact nofun
    rw [hlist] at hk ⊢
    simp only [List.cons_append, List.length_cons] at hk
    obtain ⟨k, rfl⟩ : ∃ l, k = l + 2 := ⟨k - 2, by omega⟩
    have hoperator := operand_exact hoperand op (k := k) rest hreg (by omega)
    rw [bareStream, Tier.parser_group hshape hline (not_call_of_calm hcalm), Node.reads,
      Bool.and_eq_true, Bool.not_eq_true', and_assoc]
    refine and_congr ?_ Iff.rfl
    constructor
    · rintro ⟨r₁, hrun, -⟩
      exact ((hoperator r₁).mp hrun).1
    · intro hreads
      exact ⟨_, (hoperator _).mpr ⟨hreads, rfl⟩, rfl⟩
  block k rest r h := nomatch h
  callee k rest r h := nomatch h

/-! ### Operators between operands -/

theorem Node.isExtended_of_isBinary {n : Node} (h : n.isBinary = true) : n.isExtended = true := by
  cases n with
  | binary _ _ _ _ => rfl
  | _ => cases h

theorem Node.isBinary_erase (n : Node) : n.erase.isBinary = n.isBinary := by
  cases n <;> rfl

theorem BinaryOp.operand_facts (op : BinaryOp) :
    (op.operand == .statement) = false ∧ op.kind.binds = false ∧ op.kind ≠ .newline ∧
      op.kind ≠ .endOfCode := by
  cases op with
  | arithmetic op => cases op <;> exact ⟨rfl, rfl, by decide, by decide⟩
  | _ => exact ⟨rfl, rfl, by decide, by decide⟩

section

variable {left right : Node} {op : BinaryOp} {k : Nat} {rest : List Token}

/-- The operands and the operator between them, in front of the parenthesis that closes them. -/
def operandTokens (left : Node) (op : BinaryOp) (right : Node) : List Token :=
  wrapped (isGreedy left) left.tokens ++ op.kind.token :: wrapped (isGreedy right) right.tokens

/-- What stands behind the left operand. -/
def behindLeft (op : BinaryOp) (right : Node) (rest : List Token) : List Token :=
  op.kind.token :: (wrapped (isGreedy right) right.tokens ++ TokenKind.rParen.token :: rest)

theorem operandTokens_eq :
    operandTokens left op right ++ TokenKind.rParen.token :: rest =
      wrapped (isGreedy left) left.tokens ++ behindLeft op right rest := by
  rw [operandTokens, behindLeft, List.append_assoc, List.cons_append]

theorem behindLeft_weight (hright : right.Regular false) :
    weight (behindLeft op right rest) = 1 + right.weight + weight rest := by
  rw [behindLeft, weight, op.kind_facts.2, weight_append, weight,
    ((right.shape hright).wrap (isGreedy right)).weighs]
  show 1 + (right.weight + (0 + weight rest)) = _
  omega

/-- A group at the front of the left operand closes in front of the operator. -/
theorem left_group (hleft : left.Regular false) {u : Token} {us : List Token}
    (hu : wrapped (isGreedy left) left.tokens ++ behindLeft op right rest = u :: us)
    (hparen : u.kind = .lParen) :
    ∃ inner, closing 0 us = some (inner ++ behindLeft op right rest) := by
  obtain ⟨v, vs, hv, -⟩ := (left.leads hleft).wrap (isGreedy left)
  rw [hv, List.cons_append, List.cons.injEq] at hu
  obtain ⟨rfl, rfl⟩ := hu
  exact ((left.shape hleft).wrap (isGreedy left)).opened v vs hv hparen _

/-- The left operand is no group that holds the operator. -/
theorem call_not_operands (hleft : left.Regular false) (hright : right.Regular false)
    {r : Stream} {m : Node} (hm : m.isBinary = true)
    (h : Grammar.call (rules k) (bareStream (wrapped (isGreedy left) left.tokens ++
      behindLeft op right rest)) = .ok m r) :
    weight rest < weight r.ahead := by
  have hlead := (left.leads hleft).wrap (isGreedy left)
  have hfirst := firstKind_append hlead (behindLeft op right rest)
  have hfactor : Grammar.factor (rules k) (bareStream (wrapped (isGreedy left) left.tokens ++
      behindLeft op right rest)) = .ok m r := by
    rcases call_inv h with ⟨hfactor, -⟩ | ⟨_, _, _, _, _, _, rfl⟩
    · exact hfactor
    · cases hm
  have hparen := factor_extended (by
    rw [bareStream, peek_kind, hfirst]
    exact (leads_ne hlead.firstKind.1).1) hfactor (Node.isExtended_of_isBinary hm)
  obtain ⟨u, hu, hahead⟩ := ahead_of_peek (by decide) hparen
  obtain ⟨x, r₁, hx, hclosing, -⟩ := Tier.closing_of_group (t := .call) hahead hu h
  rw [hfactor] at hx
  cases hx
  obtain ⟨inner, hinner⟩ := left_group hleft hahead hu
  rw [hinner] at hclosing
  rw [← Option.some.inj hclosing, weight_append, behindLeft_weight hright]
  omega

/-- An operand of a left operand that is itself made by an operator takes the whole group. -/
theorem left_binary (hbinary : left.isBinary = true) (hleft : left.Regular false) {t : Tier}
    {s r : Stream} {m : Node} (hs : s.ahead = wrapped (isGreedy left) left.tokens ++
      behindLeft op right rest) (h : t.parser (rules k) s = .ok m r) :
    r.ahead <:+ behindLeft op right rest := by
  cases left with
  | binary pos lop l₁ l₂ =>
    have hinside := ((l₁.shape hleft.1).wrap (isGreedy l₁)).append
      (((l₂.shape hleft.2).wrap (isGreedy l₂)).cons lop.kind_facts.1)
    have hsplit : wrapped (isGreedy (.binary pos lop l₁ l₂)) (Node.binary pos lop l₁ l₂).tokens ++
        behindLeft op right rest = TokenKind.lParen.token :: (operandTokens l₁ lop l₂ ++
          TokenKind.rParen.token :: behindLeft op right rest) := by
      show (Node.binary pos lop l₁ l₂).tokens ++ _ = _
      rw [Node.tokens, operandTokens]
      simp only [List.cons_append, List.append_assoc, List.nil_append]
    obtain ⟨x, r₁, -, hclosing, hsuffix⟩ := Tier.closing_of_group (hs.trans hsplit) rfl h
    rw [operandTokens, hinside.closing_group] at hclosing
    rw [← Option.some.inj hclosing] at hsuffix
    exact hsuffix
  | _ => cases hbinary

/-- The operator that makes the node is the one between its operands. -/
theorem took_operands (hleft : left.Regular false) (hright : right.Regular false) {r : Stream}
    (hr : weight r.ahead = weight rest)
    (h : TookOperator (rules k) (bareStream (wrapped (isGreedy left) left.tokens ++
      behindLeft op right rest)) op left.erase right.erase r) :
    op.operand.parser (rules k) (bareStream (wrapped (isGreedy left) left.tokens ++
        behindLeft op right rest)) = .ok left.erase (bareStream (behindLeft op right rest)) ∧
      op.operand.parser (rules k) (bareStream (wrapped (isGreedy right) right.tokens ++
        TokenKind.rParen.token :: rest)) = .ok right.erase r := by
  obtain ⟨x, s₀, s₁, hx, hkind, hfinish, hy, hcase⟩ := h
  have htrail := (op.operand.trails (trails_rules k)).of_ok hx
  have hbefore : s₁.ahead <:+ s₀.ahead := by
    rcases hcase with ⟨-, rfl⟩ | ⟨-, hsuffix⟩
    · exact List.suffix_refl _
    · exact hsuffix.trans (Trails.advance_suffix s₀)
  obtain ⟨u, hu, hahead⟩ := ahead_of_peek op.operand_facts.2.2.2 hkind
  have hweight : weight s₁.ahead = weight (behindLeft op right rest) := by
    have hoperand := Tier.weight_eq hy
    rw [weight_skipNewlines, Node.weight_erase] at hoperand
    rw [hahead, weight, hu, behindLeft_weight hright,
      show op.kind.weight = 1 from op.kind_facts.2]
    omega
  have hplace : s₁.ahead = behindLeft op right rest := by
    rw [hahead] at hweight hbefore ⊢
    refine suffix_eq_of_weight (hbefore.trans htrail.1) (List.suffix_append _ _) hweight ?_ ?_
    · rw [hu, show op.kind.weight = 1 from op.kind_facts.2]
      exact Nat.one_pos
    · rw [op.kind_facts.2]
      exact Nat.one_pos
  have hs₁ : s₁ = bareStream (behindLeft op right rest) := by
    have hend : s₁.finish = .none := hfinish.trans htrail.2
    obtain ⟨ahead₁, finish₁⟩ := s₁
    subst hplace hend
    rfl
  have hlead := (right.leads hright).wrap (isGreedy right)
  have hskip : s₁.advance.skipNewlines = bareStream (wrapped (isGreedy right) right.tokens ++
      TokenKind.rParen.token :: rest) := by
    rw [hs₁]
    refine skipNewlines_eq (s := bareStream (wrapped (isGreedy right) right.tokens ++
      TokenKind.rParen.token :: rest)) ?_
    rw [bareStream, peek_kind, firstKind_append hlead]
    exact (leads_ne hlead.firstKind.1).1
  rw [hskip] at hy
  refine ⟨?_, hy⟩
  rcases hcase with ⟨rfl, rfl⟩ | ⟨hbinary, hsuffix⟩
  · rw [hx, hs₁]
  · -- Behind the first operand too little is left for the operator.
    exfalso
    rw [Node.isBinary_erase] at hbinary
    have hshort := (left_binary hbinary hleft rfl hx).length_le
    have hlong := hsuffix.length_le
    rw [hplace] at hlong
    rw [behindLeft, List.length_cons] at hshort hlong
    have hdrop : s₀.advance.ahead.length = s₀.ahead.length - 1 := List.length_tail
    omega

theorem operands_exact (hleft : left.Exact) (hright : right.Exact) (hregLeft : left.Regular false)
    (hregRight : right.Regular false)
    (hk : (wrapped (isGreedy left) left.tokens ++ behindLeft op right rest).length ≤ k) :
    (∃ r, Grammar.expression (rules k) (bareStream (wrapped (isGreedy left) left.tokens ++
        behindLeft op right rest)) = .ok (.binary .none op left.erase right.erase) r ∧
          r.skipNewlines = bareStream (TokenKind.rParen.token :: rest)) ↔
      wrappedReads (isGreedy left) op.operand (.token op.kind) (fun t f => left.reads t f) = true ∧
        wrappedReads (isGreedy right) op.operand (.token .rParen)
          (fun t f => right.reads t f) = true := by
  obtain ⟨hoperand, hbinds, hline, -⟩ := op.operand_facts
  have hcalm : Calm (behindLeft op right rest) := Calm.cons _ hbinds hline
  have hfirst := wrapped_exact hleft (isGreedy left) (t := op.operand) (k := k)
    (by rw [hoperand]; exact hregLeft) (fun _ => hregLeft) hcalm hk
  rw [behindLeft, Follow.of_cons _ _ hline, settle_cons _ _ hline, ← behindLeft] at hfirst
  have hsecond := wrapped_exact hright (isGreedy right) (t := op.operand) (k := k)
    (by rw [hoperand]; exact hregRight) (fun _ => hregRight)
    (Calm.cons (t := TokenKind.rParen.token) rest rfl (by decide)) (by
      rw [List.length_append, behindLeft, List.length_cons] at hk
      omega)
  rw [Follow.of_cons _ _ (by decide), settle_cons _ _ (by decide)] at hsecond
  constructor
  · rintro ⟨r, hrun, hend⟩
    have hweight : weight r.ahead = weight rest := by
      rw [← weight_skipNewlines, hend]
      exact Nat.zero_add _
    rcases expression_operator (trails_rules k) hrun with hcall | htook
    · have hlt := call_not_operands hregLeft hregRight rfl hcall
      omega
    · obtain ⟨hl, hr⟩ := took_operands hregLeft hregRight hweight htook
      exact ⟨((hfirst _).mp hl).1, ((hsecond _).mp hr).1⟩
  · rintro ⟨hl, hr⟩
    have hlead := (right.leads hregRight).wrap (isGreedy right)
    have hskip : (bareStream (behindLeft op right rest)).advance.skipNewlines =
        bareStream (wrapped (isGreedy right) right.tokens ++ TokenKind.rParen.token :: rest) := by
      refine skipNewlines_eq (s := bareStream (wrapped (isGreedy right) right.tokens ++
        TokenKind.rParen.token :: rest)) ?_
      rw [bareStream, peek_kind, firstKind_append hlead]
      exact (leads_ne hlead.firstKind.1).1
    refine ⟨bareStream (TokenKind.rParen.token :: rest),
      expression_of_operands ((hfirst _).mpr ⟨hl, rfl⟩) rfl ?_ rfl, rfl⟩
    rw [hskip]
    exact (hsecond _).mpr ⟨hr, rfl⟩

end

theorem Node.exact_binary (pos : Position) (op : BinaryOp) {left right : Node}
    (hleft : left.Exact) (hright : right.Exact) : (Node.binary pos op left right).Exact where
  tier t k rest r hreg hcalm hk := by
    replace hreg := hreg.strict rfl
    have hlist : (Node.binary pos op left right).tokens ++ rest = TokenKind.lParen.token ::
        (operandTokens left op right ++ TokenKind.rParen.token :: rest) := by
      rw [Node.tokens, operandTokens]
      simp only [List.cons_append, List.append_assoc, List.nil_append]
    have hshape : Shape (operandTokens left op right)
        (Node.binary pos op left right).erase.weight := by
      refine (((left.shape hreg.1).wrap (isGreedy left)).append
        (((right.shape hreg.2).wrap (isGreedy right)).cons op.kind_facts.1)).congr ?_
      rw [op.kind_facts.2, Node.weight_erase, Node.weight]
      omega
    have hlead : Leads false (operandTokens left op right) :=
      ((left.leads hreg.1).wrap (isGreedy left)).append _
    have hline : firstKind (operandTokens left op right ++ TokenKind.rParen.token :: rest) ≠
        .newline := by
      rw [firstKind_append hlead]
      exact (leads_ne hlead.firstKind.1).1
    rw [hlist] at hk ⊢
    rw [List.length_cons, operandTokens_eq] at hk
    obtain ⟨k, rfl⟩ : ∃ l, k = l + 1 := ⟨k - 1, by omega⟩
    have hoperands := operands_exact hleft hright hreg.1 hreg.2 (Nat.le_of_succ_le_succ hk)
    rw [bareStream, Tier.parser_group hshape hline (not_call_of_calm hcalm), Node.reads,
      Bool.and_eq_true, Bool.and_eq_true, Bool.not_eq_true', and_assoc, operandTokens_eq]
    exact and_congr hoperands Iff.rfl
  block k rest r h := nomatch h
  callee k rest r h := nomatch h


end ScriptEngine
