import ScriptEngine.Proofs.ParserTiers

/-! # Groups

What is in parentheses is parsed up to the parenthesis that closes them, because the parentheses
inside match. Where a node is parsed from its own weight of tokens, nothing behind it was taken. -/

namespace ScriptEngine

open Parse Grammar Canonical

/-! ### Accounts of a tier -/

theorem literals_any : Spends.Literals fun _ => True :=
  ⟨trivial, trivial⟩

theorem build_rules (k : Nat) : (rules k).Build (fun _ => True) fun _ => True :=
  Spends.rules literals_any k

theorem fine_any (t : Token) : t.Fine (fun _ => True) fun _ => True :=
  ⟨fun _ => trivial, fun _ _ _ => trivial⟩

theorem tier_builds (k : Nat) (t : Tier) :
    Builds (fun _ => True) (fun _ => True) (fun _ => True) (t == .statement)
      (t.parser (rules k)) := by
  have hs := build_rules k
  cases t with
  | call => exact Spends.call hs literals_any
  | access => exact Spends.access hs literals_any
  | term => exact Spends.term hs literals_any
  | sum => exact Spends.sum hs literals_any
  | comparison => exact Spends.comparison hs literals_any
  | negation => exact Spends.negation hs literals_any
  | expression => exact Spends.expression hs literals_any
  | statement => exact Spends.statement hs literals_any

variable {k : Nat} {s r : Stream} {m : Node} {t : Tier}

/-- The tokens that were taken weigh as much as the node. -/
theorem Tier.weight_eq (h : t.parser (rules k) s = .ok m r) :
    weight s.ahead = m.weight + weight r.ahead := by
  have hweight := (tier_builds k t 0 s (fun t _ => fine_any t) trivial m r h).2.1
  omega

theorem closing_skipNewlines (s : Stream) (d : Nat) :
    closing d s.skipNewlines.ahead = closing d s.ahead :=
  ((Spends.skipNewlines (V := fun _ => True) (N := fun _ => True) (j := 0) (P := fun _ => True)
    s (fun t _ => fine_any t) trivial () s.skipNewlines rfl).2.2.1 d).symm

theorem weight_skipNewlines (s : Stream) : weight s.skipNewlines.ahead = weight s.ahead := by
  have hweight := (Spends.skipNewlines (V := fun _ => True) (N := fun _ => True) (j := 0)
    (P := fun _ => True) s (fun t _ => fine_any t) trivial () s.skipNewlines rfl).2.1
  dsimp only at hweight
  omega

theorem peek_kind (ts : List Token) (e : Position) :
    (⟨ts, e⟩ : Stream).peek.kind = firstKind ts := by
  cases ts with
  | nil => rfl
  | cons t ts => rfl

/-! ### The rule of a group -/

theorem parens_iff {self : Rules} :
    parens self s = .ok m r ↔ ∃ r₁, self.expression s.advance.skipNewlines = .ok m r₁ ∧
      r₁.skipNewlines.peek.kind = .rParen ∧ r = r₁.skipNewlines.advance := by
  have hparens : parens self s = (self.expression >>= fun inner => skipNewlines >>= fun _ =>
      expect .rParen "')'" >>= fun _ => Parse.done inner) s.advance.skipNewlines := by
    rw [parens, discard_bind]
    show (self.expression >>= fun inner => skipNewlines >>= fun _ =>
      Functor.discard (expect .rParen "')'") >>= fun _ => Parse.done inner)
        s.advance.skipNewlines = _
    simp only [discard_bind]
  rw [hparens]
  constructor
  · intro h
    obtain ⟨inner, r₁, hinner, h⟩ := bind_eq_ok h
    obtain ⟨_, _, hskip, h⟩ := bind_eq_ok h
    cases hskip
    obtain ⟨_, _, hexpect, h⟩ := bind_eq_ok h
    cases h
    refine ⟨r₁, hinner, ?_⟩
    rw [expect] at hexpect
    by_cases hk : r₁.skipNewlines.peek.kind = .rParen
    · rw [beq_iff_eq.mpr hk] at hexpect
      cases hexpect
      exact ⟨hk, rfl⟩
    · rw [beq_false_of_ne hk] at hexpect
      cases hexpect
  · rintro ⟨r₁, hinner, hk, rfl⟩
    rw [bind_of_ok hinner]
    have hexpect : expect .rParen "')'" r₁.skipNewlines =
        .ok r₁.skipNewlines.peek r₁.skipNewlines.advance := by
      rw [expect, beq_iff_eq.mpr hk]
      rfl
    exact bind_of_ok hexpect

theorem ahead_of_peek {kind : TokenKind} (hkind : kind ≠ .endOfCode) (h : s.peek.kind = kind) :
    ∃ t, t.kind = kind ∧ s.ahead = t :: s.advance.ahead := by
  obtain ⟨ahead, finish⟩ := s
  cases ahead with
  | nil => exact absurd h.symm hkind
  | cons t ts => exact ⟨t, h, rfl⟩

theorem not_newline_of_skip (s : Stream) : s.skipNewlines.peek.kind ≠ .newline := by
  intro hk
  obtain ⟨t, ht, hahead⟩ := ahead_of_peek (by decide) hk
  have hhead := List.head?_dropWhile_not (fun t : Token => t.kind == .newline) s.ahead
  rw [show s.ahead.dropWhile (fun t : Token => t.kind == .newline) = s.skipNewlines.ahead from rfl,
    hahead] at hhead
  simp only [List.head?_cons, ht, beq_self_eq_true] at hhead
  cases hhead

theorem attempt_some_iff {α : Type} {p : Parse α} {s r : Stream} {a : α} :
    attempt p s = .ok (some a) r ↔ p s = .ok a r := by
  rw [attempt]
  cases p s with
  | ok b r' =>
    dsimp only
    rw [Reply.ok.injEq, Reply.ok.injEq, Option.some.injEq]
  | error d r' =>
    dsimp only
    split
    · exact ⟨fun h => (by cases (Reply.ok.inj h).1), fun h => by cases h⟩
    · exact ⟨fun h => (by cases h), fun h => by cases h⟩

/-- What is missed takes nothing. -/
theorem not_bites_of_attempt {α : Type} {p : Parse α} {s r : Stream}
    (h : attempt p s = .ok none r) : ¬p.Bites s := by
  intro hbites
  unfold Bites at hbites
  unfold Parse.attempt at h
  cases hrun : p s with
  | ok a r₁ =>
    rw [hrun] at h
    cases h
  | error d r₁ =>
    rw [hrun] at h hbites
    have hne : r₁.ahead.length ≠ s.ahead.length := Nat.ne_of_lt hbites
    dsimp only at h
    rw [if_neg hne] at h
    cases h

/-- Nothing is returned exactly where nothing follows that starts an expression. -/
theorem attempt_none_iff {self : Rules} (hs : self.Has Trails) {s r : Stream}
    (hline : s.peek.kind ≠ .newline) :
    attempt (Grammar.expression self) s = .ok none r ↔ s.peek.kind.starts = false ∧ r = s := by
  cases hstart : s.peek.kind.starts with
  | false =>
    obtain ⟨d, hd⟩ := expression_miss self hstart hline
    rw [attempt, hd]
    dsimp only
    rw [if_pos rfl]
    exact ⟨fun h => ⟨rfl, (Reply.ok.inj h).2.symm⟩, fun h => by rw [h.2]⟩
  | true =>
    refine ⟨fun h => ?_, fun h => by cases h.1⟩
    exact absurd (expression_bites self hs hstart) (not_bites_of_attempt h)

theorem closing_of_expression (h : (rules k).expression s = .ok m r) (d : Nat) :
    closing d s.ahead = closing d r.ahead :=
  ((build_rules k).expression 0 s (fun t _ => fine_any t) trivial m r h).2.2.1 d

/-- The rule of a group leaves what is behind the parenthesis that closes it. -/
theorem closing_of_parens {ts : List Token} {e : Position} {t : Token}
    (h : parens (rules k) ⟨t :: ts, e⟩ = .ok m r) : closing 0 ts = some r.ahead := by
  obtain ⟨r₁, hinner, hk, rfl⟩ := parens_iff.mp h
  obtain ⟨u, hu, hahead⟩ := ahead_of_peek (by decide) hk
  have hstart := closing_skipNewlines ⟨ts, e⟩ 0
  have hend := closing_skipNewlines r₁ 0
  rw [hahead, closing_close_zero hu] at hend
  exact hstart.symm.trans ((closing_of_expression hinner 0).trans hend.symm)

theorem factor_group {ts rest : List Token} {w : Nat} {e : Position} (hts : Shape ts w)
    (hline : (firstKind (ts ++ TokenKind.rParen.token :: rest)) ≠ .newline) :
    factor (rules k) ⟨TokenKind.lParen.token :: (ts ++ TokenKind.rParen.token :: rest), e⟩ =
        .ok m r ↔
      r = ⟨rest, e⟩ ∧ ∃ r₁, (rules k).expression ⟨ts ++ TokenKind.rParen.token :: rest, e⟩ =
        .ok m r₁ ∧ r₁.skipNewlines = ⟨TokenKind.rParen.token :: rest, e⟩ := by
  have hfactor : factor (rules k) ⟨TokenKind.lParen.token ::
      (ts ++ TokenKind.rParen.token :: rest), e⟩ =
        parens (rules k) ⟨TokenKind.lParen.token :: (ts ++ TokenKind.rParen.token :: rest), e⟩ := rfl
  have hskip : (⟨ts ++ TokenKind.rParen.token :: rest, e⟩ : Stream).skipNewlines =
      ⟨ts ++ TokenKind.rParen.token :: rest, e⟩ := by
    refine skipNewlines_eq ?_
    rw [peek_kind]
    exact hline
  rw [hfactor]
  constructor
  · intro h
    have hrest : r.ahead = rest := by
      have hparens := closing_of_parens h
      rw [hts.closing_group] at hparens
      exact (Option.some.inj hparens).symm
    obtain ⟨r₁, hinner, hk, rfl⟩ := parens_iff.mp h
    change (rules k).expression
      (⟨ts ++ TokenKind.rParen.token :: rest, e⟩ : Stream).skipNewlines = _ at hinner
    rw [hskip] at hinner
    have htrail := ((trails_rules k).expression).of_ok hinner
    have hfinish : r₁.skipNewlines.finish = e := htrail.2
    obtain ⟨u, -, hahead⟩ := ahead_of_peek (by decide) hk
    rw [hrest] at hahead
    -- What is left behind the inside has the length of the closing parenthesis and the rest.
    have hend : r₁.skipNewlines.ahead = TokenKind.rParen.token :: rest := by
      have hsuffix : r₁.skipNewlines.ahead <:+ ts ++ TokenKind.rParen.token :: rest :=
        (Trails.skipNewlines_suffix r₁).trans htrail.1
      have hother : TokenKind.rParen.token :: rest <:+ ts ++ TokenKind.rParen.token :: rest :=
        List.suffix_append _ _
      refine (List.suffix_of_suffix_length_le hsuffix hother ?_).eq_of_length ?_
      · rw [hahead]
        exact Nat.le_refl _
      · rw [hahead]
        rfl
    refine ⟨?_, r₁, hinner, ?_⟩
    · show (⟨r₁.skipNewlines.advance.ahead, r₁.skipNewlines.finish⟩ : Stream) = _
      rw [hrest, hfinish]
    · show (⟨r₁.skipNewlines.ahead, r₁.skipNewlines.finish⟩ : Stream) = _
      rw [hend, hfinish]
  · rintro ⟨rfl, r₁, hinner, hend⟩
    refine parens_iff.mpr ⟨r₁, ?_, ?_, ?_⟩
    · show (rules k).expression
        (⟨ts ++ TokenKind.rParen.token :: rest, e⟩ : Stream).skipNewlines = _
      rw [hskip]
      exact hinner
    · rw [hend]
      rfl
    · rw [hend]
      rfl

/-! ### A group in a tier -/

theorem call_of_factor {self : Rules} (h : factor self s = .ok m r) (hr : r.peek.kind ≠ .lParen) :
    Grammar.call self s = .ok m r := by
  rw [Grammar.call, bind_of_ok h, bind_of_ok (check_apply _ r), beq_false_of_ne hr]
  rfl

theorem Tier.weight_of_takes {kind : TokenKind} (h : t.takes kind = true) : kind.weight = 1 := by
  revert h
  cases kind with
  | keyword word => cases word <;> cases t <;> decide
  | _ => cases t <;> decide

theorem advance_weight (s : Stream) : weight s.ahead = s.peek.kind.weight + weight s.advance.ahead := by
  obtain ⟨ahead, finish⟩ := s
  cases ahead with
  | nil => rfl
  | cons t ts => rfl

/-- A tier gives the inside of a group that weighs as much, unless it takes what follows. -/
theorem Tier.parser_group {ts rest : List Token} {e : Position} (hts : Shape ts m.weight)
    (hline : (firstKind (ts ++ TokenKind.rParen.token :: rest)) ≠ .newline)
    (hcall : firstKind rest ≠ .lParen) :
    t.parser (rules k) ⟨TokenKind.lParen.token :: (ts ++ TokenKind.rParen.token :: rest), e⟩ =
        .ok m r ↔
      (∃ r₁, (rules k).expression ⟨ts ++ TokenKind.rParen.token :: rest, e⟩ = .ok m r₁ ∧
        r₁.skipNewlines = ⟨TokenKind.rParen.token :: rest, e⟩) ∧
        t.takes (firstKind rest) = false ∧ r = ⟨rest, e⟩ := by
  have hs := trails_rules k
  have hnext : (⟨rest, e⟩ : Stream).peek.kind ≠ .lParen := by
    rw [peek_kind]
    exact hcall
  constructor
  · intro h
    cases hfactor : factor (rules k)
        ⟨TokenKind.lParen.token :: (ts ++ TokenKind.rParen.token :: rest), e⟩ with
    | error d r₁ =>
      exfalso
      have hcall : Grammar.call (rules k) _ = .error d r₁ := bind_of_error hfactor
      by_cases ht : t = .call
      · rw [ht] at h
        exact nomatch hcall.symm.trans h
      · rw [Tier.parser_error rfl (bind_of_error hcall) t ht] at h
        cases h
    | ok x r₁ =>
      obtain ⟨rfl, hinner⟩ := (factor_group hts hline).mp hfactor
      have hdecided := Tier.decided hs (call_of_factor hfactor hnext) t
      cases htakes : t.takes (⟨rest, e⟩ : Stream).peek.kind with
      | true =>
        -- What is taken behind the group would have to weigh nothing.
        exfalso
        rw [htakes] at hdecided
        have hsuffix := weight_suffix_le (hdecided m r h).1
        have hweight := Tier.weight_eq h
        have hbehind := advance_weight ⟨rest, e⟩
        rw [Tier.weight_of_takes htakes] at hbehind
        have hgroup := hts.group.weighs
        rw [weight, weight_append] at hgroup hweight
        rw [weight] at hgroup hweight
        simp only [TokenKind.token, TokenKind.weight, weight] at hgroup hweight
        dsimp only at hbehind
        omega
      | false =>
        rw [htakes] at hdecided
        have hstop : t.parser (rules k) _ = .ok x ⟨rest, e⟩ := hdecided
        rw [h] at hstop
        cases hstop
        rw [peek_kind] at htakes
        exact ⟨hinner, htakes, rfl⟩
  · rintro ⟨hinner, htakes, rfl⟩
    have hfactor := (factor_group hts hline).mpr ⟨rfl, hinner⟩
    have hdecided := Tier.decided hs (call_of_factor hfactor hnext) t
    rw [peek_kind, htakes] at hdecided
    exact hdecided

end ScriptEngine
