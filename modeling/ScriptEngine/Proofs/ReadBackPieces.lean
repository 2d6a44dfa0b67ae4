import ScriptEngine.Proofs.ReadBackFollow

/-! # Reading back the pieces of a node

The parts that nodes are put together from: parentheses, bodies, blocks, lists, lines and the arms
of a choice. Each is read back exactly where the nodes in it are, and nothing behind it binds. -/

namespace ScriptEngine

open Parse Grammar Canonical Printer

/-! ### Runs that succeed -/

namespace Parse

variable {α β : Type} {s s₁ r : Stream}

/-- A rule followed by one that shows what the first must have given. -/
theorem bind_exact {p : Parse α} {f : α → Parse β} {a : α} {b : β} {C : Prop}
    (hp : ∀ r', p s = .ok a r' ↔ C ∧ r' = s₁)
    (hf : ∀ x r', f x r' = .ok b r → x = a) :
    (p >>= f) s = .ok b r ↔ C ∧ f a s₁ = .ok b r := by
  constructor
  · intro h
    obtain ⟨x, r', hx, h⟩ := bind_eq_ok h
    rw [hf x r' h] at hx h
    obtain ⟨hC, rfl⟩ := (hp r').mp hx
    exact ⟨hC, h⟩
  · rintro ⟨hC, h⟩
    rw [bind_of_ok ((hp s₁).mpr ⟨hC, rfl⟩)]
    exact h

/-- A rule whose result is built into another one. -/
theorem build_exact {p : Parse α} {g : α → β} {a : α} {b : β} {C : Prop}
    (hp : ∀ r', p s = .ok a r' ↔ C ∧ r' = s₁) (hb : b = g a) (hg : ∀ x, g x = g a → x = a) :
    (p >>= fun x => Parse.done (g x)) s = .ok b r ↔ C ∧ r = s₁ := by
  subst hb
  refine (bind_exact hp fun x r' h => ?_).trans (and_congr Iff.rfl ?_)
  · exact hg x (Reply.ok.inj h).1
  · exact ⟨fun h => (Reply.ok.inj h).2.symm, fun h => by rw [h]; rfl⟩

/-- An item and those behind it. -/
def withMore (p : Parse α) (q : Parse (List α)) : Parse (List α) := do
  let x ← p
  let more ← q
  return x :: more

theorem withMore_bind (p : Parse α) (q : Parse (List α)) (f : List α → Parse β) :
    (withMore p q >>= f) = (p >>= fun x => q >>= fun more => f (x :: more)) := by
  simp only [withMore, Parse.bind_assoc]
  rfl

theorem withMore_exact {p : Parse α} {q : Parse (List α)} {x : α} {xs : List α} {C : Prop}
    (hp : ∀ r', p s = .ok x r' ↔ C ∧ r' = s₁) :
    withMore p q s = .ok (x :: xs) r ↔ C ∧ q s₁ = .ok xs r := by
  refine (bind_exact hp fun y r' h => ?_).trans (and_congr Iff.rfl ?_)
  · obtain ⟨_, _, _, h⟩ := bind_eq_ok h
    exact (List.cons.inj (Reply.ok.inj h).1).1
  · constructor
    · intro h
      obtain ⟨ys, r', hys, h⟩ := bind_eq_ok h
      cases h
      exact hys
    · intro h
      exact bind_of_ok h

theorem skip_bind {f : Unit → Parse β} {ts : List Token} {e : Position}
    (h : firstKind ts ≠ .newline) : (skipNewlines >>= f) ⟨ts, e⟩ = f () ⟨ts, e⟩ := by
  show f () (⟨ts, e⟩ : Stream).skipNewlines = _
  rw [skipNewlines_eq]
  rw [peek_kind]
  exact h

end Parse

/-! ### Exactness -/

/-- Tokens at no place with no end of code behind them. -/
def bareStream (ts : List Token) : Stream :=
  ⟨ts, .none⟩

/-- The rules read the node back from its canonical tokens exactly where `Node.reads` says so. -/
structure Node.Exact (n : Node) : Prop where
  tier : ∀ (t : Tier) (k : Nat) (rest : List Token) (r : Stream), n.Regular (t == .statement) →
    Calm rest → (n.tokens ++ rest).length ≤ k →
    (t.parser (rules k) (bareStream (n.tokens ++ rest)) = .ok n.erase r ↔
      n.reads t (Follow.of rest) = true ∧ r = bareStream (settle n.endsBare rest))
  block : ∀ (k : Nat) (rest : List Token) (r : Stream), n.isBlock = true → n.Regular false →
    (blockTokens n n.tokens ++ rest).length ≤ k →
    (Grammar.block (rules k) (bareStream (blockTokens n n.tokens ++ rest)) = .ok n.erase r ↔
      n.reads .call (.token .rBrace) = true ∧ r = bareStream rest)
  callee : ∀ (k : Nat) (rest : List Token) (r : Stream), isBareCallee n = true →
    n.Regular false → firstKind rest = .lParen → (n.tokens ++ rest).length ≤ k →
    (Grammar.factor (rules k) (bareStream (n.tokens ++ rest)) = .ok n.erase r ↔
      n.reads .call (.token .rParen) = true ∧ r = bareStream rest)

theorem firstKind_append {stmt : Bool} {ts : List Token} (h : Leads stmt ts) (rest : List Token) :
    firstKind (ts ++ rest) = firstKind ts := by
  obtain ⟨t, us, rfl, -⟩ := h
  rfl

theorem leads_ne {k : TokenKind} (h : k.leads = true) :
    k ≠ .newline ∧ k ≠ .rBrace ∧ k ≠ .comma ∧ k ≠ .rParen ∧ k ≠ .rSquare ∧ k ≠ .colon := by
  refine ⟨?_, ?_, ?_, ?_, ?_, ?_⟩ <;> (rintro rfl; cases h)

/-! ### Parentheses -/

theorem wrapped_true (ts rest : List Token) :
    wrapped true ts ++ rest = TokenKind.lParen.token :: (ts ++ TokenKind.rParen.token :: rest) := by
  show (TokenKind.lParen.token :: ts ++ [TokenKind.rParen.token]) ++ rest = _
  rw [List.append_assoc]
  rfl

theorem not_call_of_calm {rest : List Token} (h : Calm rest) : firstKind rest ≠ .lParen := by
  intro hrest
  have hbinds := h.next
  rw [show (Follow.of rest).next = .lParen from hrest] at hbinds
  cases hbinds

theorem group_exact {n : Node} (hn : n.Exact) {k : Nat} {rest : List Token}
    (hreg : n.Regular false) (hk : (n.tokens ++ TokenKind.rParen.token :: rest).length ≤ k) :
    (∃ r, (rules (k + 1)).expression ⟨n.tokens ++ TokenKind.rParen.token :: rest, .none⟩ =
        .ok n.erase r ∧ r.skipNewlines = ⟨TokenKind.rParen.token :: rest, .none⟩) ↔
      n.reads .expression (.token .rParen) = true := by
  have hinner := fun r => hn.tier .expression k (TokenKind.rParen.token :: rest) r hreg
    (Calm.cons rest rfl (by decide)) hk
  rw [Follow.of_cons _ _ (by decide), settle_cons _ _ (by decide)] at hinner
  constructor
  · rintro ⟨r, hrun, -⟩
    exact ((hinner r).mp hrun).1
  · intro hreads
    exact ⟨_, (hinner _).mpr ⟨hreads, rfl⟩, rfl⟩

theorem wrapped_exact {n : Node} (hn : n.Exact) (b : Bool) {t : Tier} {k : Nat}
    {rest : List Token} (hreg : n.Regular (t == .statement)) (hinside : b = true → n.Regular false)
    (hcalm : Calm rest) (hk : (wrapped b n.tokens ++ rest).length ≤ k) (r : Stream) :
    t.parser (rules k) (bareStream (wrapped b n.tokens ++ rest)) = .ok n.erase r ↔
      wrappedReads b t (Follow.of rest) (fun t f => n.reads t f) = true ∧
        r = bareStream (settle (!b && n.endsBare) rest) := by
  cases b with
  | false => exact hn.tier t k rest r hreg hcalm hk
  | true =>
    have hregular := hinside rfl
    have hlead := n.leads hregular
    have hline : firstKind (n.tokens ++ TokenKind.rParen.token :: rest) ≠ .newline := by
      rw [firstKind_append hlead]
      exact (leads_ne hlead.firstKind.1).1
    have hshape : Shape n.tokens n.erase.weight := by
      rw [n.weight_erase]
      exact n.shape hregular
    rw [wrapped_true] at hk ⊢
    rw [List.length_cons] at hk
    obtain ⟨k, rfl⟩ : ∃ l, k = l + 1 := ⟨k - 1, by omega⟩
    rw [bareStream, Tier.parser_group hshape hline (not_call_of_calm hcalm),
      group_exact hn hregular (by omega), wrappedReads, if_pos rfl, Bool.and_eq_true, and_assoc,
      Bool.not_eq_true']
    rfl

/-! ### Lists -/

section

variable {α : Type} {item : Parse α} {close : TokenKind} {what : String} {e : Position}

/-- What stands behind an item of a list. -/
def afterItem (item : Parse α) (close : TokenKind) (what : String) (n : Nat) (x : α) :
    Parse (List α) := do
  skipNewlines
  if ← accept .comma then
    skipNewlines
    return x :: (← separated item close what n)
  else
    discard (expect close what)
    return [x]

theorem separated_succ (n : Nat) :
    separated item close what (n + 1) = item >>= afterItem item close what n :=
  rfl

theorem afterItem_comma (n : Nat) (x : α) {ts : List Token} (h : firstKind ts ≠ .newline) :
    afterItem item close what n x ⟨TokenKind.comma.token :: ts, e⟩ =
      (separated item close what n >>= fun xs => Parse.done (x :: xs)) ⟨ts, e⟩ := by
  show (skipNewlines >>= fun _ => separated item close what n >>= fun xs =>
    Parse.done (x :: xs)) ⟨ts, e⟩ = _
  exact skip_bind h

theorem afterItem_close (n : Nat) (x : α) (hclose : close = .rParen ∨ close = .rSquare)
    (rest : List Token) :
    afterItem item close what n x ⟨close.token :: rest, e⟩ = .ok [x] ⟨rest, e⟩ := by
  rcases hclose with rfl | rfl
  · rfl
  · rfl

/-- The first item of the list is the one that was read. -/
theorem afterItem_head {n : Nat} {x y : α} {ys : List α} {s r : Stream}
    (h : afterItem item close what n x s = .ok (y :: ys) r) : x = y := by
  obtain ⟨_, _, _, h⟩ := bind_eq_ok h
  obtain ⟨b, r₁, _, h⟩ := bind_eq_ok h
  cases b with
  | true =>
    obtain ⟨_, _, _, h⟩ := bind_eq_ok (show (skipNewlines >>= fun _ =>
      separated item close what n >>= fun xs => Parse.done (x :: xs)) r₁ = _ from h)
    obtain ⟨_, _, _, h⟩ := bind_eq_ok h
    cases h
    rfl
  | false =>
    obtain ⟨_, _, _, h⟩ := bind_eq_ok (show (Functor.discard (expect close what) >>= fun _ =>
      Parse.done [x]) r₁ = _ from h)
    cases h
    rfl

end

theorem Node.Exact.before {n : Node} (hn : n.Exact) {k : Nat} {u : Token} {l : List Token}
    (hreg : n.Regular false) (hbinds : u.kind.binds = false) (hline : u.kind ≠ .newline)
    (hk : (n.tokens ++ u :: l).length ≤ k) (r : Stream) :
    (rules (k + 1)).expression (bareStream (n.tokens ++ u :: l)) = .ok n.erase r ↔
      n.reads .expression (.token u.kind) = true ∧ r = bareStream (u :: l) := by
  have hrun := hn.tier .expression k (u :: l) r hreg (Calm.cons l hbinds hline) hk
  rw [Follow.of_cons _ _ hline, settle_cons _ _ hline] at hrun
  exact hrun

/-- All of the nodes are read back exactly. -/
def AllExact (ns : List Node) : Prop :=
  ∀ n ∈ ns, n.Exact

theorem separated_exact {close : TokenKind} {what : String} (hclose : close = .rParen ∨
    close = .rSquare) {k : Nat} {rest : List Token} (n : Node) (ns : List Node)
    (hexact : AllExact (n :: ns)) (hreg : allRegular false (n :: ns)) (N : Nat)
    (hk : (itemTokens (n :: ns) ++ close.token :: rest).length ≤ k)
    (hN : (itemTokens (n :: ns) ++ close.token :: rest).length ≤ N) (r : Stream) :
    separated (rules (k + 1)).expression close what N
        (bareStream (itemTokens (n :: ns) ++ close.token :: rest)) = .ok (eraseAll (n :: ns)) r ↔
      itemsRead close (n :: ns) = true ∧ r = bareStream rest := by
  have hbehind : close.token.kind ≠ .newline ∧ close.token.kind.binds = false := by
    rcases hclose with rfl | rfl
    · exact ⟨by decide, rfl⟩
    · exact ⟨by decide, rfl⟩
  induction ns generalizing n N r with
  | nil =>
    have hlist : itemTokens [n] ++ close.token :: rest = n.tokens ++ close.token :: rest := by
      rw [itemTokens, moreItemTokens, List.append_nil]
    rw [hlist] at hk hN ⊢
    obtain ⟨N, rfl⟩ : ∃ l, N = l + 1 := ⟨N - 1, by
      rw [List.length_append, List.length_cons] at hN
      omega⟩
    have hitem := (hexact n List.mem_cons_self).before hreg.1 hbehind.2 hbehind.1 hk
    refine (bind_exact hitem fun x r' h => afterItem_head h).trans ?_
    refine and_congr Iff.rfl ?_
    rw [bareStream, afterItem_close N _ hclose]
    exact ⟨fun h => (Reply.ok.inj h).2.symm, fun h => by rw [h]; rfl⟩
  | cons m ns ih =>
    have hlist : itemTokens (n :: m :: ns) ++ close.token :: rest =
        n.tokens ++ TokenKind.comma.token :: (itemTokens (m :: ns) ++ close.token :: rest) := by
      simp only [itemTokens, moreItemTokens, List.append_assoc, List.cons_append]
    rw [hlist] at hk hN ⊢
    have hlead : Leads false (itemTokens (m :: ns)) := (m.leads hreg.2.1).append _
    have hline : firstKind (itemTokens (m :: ns) ++ close.token :: rest) ≠ .newline := by
      rw [firstKind_append hlead]
      exact (leads_ne hlead.firstKind.1).1
    obtain ⟨N, rfl⟩ : ∃ l, N = l + 1 := ⟨N - 1, by
      rw [List.length_append, List.length_cons] at hN
      omega⟩
    have hitem := (hexact n List.mem_cons_self).before hreg.1 (u := TokenKind.comma.token) rfl
      (by decide) hk
    rw [List.length_append, List.length_cons] at hk hN
    have hrest := ih m (fun x hx => hexact x (List.mem_cons_of_mem _ hx)) hreg.2 N (by omega)
      (by omega)
    refine (bind_exact hitem fun x r' h => afterItem_head h).trans ?_
    rw [itemsRead, Bool.and_eq_true, and_assoc]
    refine and_congr Iff.rfl ?_
    rw [bareStream, afterItem_comma N _ hline]
    exact build_exact hrest rfl fun x h => (List.cons.inj h).2

theorem enclosed_apply {α : Type} {item : Parse α} {close : TokenKind} {what : String}
    {ts : List Token} {e : Position} (hline : firstKind ts ≠ .newline) (hclose : firstKind ts ≠ close) :
    enclosed item close what ⟨ts, e⟩ = separated item close what ts.length ⟨ts, e⟩ := by
  have haccept : accept close ⟨ts, e⟩ = .ok false ⟨ts, e⟩ := by
    rw [accept, peek_kind, beq_false_of_ne hclose]
    rfl
  rw [enclosed, skip_bind hline, bind_of_ok haccept]
  rfl

theorem items_exact {close : TokenKind} (what : String) (hclose : close = .rParen ∨
    close = .rSquare) {k : Nat} (rest : List Token) (items : List Node) (hexact : AllExact items)
    (hreg : allRegular false items) (hk : (itemTokens items ++ close.token :: rest).length ≤ k)
    (r : Stream) :
    enclosed (rules (k + 1)).expression close what
        (bareStream (itemTokens items ++ close.token :: rest)) = .ok (eraseAll items) r ↔
      itemsRead close items = true ∧ r = bareStream rest := by
  cases items with
  | nil =>
    have hrun : enclosed (rules (k + 1)).expression close what (bareStream (close.token :: rest)) =
        .ok [] (bareStream rest) := by
      rcases hclose with rfl | rfl
      · rfl
      · rfl
    rw [itemTokens, List.nil_append, hrun]
    exact ⟨fun h => ⟨rfl, (Reply.ok.inj h).2.symm⟩, fun h => by rw [h.2]; rfl⟩
  | cons n ns =>
    have hlead : Leads false (itemTokens (n :: ns)) := (n.leads hreg.1).append _
    have hfirst := leads_ne hlead.firstKind.1
    rw [← firstKind_append hlead (close.token :: rest)] at hfirst
    have hne : firstKind (itemTokens (n :: ns) ++ close.token :: rest) ≠ close := by
      rcases hclose with rfl | rfl
      · exact hfirst.2.2.2.1
      · exact hfirst.2.2.2.2.1
    rw [bareStream, enclosed_apply hfirst.1 hne]
    exact separated_exact hclose n ns hexact hreg _ hk (Nat.le_refl _) r

/-- The names of parameters always read back. -/
theorem parameters_run (names : List String) (rest : List Token) :
    Grammar.parameters (bareStream (TokenKind.lParen.token :: (parameterTokens names ++
      TokenKind.rParen.token :: rest))) = .ok names (bareStream rest) := by
  have hseparated : ∀ (name : String) (names : List String) (N : Nat),
      (parameterTokens (name :: names) ++ TokenKind.rParen.token :: rest).length ≤ N →
      separated (Token.lexeme <$> expect .identifier "identifier") .rParen "',' or ')'" N
        (bareStream (parameterTokens (name :: names) ++ TokenKind.rParen.token :: rest)) =
          .ok (name :: names) (bareStream rest) := by
    intro name names
    induction names generalizing name with
    | nil =>
      intro N hN
      obtain ⟨N, rfl⟩ : ∃ l, N = l + 1 := ⟨N - 1, by
        rw [List.length_append, List.length_cons] at hN
        omega⟩
      rfl
    | cons second names ih =>
      intro N hN
      have hlist : parameterTokens (name :: second :: names) = nameToken name ::
          TokenKind.comma.token :: parameterTokens (second :: names) := rfl
      rw [hlist, List.cons_append, List.cons_append] at hN ⊢
      rw [List.length_cons, List.length_cons] at hN
      obtain ⟨N, rfl⟩ : ∃ l, N = l + 1 := ⟨N - 1, by omega⟩
      have hline : firstKind (parameterTokens (second :: names) ++ TokenKind.rParen.token :: rest) ≠
          .newline := by
        cases names with
        | nil => exact fun h => by cases h
        | cons third names => exact fun h => by cases h
      have hitem : (Token.lexeme <$> expect .identifier "identifier")
          (bareStream (nameToken name :: TokenKind.comma.token ::
            (parameterTokens (second :: names) ++ TokenKind.rParen.token :: rest))) =
          .ok name (bareStream (TokenKind.comma.token ::
            (parameterTokens (second :: names) ++ TokenKind.rParen.token :: rest))) := rfl
      rw [separated_succ, bind_of_ok hitem, bareStream, afterItem_comma N _ hline]
      exact bind_of_ok (ih second N (by omega))
  rw [Grammar.parameters, discard_bind]
  show enclosed (Token.lexeme <$> expect .identifier "identifier") .rParen "',' or ')'"
    (bareStream (parameterTokens names ++ TokenKind.rParen.token :: rest)) = _
  cases names with
  | nil => rfl
  | cons name names =>
    have hfirst : firstKind (parameterTokens (name :: names) ++ TokenKind.rParen.token :: rest) =
        .identifier := by
      cases names with
      | nil => rfl
      | cons second names => rfl
    rw [bareStream, enclosed_apply (by rw [hfirst]; decide) (by rw [hfirst]; decide)]
    exact hseparated name names _ (Nat.le_refl _)

/-! ### Paths of an inclusion -/

section

variable {self : Rules} {s r : Stream} {n : Nat}

/-- No path follows where no comma does. -/
theorem pathsRest_nil_iff (hn : s.ahead.length ≤ n) :
    pathsRest self n s = .ok [] r ↔ s.peek.kind ≠ .comma ∧ r = s := by
  by_cases hk : s.peek.kind = .comma
  · obtain ⟨_, -, hahead⟩ := ahead_of_peek (by decide) hk
    obtain ⟨n, rfl⟩ : ∃ l, n = l + 1 := ⟨n - 1, by
      rw [hahead, List.length_cons] at hn
      omega⟩
    refine ⟨fun hrun => ?_, fun h => absurd hk h.1⟩
    rw [pathsRest, bind_apply, accept, beq_iff_eq.mpr hk] at hrun
    obtain ⟨_, _, _, hrun⟩ := bind_eq_ok (show (skipNewlines >>= fun _ => self.expression >>=
      fun path => pathsRest self n >>= fun more => Parse.done (path :: more)) s.advance = _ from hrun)
    obtain ⟨_, _, _, hrun⟩ := bind_eq_ok hrun
    obtain ⟨_, _, _, hrun⟩ := bind_eq_ok hrun
    cases hrun
  · have hstop : pathsRest self n s = .ok [] s := by
      cases n with
      | zero => rfl
      | succ n =>
        rw [pathsRest, bind_apply, accept, beq_false_of_ne hk]
        rfl
    rw [hstop]
    exact ⟨fun h => ⟨hk, (Reply.ok.inj h).2.symm⟩, fun h => by rw [h.2]⟩

theorem pathsRest_comma (n : Nat) {ts : List Token} {e : Position} (h : firstKind ts ≠ .newline) :
    pathsRest self (n + 1) ⟨TokenKind.comma.token :: ts, e⟩ =
      withMore self.expression (pathsRest self n) ⟨ts, e⟩ := by
  show (skipNewlines >>= fun _ => self.expression >>= fun path => pathsRest self n >>= fun more =>
    Parse.done (path :: more)) ⟨ts, e⟩ = _
  exact skip_bind h

end

theorem settle_length_le (bare : Bool) (rest : List Token) :
    (settle bare rest).length ≤ rest.length := by
  cases bare with
  | false => exact Nat.le_refl _
  | true => exact (List.dropWhile_suffix _).length_le

/-- The paths of an inclusion, where `fuel` bounds the tokens behind the first. -/
theorem paths_exact {k : Nat} {rest : List Token} (hcalm : Calm rest) (n : Node) (ns : List Node)
    (hexact : AllExact (n :: ns)) (hreg : allRegular false (n :: ns)) (fuel : Stream → Nat)
    (hk : (itemTokens (n :: ns) ++ rest).length ≤ k)
    (hfuel : ∀ s : Stream, s.ahead.length ≤ (moreItemTokens ns ++ rest).length →
      s.ahead.length ≤ fuel s) (r : Stream) :
    withMore (rules (k + 1)).expression (fun s => pathsRest (rules (k + 1)) (fuel s) s)
        (bareStream (itemTokens (n :: ns) ++ rest)) = .ok (eraseAll (n :: ns)) r ↔
      pathsRead (Follow.of rest) (n :: ns) = true ∧
        r = bareStream (settle (lastEndsBare (n :: ns)) rest) := by
  induction ns generalizing n fuel r with
  | nil =>
    have hlist : itemTokens [n] ++ rest = n.tokens ++ rest := by
      rw [itemTokens, moreItemTokens, List.append_nil]
    rw [hlist] at hk ⊢
    have hitem := fun r' => (hexact n List.mem_cons_self).tier .expression k rest r' hreg.1 hcalm hk
    refine (withMore_exact hitem).trans ?_
    rw [pathsRead, Bool.and_eq_true, and_assoc]
    refine and_congr_right fun hreads => ?_
    have hbare : n.endsBare = true → (Follow.of rest).beyond.starts = false :=
      n.beyond_of_bare hreads
    have hcomma := settle_comma hcalm hbare
    refine (pathsRest_nil_iff (hfuel _ (settle_length_le _ _))).trans (and_congr ?_ Iff.rfl)
    rw [bareStream, peek_kind, Ne, hcomma, bne_iff_ne]
  | cons m ns ih =>
    have hlist : itemTokens (n :: m :: ns) ++ rest =
        n.tokens ++ TokenKind.comma.token :: (itemTokens (m :: ns) ++ rest) := by
      simp only [itemTokens, moreItemTokens, List.append_assoc, List.cons_append]
    have hmore : moreItemTokens (m :: ns) ++ rest =
        TokenKind.comma.token :: (itemTokens (m :: ns) ++ rest) := by
      simp only [itemTokens, moreItemTokens, List.append_assoc, List.cons_append]
    rw [hlist] at hk ⊢
    rw [hmore] at hfuel
    have hlead : Leads false (itemTokens (m :: ns)) := (m.leads hreg.2.1).append _
    have hline : firstKind (itemTokens (m :: ns) ++ rest) ≠ .newline := by
      rw [firstKind_append hlead]
      exact (leads_ne hlead.firstKind.1).1
    have hitem := (hexact n List.mem_cons_self).before hreg.1 (u := TokenKind.comma.token) rfl
      (by decide) hk
    have hlength := hfuel (bareStream (TokenKind.comma.token :: (itemTokens (m :: ns) ++ rest)))
      (Nat.le_refl _)
    obtain ⟨N, hN⟩ : ∃ N, fuel (bareStream (TokenKind.comma.token ::
        (itemTokens (m :: ns) ++ rest))) = N + 1 := Nat.exists_eq_succ_of_ne_zero fun hzero => by
      rw [hzero] at hlength
      exact absurd hlength (Nat.not_succ_le_zero _)
    rw [hN] at hlength
    refine (withMore_exact hitem).trans ?_
    rw [pathsRead, Bool.and_eq_true, and_assoc]
    refine and_congr Iff.rfl ?_
    rw [hN, bareStream, pathsRest_comma N hline]
    refine ih m (fun x hx => hexact x (List.mem_cons_of_mem _ hx)) hreg.2 (fun _ => N) ?_ ?_ r
    · rw [List.length_append, List.length_cons] at hk
      omega
    · intro s hs
      have hinside : (moreItemTokens ns ++ rest).length ≤ (itemTokens (m :: ns) ++ rest).length := by
        rw [itemTokens]
        simp only [List.length_append]
        omega
      have hlength' : (itemTokens (m :: ns) ++ rest).length + 1 ≤ N + 1 := hlength
      omega

/-! ### Segments -/

section

variable {self : Rules} {s r : Stream} {m : Node} {n : Nat}

theorem call_inv (h : Grammar.call self s = .ok m r) :
    (Grammar.factor self s = .ok m r ∧ r.peek.kind ≠ .lParen) ∨
      ∃ x r₁ args, Grammar.factor self s = .ok x r₁ ∧ r₁.peek.kind = .lParen ∧
        arguments self r₁ = .ok args r ∧ m = .call x.pos x args := by
  obtain ⟨x, r₁, hx, h⟩ := bind_eq_ok h
  rw [bind_of_ok (check_apply _ r₁)] at h
  by_cases hk : r₁.peek.kind = .lParen
  · rw [beq_iff_eq.mpr hk] at h
    rw [if_pos rfl] at h
    obtain ⟨args, r₂, hargs, h⟩ := bind_eq_ok h
    cases h
    exact .inr ⟨x, r₁, args, hx, hk, hargs, rfl⟩
  · rw [beq_false_of_ne hk] at h
    cases h
    exact .inl ⟨hx, hk⟩

theorem segment_of_brace (h : s.peek.kind = .lBrace) : segment self s = Grammar.block self s := by
  rw [segment, bracedOr, bind_apply, bind_of_ok (check_apply _ s), beq_iff_eq.mpr h,
    if_pos rfl, bind_apply]
  cases Grammar.block self s with
  | ok a r => rfl
  | error d r => rfl

theorem segment_of_call (h : s.peek.kind ≠ .lBrace) : segment self s = Grammar.call self s := by
  rw [segment, bracedOr, bind_apply, bind_of_ok (check_apply _ s), beq_false_of_ne h,
    if_neg Bool.false_ne_true, bind_apply]
  cases Grammar.call self s with
  | ok a r => rfl
  | error d r => rfl

theorem factor_of_brace (h : s.peek.kind = .lBrace) :
    Grammar.factor self s = Grammar.block self s := by
  have hline : s.peek.kind ≠ .newline := fun hk => by
    rw [h] at hk
    cases hk
  rw [factor_eq, skipNewlines_eq hline, factorRule, h]

/-- No segment follows where no point does. -/
theorem segmentsRest_nil_iff (hn : s.ahead.length ≤ n) :
    segmentsRest self n s = .ok [] r ↔ s.peek.kind ≠ .point ∧ r = s := by
  by_cases hk : s.peek.kind = .point
  · obtain ⟨l, hl⟩ := length_succ_of_point hk
    obtain ⟨n, rfl⟩ : ∃ l, n = l + 1 := ⟨n - 1, by omega⟩
    refine ⟨fun hrun => ?_, fun h => absurd hk h.1⟩
    rw [segmentsRest_go n hk] at hrun
    obtain ⟨_, _, _, hrun⟩ := bind_eq_ok hrun
    obtain ⟨_, _, _, hrun⟩ := bind_eq_ok hrun
    cases hrun
  · rw [segmentsRest_stop _ hk]
    exact ⟨fun h => ⟨hk, (Reply.ok.inj h).2.symm⟩, fun h => by rw [h.2]⟩

theorem segmentsRest_point (n : Nat) {ts : List Token} {e : Position}
    (h : firstKind ts ≠ .newline) :
    segmentsRest self (n + 1) ⟨TokenKind.point.token :: ts, e⟩ =
      withMore (segment self) (segmentsRest self n) ⟨ts, e⟩ := by
  rw [segmentsRest_go n rfl]
  show (segment self >>= fun x => segmentsRest self n >>= fun more => Parse.done (x :: more))
    (⟨ts, e⟩ : Stream).skipNewlines = _
  rw [skipNewlines_eq (by rw [peek_kind]; exact h)]
  rfl

end

/-- A rule that reads a segment back exactly where a call does. -/
def SegmentExact (k : Nat) (p : Parse Node) : Prop :=
  ∀ (n : Node) (rest : List Token) (r : Stream), n.Exact → n.Regular false → Calm rest →
    (wrapped (isNumber n) n.tokens ++ rest).length ≤ k →
    (p (bareStream (wrapped (isNumber n) n.tokens ++ rest)) = .ok n.erase r ↔
      wrappedReads (isNumber n) .call (Follow.of rest) (fun t f => n.reads t f) = true ∧
        r = bareStream (settle n.endsBare rest))

theorem isNumber_bare (n : Node) : (!isNumber n && n.endsBare) = n.endsBare := by
  cases n with
  | number _ _ => rfl
  | _ => exact Bool.true_and _

theorem call_segmentExact (k : Nat) : SegmentExact k (Grammar.call (rules k)) := by
  intro n rest r hn hreg hcalm hk
  have hrun := wrapped_exact hn (isNumber n) (t := .call) hreg (fun _ => hreg) hcalm hk r
  rw [isNumber_bare] at hrun
  exact hrun

theorem isBlock_of_block {k : Nat} {s r : Stream} {m : Node}
    (h : Grammar.block (rules k) s = .ok m r) : m.isBlock = true :=
  (Spends.block (j := 0) (P := fun _ => True) (build_rules k) s (fun t _ => fine_any t) trivial m r
    h).2.2.2.1

theorem isBlock_erase (n : Node) : n.erase.isBlock = n.isBlock := by
  cases n <;> rfl

/-- Canonical calls do not start with a brace. -/
theorem call_firstKind (pos : Position) (callee : Node) (args : List Node) :
    firstKind (Node.call pos callee args).tokens ≠ .lBrace := by
  rw [Node.tokens]
  cases callee with
  | read _ _ | this _ | text _ _ | list _ _ => exact fun h => by cases h
  | _ => exact fun h => by cases h

theorem segment_segmentExact (k : Nat) : SegmentExact k (segment (rules k)) := by
  intro n rest r hn hreg hcalm hk
  have hcall := call_segmentExact k n rest r hn hreg hcalm hk
  by_cases hbrace : (bareStream (wrapped (isNumber n) n.tokens ++ rest)).peek.kind = .lBrace
  · rw [segment_of_brace hbrace]
    constructor
    · intro hrun
      have hblock : n.isBlock = true := by
        rw [← isBlock_erase]
        exact isBlock_of_block hrun
      cases n with
      | number _ _ => cases hbrace
      | sequence _ statements =>
        obtain ⟨hreads, hr⟩ := (hn.block k rest r rfl hreg hk).mp hrun
        exact ⟨hreads, hr⟩
      | _ => cases hblock
    · intro h
      have hrun := hcall.mpr h
      rcases call_inv hrun with ⟨hfactor, -⟩ | ⟨x, r₁, args, -, -, -, heq⟩
      · rw [factor_of_brace hbrace] at hfactor
        exact hfactor
      · exfalso
        cases n with
        | call pos callee args' =>
          rw [show isNumber (.call pos callee args') = false from rfl, bareStream, peek_kind,
            show wrapped false (Node.call pos callee args').tokens =
              (Node.call pos callee args').tokens from rfl,
            firstKind_append ((Node.call pos callee args').leads hreg)] at hbrace
          exact call_firstKind pos callee args' hbrace
        | _ => cases heq
  · rw [segment_of_call hbrace]
    exact hcall

/-- Segments, where the first is read by `p` and `fuel` bounds the tokens behind it. -/
theorem segments_exact {k : Nat} {rest : List Token} (hcalm : Calm rest) {p : Parse Node}
    (hp : SegmentExact k p) (n : Node) (ns : List Node) (hexact : AllExact (n :: ns))
    (hreg : allRegular false (n :: ns)) (fuel : Stream → Nat)
    (hk : (segmentTokens (n :: ns) ++ rest).length ≤ k)
    (hfuel : ∀ s : Stream, s.ahead.length ≤ (moreSegmentTokens ns ++ rest).length →
      s.ahead.length ≤ fuel s) (r : Stream) :
    withMore p (fun s => segmentsRest (rules k) (fuel s) s)
        (bareStream (segmentTokens (n :: ns) ++ rest)) = .ok (eraseAll (n :: ns)) r ↔
      (segmentsRead (Follow.of rest) (n :: ns) = true ∧ (Follow.of rest).next ≠ .point) ∧
        r = bareStream (settle (lastEndsBare (n :: ns)) rest) := by
  induction ns generalizing n p fuel r with
  | nil =>
    have hlist : segmentTokens [n] ++ rest = wrapped (isNumber n) n.tokens ++ rest := by
      rw [segmentTokens, moreSegmentTokens, List.append_nil]
    rw [hlist] at hk ⊢
    have hitem := fun r' => hp n rest r' (hexact n List.mem_cons_self) hreg.1 hcalm hk
    refine (withMore_exact hitem).trans ?_
    rw [segmentsRead, and_assoc]
    refine and_congr_right fun hreads => ?_
    have hbare : n.endsBare = true → (Follow.of rest).beyond.starts = false := fun hend =>
      segments_beyond_of_bare [n] hreads hend
    have htakes := settle_takes hcalm hbare .access
    refine (segmentsRest_nil_iff (hfuel _ (settle_length_le _ _))).trans (and_congr ?_ Iff.rfl)
    rw [bareStream, peek_kind, Ne, Ne, ← beq_iff_eq, ← beq_iff_eq (b := TokenKind.point)]
    exact not_congr (by rw [show (firstKind (settle n.endsBare rest) == TokenKind.point) =
      ((Follow.of rest).next == TokenKind.point) from htakes])
  | cons m ns ih =>
    have hlist : segmentTokens (n :: m :: ns) ++ rest = wrapped (isNumber n) n.tokens ++
        TokenKind.point.token :: (segmentTokens (m :: ns) ++ rest) := by
      simp only [segmentTokens, moreSegmentTokens, List.append_assoc, List.cons_append]
    have hmore : moreSegmentTokens (m :: ns) ++ rest =
        TokenKind.point.token :: (segmentTokens (m :: ns) ++ rest) := by
      simp only [segmentTokens, moreSegmentTokens, List.append_assoc, List.cons_append]
    rw [hlist] at hk ⊢
    rw [hmore] at hfuel
    have hlead : Leads false (segmentTokens (m :: ns)) := ((m.leads hreg.2.1).wrap _).append _
    have hline : firstKind (segmentTokens (m :: ns) ++ rest) ≠ .newline := by
      rw [firstKind_append hlead]
      exact (leads_ne hlead.firstKind.1).1
    have hitem := fun r' => hp n (TokenKind.point.token :: (segmentTokens (m :: ns) ++ rest)) r'
      (hexact n List.mem_cons_self) hreg.1 (Calm.cons _ rfl (by decide)) hk
    rw [Follow.of_cons _ _ (by decide), settle_cons _ _ (by decide)] at hitem
    have hlength := hfuel (bareStream (TokenKind.point.token :: (segmentTokens (m :: ns) ++ rest)))
      (Nat.le_refl _)
    obtain ⟨N, hN⟩ : ∃ N, fuel (bareStream (TokenKind.point.token ::
        (segmentTokens (m :: ns) ++ rest))) = N + 1 := Nat.exists_eq_succ_of_ne_zero fun hzero => by
      rw [hzero] at hlength
      exact absurd hlength (Nat.not_succ_le_zero _)
    rw [hN] at hlength
    refine (withMore_exact hitem).trans ?_
    rw [segmentsRead, Bool.and_eq_true, and_assoc, and_assoc, ← and_assoc (c := r = _)]
    refine and_congr Iff.rfl ?_
    rw [hN, bareStream, segmentsRest_point N hline]
    refine ih (segment_segmentExact k) m (fun x hx => hexact x (List.mem_cons_of_mem _ hx)) hreg.2
      (fun _ => N) ?_ ?_ r
    · rw [List.length_append, List.length_cons] at hk
      omega
    · intro s hs
      have hinside : (moreSegmentTokens ns ++ rest).length ≤
          (segmentTokens (m :: ns) ++ rest).length := by
        rw [segmentTokens]
        simp only [List.length_append]
        omega
      have hlength' : (segmentTokens (m :: ns) ++ rest).length + 1 ≤ N + 1 := hlength
      omega

/-! ### Lines -/

section

variable {self : Rules} {s r : Stream} {x : Node} {xs : List Node}

theorem statementsRest_same_line (n : Nat) (h : s.peek.kind ≠ .newline) :
    statementsRest self n s = .ok [] s := by
  cases n with
  | zero => rfl
  | succ n =>
    rw [statementsRest, bind_of_ok (check_apply _ s), beq_false_of_ne h]
    rfl

theorem statementsRest_newline (n : Nat) (h : s.peek.kind = .newline) :
    statementsRest self (n + 1) s = (attempt (Grammar.statement self) >>= fun next =>
      match next with
      | none => Parse.done []
      | some x => statementsRest self n >>= fun more => Parse.done (x :: more)) s.skipNewlines := by
  rw [statementsRest, bind_of_ok (check_apply _ s), beq_iff_eq.mpr h]
  rfl

theorem statementsRest_line (n : Nat) {ts : List Token} {e : Position}
    (h : firstKind ts ≠ .newline) :
    statementsRest self (n + 1) ⟨TokenKind.newline.token :: ts, e⟩ = .ok (x :: xs) r ↔
      withMore (Grammar.statement self) (statementsRest self n) ⟨ts, e⟩ = .ok (x :: xs) r := by
  have hskip : (⟨TokenKind.newline.token :: ts, e⟩ : Stream).skipNewlines = ⟨ts, e⟩ :=
    skipNewlines_eq (s := ⟨ts, e⟩) (by rw [peek_kind]; exact h)
  rw [statementsRest_newline n rfl, hskip, withMore, bind_apply, bind_apply, attempt]
  cases Grammar.statement self ⟨ts, e⟩ with
  | ok y r₁ => exact Iff.rfl
  | error d r₁ =>
    by_cases hlen : r₁.ahead.length = (⟨ts, e⟩ : Stream).ahead.length
    · dsimp only
      rw [if_pos hlen]
      exact ⟨fun h => (by cases (Reply.ok.inj h).1), fun h => by cases h⟩
    · dsimp only
      rw [if_neg hlen]

/-- What closes the statements is missed by the rule of a statement. -/
theorem attempt_end (h : s.peek.kind = .rBrace ∨ s.peek.kind = .endOfCode) :
    attempt (Grammar.statement self) s = .ok none s := by
  have hmiss : ∃ d, Grammar.statement self s = .error d s := by
    rcases h with hk | hk
    · rw [statement_eq (by rw [hk]; rfl)]
      exact expression_miss self (by rw [hk]; rfl) (by rw [hk]; decide)
    · rw [statement_eq (by rw [hk]; rfl)]
      exact expression_miss self (by rw [hk]; rfl) (by rw [hk]; decide)
  obtain ⟨d, hd⟩ := hmiss
  rw [attempt, hd]
  exact if_pos rfl

end

/-- The statements are complete where a brace or the end of the code follows. -/
theorem statementsRest_end (self : Rules) (n : Nat) (bare : Bool) {rest : List Token}
    (hend : (Follow.of rest).beyond = .rBrace ∨ (Follow.of rest).beyond = .endOfCode)
    (hn : (settle bare rest).length ≤ n) :
    statementsRest self n (bareStream (settle bare rest)) =
      .ok [] (bareStream (rest.dropWhile (·.kind == .newline))) := by
  have hdrop : (bareStream (settle bare rest)).skipNewlines =
      bareStream (rest.dropWhile (·.kind == .newline)) := by
    show bareStream ((settle bare rest).dropWhile _) = _
    rw [dropWhile_settle]
  by_cases hk : (bareStream (settle bare rest)).peek.kind = .newline
  · obtain ⟨_, -, hahead⟩ := ahead_of_peek (by decide) hk
    obtain ⟨n, rfl⟩ : ∃ l, n = l + 1 := ⟨n - 1, by
      rw [show settle bare rest = (bareStream (settle bare rest)).ahead from rfl, hahead,
        List.length_cons] at hn
      omega⟩
    have hpeek : (bareStream (rest.dropWhile (·.kind == .newline))).peek.kind =
        (Follow.of rest).beyond := by
      rw [bareStream, peek_kind]
      rfl
    rw [statementsRest_newline n hk, hdrop, bind_of_ok (attempt_end (by rw [hpeek]; exact hend))]
    rfl
  · rw [statementsRest_same_line n hk, ← hdrop, skipNewlines_eq hk]

/-- Lines up to a brace or the end of the code, where `fuel` bounds the tokens behind the first. -/
theorem lines_exact {k : Nat} {rest : List Token} (hcalm : Calm rest)
    (hend : (Follow.of rest).beyond = .rBrace ∨ (Follow.of rest).beyond = .endOfCode)
    (n : Node) (ns : List Node) (hexact : AllExact (n :: ns)) (hreg : allRegular true (n :: ns))
    (fuel : Stream → Nat) (hk : (n.tokens ++ (lineTokens ns ++ rest)).length ≤ k)
    (hfuel : ∀ s : Stream, s.ahead.length ≤ (lineTokens ns ++ rest).length →
      s.ahead.length ≤ fuel s) (r : Stream) :
    withMore (Grammar.statement (rules k)) (fun s => statementsRest (rules k) (fuel s) s)
        (bareStream (n.tokens ++ (lineTokens ns ++ rest))) = .ok (eraseAll (n :: ns)) r ↔
      linesRead (Follow.of rest) (n :: ns) = true ∧
        r = bareStream (rest.dropWhile (·.kind == .newline)) := by
  induction ns generalizing n fuel r with
  | nil =>
    rw [lineTokens, List.nil_append] at hk hfuel ⊢
    have hitem := fun r' => (hexact n List.mem_cons_self).tier .statement k rest r' hreg.1 hcalm hk
    refine (withMore_exact hitem).trans (and_congr Iff.rfl ?_)
    have hstop := statementsRest_end (rules k) _ n.endsBare hend
      (hfuel (bareStream (settle n.endsBare rest)) (settle_length_le _ _))
    exact ⟨fun h => (Reply.ok.inj (hstop.symm.trans h)).2.symm, fun h => by rw [h]; exact hstop⟩
  | cons m ns ih =>
    have hlist : lineTokens (m :: ns) ++ rest =
        TokenKind.newline.token :: (m.tokens ++ (lineTokens ns ++ rest)) := by
      simp only [lineTokens, List.append_assoc, List.cons_append]
    rw [hlist] at hk hfuel ⊢
    have hlead := m.leads hreg.2.1
    have hfirst : firstKind (m.tokens ++ (lineTokens ns ++ rest)) = firstKind m.tokens :=
      firstKind_append hlead _
    have hline : firstKind (m.tokens ++ (lineTokens ns ++ rest)) ≠ .newline := by
      rw [hfirst]
      exact (leads_ne hlead.firstKind.1).1
    have hcalm' : Calm (TokenKind.newline.token :: (m.tokens ++ (lineTokens ns ++ rest))) := by
      refine Calm.newline ?_
      rw [hfirst, TokenKind.startsLine, hlead.firstKind.1]
      rfl
    have hitem := fun r' => (hexact n List.mem_cons_self).tier .statement k _ r' hreg.1 hcalm' hk
    rw [Follow.of_line _ _ rfl, Follow.beyond_of_ne hline, hfirst] at hitem
    refine (withMore_exact hitem).trans ?_
    rw [linesRead, Bool.and_eq_true, Bool.and_eq_true, and_assoc, and_assoc]
    refine and_congr Iff.rfl ?_
    cases hbare : n.endsBare with
    | true =>
      -- Without the line break nothing more is read.
      have hsettle : settle true (TokenKind.newline.token :: (m.tokens ++ (lineTokens ns ++ rest))) =
          m.tokens ++ (lineTokens ns ++ rest) := settle_of_ne true hline
      rw [hsettle]
      have hpeek : (bareStream (m.tokens ++ (lineTokens ns ++ rest))).peek.kind ≠ .newline := by
        rw [bareStream, peek_kind]
        exact hline
      have hstop : statementsRest (rules k) (fuel (bareStream (m.tokens ++ (lineTokens ns ++ rest))))
          (bareStream (m.tokens ++ (lineTokens ns ++ rest))) =
            .ok [] (bareStream (m.tokens ++ (lineTokens ns ++ rest))) :=
        statementsRest_same_line _ hpeek
      refine ⟨fun h => ?_, fun h => (nomatch h.1)⟩
      exact nomatch (Reply.ok.inj (hstop.symm.trans h)).1
    | false =>
      have hlength := hfuel (bareStream (TokenKind.newline.token ::
        (m.tokens ++ (lineTokens ns ++ rest)))) (Nat.le_refl _)
      obtain ⟨N, hN⟩ : ∃ N, fuel (bareStream (TokenKind.newline.token ::
          (m.tokens ++ (lineTokens ns ++ rest)))) = N + 1 :=
        Nat.exists_eq_succ_of_ne_zero fun hzero => by
          rw [hzero] at hlength
          exact absurd hlength (Nat.not_succ_le_zero _)
      rw [hN] at hlength
      rw [show settle false (TokenKind.newline.token :: (m.tokens ++ (lineTokens ns ++ rest))) =
        TokenKind.newline.token :: (m.tokens ++ (lineTokens ns ++ rest)) from rfl, hN, eraseAll,
        bareStream, statementsRest_line N hline]
      have hrest := ih m (fun x hx => hexact x (List.mem_cons_of_mem _ hx)) hreg.2 (fun _ => N) ?_
        ?_ r
      · rw [eraseAll] at hrest
        refine hrest.trans ?_
        exact ⟨fun h => ⟨rfl, h⟩, fun h => h.2⟩
      · rw [List.length_append, List.length_cons] at hk
        omega
      · intro s hs
        have hlength' : (m.tokens ++ (lineTokens ns ++ rest)).length + 1 ≤ N + 1 := hlength
        rw [List.length_append] at hlength'
        omega

/-! ### Bodies -/

/-- A body with the colon that may stand before it. -/
def bodyRule (self : Rules) (inline_ : Parse Node) : Parse (Bool × Node) := do
  discard (accept .colon)
  skipNewlines
  bracedOr self inline_

section

variable {self : Rules} {inline_ : Parse Node} {ts : List Token} {e : Position}

theorem bracedOr_brace (h : firstKind ts = .lBrace) :
    bracedOr self inline_ ⟨ts, e⟩ =
      (Grammar.block self >>= fun body => Parse.done (true, body)) ⟨ts, e⟩ := by
  rw [bracedOr, bind_of_ok (check_apply _ _), peek_kind, beq_iff_eq.mpr h]
  rfl

theorem bracedOr_inline (h : firstKind ts ≠ .lBrace) :
    bracedOr self inline_ ⟨ts, e⟩ =
      (inline_ >>= fun body => Parse.done (false, body)) ⟨ts, e⟩ := by
  rw [bracedOr, bind_of_ok (check_apply _ _), peek_kind, beq_false_of_ne h]
  rfl

theorem bodyRule_brace (h : firstKind ts = .lBrace) :
    bodyRule self inline_ ⟨ts, e⟩ =
      (Grammar.block self >>= fun body => Parse.done (true, body)) ⟨ts, e⟩ := by
  have haccept : accept .colon ⟨ts, e⟩ = .ok false ⟨ts, e⟩ := by
    rw [accept, peek_kind, h]
    rfl
  rw [bodyRule, discard_bind, bind_of_ok haccept, skip_bind (by rw [h]; decide), bracedOr_brace h]

theorem bodyRule_colon (h : firstKind ts ≠ .newline) :
    bodyRule self inline_ ⟨TokenKind.colon.token :: ts, e⟩ = bracedOr self inline_ ⟨ts, e⟩ := by
  rw [bodyRule, discard_bind]
  show (skipNewlines >>= fun _ => bracedOr self inline_) ⟨ts, e⟩ = _
  exact skip_bind h

end

theorem blockTokens_firstKind {body : Node} (h : body.isBlock = true) (rest : List Token) :
    firstKind (blockTokens body body.tokens ++ rest) = .lBrace := by
  cases body with
  | sequence _ statements => rfl
  | number _ value =>
    have hvalue : value = .zero false := by simpa [Node.isBlock] using h
    rw [hvalue]
    rfl
  | _ => cases h

theorem bodyTokens_cons {braced : Bool} (body : Node) (h : braced = true → body.isBlock = true) :
    ∃ u us, bodyTokens braced body body.tokens = u :: us ∧ u.kind = bodyStart braced := by
  cases braced with
  | false => exact ⟨_, _, rfl, rfl⟩
  | true =>
    have hkind := blockTokens_firstKind (h rfl) []
    rw [List.append_nil] at hkind
    rw [bodyTokens, if_pos rfl]
    cases hts : blockTokens body body.tokens with
    | nil =>
      rw [hts] at hkind
      cases hkind
    | cons u us =>
      rw [hts] at hkind
      exact ⟨u, us, rfl, hkind⟩

theorem bodyStart_facts (braced : Bool) :
    (bodyStart braced).binds = false ∧ bodyStart braced ≠ .newline := by
  cases braced with
  | false => exact ⟨rfl, by decide⟩
  | true => exact ⟨rfl, by decide⟩

theorem openChoice_regular {stmt stmt' : Bool} {n : Node} (h : isOpenChoice n = true)
    (hreg : n.Regular stmt) : n.Regular stmt' := by
  cases n with
  | choose _ arms => exact hreg
  | _ => cases h

theorem openChoice_firstKind {n : Node} {stmt : Bool} (h : isOpenChoice n = true)
    (hreg : n.Regular stmt) : firstKind n.tokens = .keyword .if_ := by
  match n with
  | .choose _ (.arm _ _ _ _) => rfl
  | .choose _ .done => cases hreg.1
  | .choose _ (.otherwise _ _) => cases hreg.1

/-- A body ends with a bare `return` if it is inline and not in parentheses. -/
def bodyBare (braced : Bool) (body : Node) : Bool :=
  !braced && !isOpenChoice body && body.endsBare

/-- A body in braces or inline, where the inline one is read by a tier. -/
theorem body_exact {body : Node} (hn : body.Exact) {t : Tier} {braced : Bool} {k : Nat}
    {rest : List Token} (hblock : braced = true → body.isBlock = true)
    (hreg : body.Regular (t == .statement && !braced)) (hcalm : Calm rest)
    (hk : (bodyTokens braced body body.tokens ++ rest).length ≤ k + 1) (r : Stream) :
    bodyRule (rules (k + 1)) (t.parser (rules k))
        (bareStream (bodyTokens braced body body.tokens ++ rest)) = .ok (braced, body.erase) r ↔
      bodyReads braced body t (Follow.of rest) (fun t f => body.reads t f) = true ∧
        r = bareStream (settle (bodyBare braced body) rest) := by
  cases braced with
  | true =>
    rw [Bool.not_true, Bool.and_false] at hreg
    rw [bareStream, show bodyTokens true body body.tokens = blockTokens body body.tokens from rfl,
      bodyRule_brace (blockTokens_firstKind (hblock rfl) rest)]
    exact build_exact (fun r' => hn.block (k + 1) rest r' (hblock rfl) hreg hk) rfl
      fun x h => (Prod.mk.inj h).2
  | false =>
    rw [Bool.not_false, Bool.and_true] at hreg
    have hlead := (body.leads hreg).wrap (isOpenChoice body)
    have hfirst := firstKind_append hlead rest
    have hline : firstKind (wrapped (isOpenChoice body) body.tokens ++ rest) ≠ .newline := by
      rw [hfirst]
      exact (leads_ne hlead.firstKind.1).1
    have hlist : bodyTokens false body body.tokens ++ rest =
        TokenKind.colon.token :: (wrapped (isOpenChoice body) body.tokens ++ rest) := rfl
    rw [hlist] at hk ⊢
    rw [List.length_cons] at hk
    have hinline := wrapped_exact hn (isOpenChoice body) hreg
      (fun ho => openChoice_regular ho hreg) hcalm (Nat.le_of_succ_le_succ hk)
    rw [bareStream, bodyRule_colon hline]
    by_cases hbrace : firstKind body.tokens = .lBrace
    · have hopen : isOpenChoice body = false := by
        cases ho : isOpenChoice body with
        | false => rfl
        | true =>
          rw [openChoice_firstKind ho hreg] at hbrace
          cases hbrace
      have hfirst' : firstKind (wrapped (isOpenChoice body) body.tokens ++ rest) = .lBrace := by
        rw [hfirst, hopen]
        exact hbrace
      rw [bracedOr_brace hfirst']
      refine ⟨fun h => ?_, fun h => ?_⟩
      · obtain ⟨_, _, _, h⟩ := bind_eq_ok h
        cases h
      · have hne := (Bool.and_eq_true_iff.mp h.1).1
        rw [hbrace] at hne
        cases hne
    · have hfirst' : firstKind (wrapped (isOpenChoice body) body.tokens ++ rest) ≠ .lBrace := by
        rw [hfirst]
        cases isOpenChoice body with
        | false => exact hbrace
        | true => exact fun h => by cases h
      rw [bracedOr_inline hfirst', bodyReads, if_neg Bool.false_ne_true, bne_iff_ne.mpr hbrace,
        Bool.true_and]
      exact build_exact hinline rfl fun x h => (Prod.mk.inj h).2

/-! ### Arms -/

/-- All of the nodes in the arms are read back exactly. -/
def Arms.AllExact : Arms → Prop
  | .done => True
  | .otherwise _ body => body.Exact
  | .arm condition _ body more => condition.Exact ∧ body.Exact ∧ more.AllExact

/-- The arms end with a bare `return`, if there are any; `bare` tells what stands before them. -/
def Arms.endsBareAfter (bare : Bool) : Arms → Bool
  | .done => bare
  | arms => arms.endsBare

theorem Arms.endsBare_arm (condition : Node) (braced : Bool) (body : Node) (more : Arms) :
    (Arms.arm condition braced body more).endsBare =
      more.endsBareAfter (bodyBare braced body) := by
  cases more with
  | done => rfl
  | otherwise _ _ => rfl
  | arm _ _ _ _ => rfl

theorem Arms.follow_eq (more : Arms) (rest : List Token) :
    Follow.of (more.tokens .elseif_ ++ rest) = more.follow (Follow.of rest) := by
  cases more with
  | done => rfl
  | otherwise _ _ => exact Follow.of_cons _ _ (by decide)
  | arm _ _ _ _ => exact Follow.of_cons _ _ (by decide)

theorem Arms.calm (more : Arms) {rest : List Token} (h : Calm rest) :
    Calm (more.tokens .elseif_ ++ rest) := by
  cases more with
  | done => exact h
  | otherwise _ _ => exact Calm.cons _ rfl (by decide)
  | arm _ _ _ _ => exact Calm.cons _ rfl (by decide)

/-- An arm and those behind it, where `fuel` bounds the tokens behind the first. -/
def armsFrom (self : Rules) (fuel : Stream → Nat) : Parse Arms := do
  let condition ← self.expression
  let (braced, body) ← bodyRule self self.statement
  let more ← fun s => armsRest self (fuel s) s
  return .arm condition braced body more

section

variable {self : Rules} {ts : List Token} {e : Position}

/-- The rule of an arm behind its keyword. -/
theorem arm_bind {β : Type} (f : Node × Bool × Node → Parse β) (h : firstKind ts ≠ .newline) :
    (Grammar.arm self >>= f) ⟨ts, e⟩ = (self.expression >>= fun condition =>
      bodyRule self self.statement >>= fun b => f (condition, b.1, b.2)) ⟨ts, e⟩ := by
  have harm : (Grammar.arm self >>= f) = (skipNewlines >>= fun _ => self.expression >>=
      fun condition => bodyRule self self.statement >>= fun b => f (condition, b.1, b.2)) := by
    simp only [Grammar.arm, bodyRule, branch, Parse.bind_assoc]
    rfl
  rw [harm, skip_bind h]

theorem armsRest_elseif (n : Nat) (h : firstKind ts ≠ .newline) :
    armsRest self (n + 1) ⟨(TokenKind.keyword .elseif_).token :: ts, e⟩ =
      armsFrom self (fun _ => n) ⟨ts, e⟩ := by
  rw [armsRest_succ]
  show (Grammar.arm self >>= fun a => armsRest self n >>= fun more =>
    Parse.done (Arms.arm a.1 a.2.1 a.2.2 more)) ⟨ts, e⟩ = _
  exact arm_bind _ h

theorem armsRest_else (n : Nat) :
    armsRest self (n + 1) ⟨(TokenKind.keyword .else_).token :: ts, e⟩ =
      (bodyRule self self.statement >>= fun b => Parse.done (Arms.otherwise b.1 b.2)) ⟨ts, e⟩ := by
  rw [armsRest_succ]
  show (Functor.discard (accept .colon) >>= fun _ => Grammar.branch self >>= fun b =>
    Parse.done (Arms.otherwise b.1 b.2)) ⟨ts, e⟩ = _
  simp only [bodyRule, branch, Parse.bind_assoc]

theorem nextArm_some {n : Nat} {kind : TokenKind} {p : Parse Arms}
    (h : nextArm self n kind = some p) :
    (kind = .keyword .elseif_ ∨ kind = .keyword .else_) ∧ ∀ s r, p s ≠ .ok .done r := by
  unfold nextArm at h
  split at h
  · cases h
    refine ⟨.inl rfl, fun s r hrun => ?_⟩
    obtain ⟨_, _, _, hrun⟩ := bind_eq_ok hrun
    obtain ⟨_, _, _, hrun⟩ := bind_eq_ok hrun
    cases hrun
  · cases h
    refine ⟨.inr rfl, fun s r hrun => ?_⟩
    obtain ⟨_, _, _, hrun⟩ := bind_eq_ok hrun
    obtain ⟨_, _, _, hrun⟩ := bind_eq_ok hrun
    cases hrun
  · cases h

theorem nextArm_none {n : Nat} {kind : TokenKind} (h : nextArm self n kind = none) :
    kind ≠ .keyword .elseif_ ∧ kind ≠ .keyword .else_ := by
  refine ⟨?_, ?_⟩
  · rintro rfl
    cases h
  · rintro rfl
    cases h

/-- No arm follows where none starts behind the line breaks. -/
theorem armsRest_done_iff {s r : Stream} (n : Nat) (hn : s.ahead.length ≤ n) :
    armsRest self n s = .ok .done r ↔
      (s.skipNewlines.peek.kind ≠ .keyword .elseif_ ∧ s.skipNewlines.peek.kind ≠ .keyword .else_) ∧
        r = s := by
  cases n with
  | zero =>
    have hend : s.skipNewlines.peek.kind = .endOfCode := by
      have hnil : s.ahead = [] := List.length_eq_zero_iff.mp (Nat.le_zero.mp hn)
      rw [Stream.skipNewlines, hnil]
      rfl
    rw [hend]
    exact ⟨fun h => ⟨⟨by decide, by decide⟩, (Reply.ok.inj h).2.symm⟩, fun h => by rw [h.2]; rfl⟩
  | succ n =>
    rw [armsRest_succ, beyond]
    cases hnext : nextArm self n s.skipNewlines.peek.kind with
    | some p =>
      obtain ⟨hkind, hrun⟩ := nextArm_some hnext
      refine ⟨fun h => absurd h (hrun _ _), fun h => ?_⟩
      rcases hkind with hkind | hkind
      · exact absurd hkind h.1.1
      · exact absurd hkind h.1.2
    | none =>
      exact ⟨fun h => ⟨nextArm_none hnext, (Reply.ok.inj h).2.symm⟩, fun h => by rw [h.2]⟩

end

/-- An arm and those behind it, where those behind it are read back exactly. -/
theorem armsFrom_exact {condition body : Node} {braced : Bool} {more : Arms} {k : Nat}
    {rest : List Token} (hcalm : Calm rest) (hcondition : condition.Exact) (hbody : body.Exact)
    (hreg : (Arms.arm condition braced body more).Regular) (fuel : Stream → Nat)
    (hk : (condition.tokens ++ (bodyTokens braced body body.tokens ++
      (more.tokens .elseif_ ++ rest))).length ≤ k)
    (hmore : ∀ r, armsRest (rules (k + 1))
        (fuel (bareStream (settle (bodyBare braced body) (more.tokens .elseif_ ++ rest))))
        (bareStream (settle (bodyBare braced body) (more.tokens .elseif_ ++ rest))) =
          .ok more.erase r ↔ more.reads (Follow.of rest) = true ∧
            r = bareStream (settle (more.endsBareAfter (bodyBare braced body)) rest))
    (r : Stream) :
    armsFrom (rules (k + 1)) fuel (bareStream (condition.tokens ++
        (bodyTokens braced body body.tokens ++ (more.tokens .elseif_ ++ rest)))) =
          .ok (Arms.arm condition braced body more).erase r ↔
      (Arms.arm condition braced body more).reads (Follow.of rest) = true ∧
        r = bareStream (settle (Arms.arm condition braced body more).endsBare rest) := by
  obtain ⟨u, us, hstart, hkind⟩ := bodyTokens_cons body hreg.2.1
  have hfacts := bodyStart_facts braced
  rw [← hkind] at hfacts
  rw [hstart] at hk
  have hfirst := hcondition.before (u := u) hreg.1 hfacts.1 hfacts.2 hk
  rw [← hstart] at hk
  have hbehind : Calm (more.tokens .elseif_ ++ rest) := more.calm hcalm
  have hsecond := body_exact hbody (t := .statement) (k := k) hreg.2.1 hreg.2.2.1 hbehind (by
      rw [List.length_append] at hk
      omega)
  rw [show u :: (us.append _) = u :: us ++ _ from rfl, ← hstart, hkind] at hfirst
  rw [Arms.endsBare_arm, Arms.reads, Bool.and_eq_true, Bool.and_eq_true, and_assoc, and_assoc]
  refine (bind_exact hfirst fun x r' h => ?_).trans (and_congr Iff.rfl ?_)
  · obtain ⟨_, _, _, h⟩ := bind_eq_ok h
    obtain ⟨_, _, _, h⟩ := bind_eq_ok h
    exact (Arms.arm.inj (Reply.ok.inj h).1).1
  refine (bind_exact hsecond fun x r' h => ?_).trans ?_
  · obtain ⟨_, _, _, h⟩ := bind_eq_ok h
    obtain ⟨-, hbraced, hbody, -⟩ := Arms.arm.inj (Reply.ok.inj h).1
    exact Prod.ext hbraced hbody
  rw [more.follow_eq]
  refine and_congr Iff.rfl ?_
  exact build_exact hmore rfl fun x h => (Arms.arm.inj h).2.2.2

/-- The arms behind a body; `bare` tells whether it ends with a bare `return`. -/
theorem armsRest_exact {k : Nat} {rest : List Token} (hcalm : Calm rest) (arms : Arms)
    (hexact : arms.AllExact) (hreg : arms.Regular) (bare : Bool) (N : Nat)
    (hk : (arms.tokens .elseif_ ++ rest).length ≤ k + 1)
    (hN : (settle bare (arms.tokens .elseif_ ++ rest)).length ≤ N) (r : Stream) :
    armsRest (rules (k + 1)) N (bareStream (settle bare (arms.tokens .elseif_ ++ rest))) =
        .ok arms.erase r ↔
      arms.reads (Follow.of rest) = true ∧
        r = bareStream (settle (arms.endsBareAfter bare) rest) := by
  match arms with
  | .done =>
    rw [Arms.tokens, List.nil_append] at hN ⊢
    have hpeek : (bareStream (settle bare rest)).skipNewlines.peek.kind =
        (Follow.of rest).beyond := by
      show (bareStream ((settle bare rest).dropWhile _)).peek.kind = _
      rw [dropWhile_settle, bareStream, peek_kind]
      rfl
    refine (armsRest_done_iff N hN).trans (and_congr ?_ Iff.rfl)
    rw [hpeek, Arms.reads, Follow.endsArms, Bool.and_eq_true, bne_iff_ne, bne_iff_ne]
  | .otherwise braced body =>
    have hlist : (Arms.otherwise braced body).tokens .elseif_ ++ rest =
        (TokenKind.keyword .else_).token :: (bodyTokens braced body body.tokens ++ rest) := rfl
    rw [hlist] at hk hN ⊢
    rw [settle_cons _ _ (by decide)] at hN ⊢
    rw [List.length_cons] at hk hN
    obtain ⟨N, rfl⟩ : ∃ l, N = l + 1 := ⟨N - 1, by omega⟩
    rw [bareStream, armsRest_else N]
    have hbody := body_exact (t := .statement) hexact hreg.1 hreg.2 hcalm (k := k) (by omega)
    refine build_exact hbody rfl fun x h => ?_
    obtain ⟨hbraced, hbody⟩ := Arms.otherwise.inj h
    exact Prod.ext hbraced hbody
  | .arm condition braced body more =>
    have hlist : (Arms.arm condition braced body more).tokens .elseif_ ++ rest =
        (TokenKind.keyword .elseif_).token :: (condition.tokens ++
          (bodyTokens braced body body.tokens ++ (more.tokens .elseif_ ++ rest))) := by
      rw [Arms.tokens]
      simp only [List.cons_append, List.append_assoc]
    rw [hlist] at hk hN ⊢
    rw [settle_cons _ _ (by decide)] at hN ⊢
    rw [List.length_cons] at hk hN
    obtain ⟨N, rfl⟩ : ∃ l, N = l + 1 := ⟨N - 1, by omega⟩
    have hlead := condition.leads hreg.1
    have hline : firstKind (condition.tokens ++ (bodyTokens braced body body.tokens ++
        (more.tokens .elseif_ ++ rest))) ≠ .newline := by
      rw [firstKind_append hlead]
      exact (leads_ne hlead.firstKind.1).1
    rw [bareStream, armsRest_elseif N hline]
    refine armsFrom_exact hcalm hexact.1 hexact.2.1 hreg (fun _ => N) (by omega) ?_ r
    have hle := settle_length_le (bodyBare braced body) (more.tokens .elseif_ ++ rest)
    simp only [List.length_append] at hk hN hle
    refine armsRest_exact hcalm more hexact.2.2 hreg.2.2.2 (bodyBare braced body) N ?_ ?_
    · simp only [List.length_append]
      omega
    · omega

end ScriptEngine
