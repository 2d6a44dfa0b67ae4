import ScriptEngine.Proofs.DecimalText
import ScriptEngine.Proofs.ReadBackPieces

/-! # Reading back a node

Each construct is read back from its canonical tokens exactly where `Node.reads` says so. The
constructs that start a factor are followed by nothing that binds, so the tiers above only look at
the token behind them. -/

namespace ScriptEngine

open Parse Grammar Canonical Printer

/-! ### Nodes that a factor makes -/

/-- A node that a rule above a factor makes. -/
def Node.isExtended : Node → Bool
  | .binary _ _ _ _ | .members _ _ | .call _ _ _ => true
  | _ => false

theorem Node.isCompound_of_isExtended {n : Node} (h : n.isExtended = false) :
    n.isCompound = false := by
  cases n with
  | binary _ _ _ _ | members _ _ => cases h
  | _ => rfl

theorem Node.isExtended_erase (n : Node) : n.erase.isExtended = n.isExtended := by
  cases n <;> rfl

theorem call_iff_factor {self : Rules} {s r : Stream} {m : Node} (hm : m.isExtended = false) :
    Grammar.call self s = .ok m r ↔ Grammar.factor self s = .ok m r ∧ r.peek.kind ≠ .lParen := by
  constructor
  · intro h
    rcases call_inv h with hfactor | ⟨_, _, _, _, _, _, rfl⟩
    · exact hfactor
    · cases hm
  · rintro ⟨hfactor, hr⟩
    exact call_of_factor hfactor hr

/-- A factor reads the node back exactly where `reads` says so for what follows. -/
def Node.FactorExact (n : Node) (reads : Follow → Bool) : Prop :=
  ∀ (k : Nat) (rest : List Token) (r : Stream), n.Regular false → Calm rest →
    (n.tokens ++ rest).length ≤ k →
    (Grammar.factor (rules k) (bareStream (n.tokens ++ rest)) = .ok n.erase r ↔
      reads (Follow.of rest) = true ∧ r = bareStream (settle n.endsBare rest))

theorem not_paren_of_binds {k : TokenKind} (h : k.binds = false) : k ≠ .lParen := by
  rintro rfl
  cases h

/-- The tiers above a factor only look at what follows. -/
theorem Node.FactorExact.tier {n : Node} {reads : Follow → Bool} (hn : n.FactorExact reads)
    (hextended : n.isExtended = false) (hstart : (firstKind n.tokens).isSpecial = false)
    (hreads : ∀ t f, n.reads t f = (reads f && !t.takes f.next)) (t : Tier) (k : Nat)
    (rest : List Token) (r : Stream) (hreg : n.Regular false) (hcalm : Calm rest)
    (hk : (n.tokens ++ rest).length ≤ k) :
    t.parser (rules k) (bareStream (n.tokens ++ rest)) = .ok n.erase r ↔
      n.reads t (Follow.of rest) = true ∧ r = bareStream (settle n.endsBare rest) := by
  have hplain : (bareStream (n.tokens ++ rest)).peek.kind.isSpecial = false := by
    rw [bareStream, peek_kind, firstKind_append (n.leads hreg)]
    exact hstart
  rw [← n.isExtended_erase] at hextended
  have hbare : reads (Follow.of rest) = true → n.endsBare = true →
      (Follow.of rest).beyond.starts = false := fun hr => by
    refine n.beyond_of_bare (t := .call) ?_
    rw [hreads, hr]
    rfl
  rw [Tier.parser_iff_call (trails_rules k) hplain (Node.isCompound_of_isExtended hextended),
    call_iff_factor hextended, hn k rest r hreg hcalm hk, hreads, Bool.and_eq_true,
    Bool.not_eq_true', and_assoc, and_assoc, and_assoc]
  refine and_congr_right fun hr => ?_
  have htakes := settle_takes hcalm (hbare hr) t
  have hparen := not_paren_of_binds (settle_binds hcalm (hbare hr))
  constructor
  · rintro ⟨rfl, -, hstop⟩
    rw [bareStream, peek_kind, htakes] at hstop
    exact ⟨hstop, rfl⟩
  · rintro ⟨hstop, rfl⟩
    rw [bareStream, peek_kind, htakes]
    exact ⟨rfl, hparen, hstop⟩

/-- A node that stands for itself where an expression may stand. -/
def Node.isJump : Node → Bool
  | .return_ _ _ | .continue_ _ | .break_ _ => true
  | _ => false

theorem Node.Regular.strict {n : Node} {stmt : Bool} (h : n.Regular stmt)
    (hjump : n.isJump = false) : n.Regular false := by
  cases n with
  | return_ _ _ | continue_ _ | break_ _ => cases hjump
  | _ => exact h

/-- A node that a factor makes, that is no block and that is not called as it stands. -/
theorem Node.Exact.of_factor {n : Node} (reads : Follow → Bool) (hn : n.FactorExact reads)
    (hextended : n.isExtended = false) (hjump : n.isJump = false)
    (hstart : n.Regular false → (firstKind n.tokens).isSpecial = false)
    (hreads : ∀ t f, n.reads t f = (reads f && !t.takes f.next))
    (hblock : n.isBlock = false) (hcallee : isBareCallee n = false) : n.Exact where
  tier t k rest r hreg hcalm hk :=
    hn.tier hextended (hstart (hreg.strict hjump)) hreads t k rest r (hreg.strict hjump) hcalm hk
  block k rest r h := by
    rw [hblock] at h
    cases h
  callee k rest r h := by
    rw [hcallee] at h
    cases h

/-! ### Leaves -/

theorem factor_number (k : Nat) (pos : Position) (m : Magnitude Format.single)
    (rest : List Token) :
    Grammar.factor (rules k) (bareStream ((Node.number pos (.finite false m)).tokens ++ rest)) =
      .ok (.number .none (.finite false m)) (bareStream rest) := by
  have hnumeral : Grammar.factor (rules k) (bareStream (magnitudeToken m :: rest)) =
      numeral (bareStream (magnitudeToken m :: rest)) := by
    rw [factor_eq]
    rcases magnitudeToken_kind m with hkind | hkind
    · rw [skipNewlines_eq (by rw [bareStream, peek_kind]; exact fun h => by cases hkind.symm.trans h),
        show (bareStream (magnitudeToken m :: rest)).peek = magnitudeToken m from rfl, factorRule,
        hkind]
    · rw [skipNewlines_eq (by rw [bareStream, peek_kind]; exact fun h => by cases hkind.symm.trans h),
        show (bareStream (magnitudeToken m :: rest)).peek = magnitudeToken m from rfl, factorRule,
        hkind]
  show Grammar.factor (rules k) (bareStream (magnitudeToken m :: rest)) = _
  rw [hnumeral]
  have hvalue : Number.ofText? (magnitudeToken m).lexeme = some (Number.finite false m) :=
    Number.ofText?_layout m
  have hadvance : Parse.advance (bareStream (magnitudeToken m :: rest)) =
      .ok (magnitudeToken m) (bareStream rest) := rfl
  rw [numeral, bind_of_ok hadvance, hvalue]
  rfl

/-- A node that is read back whatever follows. -/
theorem Node.FactorExact.of_run {n : Node} (hbare : n.endsBare = false)
    (hrun : ∀ k rest, n.Regular false → Calm rest →
      Grammar.factor (rules k) (bareStream (n.tokens ++ rest)) = .ok n.erase (bareStream rest)) :
    n.FactorExact fun _ => true := by
  intro k rest r hreg hcalm hk
  rw [hrun k rest hreg hcalm, hbare]
  exact ⟨fun h => ⟨rfl, (Reply.ok.inj h).2.symm⟩, fun h => by rw [h.2]; rfl⟩

/-- What cannot be written as one token is no regular node. -/
theorem Node.exact_irregular (pos : Position) {value : Single} (h : value.isPlain = false) :
    (Node.number pos value).Exact := by
  have hreg : ∀ {stmt}, ¬ (Node.number pos value).Regular stmt := by
    intro stmt hreg
    cases h.symm.trans hreg
  exact ⟨fun _ _ _ _ h => absurd h hreg, fun _ _ _ _ h => absurd h hreg, fun _ _ _ h => by cases h⟩

theorem Node.exact_number (pos : Position) (value : Single) : (Node.number pos value).Exact := by
  cases value with
  | nan => exact Node.exact_irregular pos rfl
  | infinite _ => exact Node.exact_irregular pos rfl
  | finite sign m =>
    cases sign with
    | true => exact Node.exact_irregular pos rfl
    | false =>
      have hfactor : (Node.number pos (.finite false m)).FactorExact fun _ => true :=
        .of_run rfl fun k rest _ _ => factor_number k pos m rest
      refine ⟨fun t k rest r hreg hcalm hk => ?_, fun k rest r hblock hreg hk => ?_, nofun⟩
      · refine hfactor.tier rfl ?_ (fun t f => rfl) t k rest r hreg hcalm hk
        show (magnitudeToken m).kind.isSpecial = false
        rcases magnitudeToken_kind m with hkind | hkind <;> rw [hkind] <;> rfl
      · -- An empty pair of braces.
        have hzero : Number.finite false m = (.zero false : Single) := by
          simpa [Node.isBlock] using hblock
        rw [hzero] at hk ⊢
        obtain ⟨k, rfl⟩ : ∃ l, k = l + 1 := ⟨k - 1, by
          rw [show blockTokens (.number pos (.zero false)) (Node.number pos (.zero false)).tokens ++
            rest = TokenKind.lBrace.token :: (TokenKind.newline.token ::
              TokenKind.rBrace.token :: rest) from rfl, List.length_cons] at hk
          omega⟩
        have hrun : Grammar.block (rules (k + 1)) (bareStream
            (blockTokens (.number pos (.zero false)) (Node.number pos (.zero false)).tokens ++ rest)) =
            .ok (.number .none (.zero false)) (bareStream rest) := rfl
        rw [hrun]
        exact ⟨fun h => ⟨rfl, (Reply.ok.inj h).2.symm⟩, fun h => by rw [h.2]; rfl⟩

theorem factor_text (k : Nat) (value : String) (rest : List Token) :
    Grammar.factor (rules k) (bareStream (⟨.text, value, .none⟩ :: rest)) =
      .ok (.text .none value) (bareStream rest) :=
  rfl

theorem factor_this (k : Nat) (rest : List Token) :
    Grammar.factor (rules k) (bareStream ((TokenKind.keyword .this_).token :: rest)) =
      .ok (.this .none) (bareStream rest) :=
  rfl

/-- A name that no assignment follows. -/
theorem factor_name (k : Nat) (name : String) {rest : List Token}
    (h : (firstKind rest).binds = false ∨ firstKind rest = .lParen) :
    Grammar.factor (rules k) (bareStream (nameToken name :: rest)) =
      .ok (.read .none name) (bareStream rest) := by
  have hnamed : Grammar.factor (rules k) (bareStream (nameToken name :: rest)) =
      named (rules k) (bareStream (nameToken name :: rest)) := rfl
  rw [hnamed, named, bind_of_ok (show advance (bareStream (nameToken name :: rest)) =
    .ok (nameToken name) (bareStream rest) from rfl), bind_of_ok (show Parse.peek
      (bareStream rest) = .ok (bareStream rest).peek (bareStream rest) from rfl)]
  have hkind : (bareStream rest).peek.kind = firstKind rest := peek_kind rest .none
  rw [hkind]
  generalize firstKind rest = kind at h
  rcases h with h | h
  · cases kind <;> first | rfl | cases h
  · rw [h]
    rfl

theorem Node.Exact.of_leaf {n : Node} (hextended : n.isExtended = false) (hjump : n.isJump = false)
    (hblock : n.isBlock = false) (hbare : n.endsBare = false)
    (hstart : (firstKind n.tokens).isSpecial = false)
    (hreads : ∀ t f, n.reads t f = !t.takes f.next)
    (hrun : ∀ k rest, (firstKind rest).binds = false ∨ firstKind rest = .lParen →
      Grammar.factor (rules k) (bareStream (n.tokens ++ rest)) = .ok n.erase (bareStream rest)) :
    n.Exact where
  tier t k rest r hreg hcalm hk := by
    have hfactor : n.FactorExact fun _ => true :=
      .of_run hbare fun k rest _ hcalm => hrun k rest (.inl hcalm.next)
    refine hfactor.tier hextended hstart (fun t f => ?_) t k rest r (hreg.strict hjump) hcalm hk
    rw [hreads, Bool.true_and]
  block k rest r h := by
    rw [hblock] at h
    cases h
  callee k rest r hcallee hreg hparen hk := by
    rw [hrun k rest (.inr hparen), hreads]
    exact ⟨fun h => ⟨rfl, (Reply.ok.inj h).2.symm⟩, fun h => by rw [h.2]⟩

theorem Node.exact_text (pos : Position) (value : String) : (Node.text pos value).Exact :=
  .of_leaf rfl rfl rfl rfl rfl (fun _ _ => rfl) fun k rest _ => factor_text k value rest

theorem Node.exact_this (pos : Position) : (Node.this pos).Exact :=
  .of_leaf rfl rfl rfl rfl rfl (fun _ _ => rfl) fun k rest _ => factor_this k rest

theorem Node.exact_read (pos : Position) (name : String) : (Node.read pos name).Exact :=
  .of_leaf rfl rfl rfl rfl rfl (fun _ _ => rfl) fun k _ h => factor_name k name h

/-! ### Lists -/

/-- What a rule makes of a first token that it takes unseen. -/
theorem list_exact {items : List Node} (hexact : AllExact items) (pos : Position) {k : Nat}
    {rest : List Token} (hreg : allRegular false items)
    (hk : ((Node.list pos items).tokens ++ rest).length ≤ k) (r : Stream) :
    Grammar.factor (rules k) (bareStream ((Node.list pos items).tokens ++ rest)) =
        .ok (Node.list pos items).erase r ↔
      itemsRead .rSquare items = true ∧ r = bareStream rest := by
  have hlist : (Node.list pos items).tokens ++ rest = TokenKind.lSquare.token ::
      (itemTokens items ++ TokenKind.rSquare.token :: rest) := by
    rw [Node.tokens]
    simp only [List.cons_append, List.append_assoc, List.nil_append]
  rw [hlist] at hk ⊢
  rw [List.length_cons] at hk
  obtain ⟨k, rfl⟩ : ∃ l, k = l + 1 := ⟨k - 1, by omega⟩
  have hitems := items_exact "']'" (.inr rfl) rest items hexact hreg (k := k)
    (by omega)
  show (enclosed (rules (k + 1)).expression .rSquare "']'" >>= fun items =>
    Parse.done (Node.list .none items)) (bareStream (itemTokens items ++
      TokenKind.rSquare.token :: rest)) = _ ↔ _
  exact build_exact hitems rfl fun x h => (Node.list.inj h).2

theorem Node.exact_list (pos : Position) {items : List Node} (hexact : AllExact items) :
    (Node.list pos items).Exact where
  tier t k rest r hreg hcalm hk := by
    have hfactor : (Node.list pos items).FactorExact fun _ => itemsRead .rSquare items :=
      fun k rest r hreg _ hk => list_exact hexact pos hreg hk r
    exact hfactor.tier rfl rfl (fun _ _ => rfl) t k rest r (hreg.strict rfl) hcalm hk
  block k rest r h := nomatch h
  callee k rest r _ hreg _ hk := by
    refine (list_exact hexact pos hreg hk r).trans (and_congr ?_ Iff.rfl)
    rw [Node.reads, Bool.and_eq_true]
    exact ⟨fun h => ⟨h, rfl⟩, fun h => h.1⟩

/-! ### Assignments and declarations -/

theorem value_exact {value : Node} (hvalue : value.Exact) {k : Nat} {rest : List Token}
    (hreg : value.Regular false) (hcalm : Calm rest)
    (hk : (wrapped (isOpenChoice value) value.tokens ++ rest).length ≤ k) (r : Stream) :
    (rules (k + 1)).expression
        (bareStream (wrapped (isOpenChoice value) value.tokens ++ rest)).skipNewlines =
          .ok value.erase r ↔
      wrappedReads (isOpenChoice value) .expression (Follow.of rest) (fun t f => value.reads t f) =
          true ∧ r = bareStream (settle (!isOpenChoice value && value.endsBare) rest) := by
  have hlead := (value.leads hreg).wrap (isOpenChoice value)
  have hline : (bareStream (wrapped (isOpenChoice value) value.tokens ++ rest)).peek.kind ≠
      .newline := by
    rw [bareStream, peek_kind, firstKind_append hlead]
    exact (leads_ne hlead.firstKind.1).1
  rw [skipNewlines_eq hline]
  exact wrapped_exact hvalue (isOpenChoice value) (t := .expression) hreg (fun _ => hreg) hcalm hk r

theorem Node.exact_assign (pos : Position) (name : String) {value : Node} (hvalue : value.Exact) :
    (Node.assign pos name value).Exact := by
  refine .of_factor (fun f => wrappedReads (isOpenChoice value) .expression f
    (fun t f => value.reads t f)) ?_ rfl rfl (fun _ => rfl) (fun _ _ => rfl) rfl rfl
  intro k rest r hreg hcalm hk
  have hlist : (Node.assign pos name value).tokens ++ rest = nameToken name ::
      TokenKind.equals.token :: (wrapped (isOpenChoice value) value.tokens ++ rest) := rfl
  rw [hlist] at hk ⊢
  rw [List.length_cons, List.length_cons] at hk
  obtain ⟨k, rfl⟩ : ∃ l, k = l + 1 := ⟨k - 1, by omega⟩
  have hrun := value_exact hvalue hreg.2 hcalm (k := k) (by omega)
  show ((rules (k + 1)).expression >>= fun x => Parse.done (Node.assign .none name x))
    (bareStream (wrapped (isOpenChoice value) value.tokens ++ rest)).skipNewlines = _ ↔ _
  exact build_exact hrun rfl fun x h => (Node.assign.inj h).2.2

theorem factor_update (k : Nat) (name : String) (op : Arithmetic) (ts : List Token) :
    Grammar.factor (rules k) (bareStream (nameToken name :: op.updateKind.token :: ts)) =
      ((rules k).expression >>= fun x => Parse.done (Node.update .none name op x))
        (bareStream ts).skipNewlines := by
  cases op <;> rfl

theorem Node.exact_update (pos : Position) (name : String) (op : Arithmetic) {value : Node}
    (hvalue : value.Exact) : (Node.update pos name op value).Exact := by
  refine .of_factor (fun f => wrappedReads (isOpenChoice value) .expression f
    (fun t f => value.reads t f)) ?_ rfl rfl (fun _ => rfl) (fun _ _ => rfl) rfl rfl
  intro k rest r hreg hcalm hk
  have hlist : (Node.update pos name op value).tokens ++ rest = nameToken name ::
      op.updateKind.token :: (wrapped (isOpenChoice value) value.tokens ++ rest) := rfl
  rw [hlist] at hk ⊢
  rw [List.length_cons, List.length_cons] at hk
  obtain ⟨k, rfl⟩ : ∃ l, k = l + 1 := ⟨k - 1, by omega⟩
  have hrun := value_exact hvalue hreg.2 hcalm (k := k) (by omega)
  rw [factor_update]
  exact build_exact hrun rfl fun x h => (Node.update.inj h).2.2.2

/-- A tier that accepts no declaration does not start with one. -/
theorem Tier.parser_var (self : Rules) {s : Stream} (hvar : s.peek.kind = .keyword .var_) {t : Tier}
    (ht : t.declares = false) : ∃ d, t.parser self s = .error d s := by
  have hspecial : s.peek.kind.isSpecial = true := by
    rw [hvar]
    rfl
  obtain ⟨d, hcall⟩ : ∃ d, Grammar.call self s = .error d s := call_special hspecial
  have haccess : Grammar.access self s = .error d s := bind_of_error hcall
  have hterm : Grammar.term self s = .error d s := bind_of_error haccess
  have hsum : Grammar.sum self s = .error d s := bind_of_error hterm
  have hcomparison : Grammar.comparison self s = .error d s := bind_of_error hsum
  have hnegation : Grammar.negation self s = .error d s := by
    rw [negation_eq self (by rw [hvar]; decide)]
    exact hcomparison
  refine ⟨d, ?_⟩
  cases t with
  | call => exact hcall
  | access => exact haccess
  | term => exact hterm
  | sum => exact hsum
  | comparison => exact hcomparison
  | negation => exact hnegation
  | expression | statement => cases ht

theorem Tier.parser_declaration {self : Rules} {s : Stream}
    (hvar : s.peek.kind = .keyword .var_) {t : Tier} (ht : t.declares = true) :
    t.parser self s = declaration self s := by
  cases t with
  | expression => exact expression_var hvar
  | statement =>
    have hjump : s.peek.kind.jumps = false := by
      rw [hvar]
      rfl
    exact (statement_eq hjump).trans (expression_var hvar)
  | _ => cases ht

theorem Node.exact_declare (pos : Position) (name : String) {value : Node} (hvalue : value.Exact) :
    (Node.declare pos name value).Exact where
  tier t k rest r hreg hcalm hk := by
    have hlist : (Node.declare pos name value).tokens ++ rest = (TokenKind.keyword .var_).token ::
        nameToken name :: TokenKind.equals.token ::
          (wrapped (isOpenChoice value) value.tokens ++ rest) := rfl
    rw [hlist] at hk ⊢
    rw [List.length_cons, List.length_cons] at hk
    rw [Node.reads]
    cases ht : t.declares with
    | false =>
      obtain ⟨d, hd⟩ := Tier.parser_var (rules k) (s := bareStream
        ((TokenKind.keyword .var_).token :: nameToken name :: TokenKind.equals.token ::
          (wrapped (isOpenChoice value) value.tokens ++ rest))) rfl ht
      rw [hd]
      exact ⟨fun h => (nomatch h), fun h => (nomatch h.1)⟩
    | true =>
      obtain ⟨k, rfl⟩ : ∃ l, k = l + 1 := ⟨k - 1, by omega⟩
      have hrun := value_exact hvalue hreg.2 hcalm (k := k) (by
        rw [List.length_cons] at hk
        omega)
      rw [Tier.parser_declaration rfl ht, Bool.true_and]
      show ((rules (k + 1)).expression >>= fun x => Parse.done (Node.declare .none name x))
        (bareStream (wrapped (isOpenChoice value) value.tokens ++ rest)).skipNewlines = _ ↔ _
      exact build_exact hrun rfl fun x h => (Node.declare.inj h).2.2
  block k rest r h := nomatch h
  callee k rest r h := nomatch h

/-! ### Choices -/

theorem factor_choice {self : Rules} {ts : List Token} (h : firstKind ts ≠ .newline) :
    Grammar.factor self (bareStream ((TokenKind.keyword .if_).token :: ts)) =
      (armsFrom self (fun s => s.ahead.length) >>= fun arms => Parse.done (Node.choose .none arms))
        (bareStream ts) := by
  show (Grammar.arm self >>= fun a => remaining >>= fun n => armsRest self n >>= fun more =>
    Parse.done (Node.choose .none (.arm a.1 a.2.1 a.2.2 more))) (bareStream ts) = _
  rw [bareStream, arm_bind _ h]
  simp only [armsFrom, Parse.bind_assoc]
  refine congrFun (congrArg (self.expression >>= ·) (funext fun condition => ?_)) _
  refine congrArg (bodyRule self self.statement >>= ·) (funext fun b => ?_)
  have hbuild : ∀ p : Parse Arms, (p >>= fun more =>
      Parse.done (Node.choose .none (.arm condition b.1 b.2 more))) =
        ((p >>= fun more => Parse.done (Arms.arm condition b.1 b.2 more)) >>= fun arms =>
          Parse.done (Node.choose .none arms)) := fun p => by
    rw [Parse.bind_assoc]
    rfl
  exact hbuild fun s => armsRest self s.ahead.length s

theorem Node.exact_choose (pos : Position) {arms : Arms} (hexact : arms.AllExact) :
    (Node.choose pos arms).Exact := by
  refine .of_factor (fun f => arms.reads f) ?_ rfl rfl (fun hreg => ?_) (fun _ _ => rfl)
    rfl rfl
  · intro k rest r hreg hcalm hk
    cases arms with
    | done => cases hreg.1
    | otherwise _ _ => cases hreg.1
    | arm condition braced body more =>
      have hlist : (Node.choose pos (.arm condition braced body more)).tokens ++ rest =
          (TokenKind.keyword .if_).token :: (condition.tokens ++
            (bodyTokens braced body body.tokens ++ (more.tokens .elseif_ ++ rest))) := by
        rw [Node.tokens, Arms.tokens]
        simp only [List.cons_append, List.append_assoc]
      rw [hlist] at hk ⊢
      rw [List.length_cons] at hk
      obtain ⟨k, rfl⟩ : ∃ l, k = l + 1 := ⟨k - 1, by omega⟩
      have harms : (Arms.arm condition braced body more).Regular := hreg.2
      have hlead := condition.leads harms.1
      have hline : firstKind (condition.tokens ++ (bodyTokens braced body body.tokens ++
          (more.tokens .elseif_ ++ rest))) ≠ .newline := by
        rw [firstKind_append hlead]
        exact (leads_ne hlead.firstKind.1).1
      rw [factor_choice hline]
      refine build_exact (fun r' => armsFrom_exact hcalm hexact.1 hexact.2.1 harms _ (by omega) ?_ r')
        rfl fun x h => (Node.choose.inj h).2
      refine armsRest_exact hcalm more hexact.2.2 harms.2.2.2 (bodyBare braced body) _ ?_
        (Nat.le_refl _)
      simp only [List.length_append] at hk ⊢
      omega
  · cases arms with
    | done => cases hreg.1
    | otherwise _ _ => cases hreg.1
    | arm _ _ _ _ => rfl

/-! ### Loops -/

/-- The body of a loop, before which line breaks are skipped. -/
theorem loopBody_exact {body : Node} (hn : body.Exact) {t : Tier} {braced : Bool} {k : Nat}
    (rest : List Token) (hblock : braced = true → body.isBlock = true)
    (hreg : body.Regular (t == .statement && !braced)) (hcalm : Calm rest)
    (hk : (bodyTokens braced body body.tokens ++ rest).length ≤ k + 1) (r : Stream) :
    loopBody (rules (k + 1)) (t.parser (rules k))
        (bareStream (bodyTokens braced body body.tokens ++ rest)) = .ok (braced, body.erase) r ↔
      bodyReads braced body t (Follow.of rest) (fun t f => body.reads t f) = true ∧
        r = bareStream (settle (bodyBare braced body) rest) := by
  obtain ⟨u, us, hstart, hkind⟩ := bodyTokens_cons body hblock
  have hline : firstKind (bodyTokens braced body body.tokens ++ rest) ≠ .newline := by
    rw [hstart]
    show u.kind ≠ .newline
    rw [hkind]
    exact (bodyStart_facts braced).2
  have hskip : loopBody (rules (k + 1)) (t.parser (rules k)) =
      (skipNewlines >>= fun _ => bodyRule (rules (k + 1)) (t.parser (rules k))) := rfl
  rw [hskip, bareStream, skip_bind hline]
  exact body_exact hn hblock hreg hcalm hk r

theorem Node.Exact.before_body {n body : Node} (hn : n.Exact) {braced : Bool} {k : Nat}
    (rest : List Token) (hreg : n.Regular false) (hblock : braced = true → body.isBlock = true)
    (hk : (n.tokens ++ (bodyTokens braced body body.tokens ++ rest)).length ≤ k) (r : Stream) :
    (rules (k + 1)).expression
        (bareStream (n.tokens ++ (bodyTokens braced body body.tokens ++ rest))) =
          .ok n.erase r ↔
      n.reads .expression (.token (bodyStart braced)) = true ∧
        r = bareStream (bodyTokens braced body body.tokens ++ rest) := by
  obtain ⟨u, us, hstart, hkind⟩ := bodyTokens_cons body hblock
  have hfacts := bodyStart_facts braced
  rw [← hkind] at hfacts
  rw [hstart] at hk
  have hrun := hn.before (u := u) hreg hfacts.1 hfacts.2 hk r
  rw [show u :: (us.append rest) = u :: us ++ rest from rfl, ← hstart, hkind] at hrun
  exact hrun

theorem Node.exact_loop (pos : Position) {condition body : Node} (braced : Bool)
    (hcondition : condition.Exact) (hbody : body.Exact) :
    (Node.loop pos condition braced body).Exact := by
  refine .of_factor (fun f => condition.reads .expression (.token (bodyStart braced)) &&
    bodyReads braced body .statement f (fun t f => body.reads t f)) ?_ rfl rfl (fun _ => rfl)
    (fun _ _ => rfl) rfl rfl
  intro k rest r hreg hcalm hk
  have hlist : (Node.loop pos condition braced body).tokens ++ rest =
      (TokenKind.keyword .while_).token :: (condition.tokens ++
        (bodyTokens braced body body.tokens ++ rest)) := by
    rw [Node.tokens]
    simp only [List.cons_append, List.append_assoc]
  rw [hlist] at hk ⊢
  rw [List.length_cons] at hk
  obtain ⟨k, rfl⟩ : ∃ l, k = l + 1 := ⟨k - 1, by omega⟩
  have hlead := condition.leads hreg.1
  have hline : firstKind (condition.tokens ++ (bodyTokens braced body body.tokens ++ rest)) ≠
      .newline := by
    rw [firstKind_append hlead]
    exact (leads_ne hlead.firstKind.1).1
  have hfirst := hcondition.before_body rest hreg.1 hreg.2.1 (k := k) (by omega)
  have hsecond := loopBody_exact hbody (t := .statement) (k := k) rest hreg.2.1
    hreg.2.2 hcalm (by
      rw [List.length_append] at hk
      omega)
  show (skipNewlines >>= fun _ => (rules (k + 1)).expression >>= fun condition =>
    loopBody (rules (k + 1)) (Tier.parser (rules k) .statement) >>= fun b =>
      Parse.done (Node.loop .none condition b.1 b.2)) ⟨condition.tokens ++
        (bodyTokens braced body body.tokens ++ rest), .none⟩ = _ ↔ _
  rw [skip_bind hline, Bool.and_eq_true, and_assoc]
  refine (bind_exact hfirst fun x r' h => ?_).trans (and_congr Iff.rfl ?_)
  · obtain ⟨_, _, _, h⟩ := bind_eq_ok h
    exact (Node.loop.inj (Reply.ok.inj h).1).2.1
  · refine build_exact hsecond rfl fun x h => ?_
    obtain ⟨-, -, hbraced, hbody⟩ := Node.loop.inj h
    exact Prod.ext hbraced hbody

theorem Node.exact_each (pos : Position) (name : String) {items body : Node} (braced : Bool)
    (hitems : items.Exact) (hbody : body.Exact) :
    (Node.each pos name items braced body).Exact := by
  refine .of_factor (fun f => items.reads .expression (.token (bodyStart braced)) &&
    bodyReads braced body .expression f (fun t f => body.reads t f)) ?_ rfl rfl (fun _ => rfl)
    (fun _ _ => rfl) rfl rfl
  intro k rest r hreg hcalm hk
  have hlist : (Node.each pos name items braced body).tokens ++ rest =
      (TokenKind.keyword .for_).token :: nameToken name :: (TokenKind.keyword .in_).token ::
        (items.tokens ++ (bodyTokens braced body body.tokens ++ rest)) := by
    rw [Node.tokens]
    simp only [List.cons_append, List.append_assoc]
  rw [hlist] at hk ⊢
  rw [List.length_cons, List.length_cons, List.length_cons] at hk
  obtain ⟨k, rfl⟩ : ∃ l, k = l + 1 := ⟨k - 1, by omega⟩
  have hfirst := hitems.before_body rest hreg.2.1 hreg.2.2.1 (k := k) (by omega)
  have hsecond := loopBody_exact hbody (t := .expression) (k := k) rest hreg.2.2.1
    hreg.2.2.2 hcalm (by
      rw [List.length_append] at hk
      omega)
  show ((rules (k + 1)).expression >>= fun items =>
    loopBody (rules (k + 1)) (Tier.parser (rules k) .expression) >>= fun b =>
      Parse.done (Node.each .none name items b.1 b.2)) (bareStream (items.tokens ++
        (bodyTokens braced body body.tokens ++ rest))) = _ ↔ _
  rw [Bool.and_eq_true, and_assoc]
  refine (bind_exact hfirst fun x r' h => ?_).trans (and_congr Iff.rfl ?_)
  · obtain ⟨_, _, _, h⟩ := bind_eq_ok h
    exact (Node.each.inj (Reply.ok.inj h).1).2.2.1
  · refine build_exact hsecond rfl fun x h => ?_
    obtain ⟨-, -, -, hbraced, hbody⟩ := Node.each.inj h
    exact Prod.ext hbraced hbody

/-- The step of a counting loop, if there is one. -/
def stepRule (self : Rules) : Parse (Option Node) := do
  if ← accept (.keyword .by_) then some <$> self.expression else pure none

theorem stepRule_by {self : Rules} (ts : List Token) :
    stepRule self (bareStream ((TokenKind.keyword .by_).token :: ts)) =
      (self.expression >>= fun n => Parse.done (some n)) (bareStream ts) :=
  rfl

theorem stepRule_none {self : Rules} {ts : List Token} (h : firstKind ts ≠ .keyword .by_) :
    stepRule self (bareStream ts) = .ok none (bareStream ts) := by
  have haccept : accept (.keyword .by_) (bareStream ts) = .ok false (bareStream ts) := by
    rw [accept, bareStream, peek_kind, beq_false_of_ne h]
    rfl
  exact bind_of_ok haccept

theorem bodyStart_ne_by (braced : Bool) : bodyStart braced ≠ .keyword .by_ := by
  cases braced <;> decide

theorem step_exact {step : Option Node} (hstep : ∀ n ∈ step, n.Exact) {body : Node} {braced : Bool}
    {k : Nat} (rest : List Token) (hreg : someRegular step)
    (hblock : braced = true → body.isBlock = true)
    (hk : (stepTokens step ++ (bodyTokens braced body body.tokens ++ rest)).length ≤ k)
    (r : Stream) :
    stepRule (rules (k + 1))
        (bareStream (stepTokens step ++ (bodyTokens braced body body.tokens ++ rest))) =
          .ok (eraseSome step) r ↔
      stepReads (bodyStart braced) step = true ∧
        r = bareStream (bodyTokens braced body body.tokens ++ rest) := by
  cases step with
  | none =>
    obtain ⟨u, us, hstart, hkind⟩ := bodyTokens_cons body hblock
    have hnone : firstKind (bodyTokens braced body body.tokens ++ rest) ≠ .keyword .by_ := by
      rw [hstart]
      show u.kind ≠ .keyword .by_
      rw [hkind]
      exact bodyStart_ne_by braced
    rw [stepTokens, List.nil_append, stepRule_none hnone]
    exact ⟨fun h => ⟨rfl, (Reply.ok.inj h).2.symm⟩, fun h => by rw [h.2]; rfl⟩
  | some n =>
    have hlist : stepTokens (some n) ++ (bodyTokens braced body body.tokens ++ rest) =
        (TokenKind.keyword .by_).token :: (n.tokens ++
          (bodyTokens braced body body.tokens ++ rest)) := rfl
    rw [hlist] at hk ⊢
    rw [List.length_cons] at hk
    rw [stepRule_by]
    exact build_exact ((hstep n rfl).before_body (k := k) rest hreg hblock (by omega)) rfl
      fun x h => Option.some.inj h

theorem factor_count {self : Rules} (name : String) {ts : List Token}
    (h : firstKind ts ≠ .newline) :
    Grammar.factor self (bareStream ((TokenKind.keyword .for_).token :: nameToken name ::
        TokenKind.equals.token :: ts)) =
      (self.expression >>= fun start => skipNewlines >>= fun _ =>
        expect (.keyword .to_) "'to'" >>= fun _ => skipNewlines >>= fun _ =>
          self.expression >>= fun stop => skipNewlines >>= fun _ => stepRule self >>= fun step =>
            loopBody self self.expression >>= fun b =>
              Parse.done (Node.count .none name start stop step b.1 b.2)) (bareStream ts) := by
  have hstep : ∀ f : Option Node → Parse Node, (stepRule self >>= f) =
      (accept (.keyword .by_) >>= fun b =>
        if b then some <$> self.expression >>= f else pure none >>= f) := by
    intro f
    rw [stepRule, Parse.bind_assoc]
    refine congrArg (accept (.keyword .by_) >>= ·) (funext fun b => ?_)
    cases b with
    | true => rfl
    | false => rfl
  simp only [hstep]
  show (skipNewlines >>= fun _ => self.expression >>= fun start => skipNewlines >>= fun _ =>
    Functor.discard (expect (.keyword .to_) "'to'") >>= fun _ => skipNewlines >>= fun _ =>
      self.expression >>= fun stop => skipNewlines >>= fun _ => accept (.keyword .by_) >>= fun b =>
        if b then some <$> self.expression >>= fun step =>
          loopBody self self.expression >>= fun b =>
            Parse.done (Node.count .none name start stop step b.1 b.2)
        else pure none >>= fun step =>
          loopBody self self.expression >>= fun b =>
            Parse.done (Node.count .none name start stop step b.1 b.2)) (bareStream ts) = _
  rw [bareStream, skip_bind h]
  simp only [discard_bind]

theorem stepTokens_firstKind (step : Option Node) {braced : Bool} {body : Node}
    (hblock : braced = true → body.isBlock = true) (rest : List Token) :
    ∃ u us, stepTokens step ++ (bodyTokens braced body body.tokens ++ rest) = u :: us ∧
      u.kind = (if step.isSome then .keyword .by_ else bodyStart braced) := by
  cases step with
  | some n => exact ⟨_, _, rfl, rfl⟩
  | none =>
    obtain ⟨u, us, hstart, hkind⟩ := bodyTokens_cons body hblock
    rw [stepTokens, List.nil_append, hstart]
    exact ⟨u, us ++ rest, rfl, hkind⟩

theorem Node.exact_count (pos : Position) (name : String) {start stop body : Node}
    {step : Option Node} (braced : Bool) (hstart : start.Exact) (hstop : stop.Exact)
    (hstep : ∀ n ∈ step, n.Exact) (hbody : body.Exact) :
    (Node.count pos name start stop step braced body).Exact := by
  refine .of_factor (fun f => start.reads .expression (.token (.keyword .to_)) &&
    stop.reads .expression (.token (if step.isSome then .keyword .by_ else bodyStart braced)) &&
    stepReads (bodyStart braced) step &&
    bodyReads braced body .expression f (fun t f => body.reads t f)) ?_ rfl rfl (fun _ => rfl)
    (fun _ _ => rfl) rfl rfl
  intro k rest r hreg hcalm hk
  have hlist : (Node.count pos name start stop step braced body).tokens ++ rest =
      (TokenKind.keyword .for_).token :: nameToken name :: TokenKind.equals.token ::
        (start.tokens ++ (TokenKind.keyword .to_).token :: (stop.tokens ++
          (stepTokens step ++ (bodyTokens braced body body.tokens ++ rest)))) := by
    rw [Node.tokens]
    simp only [List.cons_append, List.append_assoc]
  rw [hlist] at hk ⊢
  simp only [List.length_cons, List.length_append] at hk
  obtain ⟨k, rfl⟩ : ∃ l, k = l + 1 := ⟨k - 1, by omega⟩
  obtain ⟨-, hregStart, hregStop, hregStep, hblock, hregBody⟩ := hreg
  have hline : ∀ {n : Node} (ts : List Token), n.Regular false →
      firstKind (n.tokens ++ ts) ≠ .newline := fun ts hn => by
    rw [firstKind_append (Node.leads _ hn)]
    exact (leads_ne (Node.leads _ hn).firstKind.1).1
  obtain ⟨u, us, hbehind, hkind⟩ := stepTokens_firstKind step hblock rest
  have hquiet : u.kind.binds = false ∧ u.kind ≠ .newline := by
    rw [hkind]
    split
    · exact ⟨rfl, by decide⟩
    · exact bodyStart_facts braced
  have hfirst := hstart.before (u := (TokenKind.keyword .to_).token) (l := stop.tokens ++
    (stepTokens step ++ (bodyTokens braced body body.tokens ++ rest))) hregStart rfl (by decide)
    (k := k) (by simp only [List.length_cons, List.length_append]; omega)
  have hsecond := hstop.before (u := u) (l := us) hregStop hquiet.1 hquiet.2 (k := k) (by
    rw [← hbehind]
    simp only [List.length_append]
    omega)
  rw [← hbehind, hkind] at hsecond
  have hthird := step_exact hstep rest hregStep hblock (k := k) (by
    simp only [List.length_append]
    omega)
  have hfourth := loopBody_exact hbody (t := .expression) (k := k) rest hblock hregBody
    hcalm (by
      simp only [List.length_append]
      omega)
  rw [factor_count name (hline _ hregStart)]
  simp only [Bool.and_eq_true, and_assoc]
  refine (bind_exact hfirst fun x r' h => ?_).trans (and_congr Iff.rfl ?_)
  · obtain ⟨_, _, _, h⟩ := bind_eq_ok h
    obtain ⟨_, _, _, h⟩ := bind_eq_ok h
    obtain ⟨_, _, _, h⟩ := bind_eq_ok h
    obtain ⟨_, _, _, h⟩ := bind_eq_ok h
    obtain ⟨_, _, _, h⟩ := bind_eq_ok h
    obtain ⟨_, _, _, h⟩ := bind_eq_ok h
    obtain ⟨_, _, _, h⟩ := bind_eq_ok h
    exact (Node.count.inj (Reply.ok.inj h).1).2.2.1
  show (skipNewlines >>= fun _ => (rules (k + 1)).expression >>= fun stop => skipNewlines >>= fun _ =>
    stepRule (rules (k + 1)) >>= fun step =>
      loopBody (rules (k + 1)) (Tier.parser (rules k) .expression) >>= fun b =>
        Parse.done (Node.count .none name start.erase stop step b.1 b.2)) ⟨stop.tokens ++
          (stepTokens step ++ (bodyTokens braced body body.tokens ++ rest)), .none⟩ = _ ↔ _
  rw [skip_bind (hline _ hregStop)]
  refine (bind_exact hsecond fun x r' h => ?_).trans (and_congr Iff.rfl ?_)
  · obtain ⟨_, _, _, h⟩ := bind_eq_ok h
    obtain ⟨_, _, _, h⟩ := bind_eq_ok h
    obtain ⟨_, _, _, h⟩ := bind_eq_ok h
    exact (Node.count.inj (Reply.ok.inj h).1).2.2.2.1
  rw [bareStream, skip_bind (by rw [hbehind]; exact hquiet.2)]
  refine (bind_exact hthird fun x r' h => ?_).trans (and_congr Iff.rfl ?_)
  · obtain ⟨_, _, _, h⟩ := bind_eq_ok h
    exact (Node.count.inj (Reply.ok.inj h).1).2.2.2.2.1
  · refine build_exact hfourth rfl fun x h => ?_
    obtain ⟨-, -, -, -, -, hbraced, hbody⟩ := Node.count.inj h
    exact Prod.ext hbraced hbody
/-! ### Functions and objects -/

/-- What stands behind the parameters of a function. -/
def functionBody (self : Rules) (name : Option String) (params : List String) : Parse Node := do
  skipNewlines
  if ← accept .colon then
    skipNewlines
    let body ← self.statement
    return .function .none name params false body
  else
    let body ← Grammar.block self
    return .function .none name params true body

theorem factor_function {self : Rules} (name : Option String) (params : List String)
    (ts : List Token) :
    Grammar.factor self (bareStream ((TokenKind.keyword .function_).token ::
        ((name.map nameToken).toList ++ TokenKind.lParen.token :: (parameterTokens params ++
          TokenKind.rParen.token :: ts)))) = functionBody self name params (bareStream ts) := by
  cases name with
  | none =>
    show (Grammar.parameters >>= fun params => functionBody self none params) (bareStream
      (TokenKind.lParen.token :: (parameterTokens params ++ TokenKind.rParen.token :: ts))) = _
    exact bind_of_ok (parameters_run params ts)
  | some name =>
    show (Grammar.parameters >>= fun params => functionBody self (some name) params) (bareStream
      (TokenKind.lParen.token :: (parameterTokens params ++ TokenKind.rParen.token :: ts))) = _
    exact bind_of_ok (parameters_run params ts)

theorem Node.exact_function (pos : Position) (name : Option String) (params : List String)
    (braced : Bool) {body : Node} (hbody : body.Exact) :
    (Node.function pos name params braced body).Exact := by
  refine .of_factor (fun f => if braced then body.reads .call (.token .rBrace)
    else wrappedReads (isOpenChoice body) .statement f (fun t f => body.reads t f)) ?_ rfl rfl
    (fun _ => rfl) (fun _ _ => rfl) rfl rfl
  intro k rest r hreg hcalm hk
  have hlist : (Node.function pos name params braced body).tokens ++ rest =
      (TokenKind.keyword .function_).token :: ((name.map nameToken).toList ++
        TokenKind.lParen.token :: (parameterTokens params ++ TokenKind.rParen.token ::
          (bodyTokens braced body body.tokens ++ rest))) := by
    rw [Node.tokens]
    simp only [List.cons_append, List.append_assoc]
  rw [hlist] at hk ⊢
  simp only [List.length_cons, List.length_append] at hk
  obtain ⟨k, rfl⟩ : ∃ l, k = l + 1 := ⟨k - 1, by omega⟩
  obtain ⟨-, -, hblock, hregBody⟩ := hreg
  rw [factor_function]
  cases braced with
  | true =>
    have hfirst := blockTokens_firstKind (hblock rfl) rest
    have haccept : accept .colon ⟨blockTokens body body.tokens ++ rest, .none⟩ =
        .ok false ⟨blockTokens body body.tokens ++ rest, .none⟩ := by
      rw [accept, peek_kind, hfirst]
      rfl
    show functionBody (rules (k + 1)) name params ⟨blockTokens body body.tokens ++ rest, .none⟩ =
      _ ↔ _
    rw [functionBody, skip_bind (by rw [hfirst]; decide), bind_of_ok haccept]
    refine build_exact (fun r' => hbody.block (k + 1) rest r' (hblock rfl) hregBody ?_) rfl
      fun x h => (Node.function.inj h).2.2.2.2
    rw [List.length_append, show blockTokens body body.tokens =
      bodyTokens true body body.tokens from rfl]
    omega
  | false =>
    have hlead := (body.leads hregBody).wrap (isOpenChoice body)
    have hline : firstKind (wrapped (isOpenChoice body) body.tokens ++ rest) ≠ .newline := by
      rw [firstKind_append hlead]
      exact (leads_ne hlead.firstKind.1).1
    rw [show bodyTokens false body body.tokens =
      TokenKind.colon.token :: wrapped (isOpenChoice body) body.tokens from rfl] at hk ⊢
    rw [List.length_cons] at hk
    show (skipNewlines >>= fun _ => Tier.parser (rules k) .statement >>= fun body =>
      Parse.done (Node.function .none name params false body))
        ⟨wrapped (isOpenChoice body) body.tokens ++ rest, .none⟩ = _ ↔ _
    rw [skip_bind hline]
    refine build_exact (wrapped_exact hbody (isOpenChoice body) (t := .statement) hregBody
      (fun ho => openChoice_regular ho hregBody) hcalm ?_) rfl
      fun x h => (Node.function.inj h).2.2.2.2
    rw [List.length_append]
    omega

/-- What an object extends, if it says so. -/
def parentTokens : Option String → List Token
  | some p => [(TokenKind.keyword .extends_).token, nameToken p]
  | none => []

theorem factor_object {self : Rules} (name : String) (params : List String)
    (parent : Option String) {ts : List Token} (h : firstKind ts = .lBrace) :
    Grammar.factor self (bareStream ((TokenKind.keyword .object_).token :: nameToken name ::
        TokenKind.lParen.token :: (parameterTokens params ++ TokenKind.rParen.token ::
          (parentTokens parent ++ ts)))) =
      (Grammar.block self >>= fun body => Parse.done (Node.object .none name params parent body))
        (bareStream ts) := by
  show (Grammar.parameters >>= fun params => skipNewlines >>= fun _ => parentName >>= fun parent =>
    Grammar.block self >>= fun body => Parse.done (Node.object .none name params parent body))
      (bareStream (TokenKind.lParen.token :: (parameterTokens params ++
        TokenKind.rParen.token :: (parentTokens parent ++ ts)))) = _
  rw [bind_of_ok (parameters_run params (parentTokens parent ++ ts))]
  have hline : firstKind ts ≠ .newline := by
    rw [h]
    decide
  cases parent with
  | none =>
    have hname : parentName ⟨ts, .none⟩ = .ok none ⟨ts, .none⟩ := by
      have haccept : accept (.keyword .extends_) ⟨ts, .none⟩ = .ok false ⟨ts, .none⟩ := by
        rw [accept, peek_kind, h]
        rfl
      exact bind_of_ok haccept
    rw [parentTokens, List.nil_append, bareStream, skip_bind hline, bind_of_ok hname]
  | some p =>
    have hname : parentName (bareStream (parentTokens (some p) ++ ts)) =
        .ok (some p) (bareStream ts) := by
      show (skipNewlines >>= fun _ => Parse.done (some p)) ⟨ts, .none⟩ = _
      rw [skip_bind hline]
      rfl
    show (parentName >>= fun parent => Grammar.block self >>= fun body =>
      Parse.done (Node.object .none name params parent body))
        (bareStream (parentTokens (some p) ++ ts)) = _
    rw [bind_of_ok hname]

theorem Node.exact_object (pos : Position) (name : String) (params : List String)
    (parent : Option String) {body : Node} (hbody : body.Exact) :
    (Node.object pos name params parent body).Exact := by
  refine .of_factor (fun _ => body.reads .call (.token .rBrace)) ?_ rfl rfl
    (fun _ => by cases parent <;> rfl) (fun _ _ => rfl) rfl rfl
  intro k rest r hreg hcalm hk
  have hlist : (Node.object pos name params parent body).tokens ++ rest =
      (TokenKind.keyword .object_).token :: nameToken name :: TokenKind.lParen.token ::
        (parameterTokens params ++ TokenKind.rParen.token :: (parentTokens parent ++
          (blockTokens body body.tokens ++ rest))) := by
    cases parent with
    | none =>
      simp only [Node.tokens, parentTokens, List.cons_append, List.append_assoc, List.nil_append]
    | some p =>
      simp only [Node.tokens, parentTokens, List.cons_append, List.append_assoc, List.nil_append]
  rw [hlist] at hk ⊢
  obtain ⟨-, -, -, hblock, hregBody⟩ := hreg
  rw [factor_object name params parent (blockTokens_firstKind hblock rest)]
  refine build_exact (fun r' => hbody.block k rest r' hblock hregBody ?_) rfl
    fun x h => (Node.object.inj h).2.2.2.2
  simp only [List.length_cons, List.length_append] at hk ⊢
  omega

theorem Node.exact_create (pos : Position) (name : String) {args : List Node}
    (hargs : AllExact args) : (Node.create pos name args).Exact := by
  refine .of_factor (fun _ => itemsRead .rParen args) ?_ rfl rfl (fun _ => rfl)
    (fun _ _ => rfl) rfl rfl
  intro k rest r hreg hcalm hk
  have hlist : (Node.create pos name args).tokens ++ rest = (TokenKind.keyword .new_).token ::
      nameToken name :: TokenKind.lParen.token :: (itemTokens args ++
        TokenKind.rParen.token :: rest) := by
    rw [Node.tokens]
    simp only [List.cons_append, List.append_assoc, List.nil_append]
  rw [hlist] at hk ⊢
  simp only [List.length_cons] at hk
  obtain ⟨k, rfl⟩ : ∃ l, k = l + 1 := ⟨k - 1, by omega⟩
  have hitems := items_exact "')'" (.inl rfl) rest args hargs hreg.2 (k := k)
    (by omega)
  show (enclosed (rules (k + 1)).expression .rParen "')'" >>= fun args =>
    Parse.done (Node.create .none name args)) (bareStream (itemTokens args ++
      TokenKind.rParen.token :: rest)) = _ ↔ _
  exact build_exact hitems rfl fun x h => (Node.create.inj h).2.2

/-! ### Inclusions and blocks -/

theorem Node.exact_include (pos : Position) {paths : List Node} (hpaths : AllExact paths) :
    (Node.include_ pos paths).Exact := by
  refine .of_factor (fun f => pathsRead f paths) ?_ rfl rfl (fun _ => rfl)
    (fun _ _ => rfl) rfl rfl
  intro k rest r hreg hcalm hk
  obtain ⟨hne, hregPaths⟩ := hreg
  match paths with
  | [] => exact absurd rfl hne
  | n :: ns =>
    have hlist : (Node.include_ pos (n :: ns)).tokens ++ rest =
        (TokenKind.keyword .include_).token :: (itemTokens (n :: ns) ++ rest) := rfl
    rw [hlist] at hk ⊢
    rw [List.length_cons] at hk
    obtain ⟨k, rfl⟩ : ∃ l, k = l + 1 := ⟨k - 1, by omega⟩
    have hlead : Leads false (itemTokens (n :: ns)) := (n.leads hregPaths.1).append _
    have hline : firstKind (itemTokens (n :: ns) ++ rest) ≠ .newline := by
      rw [firstKind_append hlead]
      exact (leads_ne hlead.firstKind.1).1
    have hrun := paths_exact hcalm n ns hpaths hregPaths (fun s => s.ahead.length) (k := k)
      (by omega) (fun _ _ => Nat.le_refl _)
    have hbuild := withMore_bind (rules (k + 1)).expression
      (fun s => pathsRest (rules (k + 1)) s.ahead.length s) fun paths =>
        Parse.done (Node.include_ .none paths)
    show (skipNewlines >>= fun _ => (rules (k + 1)).expression >>= fun path =>
      remaining >>= fun l => pathsRest (rules (k + 1)) l >>= fun more =>
        Parse.done (Node.include_ .none (path :: more))) ⟨itemTokens (n :: ns) ++ rest, .none⟩ =
          _ ↔ _
    rw [skip_bind hline]
    change ((rules (k + 1)).expression >>= fun path => (fun s => pathsRest (rules (k + 1))
      s.ahead.length s : Parse (List Node)) >>= fun more =>
        Parse.done (Node.include_ .none (path :: more))) (bareStream (itemTokens (n :: ns) ++ rest)) =
          _ ↔ _
    rw [← hbuild]
    exact build_exact hrun rfl fun x h => (Node.include_.inj h).2

/-- Lines from the first one to the end of what holds them. -/
theorem statements_exact {n : Node} {ns : List Node} (hexact : AllExact (n :: ns)) {k : Nat}
    {rest : List Token} (hreg : allRegular true (n :: ns)) (hcalm : Calm rest)
    (hend : (Follow.of rest).beyond = .rBrace ∨ (Follow.of rest).beyond = .endOfCode)
    (hk : (n.tokens ++ (lineTokens ns ++ rest)).length ≤ k) (r : Stream) :
    Grammar.statements (rules k) (bareStream (n.tokens ++ (lineTokens ns ++ rest))) =
        .ok (.sequence .none (eraseAll (n :: ns))) r ↔
      linesRead (Follow.of rest) (n :: ns) = true ∧
        r = bareStream (rest.dropWhile (·.kind == .newline)) := by
  have hlead := n.leads hreg.1
  have hfirst := leads_ne hlead.firstKind.1
  rw [← firstKind_append hlead (lineTokens ns ++ rest)] at hfirst
  have hplace : (bareStream (n.tokens ++ (lineTokens ns ++ rest))).peek.position = .none := by
    obtain ⟨t, us, htokens, hposition, -⟩ := hlead
    rw [htokens]
    exact hposition
  have hbrace : ((bareStream (n.tokens ++ (lineTokens ns ++ rest))).peek.kind == .rBrace) =
      false := by
    rw [bareStream, peek_kind]
    exact beq_false_of_ne hfirst.2.1
  have hlines := lines_exact hcalm hend n ns hexact hreg (fun s => s.ahead.length) hk
    (fun _ _ => Nat.le_refl _)
  have hbuild := withMore_bind (Grammar.statement (rules k))
    (fun s => statementsRest (rules k) s.ahead.length s) fun ns =>
      Parse.done (Node.sequence .none ns)
  have hstatements : Grammar.statements (rules k) (bareStream (n.tokens ++ (lineTokens ns ++ rest))) =
      (withMore (Grammar.statement (rules k)) (fun s => statementsRest (rules k) s.ahead.length s) >>=
        fun ns => Parse.done (Node.sequence .none ns))
          (bareStream (n.tokens ++ (lineTokens ns ++ rest))) := by
    rw [hbuild, Grammar.statements, bareStream, skip_bind hfirst.1, bind_of_ok (show Parse.peek
      ⟨n.tokens ++ (lineTokens ns ++ rest), .none⟩ = .ok (bareStream (n.tokens ++
        (lineTokens ns ++ rest))).peek ⟨n.tokens ++ (lineTokens ns ++ rest), .none⟩ from rfl),
      hbrace, hplace]
    rfl
  rw [hstatements]
  exact build_exact hlines rfl fun x h => (Node.sequence.inj h).2

theorem block_exact (pos : Position) {statements : List Node} (hexact : AllExact statements)
    {k : Nat} {rest : List Token} (hreg : (Node.sequence pos statements).Regular false)
    (hk : ((Node.sequence pos statements).tokens ++ rest).length ≤ k) (r : Stream) :
    Grammar.block (rules k) (bareStream ((Node.sequence pos statements).tokens ++ rest)) =
        .ok (Node.sequence pos statements).erase r ↔
      linesRead (.line .rBrace) statements = true ∧ r = bareStream rest := by
  obtain ⟨hne, hlines⟩ := hreg
  match statements with
  | [] => exact absurd rfl hne
  | n :: ns =>
    have hlist : (Node.sequence pos (n :: ns)).tokens ++ rest = TokenKind.lBrace.token ::
        TokenKind.newline.token :: (n.tokens ++ (lineTokens ns ++ TokenKind.newline.token ::
          TokenKind.rBrace.token :: rest)) := by
      rw [Node.tokens, lineTokens]
      simp only [List.cons_append, List.append_assoc, List.nil_append]
    rw [hlist] at hk ⊢
    simp only [List.length_cons] at hk
    obtain ⟨k, rfl⟩ : ∃ l, k = l + 1 := ⟨k - 1, by omega⟩
    have hfollow : Follow.of (TokenKind.newline.token :: TokenKind.rBrace.token :: rest) =
        .line .rBrace := by
      rw [Follow.of_line _ _ rfl, Follow.of_cons _ _ (by decide)]
      rfl
    have hcalm : Calm (TokenKind.newline.token :: TokenKind.rBrace.token :: rest) :=
      Calm.newline rfl
    have hrun := statements_exact hexact hlines (k := k) hcalm (by rw [hfollow]; exact .inl rfl)
      (by omega)
    rw [hfollow] at hrun
    have hskip : Grammar.block (rules (k + 1)) (bareStream (TokenKind.lBrace.token ::
        TokenKind.newline.token :: (n.tokens ++ (lineTokens ns ++ TokenKind.newline.token ::
          TokenKind.rBrace.token :: rest)))) =
        (Grammar.statements (rules k) >>= fun body => skipNewlines >>= fun _ =>
          Functor.discard (expect .rBrace "'\x7d'") >>= fun _ => Parse.done body)
            (bareStream (n.tokens ++ (lineTokens ns ++ TokenKind.newline.token ::
              TokenKind.rBrace.token :: rest))) := rfl
    rw [hskip]
    refine (bind_exact hrun fun x r' h => ?_).trans (and_congr Iff.rfl ?_)
    · obtain ⟨_, _, _, h⟩ := bind_eq_ok h
      obtain ⟨_, _, _, h⟩ := bind_eq_ok h
      exact (Reply.ok.inj h).1
    · show Reply.ok _ (bareStream rest) = _ ↔ _
      exact ⟨fun h => (Reply.ok.inj h).2.symm, fun h => by rw [h]; rfl⟩

theorem Node.exact_sequence (pos : Position) {statements : List Node}
    (hexact : AllExact statements) : (Node.sequence pos statements).Exact where
  tier t k rest r hreg hcalm hk := by
    have hfactor : (Node.sequence pos statements).FactorExact
        fun _ => linesRead (.line .rBrace) statements := fun k rest r hreg _ hk => by
      rw [factor_of_brace (show (bareStream ((Node.sequence pos statements).tokens ++
        rest)).peek.kind = .lBrace from rfl)]
      exact block_exact pos hexact hreg hk r
    exact hfactor.tier rfl rfl (fun _ _ => rfl) t k rest r (hreg.strict rfl) hcalm hk
  block k rest r _ hreg hk := by
    refine (block_exact pos hexact hreg hk r).trans (and_congr ?_ Iff.rfl)
    rw [Node.reads, Bool.and_eq_true]
    exact ⟨fun h => ⟨h, rfl⟩, fun h => h.1⟩
  callee k rest r h := nomatch h

/-! ### Jumps -/

theorem Node.Exact.of_statement {n : Node} (hjump : n.isJump = true) (hblock : n.isBlock = false)
    (hcallee : isBareCallee n = false)
    (hrun : ∀ (k : Nat) (rest : List Token) (r : Stream), n.Regular true → Calm rest →
      (n.tokens ++ rest).length ≤ k →
      (Grammar.statement (rules k) (bareStream (n.tokens ++ rest)) = .ok n.erase r ↔
        n.reads .statement (Follow.of rest) = true ∧ r = bareStream (settle n.endsBare rest))) :
    n.Exact where
  tier t k rest r hreg hcalm hk := by
    have hstatement : t = .statement := by
      cases t with
      | statement => rfl
      | _ =>
        cases n with
        | return_ _ _ => exact nomatch hreg.1
        | continue_ _ => exact nomatch hreg
        | break_ _ => exact nomatch hreg
        | _ => cases hjump
    subst hstatement
    exact hrun k rest r hreg hcalm hk
  block k rest r h := by
    rw [hblock] at h
    cases h
  callee k rest r h := by
    rw [hcallee] at h
    cases h

theorem Node.exact_continue (pos : Position) : (Node.continue_ pos).Exact :=
  .of_statement rfl rfl rfl fun k rest r _ _ _ =>
    ⟨fun h => ⟨rfl, (Reply.ok.inj h).2.symm⟩, fun h => by rw [h.2]; rfl⟩

theorem Node.exact_break (pos : Position) : (Node.break_ pos).Exact :=
  .of_statement rfl rfl rfl fun k rest r _ _ _ =>
    ⟨fun h => ⟨rfl, (Reply.ok.inj h).2.symm⟩, fun h => by rw [h.2]; rfl⟩

theorem statement_return {self : Rules} (ts : List Token) :
    Grammar.statement self (bareStream ((TokenKind.keyword .return_).token :: ts)) =
      (attempt self.expression >>= fun value => Parse.done (Node.return_ .none value))
        (bareStream ts).skipNewlines :=
  rfl

theorem Node.exact_return (pos : Position) {value : Option Node} (hvalue : ∀ n ∈ value, n.Exact) :
    (Node.return_ pos value).Exact := by
  refine .of_statement rfl rfl rfl fun k rest r hreg hcalm hk => ?_
  cases value with
  | none =>
    have hlist : (Node.return_ pos none).tokens ++ rest =
        (TokenKind.keyword .return_).token :: rest := rfl
    rw [hlist] at hk ⊢
    rw [List.length_cons] at hk
    obtain ⟨k, rfl⟩ : ∃ l, k = l + 1 := ⟨k - 1, by omega⟩
    rw [statement_return]
    have hattempt : ∀ r', attempt (Grammar.expression (rules k)) (bareStream rest).skipNewlines =
        .ok none r' ↔ (!(Follow.of rest).beyond.starts) = true ∧
          r' = (bareStream rest).skipNewlines := fun r' => by
      rw [attempt_none_iff (trails_rules k) (not_newline_of_skip _), Bool.not_eq_true']
      refine and_congr ?_ Iff.rfl
      show (bareStream (rest.dropWhile (·.kind == .newline))).peek.kind.starts = false ↔ _
      rw [bareStream, peek_kind]
      exact Iff.rfl
    exact build_exact hattempt rfl fun x h => (Node.return_.inj h).2
  | some n =>
    have hlist : (Node.return_ pos (some n)).tokens ++ rest = (TokenKind.keyword .return_).token ::
        (wrapped (isOpenChoice n) n.tokens ++ rest) := rfl
    rw [hlist] at hk ⊢
    rw [List.length_cons] at hk
    obtain ⟨k, rfl⟩ : ∃ l, k = l + 1 := ⟨k - 1, by omega⟩
    rw [statement_return]
    have hrun := value_exact (hvalue n rfl) hreg.2 hcalm (k := k) (by omega)
    exact build_exact (fun r' => attempt_some_iff.trans (hrun r')) rfl
      fun x h => (Node.return_.inj h).2


end ScriptEngine
