import ScriptEngine.Proofs.ParserPlaces
import ScriptEngine.Proofs.ReadBackProgram
import ScriptEngine.Proofs.SourcePieces

/-! # Parsing source text

What a text is parsed to is told by the tokens that it is lexed into, whatever their places. The
root of a parsed program is a sequence, all names in it are those of identifiers, and it weighs what
its tokens weigh. -/

namespace ScriptEngine

open Parse Grammar Lexer

/-! ### From text to tokens -/

theorem Lexes.unique {cs : List Char} {ts us : List Token} (ht : Lexes cs ts) (hu : Lexes cs us) :
    ts = us := by
  have hts := (ht none cs.length 0 1 (Nat.le_refl _)).2
  have hus := (hu none cs.length 0 1 (Nat.le_refl _)).2
  exact List.append_cancel_right (hts.symm.trans hus)

/-- No token is the end of the code. -/
def Inside (ts : List Token) : Prop :=
  ∀ t ∈ ts, t.kind ≠ .endOfCode

theorem takeWhile_inside {ts : List Token} (h : Inside ts) (last : Token)
    (hlast : last.kind = .endOfCode) :
    (ts ++ [last]).takeWhile (·.kind != .endOfCode) = ts := by
  have hinside : ∀ t ∈ ts, (t.kind != .endOfCode) = true := fun t ht => bne_iff_ne.mpr (h t ht)
  rw [List.takeWhile_append_of_pos hinside, List.takeWhile_cons, hlast]
  exact List.append_nil ts

/-- The stream that the parser starts from has the tokens of the text ahead. -/
theorem Lexes.stream {source : String} {ts : List Token} (h : Lexes source.toList ts)
    (hinside : Inside ts) (name : Option String) :
    (tokenize source name).failure = none ∧
      (Stream.ofTokens (tokenize source name).tokens).bare = bareStream ts := by
  obtain ⟨hfailure, htokens⟩ := h (name.map fun n => (Path.fileName? n).getD n)
    source.toList.length 0 1 (Nat.le_refl _)
  refine ⟨hfailure, ?_⟩
  change (tokenize source name).tokens.map Token.bare = _ at htokens
  have hbare : ∀ us : List Token, (us.takeWhile (·.kind != .endOfCode)).map Token.bare =
      (us.map Token.bare).takeWhile (·.kind != .endOfCode) := by
    intro us
    rw [List.takeWhile_map]
    rfl
  have hahead : (Stream.ofTokens (tokenize source name).tokens).ahead.map Token.bare = ts := by
    rw [Stream.ofTokens, hbare, htokens]
    exact takeWhile_inside hinside _ rfl
  rw [Stream.bare, hahead]
  rfl

/-- A text is parsed as its tokens are parsed at no place. -/
theorem Lexes.parse_iff {source : String} {ts : List Token} (h : Lexes source.toList ts)
    (hinside : Inside ts) (name : Option String) (root : Node) :
    (∃ parsed, parseProgram source name = .ok parsed ∧ parsed.erase = root) ↔
      ∃ r, program (rules ts.length) (bareStream ts) = .ok root r := by
  obtain ⟨hfailure, hstream⟩ := h.stream hinside name
  have hparse : parseProgram source name = (parseTokens (tokenize source name).tokens).result := by
    rw [parseProgram, parseSource, hfailure]
  have hlength : (Stream.ofTokens (tokenize source name).tokens).ahead.length = ts.length := by
    rw [← Stream.length_bare, hstream]
    rfl
  have hmirror := Blind.program (Blind.rules ts.length)
    (Stream.ofTokens (tokenize source name).tokens)
  rw [hstream] at hmirror
  rw [hparse, parseTokens, hlength]
  generalize program (rules ts.length) (Stream.ofTokens (tokenize source name).tokens) = reply
    at hmirror ⊢
  generalize program (rules ts.length) (bareStream ts) = mirrored at hmirror ⊢
  cases hmirror with
  | ok a r =>
    constructor
    · rintro ⟨parsed, hparsed, rfl⟩
      cases hparsed
      exact ⟨r.bare, rfl⟩
    · rintro ⟨s, hs⟩
      cases hs
      exact ⟨a, rfl, rfl⟩
  | error d d' r =>
    constructor
    · rintro ⟨parsed, hparsed, -⟩
      cases hparsed
    · rintro ⟨s, hs⟩
      cases hs

/-! ### What the parser makes of the tokens -/

theorem ahead_eq_nil {s : Stream} (hinside : Inside s.ahead) (h : s.peek.kind = .endOfCode) :
    s.ahead = [] := by
  obtain ⟨ahead, finish⟩ := s
  cases ahead with
  | nil => rfl
  | cons t ts => exact absurd h (hinside t List.mem_cons_self)

/-- The inside of a program is no empty block, since nothing closes it. -/
theorem statements_sequence {self : Rules} {s r : Stream} {root : Node}
    (h : statements self s = .ok root r) (hend : r.skipNewlines.peek.kind = .endOfCode) :
    ∃ pos first more, root = .sequence pos (first :: more) := by
  rw [statements] at h
  obtain ⟨_, s₁, -, h⟩ := bind_eq_ok h
  obtain ⟨token, s₂, hpeek, h⟩ := bind_eq_ok h
  cases hpeek
  split at h
  · rename_i hbrace
    cases h
    rw [skipNewlines_eq (by rw [beq_iff_eq.mp hbrace]; decide), beq_iff_eq.mp hbrace] at hend
    cases hend
  · obtain ⟨first, s₃, -, h⟩ := bind_eq_ok h
    obtain ⟨count, s₄, -, h⟩ := bind_eq_ok h
    obtain ⟨more, s₅, -, h⟩ := bind_eq_ok h
    cases h
    exact ⟨_, first, more, rfl⟩

/-- A program is a sequence of well-formed statements that weigh what its tokens weigh. -/
theorem program_formed {V : String → Prop} {N : Single → Prop} (hN : Spends.Literals N) {n : Nat}
    {s r : Stream} {root : Node} (hinside : Inside s.ahead) (hfine : ∀ t ∈ s.ahead, t.Fine V N)
    (h : program (rules n) s = .ok root r) :
    ∃ pos statements, root = .sequence pos statements ∧ allFormed V N true statements ∧
      weightAll statements = weight s.ahead := by
  rw [program] at h
  obtain ⟨_, s₁, hskip, h⟩ := bind_eq_ok h
  obtain ⟨hsuffix₁, hweight₁, -, -⟩ :=
    Spends.skipNewlines (j := 0) (P := fun _ => True) s hfine trivial _ s₁ hskip
  have hinside₁ : Inside s₁.ahead := fun t ht => hinside t (hsuffix₁.subset ht)
  obtain ⟨token, s₂, hpeek, h⟩ := bind_eq_ok h
  cases hpeek
  split at h
  · rename_i hend
    cases h
    rw [ahead_eq_nil hinside₁ (beq_iff_eq.mp hend), weight] at hweight₁
    dsimp only at hweight₁
    refine ⟨_, [], rfl, trivial, ?_⟩
    rw [weightAll]
    omega
  · obtain ⟨inner, s₃, hinner, h⟩ := bind_eq_ok h
    obtain ⟨_, s₄, hskip₄, h⟩ := bind_eq_ok h
    cases hskip₄
    rw [bind_of_ok (check_apply .endOfCode s₃.skipNewlines)] at h
    cases hend : s₃.skipNewlines.peek.kind == .endOfCode with
    | false =>
      rw [hend] at h
      cases h
    | true =>
      rw [hend] at h
      cases h
      obtain ⟨hsuffix₃, hweight₃, -, hblock, hformed⟩ :=
        Spends.statements (Spends.rules hN n) hN 0 s₁
          (fun t ht => hfine t (hsuffix₁.subset ht)) trivial root s₃ hinner
      obtain ⟨hsuffix₄, hweight₄, -, -⟩ :=
        Spends.skipNewlines (j := 0) (P := fun _ => True) s₃
          (fun t ht => hfine t (hsuffix₁.subset (hsuffix₃.subset ht))) trivial _ _ rfl
      have hnil := ahead_eq_nil (fun t ht => hinside₁ t (hsuffix₃.subset (hsuffix₄.subset ht)))
        (beq_iff_eq.mp hend)
      rw [hnil, weight] at hweight₄
      obtain ⟨pos, first, more, rfl⟩ := statements_sequence hinner (beq_iff_eq.mp hend)
      refine ⟨pos, first :: more, rfl, hformed.2, ?_⟩
      rw [Node.fill] at hweight₃
      dsimp only at hweight₁ hweight₄
      omega

/-! ### The names of a parsed program -/

theorem scanOperator_kind {single : TokenKind} {pairs : List (Char × TokenKind)} {c : Char}
    {cs : List Char} {l : Lexeme} (h : scanOperator single pairs c cs = .lexeme l)
    (hsingle : single ≠ .identifier) (hpairs : ∀ d kind, pairs.lookup d = some kind →
      kind ≠ .identifier) : l.kind ≠ .identifier := by
  unfold scanOperator at h
  split at h
  · split at h
    · rename_i hlookup
      cases h
      exact hpairs _ _ hlookup
    · cases h
      exact hsingle
  · cases h
    exact hsingle

/-- The second characters of operators make no identifier of them. -/
theorem lookup_ne_identifier {pairs : List (Char × TokenKind)}
    (h : pairs.all (fun p => p.2 != .identifier) = true) (d : Char) (kind : TokenKind)
    (hd : pairs.lookup d = some kind) : kind ≠ .identifier := by
  induction pairs with
  | nil => cases hd
  | cons p pairs ih =>
    rw [List.all_cons, Bool.and_eq_true, bne_iff_ne] at h
    rw [List.lookup_cons] at hd
    split at hd
    · cases hd
      exact h.1
    · exact ih h.2 hd

theorem scan_other {c : Char} {cs : List Char} {l : Lexeme} (hc : isNameStart c = false)
    (h : scan c cs = .lexeme l) : l.kind ≠ .identifier := by
  unfold scan at h
  rw [hc, if_neg Bool.false_ne_true] at h
  split at h
  · unfold scanNumber at h
    split at h
    · unfold scanHex at h
      dsimp only at h
      split at h
      · cases h
      · cases h
        exact fun h => by cases h
    · cases h
      dsimp only
      split <;> decide
  · split at h
    all_goals first
      | exact scanOperator_kind h (by decide) (lookup_ne_identifier rfl)
      | (cases h; exact fun h => by cases h)
      | cases h

theorem scan_identifier {c : Char} {cs : List Char} {l : Lexeme} (h : scan c cs = .lexeme l)
    (hkind : l.kind = .identifier) : IsName l.text := by
  cases hc : isNameStart c with
  | false => exact absurd hkind (scan_other hc h)
  | true =>
    unfold scan scanName at h
    rw [if_pos hc, List.span_eq_takeWhile_dropWhile] at h
    cases h
    refine ⟨c, cs.takeWhile isNamePart, String.toList_ofList, hc,
      fun d hd => List.mem_takeWhile_imp hd, ?_⟩
    cases hword : Keyword.ofWord? (String.ofList (c :: cs.takeWhile isNamePart)) with
    | none => rfl
    | some k =>
      dsimp only at hkind
      rw [hword] at hkind
      cases hkind

theorem lexFrom_names (source : Option String) (n offset line : Nat) (cs : List Char) :
    ∀ t ∈ (lexFrom source n offset line cs).tokens, t.kind = .identifier → IsName t.lexeme := by
  induction n generalizing offset line cs with
  | zero =>
    intro t ht hkind
    rw [List.mem_singleton.mp ht] at hkind
    cases hkind
  | succ n ih =>
    intro t ht hkind
    rw [lexFrom] at ht
    dsimp only at ht
    split at ht
    · rw [List.mem_singleton.mp ht] at hkind
      cases hkind
    · split at ht
      · cases ht
      · rename_i l hscan
        rcases List.mem_cons.mp ht with rfl | ht
        · exact scan_identifier hscan hkind
        · exact ih _ _ _ t ht hkind

/-- Every program that is parsed is a sequence of well-formed statements with names of
identifiers. -/
theorem parseProgram_formed {V : String → Prop} {N : Single → Prop}
    (hV : ∀ name, IsName name → V name) (hN : ∀ value, N value) {source : String}
    {name : Option String} {root : Node} (h : parseProgram source name = .ok root) :
    ∃ pos statements, root = .sequence pos statements ∧ allFormed V N true statements := by
  unfold parseProgram parseSource at h
  dsimp only at h
  split at h
  · cases h
  · unfold parseTokens at h
    dsimp only at h
    split at h
    · rename_i hrun
      cases h
      have hnames : ∀ t ∈ (Stream.ofTokens (tokenize source name).tokens).ahead,
          t.Fine V N := by
        intro t ht
        refine ⟨fun hkind => ?_, fun _ value _ => hN value⟩
        exact hV _ (lexFrom_names _ _ _ _ _ t ((List.takeWhile_sublist _).subset ht) hkind)
      have hinside : Inside (Stream.ofTokens (tokenize source name).tokens).ahead := by
        intro t ht
        have hkind : (t.kind != .endOfCode) = true :=
          List.mem_takeWhile_imp (p := fun t : Token => t.kind != .endOfCode) ht
        exact bne_iff_ne.mp hkind
      obtain ⟨pos, statements, hroot, hformed, -⟩ :=
        program_formed ⟨hN _, hN _⟩ hinside hnames hrun
      exact ⟨pos, statements, hroot, hformed⟩
    · cases h

end ScriptEngine
