import Mathlib
import ScriptEngine.Proofs.GrammarExtension
import ScriptEngine.Proofs.JoinedText

/-! # Programs that are joined

A program is parsed line by line: its statements are the same with another program behind it, and
those of the other program follow. -/

namespace ScriptEngine

open Parse Grammar Lexer

/-! ### Programs as lines -/

/-- The stream holds these statements and nothing else: each ends with its line or with the
stream. -/
inductive Lines (rules : Rules) : Stream → List Node → Prop
  | nil {s : Stream} (hs : s.skipNewlines.ahead = []) : Lines rules s []
  | cons {s r : Stream} {first : Node} {more : List Node}
    (hfirst : statement rules s.skipNewlines = .ok first r)
    (hline : r.ahead = [] ∨ r.peek.kind = .newline) (hmore : Lines rules r more) :
    Lines rules s (first :: more)

theorem skipNewlines_skipNewlines (s : Stream) : s.skipNewlines.skipNewlines = s.skipNewlines :=
  skipNewlines_eq (not_newline_of_skip s)

theorem attempt_none_rest {α : Type} {p : Parse α} {s r : Stream} (h : attempt p s = .ok none r) :
    r = s := by
  unfold Parse.attempt at h
  cases hrun : p s with
  | ok a r₁ =>
    rw [hrun] at h
    cases h
  | error d r₁ =>
    rw [hrun] at h
    dsimp only at h
    split at h
    · cases h
      rfl
    · cases h

namespace Lines

variable {self : Rules} {s r : Stream} {A B : List Node}

theorem of_skip {s' : Stream} (h : Lines self s A) (hskip : s.skipNewlines = s'.skipNewlines) :
    Lines self s' A := by
  cases h with
  | nil hs => exact .nil (hskip ▸ hs)
  | cons hfirst hline hmore => exact .cons (hskip ▸ hfirst) hline hmore

/-- What the rule of the lines takes, if that is all there is. -/
theorem of_statementsRest (hs : self.Has Trails) {k : Nat} (hk : s.ahead.length ≤ k)
    (h : statementsRest self k s = .ok A r) (hend : r.skipNewlines.ahead = []) :
    (s.ahead = [] ∨ s.peek.kind = .newline) ∧ Lines self s A := by
  induction k generalizing s A with
  | zero =>
    cases h
    exact ⟨.inl (ahead_of_bound hk), .nil hend⟩
  | succ k ih =>
    by_cases hline : s.peek.kind = .newline
    · rw [statementsRest_newline k hline] at h
      obtain ⟨next, r₁, hnext, hmore⟩ := bind_eq_ok h
      refine ⟨.inr hline, ?_⟩
      cases next with
      | none =>
        cases hmore
        rw [attempt_none_rest hnext, skipNewlines_skipNewlines] at hend
        exact .nil hend
      | some first =>
        obtain ⟨more, r₂, hrest, hdone⟩ := bind_eq_ok hmore
        cases hdone
        have hfirst := attempt_some_iff.mp hnext
        have hle := ((Trails.closed.statement hs).of_ok hfirst).1.length_le
        have hlt := length_skip_of_line hline
        obtain ⟨hnext, hlines⟩ := ih (by omega) hrest
        exact .cons hfirst hnext hlines
    · rw [statementsRest_same_line (k + 1) hline] at h
      cases h
      rw [skipNewlines_eq hline] at hend
      exact ⟨.inl hend, .nil (by rw [skipNewlines_eq hline, hend])⟩

theorem of_statements (hs : self.Has Trails) {root : Node} (h : statements self s = .ok root r)
    (hend : r.skipNewlines.ahead = []) :
    ∃ pos A, root = .sequence pos A ∧ Lines self s A := by
  rw [Grammar.statements, bind_of_ok (skipNewlines_apply s), bind_of_ok (peek_apply _)] at h
  split at h
  · -- A closing brace ends the statements but not the program.
    rename_i hbrace
    cases h
    rw [skipNewlines_skipNewlines] at hend
    rw [peek_nil hend] at hbrace
    cases hbrace
  · obtain ⟨first, r₁, hfirst, h⟩ := bind_eq_ok h
    rw [bind_of_ok (remaining_apply r₁)] at h
    obtain ⟨more, r₂, hmore, hdone⟩ := bind_eq_ok h
    cases hdone
    obtain ⟨hline, hlines⟩ := of_statementsRest hs (Nat.le_refl _) hmore hend
    exact ⟨_, first :: more, rfl, .cons hfirst hline hlines⟩

/-- A program that is parsed is a sequence of lines. -/
theorem of_program (hs : self.Has Trails) (hinside : Inside s.ahead) {root : Node}
    (h : program self s = .ok root r) : ∃ pos A, root = .sequence pos A ∧ Lines self s A := by
  have hnil : ∀ {r : Stream}, r.ahead <:+ s.ahead → (r.peek.kind == .endOfCode) = true →
      r.ahead = [] := fun hsuffix hend =>
    ahead_eq_nil (fun t ht => hinside t (hsuffix.subset ht)) (beq_iff_eq.mp hend)
  have hskip := Trails.skipNewlines_suffix s
  rw [Grammar.program, bind_of_ok (skipNewlines_apply s), bind_of_ok (peek_apply _)] at h
  split at h
  · rename_i hend
    cases h
    exact ⟨_, [], rfl, .nil (hnil hskip hend)⟩
  · obtain ⟨inner, r₁, hinner, h⟩ := bind_eq_ok h
    rw [bind_of_ok (skipNewlines_apply r₁), bind_of_ok (check_apply _ _)] at h
    cases hend : r₁.skipNewlines.peek.kind == .endOfCode with
    | false =>
      rw [hend] at h
      cases h
    | true =>
      rw [hend] at h
      cases h
      have hsuffix := ((Trails.closed.statements hs).of_ok hinner).1
      have hrest := (Trails.skipNewlines_suffix r₁).trans (hsuffix.trans hskip)
      obtain ⟨pos, A, hroot, hlines⟩ := of_statements hs hinner (hnil hrest hend)
      exact ⟨pos, A, hroot, hlines.of_skip (skipNewlines_skipNewlines s)⟩

/-- Lines behind a line break are taken by the rule of the lines. -/
theorem statementsRest (hs : self.Has Trails) (h : Lines self s A) {k : Nat}
    (hk : s.ahead.length ≤ k) (hline : s.ahead = [] ∨ s.peek.kind = .newline) :
    ∃ r, statementsRest self k s = .ok A r ∧ r.skipNewlines.ahead = [] := by
  induction h generalizing k with
  | @nil s hend =>
    rcases hline with hnil | hline
    · have hpeek : s.peek.kind ≠ .newline := by
        rw [peek_nil hnil]
        decide
      exact ⟨s, statementsRest_same_line k hpeek, hend⟩
    · have hlt := length_skip_of_line hline
      obtain ⟨j, rfl⟩ : ∃ j, k = j + 1 := ⟨k - 1, by omega⟩
      refine ⟨s.skipNewlines, ?_, by rw [skipNewlines_skipNewlines, hend]⟩
      rw [statementsRest_newline j hline, bind_of_ok (attempt_end (.inr (peek_nil hend)))]
      rfl
  | @cons s r first more hfirst hnext hmore ih =>
    have hne : s.skipNewlines.ahead ≠ [] := fun hnil => Hungry.statement _ hnil first r hfirst
    have hline : s.peek.kind = .newline := by
      rcases hline with hnil | hline
      · rw [skipNewlines_nil hnil] at hne
        exact absurd hnil hne
      · exact hline
    have hlt := length_skip_of_line hline
    have hle := ((Trails.closed.statement hs).of_ok hfirst).1.length_le
    obtain ⟨j, rfl⟩ : ∃ j, k = j + 1 := ⟨k - 1, by omega⟩
    obtain ⟨r', hrest, hend⟩ := ih (k := j) (by omega) hnext
    refine ⟨r', ?_, hend⟩
    rw [statementsRest_newline j hline, bind_of_ok (attempt_some_iff.mpr hfirst)]
    exact bind_of_ok hrest

/-- No statement starts with a closing brace or at the end of the code. -/
theorem peek_open {first : Node} {kind : TokenKind} (hfirst : statement self s = .ok first r)
    (hkind : kind = .rBrace ∨ kind = .endOfCode) : (s.peek.kind == kind) = false := by
  refine beq_false_of_ne fun hpeek => ?_
  have hmiss : attempt (statement self) s = .ok none s := attempt_end (hpeek ▸ hkind)
  cases hmiss.symm.trans (attempt_some_iff.mpr hfirst)

theorem statements (hs : self.Has Trails) (h : Lines self s A) (hA : A ≠ []) :
    ∃ pos r, statements self s = .ok (.sequence pos A) r ∧ r.skipNewlines.ahead = [] := by
  cases h with
  | nil hend => exact absurd rfl hA
  | @cons _ r first more hfirst hline hmore =>
    obtain ⟨r', hrest, hend⟩ := statementsRest hs hmore (Nat.le_refl _) hline
    refine ⟨s.skipNewlines.peek.position, r', ?_, hend⟩
    rw [Grammar.statements, bind_of_ok (skipNewlines_apply s), bind_of_ok (peek_apply _),
      peek_open hfirst (.inl rfl)]
    refine (bind_of_ok hfirst).trans ?_
    rw [bind_of_ok (remaining_apply r), bind_of_ok hrest]
    rfl

theorem program (hs : self.Has Trails) (h : Lines self s A) :
    ∃ pos r, program self s = .ok (.sequence pos A) r := by
  rw [Grammar.program, bind_of_ok (skipNewlines_apply s), bind_of_ok (peek_apply _)]
  have hskipped : Lines self s.skipNewlines A := h.of_skip (skipNewlines_skipNewlines s).symm
  cases h with
  | nil hend =>
    rw [peek_nil hend]
    exact ⟨_, _, rfl⟩
  | cons hfirst _ _ =>
    obtain ⟨pos, r, hinner, hend⟩ := hskipped.statements hs (List.cons_ne_nil _ _)
    rw [peek_open hfirst (.inr rfl)]
    refine ⟨pos, r.skipNewlines, (bind_of_ok hinner).trans ?_⟩
    rw [bind_of_ok (skipNewlines_apply r), bind_of_ok (check_apply _ _), peek_nil hend]
    rfl

/-- Lines keep their statements with more behind them, and what is behind follows. -/
theorem join {tail : List Token} (ht : Detached tail) {n m : Nat} (hnm : n ≤ m)
    (h : Lines (rules n) s A) (hlength : s.ahead.length ≤ n) (hcomplete : Complete tail s)
    (hB : ∀ r : Stream, r.skipNewlines.ahead = [] → r.finish = s.finish →
      Lines (rules m) (r.followedBy tail) B) :
    Lines (rules m) (s.followedBy tail) (A ++ B) := by
  induction h with
  | @nil s hend => exact hB s hend rfl
  | @cons s r first more hfirst hline hmore ih =>
    have hne : s.skipNewlines.ahead ≠ [] := fun hnil => Hungry.statement _ hnil first r hfirst
    have hskip := Trails.skipNewlines_suffix s
    have hle := hskip.length_le
    have hstable := Stable.statement ht (Stable.rules ht hnm) s.skipNewlines (by omega)
      (hcomplete.suffix hskip)
    obtain ⟨hsuffix, hfirst'⟩ := hstable first r hfirst
    have hfinish : r.finish = s.finish :=
      ((Trails.closed.statement (trails_rules n)).of_ok hfirst).2
    have hmore' := ih (by have hle' := hsuffix.length_le; omega)
      (hcomplete.suffix (hsuffix.trans hskip)) fun r' hr' hf => hB r' hr' (hf.trans hfinish)
    rw [← skipNewlines_followedBy hne] at hfirst'
    refine .cons hfirst' ?_ hmore'
    rcases hline with hnil | hline
    · cases tail with
      | nil => exact .inl (by rw [followedBy_nil, hnil])
      | cons t tail =>
        refine .inr ?_
        rw [Stream.peek, Stream.followedBy, hnil]
        exact ht.line t rfl
    · have hr : r.ahead ≠ [] := ahead_ne_nil (by rw [hline]; decide)
      exact .inr (by rw [peek_followedBy hr, hline])

theorem mono {n m : Nat} (hnm : n ≤ m) (h : Lines (rules n) s A) (hlength : s.ahead.length ≤ n) :
    Lines (rules m) s A := by
  have hjoined := join (B := []) .nil hnm h hlength (.inl rfl) fun r hr _ => by
    rw [followedBy_nil]
    exact .nil hr
  rwa [followedBy_nil, List.append_nil] at hjoined

/-- No statement starts like a further arm. -/
theorem detached {us : List Token} {finish : Position} (h : Lines self ⟨us, finish⟩ A) :
    Detached (TokenKind.newline.token :: us) := by
  refine ⟨fun t ht => by cases ht; rfl, fun t ht => ?_⟩
  have hahead : (TokenKind.newline.token :: us).dropWhile (·.kind == .newline) =
      (⟨us, finish⟩ : Stream).skipNewlines.ahead := rfl
  rw [hahead] at ht
  cases h with
  | nil hend =>
    rw [hend] at ht
    cases ht
  | @cons _ r first more hfirst hline hmore =>
    have hpeek : (⟨us, finish⟩ : Stream).skipNewlines.peek = t := by
      rw [Stream.peek, List.headD_eq_head?_getD, ht]
      rfl
    have hmiss : t.kind.jumps = false → t.kind.starts = false → t.kind ≠ .newline → False := by
      intro hjumps hstarts hnewline
      rw [← hpeek] at hjumps hstarts hnewline
      obtain ⟨d, hd⟩ := expression_miss self hstarts hnewline
      rw [statement_eq hjumps, hd] at hfirst
      cases hfirst
    constructor
    · intro hkind
      rw [hkind] at hmiss
      exact hmiss rfl rfl (by decide)
    · intro hkind
      rw [hkind] at hmiss
      exact hmiss rfl rfl (by decide)

end Lines

/-! ### Two programs -/

theorem lastKind_bare (ts : List Token) : lastKind (ts.map Token.bare) = lastKind ts := by
  unfold lastKind
  rw [List.filter_map, List.getLast?_map, Option.map_map]
  rfl

theorem eraseAll_append (A B : List Node) : eraseAll (A ++ B) = eraseAll A ++ eraseAll B := by
  simp only [eraseAll_eq_map, List.map_append]

/-- The tokens of a program that is parsed hold its statements, and behind a line break they leave
other tokens alone. -/
theorem parseProgram_lines {source : String} {name : Option String} {pos : Position}
    {A : List Node} (h : parseProgram source name = .ok (.sequence pos A)) :
    ∃ ts, Lexes source.toList ts ∧ Inside ts ∧
      lastKind ts = lastKind (tokenize source name).tokens ∧
      (Unescaped source.toList → ∀ rest us, Lexes rest us →
        Lexes (source.toList ++ '\n' :: rest) (ts ++ TokenKind.newline.token :: us)) ∧
      Lines (rules ts.length) (bareStream ts) (eraseAll A) := by
  have hfailure : (tokenize source name).failure = none := by
    unfold parseProgram parseSource at h
    dsimp only at h
    split at h
    · cases h
    · assumption
  obtain ⟨ts, hts, hinside, hjoin⟩ := lexes_of_success (Nat.le_refl _) hfailure
  refine ⟨ts, hts, hinside, ?_, hjoin, ?_⟩
  · have htokens : (tokenize source name).tokens.map Token.bare =
        ts ++ [TokenKind.endOfCode.token] := (hts _ _ 0 1 (Nat.le_refl _)).2
    have hkinds := lastKind_bare (tokenize source name).tokens
    rw [htokens, lastKind_append] at hkinds
    exact hkinds
  · obtain ⟨r, hr⟩ := (hts.parse_iff hinside name _).mp ⟨_, h, rfl⟩
    obtain ⟨pos', statements, hroot, hlines⟩ := Lines.of_program (trails_rules _) hinside hr
    cases hroot
    exact hlines

/-- Two programs with a line break between them are one program, with the statements of both. The
first must not end in a backslash, which could take the line break into a string, nor in a return,
which would take the first statement behind it for its value. -/
theorem programs_concatenate {first second : String} {name₁ name₂ : Option String}
    {p q : Position} {A B : List Node} (hfirst : parseProgram first name₁ = .ok (.sequence p A))
    (hsecond : parseProgram second name₂ = .ok (.sequence q B))
    (hslash : first.toList.getLast? ≠ some '\\')
    (hreturn : lastKind (tokenize first name₁).tokens ≠ some (.keyword .return_))
    (name : Option String) : ∃ root, parseProgram (first ++ "\n" ++ second) name = .ok root ∧
      root.erase = (Node.sequence p (A ++ B)).erase := by
  obtain ⟨ts, -, hinside, hlast, hjoin, hA⟩ := parseProgram_lines hfirst
  obtain ⟨us, hus, hinside', -, -, hB⟩ := parseProgram_lines hsecond
  have htext : (first ++ "\n" ++ second).toList = first.toList ++ '\n' :: second.toList := by
    simp only [String.toList_append, List.append_assoc]
    rfl
  have hlexes : Lexes (first ++ "\n" ++ second).toList (ts ++ TokenKind.newline.token :: us) := by
    rw [htext]
    exact hjoin hslash _ us hus
  have hinside'' : Inside (ts ++ TokenKind.newline.token :: us) :=
    List.forall_mem_append.mpr ⟨hinside, List.forall_mem_cons.mpr ⟨nofun, hinside'⟩⟩
  have hB' : Lines (rules (ts ++ TokenKind.newline.token :: us).length) (bareStream us)
      (eraseAll B) := by
    refine hB.mono ?_ (Nat.le_refl _)
    rw [List.length_append, List.length_cons]
    omega
  have hlines : Lines (rules (ts ++ TokenKind.newline.token :: us).length)
      (bareStream (ts ++ TokenKind.newline.token :: us)) (eraseAll A ++ eraseAll B) := by
    refine hA.join hB'.detached ?_ (Nat.le_refl _) (.inr (hlast ▸ hreturn)) fun r hr hfinish => ?_
    · rw [List.length_append]
      omega
    · refine hB'.of_skip ?_
      have hskip : (r.followedBy (TokenKind.newline.token :: us)).skipNewlines.ahead =
          (bareStream us).skipNewlines.ahead := dropWhile_append_of_eq hr
      rw [Stream.mk.injEq]
      exact ⟨hskip.symm, hfinish.symm⟩
  obtain ⟨pos, r, hprogram⟩ := hlines.program (trails_rules _)
  obtain ⟨root, hroot, herase⟩ := (hlexes.parse_iff hinside'' name _).mpr ⟨r, hprogram⟩
  refine ⟨root, hroot, ?_⟩
  have hpos : pos = .none := by
    have hnone := root.pos_erase
    rw [herase] at hnone
    exact hnone
  rw [herase, hpos, Node.erase, eraseAll_append]

/-- An open string ends with its line, and so does a choice that no arm follows. -/
theorem programs_concatenate_choice : ∃ A B root,
    parseProgram "if x: 'a" none = .ok (.sequence ⟨1, 0, 2, none⟩ A) ∧
      parseProgram "return" none = .ok (.sequence ⟨1, 0, 6, none⟩ B) ∧
      parseProgram ("if x: 'a" ++ "\n" ++ "return") none = .ok root ∧
      root.erase = (Node.sequence ⟨1, 0, 2, none⟩ (A ++ B)).erase := by
  have hfirst : parseProgram "if x: 'a" none = .ok (.sequence ⟨1, 0, 2, none⟩
      [.choose ⟨1, 0, 2, none⟩ (.arm (.read ⟨1, 3, 1, none⟩ "x") false
        (.text ⟨1, 6, 2, none⟩ "a") .done)]) := by cbv
  have hsecond : parseProgram "return" none = .ok (.sequence ⟨1, 0, 6, none⟩
      [.return_ ⟨1, 0, 6, none⟩ none]) := by cbv
  obtain ⟨root, hroot, herase⟩ :=
    programs_concatenate hfirst hsecond (by decide) (by decide +kernel) none
  exact ⟨_, _, root, hfirst, hsecond, hroot, herase⟩

end ScriptEngine
