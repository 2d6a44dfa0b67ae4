import ScriptEngine.Proofs.JoinedText

/-! # The course of lexing

A text is read from front to back: blanks, then a token or a fault, then what stands behind the
token. `LexRun` says this of a whole text, with no bound and no arithmetic on offsets: the place of
a token is told by the text in front of it. Statements about tokens and their places are proved by
induction on it. -/

namespace ScriptEngine

open Lexer

theorem byteSize_append (cs ds : List Char) : byteSize (cs ++ ds) = byteSize cs + byteSize ds := by
  induction cs with
  | nil => simp [byteSize]
  | cons c cs ih =>
    simp only [List.cons_append, byteSize, ih]
    omega

/-! ### Between tokens -/

/-- Text that separates tokens where `ahead` follows it: spaces, tabs, the carriage return of a line
ending, and comments up to the end of their line. -/
inductive Blank : List Char → List Char → Prop where
  | nil {ahead : List Char} : Blank [] ahead
  | space {c : Char} {gap ahead : List Char} (hc : c = ' ' ∨ c = '\t') (h : Blank gap ahead) :
      Blank (c :: gap) ahead
  | carriage {gap ahead : List Char} (hline : (gap ++ ahead).head? = some '\n')
      (h : Blank gap ahead) : Blank ('\r' :: gap) ahead
  | comment {c : Char} {body gap ahead : List Char} (hc : c = '#' ∨ c = '@') (hbody : '\n' ∉ body)
      (hend : ∀ d ∈ (gap ++ ahead).head?, d = '\n') (h : Blank gap ahead) :
      Blank (c :: body ++ gap) ahead

theorem Blank.no_break {gap ahead : List Char} (h : Blank gap ahead) : '\n' ∉ gap := by
  induction h with
  | nil => simp
  | space hc _ ih => rcases hc with rfl | rfl <;> simpa using ih
  | carriage _ _ ih => simpa using ih
  | comment hc hbody _ _ ih => rcases hc with rfl | rfl <;> simp [hbody, ih]

theorem blanks_append (cs : List Char) : (blanks cs).1 ++ (blanks cs).2 = cs := by
  induction cs with
  | nil => rfl
  | cons c cs ih =>
    rw [blanks]
    split
    · simp [ih]
    · split
      · simp [restOfLine, List.span_eq_takeWhile_dropWhile]
      · rfl

theorem restOfLine_blank {c : Char} (hc : c = '#' ∨ c = '@') (cs : List Char) :
    Blank (restOfLine (c :: cs)).1 (restOfLine (c :: cs)).2 := by
  have hline : (c ≠ '\n') = True := by rcases hc with rfl | rfl <;> simp
  have hbody : '\n' ∉ cs.takeWhile (fun d => decide (d ≠ '\n')) := by
    intro hmem
    simpa using List.mem_takeWhile_imp hmem
  have hend : ∀ d ∈ (cs.dropWhile (fun d => decide (d ≠ '\n'))).head?, d = '\n' := by
    intro d hd
    have hstop := List.head?_dropWhile_not (fun d => decide (d ≠ '\n')) cs
    rw [Option.mem_def.mp hd] at hstop
    simpa using hstop
  simp only [restOfLine, List.span_eq_takeWhile_dropWhile, List.takeWhile_cons, List.dropWhile_cons,
    hline, decide_true, if_true]
  have hcomment : Blank (c :: cs.takeWhile (fun d => decide (d ≠ '\n')) ++ []) _ :=
    .comment hc hbody hend .nil
  simpa using hcomment

theorem blanks_blank (cs : List Char) : Blank (blanks cs).1 (blanks cs).2 := by
  induction cs with
  | nil => exact .nil
  | cons c cs ih =>
    rw [blanks]
    split
    · rename_i hblank
      rcases hblank with rfl | rfl | ⟨rfl, hline⟩
      · exact .space (.inl rfl) ih
      · exact .space (.inr rfl) ih
      · refine .carriage ?_ ih
        rw [blanks_append]
        exact hline
    · split
      · exact restOfLine_blank ‹_› cs
      · exact .nil

/-! ### Tokens -/

/-- A literal whose lexeme is the number that its digits stand for. -/
def Lexer.IsHex (kind : TokenKind) (span : List Char) : Prop :=
  kind = .int ∧ ['0', 'x'] <+: span

/-- The lexeme that starts with `c` goes on with `body`. Its text is what it spans, if it is no
literal with a value of its own, and only a string can go on in another line. -/
structure Spans (c : Char) (cs : List Char) (l : Lexeme) (body : List Char) : Prop where
  span : l.span = c :: body
  rest : cs = body ++ l.rest
  text : l.kind = .text ∨ IsHex l.kind l.span ∨ l.text = String.ofList l.span
  inLine : l.kind ≠ .text → '\n' ∉ body

namespace Spans

variable {c : Char} {cs body : List Char} {l : Lexeme}

theorem join (h : Spans c cs l body) (front gap : List Char) :
    front ++ (gap ++ c :: cs) = front ++ gap ++ l.span ++ l.rest := by
  rw [h.span, h.rest]
  simp

theorem plain {kind : TokenKind} {rest : List Char} (hcs : cs = body ++ rest)
    (hbody : '\n' ∉ body) (h : Scan.plain kind (c :: body) rest = .lexeme l) :
    Spans c cs l body := by
  cases h
  exact ⟨rfl, hcs, .inr (.inr rfl), fun _ => hbody⟩

theorem name (h : scanName c cs = .lexeme l) : ∃ body, Spans c cs l body := by
  unfold scanName at h
  rw [List.span_eq_takeWhile_dropWhile] at h
  refine ⟨_, plain List.takeWhile_append_dropWhile.symm ?_ h⟩
  intro hmem
  have hpart : isNamePart '\n' = true := List.mem_takeWhile_imp hmem
  exact absurd hpart (by decide)

theorem numberBody_append (seen : Bool) (cs : List Char) :
    (numberBody seen cs).1 ++ (numberBody seen cs).2 = cs := by
  induction cs generalizing seen with
  | nil => rfl
  | cons c cs ih =>
    rw [numberBody]
    split
    · simp [ih]
    · split
      · simp [ih]
      · rfl

theorem numberBody_inLine (seen : Bool) (cs : List Char) : '\n' ∉ (numberBody seen cs).1 := by
  induction cs generalizing seen with
  | nil => simp [numberBody]
  | cons c cs ih =>
    rw [numberBody]
    split
    · rename_i hdigit
      have hc : '\n' ≠ c := by
        rintro rfl
        exact absurd hdigit (by decide)
      simp [hc, ih]
    · split
      · rename_i hpoint
        simp [hpoint.1, ih]
      · simp

theorem hexBody_append (n : Nat) (cs : List Char) : (hexBody n cs).1 ++ (hexBody n cs).2 = cs := by
  induction n generalizing cs with
  | zero => rfl
  | succ n ih =>
    cases cs with
    | nil => rfl
    | cons c cs =>
      rw [hexBody]
      split
      · simp [ih]
      · rfl

theorem hexBody_inLine (n : Nat) (cs : List Char) : '\n' ∉ (hexBody n cs).1 := by
  induction n generalizing cs with
  | zero => simp [hexBody]
  | succ n ih =>
    cases cs with
    | nil => simp [hexBody]
    | cons c cs =>
      rw [hexBody]
      split
      · rename_i hdigit
        have hc : '\n' ≠ c := by
          rintro rfl
          exact absurd hdigit (by decide)
        simp [hc, ih]
      · simp

theorem number (h : scanNumber c cs = .lexeme l) : ∃ body, Spans c cs l body := by
  unfold scanNumber at h
  split at h
  · rename_i more
    unfold scanHex at h
    dsimp only at h
    split at h
    · cases h
    · cases h
      refine ⟨'x' :: (hexBody 8 more).1, rfl, ?_, .inr (.inl ⟨rfl, by simp⟩), fun _ => ?_⟩
      · simp [hexBody_append]
      · simp [hexBody_inLine]
  · exact ⟨_, plain (numberBody_append false cs).symm (numberBody_inLine false cs) h⟩

theorem stringBody_append (quote : Char) (cs : List Char) :
    (stringBody quote cs).2.1 ++ (stringBody quote cs).2.2 = cs := by
  fun_induction stringBody quote cs with
  | case1 | case2 | case3 | case5 => simp
  | case4 d cs value span left hbody hline ih =>
    rw [hbody] at ih
    simpa using ih
  | case6 c cs hline hescape hquote value span left hbody ih =>
    rw [hbody] at ih
    simpa using ih

theorem string (h : scanString c cs = .lexeme l) : ∃ body, Spans c cs l body := by
  cases h
  exact ⟨_, rfl, (stringBody_append c cs).symm, .inl rfl, fun h => absurd rfl h⟩

theorem operator {single : TokenKind} {pairs : List (Char × TokenKind)}
    (hpairs : pairs.all (fun p => p.1 != '\n' && p.2 != .endOfCode) = true)
    (h : scanOperator single pairs c cs = .lexeme l) : ∃ body, Spans c cs l body := by
  unfold scanOperator at h
  split at h
  · rename_i d rest
    split at h
    · rename_i hpair
      have hd := (EndsInLine.lookup_spec hpairs d _ hpair).1
      exact ⟨[d], plain rfl (by simpa using hd.symm) h⟩
    · exact ⟨[], plain rfl (by simp) h⟩
  · exact ⟨[], plain rfl (by simp) h⟩

end Spans

theorem scan_spans {c : Char} {cs : List Char} {l : Lexeme} (h : scan c cs = .lexeme l) :
    ∃ body, Spans c cs l body := by
  unfold scan at h
  split at h
  · exact Spans.name h
  · split at h
    · exact Spans.number h
    · split at h
      all_goals first
        | exact ⟨[], .plain rfl (by simp) h⟩
        | exact Spans.string h
        | exact Spans.operator rfl h
        | cases h

/-! ### Whole texts -/

/-- Behind `front`, in this line, the text is lexed into these tokens. -/
inductive LexRun (source : Option String) : List Char → Nat → List Char → Lexed → Prop where
  | finish {front gap : List Char} {line : Nat} (hgap : Blank gap []) :
      LexRun source front line gap
        { tokens := [⟨.endOfCode, "", ⟨line, byteSize (front ++ gap), 0, source⟩⟩]
          failure := none }
  | fault {front gap cs span : List Char} {line : Nat} {c : Char} {fault : Fault}
      (hgap : Blank gap (c :: cs)) (hscan : scan c cs = .fault fault span) :
      LexRun source front line (gap ++ c :: cs)
        { tokens := []
          failure := some (.located fault
            ⟨line, byteSize (front ++ gap), byteSize span, source⟩) }
  | token {front gap cs : List Char} {line : Nat} {c : Char} {l : Lexeme} {next : Lexed}
      (hgap : Blank gap (c :: cs)) (hscan : scan c cs = .lexeme l)
      (hnext : LexRun source (front ++ gap ++ l.span) (if c = '\n' then line + 1 else line) l.rest
        next) :
      LexRun source front line (gap ++ c :: cs)
        { next with tokens :=
            ⟨l.kind, l.text, ⟨line, byteSize (front ++ gap), byteSize l.span, source⟩⟩ ::
              next.tokens }

theorem lexFrom_run (source : Option String) {n : Nat} (front : List Char) (line : Nat)
    {cs : List Char} (hn : cs.length ≤ n) :
    LexRun source front line cs (lexFrom source n (byteSize front) line cs) := by
  induction n generalizing front line cs with
  | zero =>
    obtain rfl := List.length_eq_zero_iff.mp (Nat.le_zero.mp hn)
    have hfinish : LexRun source front line [] _ := .finish .nil
    rw [List.append_nil] at hfinish
    exact hfinish
  | succ n ih =>
    have hcut := blanks_append cs
    have hgap := blanks_blank cs
    rw [lexFrom]
    dsimp only
    rw [← byteSize_append]
    generalize (blanks cs).1 = gap at hcut hgap ⊢
    generalize (blanks cs).2 = ahead at hcut hgap ⊢
    subst hcut
    cases ahead with
    | nil =>
      rw [List.append_nil]
      exact .finish hgap
    | cons c more =>
      dsimp only
      split
      · exact .fault hgap ‹_›
      · rename_i l hscan
        obtain ⟨body, hspans⟩ := scan_spans hscan
        have hrest : l.rest.length ≤ n := by
          have hmore := congrArg List.length hspans.rest
          simp only [List.length_append, List.length_cons] at hn hmore
          omega
        rw [← byteSize_append]
        exact .token hgap hscan (ih _ _ hrest)

theorem tokenize_run (source : String) (name : Option String) :
    ∃ base, LexRun base [] 1 source.toList (tokenize source name) :=
  ⟨_, lexFrom_run _ [] 1 (Nat.le_refl _)⟩

end ScriptEngine
