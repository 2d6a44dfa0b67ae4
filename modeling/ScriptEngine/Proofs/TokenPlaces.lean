import Mathlib.Data.List.Chain
import ScriptEngine.Proofs.LexedText

/-! # The places of tokens

The tokens of a text cover it: their spans follow each other on boundaries of characters, and all
that is left out is blank. The line of a token counts the line feeds in front of it, with one
exception: a line feed behind a backslash is taken into a string and is not counted. -/

namespace ScriptEngine

open Lexer

/-! ### Cutting text at bytes -/

namespace Lexer

/-- The characters that start before byte `n`. -/
def upTo : Nat → List Char → List Char
  | _, [] => []
  | n, c :: cs => if n = 0 then [] else c :: upTo (n - c.utf8Size) cs

/-- The characters from byte `n` on. -/
def beyond : Nat → List Char → List Char
  | _, [] => []
  | n, c :: cs => if n = 0 then c :: cs else beyond (n - c.utf8Size) cs

/-- The text from byte `i` up to byte `j`. -/
def slice (i j : Nat) (text : List Char) : List Char :=
  upTo (j - i) (beyond i text)

/-- Byte `n` stands at the boundary of a character of the text, or at its end. -/
def IsBoundary (n : Nat) (text : List Char) : Prop :=
  byteSize (upTo n text) = n

theorem upTo_append (cs ds : List Char) : upTo (byteSize cs) (cs ++ ds) = cs := by
  induction cs with
  | nil => cases ds <;> simp [byteSize, upTo]
  | cons c cs ih =>
    have hpos := c.utf8Size_pos
    have hsize : c.utf8Size + byteSize cs - c.utf8Size = byteSize cs := by omega
    rw [List.cons_append, upTo, byteSize, if_neg (by omega), hsize, ih]

theorem beyond_append (cs ds : List Char) : beyond (byteSize cs) (cs ++ ds) = ds := by
  induction cs with
  | nil => cases ds <;> simp [byteSize, beyond]
  | cons c cs ih =>
    have hpos := c.utf8Size_pos
    have hsize : c.utf8Size + byteSize cs - c.utf8Size = byteSize cs := by omega
    rw [List.cons_append, beyond, byteSize, if_neg (by omega), hsize, ih]

theorem slice_append (cs part ds : List Char) :
    slice (byteSize cs) (byteSize (cs ++ part)) (cs ++ part ++ ds) = part := by
  have hsize : byteSize (cs ++ part) - byteSize cs = byteSize part := by
    rw [byteSize_append]
    omega
  rw [slice, hsize, List.append_assoc, beyond_append, upTo_append]

theorem isBoundary_append (cs ds : List Char) : IsBoundary (byteSize cs) (cs ++ ds) := by
  rw [IsBoundary, upTo_append]

end Lexer

def Token.start (t : Token) : Nat :=
  t.position.offset

def Token.stop (t : Token) : Nat :=
  t.position.offset + t.position.length

/-! ### Spans -/

/-- Nothing but blanks stands from byte `i` up to byte `j`. -/
def Separates (text : List Char) (i j : Nat) : Prop :=
  i ≤ j ∧ Blank (slice i j text) (beyond j text)

/-- The token has a span in the text, and its lexeme is the text there unless it is a literal with a
value of its own. -/
structure Token.Marks (text : List Char) (t : Token) : Prop where
  start : IsBoundary t.start text
  stop : IsBoundary t.stop text
  lexeme : t.kind = .text ∨ IsHex t.kind (slice t.start t.stop text) ∨
    t.lexeme = String.ofList (slice t.start t.stop text)

/-- The tokens cover the text from byte `i` on. -/
structure Covers (text : List Char) (i : Nat) (ts : List Token) : Prop where
  marks : ∀ t ∈ ts, t.Marks text
  first : ∀ t ∈ ts.head?, Separates text i t.start
  next : ts.IsChain fun t u => Separates text t.stop u.start
  last : ∃ front finish, ts = front ++ [finish] ∧
    (finish.kind = .endOfCode ∧ finish.start = byteSize text ∧ finish.position.length = 0) ∧
    ∀ t ∈ front, t.kind ≠ .endOfCode ∧ 0 < t.position.length

theorem separates_append {front gap ahead : List Char} (h : Blank gap ahead) :
    Separates (front ++ gap ++ ahead) (byteSize front) (byteSize (front ++ gap)) := by
  refine ⟨by rw [byteSize_append]; omega, ?_⟩
  rw [slice_append, beyond_append]
  exact h

namespace Covers

variable {front gap : List Char}

theorem finish (h : Blank gap []) (line : Nat) (source : Option String) :
    Covers (front ++ gap) (byteSize front)
      [⟨.endOfCode, "", ⟨line, byteSize (front ++ gap), 0, source⟩⟩] := by
  have hgap : Separates (front ++ gap ++ []) _ _ := separates_append h
  have hend := isBoundary_append (front ++ gap) []
  have hspan := slice_append (front ++ gap) [] []
  simp only [List.append_nil] at hgap hend hspan
  refine ⟨?_, ?_, .singleton _, [], _, rfl, ⟨rfl, rfl, rfl⟩, by simp⟩
  · intro t ht
    obtain rfl := List.mem_singleton.mp ht
    refine ⟨hend, hend, .inr (.inr ?_)⟩
    simp only [Token.start, Token.stop, Nat.add_zero, hspan, String.ofList_nil]
  · intro t ht
    obtain rfl := Option.mem_some.mp ht
    exact hgap

theorem token {c : Char} {cs body : List Char} {l : Lexeme} {ts : List Token} {p : Position}
    (hgap : Blank gap (c :: cs)) (hspans : Spans c cs l body) (hkind : l.kind ≠ .endOfCode)
    (hoffset : p.offset = byteSize (front ++ gap)) (hlength : p.length = byteSize l.span)
    (hts : Covers (front ++ gap ++ l.span ++ l.rest) (byteSize (front ++ gap ++ l.span)) ts) :
    Covers (front ++ (gap ++ c :: cs)) (byteSize front) (⟨l.kind, l.text, p⟩ :: ts) := by
  have hstop : p.offset + p.length = byteSize (front ++ gap ++ l.span) := by
    rw [hoffset, hlength, byteSize_append (front ++ gap)]
  have hbefore : Separates (front ++ gap ++ c :: cs) _ _ := separates_append hgap
  rw [List.append_assoc, hspans.join] at hbefore
  rw [hspans.join]
  obtain ⟨hmarks, hfirst, hnext, behind, last, rfl, hlast, hbehind⟩ := hts
  refine ⟨?_, ?_, ?_, _ :: behind, last, rfl, hlast, ?_⟩
  · refine List.forall_mem_cons.mpr ⟨⟨?_, ?_, ?_⟩, hmarks⟩
    · rw [Token.start, hoffset, List.append_assoc]
      exact isBoundary_append _ _
    · rw [Token.stop, hstop]
      exact isBoundary_append _ _
    · rw [Token.start, Token.stop, hstop, hoffset, slice_append]
      exact hspans.text
  · intro t ht
    obtain rfl := Option.mem_some.mp ht
    rw [Token.start, hoffset]
    exact hbefore
  · refine List.isChain_cons.mpr ⟨fun t ht => ?_, hnext⟩
    rw [Token.stop, hstop]
    exact hfirst t ht
  · refine List.forall_mem_cons.mpr ⟨⟨hkind, ?_⟩, hbehind⟩
    have hpos := c.utf8Size_pos
    rw [hlength, hspans.span, byteSize]
    omega

end Covers

theorem LexRun.covers {source : Option String} {front cs : List Char} {line : Nat} {lexed : Lexed}
    (h : LexRun source front line cs lexed) (hfailure : lexed.failure = none) :
    Covers (front ++ cs) (byteSize front) lexed.tokens := by
  induction h with
  | finish hgap => exact .finish hgap _ _
  | fault hgap hscan => cases hfailure
  | token hgap hscan hnext ih =>
    obtain ⟨body, hspans⟩ := scan_spans hscan
    exact .token hgap hspans (scan_endsInLine hscan).kind rfl rfl (ih hfailure)

/-- The tokens of a source that is lexed cover it without loss and without overlap. -/
theorem tokens_cover_source {source : String} {name : Option String}
    (h : (tokenize source name).failure = none) :
    Covers source.toList 0 (tokenize source name).tokens := by
  obtain ⟨base, hrun⟩ := tokenize_run source name
  exact hrun.covers h

/-- A name that is not ASCII, a number in hexadecimal digits, a comment and the ending of its line,
and a string that is left open. -/
theorem tokens_cover_assignment :
    (tokenize "é\t=0x1F # c\r\n'a" none).failure = none ∧
      Covers "é\t=0x1F # c\r\n'a".toList 0 (tokenize "é\t=0x1F # c\r\n'a" none).tokens := by
  have h : (tokenize "é\t=0x1F # c\r\n'a" none).failure = none := by decide +kernel
  exact ⟨h, tokens_cover_source h⟩

/-! ### Lines -/

/-- The line feeds that a string takes into its value. -/
def Token.wraps (text : List Char) (t : Token) : Nat :=
  if t.kind = .text then (slice t.start t.stop text).count '\n' else 0

theorem total_eq_zero_iff {α : Type} {m : α → Nat} {xs : List α} :
    total m xs = 0 ↔ ∀ x ∈ xs, m x = 0 := by
  induction xs with
  | nil => simp [total]
  | cons x xs ih => simp [total, ih]

theorem scan_break (cs : List Char) : scan '\n' cs = .plain .newline ['\n'] cs := by
  rfl

/-- A token that is scanned ends as many lines as it has line feeds, but for those of a string. -/
theorem line_of_scan {c : Char} {cs body : List Char} {l : Lexeme} (hscan : scan c cs = .lexeme l)
    (hspans : Spans c cs l body) (line : Nat) :
    (if c = '\n' then line + 1 else line) + (if l.kind = .text then l.span.count '\n' else 0) =
      line + l.span.count '\n' := by
  by_cases hc : c = '\n'
  · subst hc
    rw [scan_break] at hscan
    cases hscan
    simp
  · rw [if_neg hc]
    split
    · rfl
    · rename_i hkind
      have hspan : l.span.count '\n' = 0 := by
        rw [List.count_eq_zero, hspans.span]
        simp [Ne.symm hc, hspans.inLine hkind]
      omega

/-- The line of a token, and the line feeds in strings before it, make up the line feeds before it;
`k` are those that are not counted when the run starts. -/
theorem LexRun.line {source : Option String} {front cs : List Char} {line : Nat} {lexed : Lexed}
    (h : LexRun source front line cs lexed) {k : Nat} (hline : line + k = 1 + front.count '\n')
    {before behind : List Token} {t : Token} (ht : lexed.tokens = before ++ t :: behind) :
    t.position.line + (k + total (Token.wraps (front ++ cs)) before) =
      1 + (upTo t.start (front ++ cs)).count '\n' := by
  induction h generalizing k before with
  | @finish front gap line hgap =>
    cases before with
    | nil =>
      obtain ⟨rfl, -⟩ := List.cons.inj ht
      have hfront := upTo_append (front ++ gap) []
      rw [List.append_nil] at hfront
      simp [total, Token.start, hfront, List.count_eq_zero.mpr hgap.no_break, hline]
    | cons u before => simp at ht
  | fault => simp at ht
  | @token front gap cs line c l next hgap hscan hnext ih =>
    obtain ⟨body, hspans⟩ := scan_spans hscan
    have hgap' := List.count_eq_zero.mpr hgap.no_break
    rw [hspans.join]
    cases before with
    | nil =>
      obtain ⟨rfl, rfl⟩ := List.cons.inj ht
      rw [List.append_assoc (front ++ gap), Token.start, upTo_append]
      simp [total, hgap', hline]
    | cons u before =>
      obtain ⟨rfl, htail⟩ := List.cons.inj ht
      have hspan : slice (byteSize (front ++ gap)) (byteSize (front ++ gap) + byteSize l.span)
          (front ++ gap ++ l.span ++ l.rest) = l.span := by
        rw [← byteSize_append, slice_append]
      have hstep := line_of_scan hscan hspans line
      have hnext := ih (k := k + if l.kind = .text then l.span.count '\n' else 0)
        (by simp only [List.count_append, hgap']; omega) htail
      simp only [total, Token.wraps, Token.start, Token.stop, hspan]
        at hnext ⊢
      omega

/-- The line of a token counts the line feeds before it, but for those that a string before it took
in behind a backslash; so it is right exactly where there are none. -/
theorem token_line_right_iff {source : String} {name : Option String} {before behind : List Token}
    {t : Token} (h : (tokenize source name).tokens = before ++ t :: behind) :
    t.position.line + total (Token.wraps source.toList) before =
        1 + (upTo t.start source.toList).count '\n' ∧
      (t.position.line = 1 + (upTo t.start source.toList).count '\n' ↔
        ∀ u ∈ before, u.kind = .text → '\n' ∉ slice u.start u.stop source.toList) := by
  obtain ⟨base, hrun⟩ := tokenize_run source name
  have hline := hrun.line (k := 0) rfl h
  rw [Nat.zero_add, List.nil_append] at hline
  refine ⟨hline, ?_⟩
  have hwraps : total (Token.wraps source.toList) before = 0 ↔
      ∀ u ∈ before, u.kind = .text → '\n' ∉ slice u.start u.stop source.toList := by
    rw [total_eq_zero_iff]
    refine forall₂_congr fun u _ => ?_
    simp [Token.wraps, List.count_eq_zero]
  rw [← hwraps]
  omega

/-- An escape in a string and a backslash at the end of a comment. -/
theorem token_line_right_comment : ∃ before behind, ∃ t : Token,
    (tokenize "'\\n'#\\\nb" none).tokens = before ++ t :: behind ∧ t.lexeme = "b" ∧
      t.position.line = 1 + (upTo t.start "'\\n'#\\\nb".toList).count '\n' := by
  have h : (tokenize "'\\n'#\\\nb" none).tokens =
      [⟨.text, "\n", ⟨1, 0, 4, none⟩⟩, ⟨.newline, "\n", ⟨1, 6, 1, none⟩⟩] ++
        ⟨.identifier, "b", ⟨2, 7, 1, none⟩⟩ :: [⟨.endOfCode, "", ⟨2, 8, 0, none⟩⟩] := by
    decide +kernel
  exact ⟨_, _, _, h, rfl, (token_line_right_iff h).2.mpr (by decide +kernel)⟩

/-- A string that is continued in the next line puts what follows it into the line before. -/
theorem token_line_wrong_behind_string :
    ¬ ∀ t ∈ (tokenize "'\\\n' a" none).tokens,
      t.position.line = 1 + (upTo t.start "'\\\n' a".toList).count '\n' := by
  decide +kernel

end ScriptEngine
