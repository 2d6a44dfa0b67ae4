import ScriptEngine.Proofs.TokenBoundaries

/-! # Lexing text that was edited

Two edits and what the lexer then gives. Text that is cut where lexing failed is lexed into the
tokens that were kept, and the end of the text. Spaces and tabs in front of a token move it and all
that stands behind it, and change nothing else. -/

namespace ScriptEngine

open Lexer

/-! ### Text that is cut at a failure -/

/-- Where a run fails, it goes through without a failure up to that place, with the same tokens. -/
theorem LexRun.cut {source : Option String} {front cs : List Char} {line : Nat} {lexed : Lexed}
    {d : Diagnostic} (h : LexRun source front line cs lexed) (hd : lexed.failure = some d) :
    ∃ kept bad p, cs = kept ++ bad ∧ (∃ c ∈ bad.head?, c ≠ '\n') ∧ d.position = some p ∧
      p.offset = byteSize (front ++ kept) ∧
      LexRun source front line kept
        { tokens := lexed.tokens ++ [⟨.endOfCode, "", { p with length := 0 }⟩]
          failure := none } := by
  induction h with
  | finish => cases hd
  | @fault front gap cs span line c fault hgap hscan =>
    have hbad : ∃ d ∈ (c :: cs).head?, d ≠ '\n' := by
      refine ⟨c, rfl, ?_⟩
      rintro rfl
      rw [scan_break] at hscan
      cases hscan
    cases hd
    exact ⟨gap, c :: cs, _, rfl, hbad, rfl, rfl, .finish (.of_spaces (hgap.spaces hbad) [])⟩
  | @token front gap cs line c l next hgap hscan _ ih =>
    obtain ⟨body, hspans⟩ := scan_spans hscan
    obtain ⟨kept, bad, p, hrest, hbad, hp, hoffset, hrun⟩ := ih hd
    have hafter : StartsAlike l.rest kept := by
      have hjoined : StartsAlike (kept ++ bad) (kept ++ []) := .append_left hbad (by simp)
      rwa [List.append_nil, ← hrest] at hjoined
    refine ⟨gap ++ c :: (body ++ kept), bad, p, ?_, hbad, hp, ?_, ?_⟩
    · rw [hspans.rest, hrest]
      simp
    · rw [hoffset, hspans.span]
      simp
    · exact .token (hgap.congr_head (c :: (body ++ kept)) rfl)
        (scan_behind hscan hspans hafter) hrun

/-- A failure keeps exactly the tokens in front of the fault: the source cut there is lexed into
them, with their places, and the end of the code in that place. -/
theorem tokenize_upTo_failure {source : String} {name : Option String} {d : Diagnostic}
    (h : (tokenize source name).failure = some d) :
    ∃ p, d.position = some p ∧ IsBoundary p.offset source.toList ∧
      tokenize (String.ofList (upTo p.offset source.toList)) name =
        { tokens := (tokenize source name).tokens ++ [⟨.endOfCode, "", { p with length := 0 }⟩]
          failure := none } := by
  have hrun := lexFrom_run (name.map fun n => (Path.fileName? n).getD n) [] 1
    (Nat.le_refl source.toList.length)
  obtain ⟨kept, bad, p, hcs, -, hp, hoffset, hcut⟩ := hrun.cut h
  rw [List.nil_append] at hoffset
  have hkept : upTo p.offset source.toList = kept := by rw [hoffset, hcs, upTo_append]
  refine ⟨p, hp, ?_, ?_⟩
  · rw [hcs, hoffset]
    exact isBoundary_append kept bad
  · rw [hkept]
    exact tokenize_eq_of_run hcut rfl

/-- A digit is missing behind `0x`, which stands right behind a number of full width and in the
second line. -/
theorem tokenize_upTo_missingDigit :
    (tokenize "a # b\r\n0x123456780xg" none).failure =
        some (.located .missingHexDigit ⟨2, 17, 2, none⟩) ∧
      tokenize (String.ofList (upTo 17 "a # b\r\n0x123456780xg".toList)) none =
        { tokens := (tokenize "a # b\r\n0x123456780xg" none).tokens ++
            [⟨.endOfCode, "", ⟨2, 17, 0, none⟩⟩]
          failure := none } := by
  have h : (tokenize "a # b\r\n0x123456780xg" none).failure =
      some (.located .missingHexDigit ⟨2, 17, 2, none⟩) := by decide +kernel
  obtain ⟨p, hp, -, hcut⟩ := tokenize_upTo_failure h
  cases hp
  exact ⟨h, hcut⟩

/-! ### Blanks in front of a token -/

/-- The token `k` bytes further on. -/
def Token.shifted (k : Nat) (t : Token) : Token :=
  { t with position := { t.position with offset := t.position.offset + k } }

namespace Lexer

/-- The text with more of it at byte `n`. -/
def insertAt (n : Nat) (more text : List Char) : List Char :=
  upTo n text ++ more ++ beyond n text

theorem byteSize_of_spaces {w : List Char} (hw : ∀ c ∈ w, c = ' ' ∨ c = '\t') :
    byteSize w = w.length := by
  induction w with
  | nil => rfl
  | cons c w ih =>
    obtain ⟨hc, hw⟩ := List.forall_mem_cons.mp hw
    have hsize : c.utf8Size = 1 := by rcases hc with rfl | rfl <;> rfl
    rw [byteSize, hsize, ih hw, List.length_cons, Nat.add_comm]

end Lexer

/-- The same run further on. -/
theorem LexRun.shift {source : Option String} {front cs : List Char} {line : Nat} {lexed : Lexed}
    (h : LexRun source front line cs lexed) (hf : lexed.failure = none) {ahead : List Char}
    {k : Nat} (hfront : byteSize ahead = byteSize front + k) :
    LexRun source ahead line cs
      { tokens := lexed.tokens.map (Token.shifted k), failure := none } := by
  have hmoved : ∀ gap : List Char, byteSize (front ++ gap) + k = byteSize (ahead ++ gap) := by
    intro gap
    rw [byteSize_append, byteSize_append, hfront]
    omega
  induction h generalizing ahead with
  | finish hgap =>
    simp only [List.map_cons, List.map_nil, Token.shifted, hmoved]
    exact .finish hgap
  | fault => cases hf
  | @token front gap cs line c l next hgap hscan _ ih =>
    have hspan : byteSize (ahead ++ gap ++ l.span) = byteSize (front ++ gap ++ l.span) + k := by
      rw [byteSize_append (ahead ++ gap), byteSize_append (front ++ gap), ← hmoved]
      omega
    have hnext := ih hf hspan fun more => by
      rw [byteSize_append (front ++ gap ++ l.span), byteSize_append (ahead ++ gap ++ l.span), hspan]
      omega
    simp only [List.map_cons, Token.shifted, hmoved]
    exact .token hgap hscan hnext

/-- Blanks go in between what stands in front of a token and the token. -/
theorem LexRun.insert {source : Option String} {front cs w : List Char} {line : Nat}
    {lexed : Lexed} (h : LexRun source front line cs lexed) (hf : lexed.failure = none)
    (hw : ∀ c ∈ w, c = ' ' ∨ c = '\t') {before behind : List Token} {t : Token}
    (ht : lexed.tokens = before ++ t :: behind) (hline : t.kind ≠ .newline)
    (hend : t.kind ≠ .endOfCode) :
    ∃ start rest, cs = start ++ rest ∧ (∃ c ∈ rest.head?, c ≠ '\n') ∧
      t.start = byteSize (front ++ start) ∧
      LexRun source front line (start ++ (w ++ rest))
        { tokens := before ++ (t :: behind).map (Token.shifted (byteSize w))
          failure := none } := by
  induction h generalizing before with
  | finish =>
    cases before with
    | nil => exact absurd ((List.cons.inj ht).1 ▸ rfl) hend
    | cons u before => simp at ht
  | fault => cases hf
  | @token front gap cs line c l next hgap hscan hnext ih =>
    obtain ⟨body, hspans⟩ := scan_spans hscan
    cases before with
    | nil =>
      obtain ⟨rfl, rfl⟩ := List.cons.inj ht
      have hc : c ≠ '\n' := by
        rintro rfl
        rw [scan_break] at hscan
        cases hscan
        exact hline rfl
      have hspaces : ∀ d ∈ gap ++ w, d = ' ' ∨ d = '\t' := by
        intro d hd
        rcases List.mem_append.mp hd with hd | hd
        · exact hgap.spaces ⟨c, rfl, hc⟩ d hd
        · exact hw d hd
      have hsize : byteSize (front ++ (gap ++ w)) = byteSize (front ++ gap) + byteSize w := by
        rw [← List.append_assoc, byteSize_append (front ++ gap)]
      have hspan : byteSize (front ++ (gap ++ w) ++ l.span) =
          byteSize (front ++ gap ++ l.span) + byteSize w := by
        rw [byteSize_append (front ++ (gap ++ w)), byteSize_append (front ++ gap), hsize]
        omega
      refine ⟨gap, c :: cs, rfl, ⟨c, rfl, hc⟩, rfl, ?_⟩
      rw [List.nil_append, List.map_cons, ← List.append_assoc, Token.shifted, ← hsize]
      exact .token (.of_spaces hspaces _) hscan (hnext.shift hf hspan)
    | cons u before =>
      obtain ⟨rfl, htail⟩ := List.cons.inj ht
      obtain ⟨start, rest, hrest, hhead, hstart, hrun⟩ := ih hf htail
      have hafter : StartsAlike l.rest (start ++ (w ++ rest)) := by
        rw [hrest]
        cases w with
        | nil => exact .inl rfl
        | cons d w => exact .append_left hhead fun e he => hw e (Option.mem_some.mp he ▸ .head _)
      refine ⟨gap ++ c :: (body ++ start), rest, ?_, hhead, ?_, ?_⟩
      · rw [hspans.rest, hrest]
        simp
      · rw [hstart, hspans.span]
        simp
      · have htext : gap ++ c :: (body ++ start) ++ (w ++ rest) =
            gap ++ c :: (body ++ (start ++ (w ++ rest))) := by simp
        rw [htext]
        exact .token (hgap.congr_head (c :: (body ++ (start ++ (w ++ rest)))) rfl)
          (scan_behind hscan hspans hafter) hrun

/-- Spaces and tabs in front of a token that ends no line move it and the tokens behind it by their
number, and no kind, lexeme, line or length changes. -/
theorem tokenize_insertAt {source w : String} {name : Option String} {before behind : List Token}
    {t : Token} (h : (tokenize source name).failure = none)
    (ht : (tokenize source name).tokens = before ++ t :: behind) (hline : t.kind ≠ .newline)
    (hend : t.kind ≠ .endOfCode) (hw : ∀ c ∈ w.toList, c = ' ' ∨ c = '\t') :
    IsBoundary t.start source.toList ∧
      tokenize (String.ofList (insertAt t.start w.toList source.toList)) name =
        { tokens := before ++ (t :: behind).map (Token.shifted w.length), failure := none } := by
  have hrun := lexFrom_run (name.map fun n => (Path.fileName? n).getD n) [] 1
    (Nat.le_refl source.toList.length)
  obtain ⟨start, rest, hcs, -, hstart, hinserted⟩ := hrun.insert h hw ht hline hend
  rw [List.nil_append] at hstart
  refine ⟨?_, ?_⟩
  · rw [hcs, hstart]
    exact isBoundary_append start rest
  · rw [hcs, hstart, insertAt, upTo_append, beyond_append, List.append_assoc]
    rw [byteSize_of_spaces hw] at hinserted
    exact tokenize_eq_of_run hinserted rfl

/-- Two operators that are made of four signs are kept apart where they were. -/
theorem tokenize_insertAt_operators :
    (tokenize "a+++=0x1F" none).tokens =
        [⟨.identifier, "a", ⟨1, 0, 1, none⟩⟩, ⟨.plusPlus, "++", ⟨1, 1, 2, none⟩⟩] ++
          ⟨.plusEqual, "+=", ⟨1, 3, 2, none⟩⟩ ::
            [⟨.int, "31", ⟨1, 5, 4, none⟩⟩, ⟨.endOfCode, "", ⟨1, 9, 0, none⟩⟩] ∧
      tokenize "a++ \t+=0x1F" none =
        { tokens := [⟨.identifier, "a", ⟨1, 0, 1, none⟩⟩, ⟨.plusPlus, "++", ⟨1, 1, 2, none⟩⟩] ++
            [⟨.plusEqual, "+=", ⟨1, 5, 2, none⟩⟩, ⟨.int, "31", ⟨1, 7, 4, none⟩⟩,
              ⟨.endOfCode, "", ⟨1, 11, 0, none⟩⟩]
          failure := none } := by
  have ht : (tokenize "a+++=0x1F" none).tokens =
      [⟨.identifier, "a", ⟨1, 0, 1, none⟩⟩, ⟨.plusPlus, "++", ⟨1, 1, 2, none⟩⟩] ++
        ⟨.plusEqual, "+=", ⟨1, 3, 2, none⟩⟩ ::
          [⟨.int, "31", ⟨1, 5, 4, none⟩⟩, ⟨.endOfCode, "", ⟨1, 9, 0, none⟩⟩] := by
    decide +kernel
  have hw : ∀ c ∈ " \t".toList, c = ' ' ∨ c = '\t' := by
    have htext : " \t".toList = [' ', '\t'] := by decide
    simp [htext]
  have hinserted := tokenize_insertAt (by decide +kernel) ht (by decide) (by decide) hw
  exact ⟨ht, hinserted.2⟩

end ScriptEngine
