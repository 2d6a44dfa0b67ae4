import ScriptEngine.Proofs.TokenPlaces

/-! # Where a token ends

No scanner looks further behind its token than at one character, and a space or a tab tells it no
more than the end of the text does. So a token is scanned again where something else follows it
that starts alike, or, in the middle of a line, where blanks follow it or nothing. From that, a run
of the lexer that does not fail can be put together piece by piece: it is what the lexer does. -/

namespace ScriptEngine

open Lexer

/-- For a token in front of it `after` starts as `rest` does, or it starts with a blank or is empty
where `rest` goes on in the line. -/
def StartsAlike (rest after : List Char) : Prop :=
  after.head? = rest.head? ∨
    ((∃ c ∈ rest.head?, c ≠ '\n') ∧ ∀ c ∈ after.head?, c = ' ' ∨ c = '\t')

namespace StartsAlike

variable {rest after : List Char}

theorem eq_nil (h : StartsAlike [] after) : after = [] := by
  rcases h with hhead | ⟨⟨c, hc, -⟩, -⟩
  · simpa using hhead
  · cases hc

/-- What is no part of a token in front of `rest` is none in front of `after`. -/
theorem stops {p : Char → Bool} (h : StartsAlike rest after) (hspace : p ' ' = false)
    (htab : p '\t' = false) (hrest : ∀ c ∈ rest.head?, p c = false) :
    ∀ c ∈ after.head?, p c = false := by
  intro c hc
  rcases h with hhead | ⟨-, hblank⟩
  · exact hrest c (hhead ▸ hc)
  · rcases hblank c hc with rfl | rfl
    · exact hspace
    · exact htab

/-- A line break is followed by a line break only. -/
theorem line {cs : List Char} (h : StartsAlike ('\n' :: cs) after) : ∃ ds, after = '\n' :: ds := by
  rcases h with hhead | ⟨⟨c, hc, hline⟩, -⟩
  · exact List.head?_eq_some_iff.mp hhead
  · exact absurd (Option.mem_some.mp hc).symm hline

theorem append_left {front : List Char} (hrest : ∃ c ∈ rest.head?, c ≠ '\n')
    (hafter : ∀ c ∈ after.head?, c = ' ' ∨ c = '\t') :
    StartsAlike (front ++ rest) (front ++ after) := by
  cases front with
  | nil => exact .inr ⟨hrest, hafter⟩
  | cons c front => exact .inl rfl

end StartsAlike

/-! ### Scanners -/

theorem numberBody_behind (seen : Bool) (cs : List Char) {after : List Char}
    (h : StartsAlike (numberBody seen cs).2 after) :
    numberBody seen ((numberBody seen cs).1 ++ after) = ((numberBody seen cs).1, after) := by
  induction cs generalizing seen with
  | nil =>
    rw [StartsAlike.eq_nil h]
    rfl
  | cons c cs ih =>
    rw [numberBody] at h ⊢
    split at h <;> rename_i hdigit
    · rw [if_pos hdigit, List.cons_append, numberBody, if_pos hdigit, ih seen h]
    · split at h <;> rename_i hpoint
      · rw [if_neg hdigit, if_pos hpoint, List.cons_append, numberBody, if_neg hdigit,
          if_pos hpoint, ih true h]
      · have hrest : ∀ d ∈ (c :: cs).head?, (Text.isAsciiDigit d || d == '.' && !seen) = false := by
          rintro d hd
          obtain rfl := Option.mem_some.mp hd
          simpa [hdigit] using hpoint
        have hstop := h.stops (p := fun d => Text.isAsciiDigit d || d == '.' && !seen) rfl rfl hrest
        rw [if_neg hdigit, if_neg hpoint, List.nil_append]
        cases after with
        | nil => rfl
        | cons d ds =>
          obtain ⟨hd, hpointed⟩ := Bool.or_eq_false_iff.mp (hstop d rfl)
          rw [numberBody, if_neg (by simp [hd]), if_neg]
          rintro ⟨rfl, rfl⟩
          cases hpointed

theorem hexBody_behind (n : Nat) (cs : List Char) {after : List Char}
    (h : StartsAlike (hexBody n cs).2 after) :
    hexBody n ((hexBody n cs).1 ++ after) = ((hexBody n cs).1, after) := by
  induction n generalizing cs with
  | zero => rfl
  | succ n ih =>
    cases cs with
    | nil =>
      rw [StartsAlike.eq_nil h]
      rfl
    | cons c cs =>
      rw [hexBody] at h ⊢
      split at h <;> rename_i hdigit
      · rw [if_pos hdigit, List.cons_append, hexBody, if_pos hdigit, ih cs h]
      · rw [if_neg hdigit, List.nil_append]
        have hstop := h.stops (p := fun d => (hexDigit? d).isSome) rfl rfl (by simpa using hdigit)
        cases after with
        | nil => rfl
        | cons d ds => rw [hexBody, if_neg (by simp [hstop d rfl])]

/-- A string that is left open ends with its line or with the text, and so it does behind the
change. -/
theorem stringBody_behind (quote : Char) (cs : List Char) {after : List Char}
    (h : StartsAlike (stringBody quote cs).2.2 after) :
    stringBody quote ((stringBody quote cs).2.1 ++ after) =
      ((stringBody quote cs).1, (stringBody quote cs).2.1, after) := by
  fun_induction stringBody quote cs with
  | case1 =>
    rw [StartsAlike.eq_nil h]
    rfl
  | case2 cs =>
    obtain ⟨ds, rfl⟩ := h.line
    rw [List.nil_append, stringBody.eq_def]
    rfl
  | case3 =>
    rw [StartsAlike.eq_nil h]
    rfl
  | case4 d cs value span left hbody hline ih =>
    rw [hbody] at ih
    rw [List.cons_append, List.cons_append, stringBody.eq_def]
    simp only [ih h]
    rfl
  | case5 cs hline hescape =>
    rw [List.cons_append, stringBody.eq_def]
    simp only [hline, hescape, if_false, if_true, List.nil_append]
  | case6 c cs hline hescape hquote value span left hbody ih =>
    rw [hbody] at ih
    rw [List.cons_append, stringBody.eq_def]
    simp only [hline, hescape, hquote, if_false, ih h]

/-- Behind the first character of the lexeme, the scanner takes the same text with something else
behind it that starts alike for the same lexeme. -/
def RunsUpTo (scanner : List Char → Scan) (l : Lexeme) : Prop :=
  ∀ after, StartsAlike l.rest after →
    scanner (l.span.tail ++ after) = .lexeme { l with rest := after }

namespace RunsUpTo

variable {c : Char} {cs : List Char} {l : Lexeme}

theorem plain {kind : TokenKind} (h : Scan.plain kind [c] cs = .lexeme l) :
    RunsUpTo (Scan.plain kind [c]) l := by
  cases h
  exact fun _ _ => rfl

theorem name (h : scanName c cs = .lexeme l) : RunsUpTo (scanName c) l := by
  unfold scanName at h
  rw [List.span_eq_takeWhile_dropWhile] at h
  cases h
  intro after hafter
  have hbody : ∀ d ∈ cs.takeWhile isNamePart, isNamePart d = true :=
    fun _ hd => List.mem_takeWhile_imp hd
  have hstop : ∀ d ∈ (cs.dropWhile isNamePart).head?, isNamePart d = false := by
    intro d hd
    have hnot := List.head?_dropWhile_not isNamePart cs
    rw [Option.mem_def.mp hd] at hnot
    simpa using hnot
  have hspan := span_append hbody (hafter.stops (by decide) (by decide) hstop)
  unfold scanName
  rw [List.tail_cons, hspan]
  rfl

theorem number (h : scanNumber c cs = .lexeme l) : RunsUpTo (scanNumber c) l := by
  unfold scanNumber at h
  split at h
  · rename_i more
    unfold scanHex at h
    dsimp only at h
    split at h
    · cases h
    · rename_i hdigits
      cases h
      intro after hafter
      show scanHex ((hexBody 8 more).1 ++ after) = _
      unfold scanHex
      rw [hexBody_behind 8 more hafter]
      dsimp only
      rw [if_neg hdigits]
  · rename_i hhex
    cases h
    intro after hafter
    -- Neither the digits nor what now follows them make a number in hexadecimal digits of it.
    have hplain : ∀ more, c = '0' → (numberBody false cs).1 ++ after ≠ 'x' :: more := by
      intro more hc hcs
      have hcut := Spans.numberBody_append false cs
      cases hbody : (numberBody false cs).1 with
      | nil =>
        rw [hbody, List.nil_append] at hcs hcut
        have hstop := hafter.stops (p := fun d => d == 'x') rfl rfl (by
          intro d hd
          rw [beq_eq_false_iff_ne]
          rintro rfl
          obtain ⟨ds, hds⟩ := List.head?_eq_some_iff.mp hd
          exact hhex ds hc (hcut.symm.trans hds))
        rw [hcs] at hstop
        exact absurd (hstop 'x' rfl) (by decide)
      | cons d body =>
        rw [hbody, List.cons_append, List.cons.injEq] at hcs
        rw [hbody, hcs.1, List.cons_append] at hcut
        exact hhex _ hc hcut.symm
    rw [List.tail_cons]
    unfold scanNumber
    split
    · rename_i hcs
      exact absurd hcs (hplain _ rfl)
    · rw [numberBody_behind false cs hafter]
      rfl

theorem text (h : scanString c cs = .lexeme l) : RunsUpTo (scanString c) l := by
  cases h
  intro after hafter
  unfold scanString
  rw [List.tail_cons, stringBody_behind c cs hafter]

theorem operator {single : TokenKind} {pairs : List (Char × TokenKind)}
    (hspace : pairs.lookup ' ' = none) (htab : pairs.lookup '\t' = none)
    (h : scanOperator single pairs c cs = .lexeme l) : RunsUpTo (scanOperator single pairs c) l := by
  cases cs with
  | nil =>
    cases h
    intro after hafter
    rw [StartsAlike.eq_nil hafter]
    rfl
  | cons d cs =>
    unfold scanOperator at h
    dsimp only at h
    split at h
    · rename_i hpair
      cases h
      intro after _
      show scanOperator single pairs c (d :: after) = _
      rw [scanOperator, hpair]
      rfl
    · rename_i hnone
      cases h
      intro after hafter
      have hrest : ∀ e ∈ (d :: cs).head?, (pairs.lookup e).isSome = false := by
        intro e he
        obtain rfl := Option.mem_some.mp he
        rw [hnone]
        rfl
      have hstop := hafter.stops (p := fun e => (pairs.lookup e).isSome) (by rw [hspace]; rfl)
        (by rw [htab]; rfl) hrest
      exact scanOperator_single c fun e he => Option.not_isSome_iff_eq_none.mp
        (Bool.eq_false_iff.mp (hstop e he))

end RunsUpTo

/-- A token is scanned again where the text behind it starts alike. -/
theorem scan_runsUpTo {c : Char} {cs : List Char} {l : Lexeme} (h : scan c cs = .lexeme l) :
    RunsUpTo (scan c) l := by
  by_cases hname : isNameStart c = true
  · have hscan : scan c = scanName c := funext fun _ => if_pos hname
    rw [hscan] at h ⊢
    exact .name h
  by_cases hdigit : Text.isAsciiDigit c = true
  · have hscan : scan c = scanNumber c := funext fun _ =>
      (if_neg hname).trans (if_pos hdigit)
    rw [hscan] at h ⊢
    exact .number h
  unfold scan at h ⊢
  rw [if_neg hname, if_neg hdigit] at h
  split at h
  all_goals first
    | exact .plain h
    | exact .text h
    | exact .operator rfl rfl h
    | cases h

theorem scan_behind {c : Char} {cs body after : List Char} {l : Lexeme}
    (h : scan c cs = .lexeme l) (hspans : Spans c cs l body) (hafter : StartsAlike l.rest after) :
    scan c (body ++ after) = .lexeme { l with rest := after } := by
  have hagain := scan_runsUpTo h after hafter
  have hbody : l.span.tail = body := congrArg List.tail hspans.span
  rwa [hbody] at hagain

/-! ### Blanks -/

namespace Blank

variable {gap ahead : List Char}

/-- Blanks look at no more than one character of what follows them. -/
theorem congr_head (h : Blank gap ahead) (other : List Char) (hhead : other.head? = ahead.head?) :
    Blank gap other := by
  have hjoin : ∀ gap : List Char, (gap ++ other).head? = (gap ++ ahead).head? := by
    intro gap
    rw [List.head?_append, List.head?_append, hhead]
  induction h with
  | nil => exact .nil
  | space hc _ ih => exact .space hc (ih hhead hjoin)
  | carriage hline _ ih => exact .carriage (hjoin _ ▸ hline) (ih hhead hjoin)
  | comment hc hbody hend _ ih => exact .comment hc hbody (hjoin _ ▸ hend) (ih hhead hjoin)

/-- A comment and the carriage return of a line ending reach up to a line break, so that there are
only spaces and tabs in front of what stands in the same line. -/
theorem spaces (h : Blank gap ahead) (hahead : ∃ c ∈ ahead.head?, c ≠ '\n') :
    ∀ d ∈ gap, d = ' ' ∨ d = '\t' := by
  obtain ⟨c, hc, hline⟩ := hahead
  -- What follows the last of such blanks is no line break.
  have hnext : ∀ {gap : List Char}, Blank gap ahead → ∀ d ∈ (gap ++ ahead).head?, d ≠ '\n' := by
    rintro gap hgap d hd rfl
    cases gap with
    | nil => exact hline (Option.mem_unique hc hd)
    | cons e gap =>
      obtain rfl := Option.mem_some.mp hd
      exact hgap.no_break List.mem_cons_self
  induction h with
  | nil => simp
  | space hspace _ ih => exact List.forall_mem_cons.mpr ⟨hspace, ih hc hnext⟩
  | carriage hend h _ => exact absurd rfl (hnext h _ hend)
  | @comment _ body gap ahead _ _ hend h _ =>
    have hhead : ∃ d, d ∈ (gap ++ ahead).head? := by
      rw [List.head?_append]
      cases gap.head? with
      | none => exact ⟨c, hc⟩
      | some d => exact ⟨d, rfl⟩
    obtain ⟨d, hd⟩ := hhead
    exact absurd (hend d hd) (hnext h d hd)

theorem of_spaces (h : ∀ d ∈ gap, d = ' ' ∨ d = '\t') (ahead : List Char) : Blank gap ahead := by
  induction gap with
  | nil => exact .nil
  | cons c gap ih =>
    obtain ⟨hc, hgap⟩ := List.forall_mem_cons.mp h
    exact .space hc (ih hgap)

/-- The lexer skips such blanks, and no more than them. -/
theorem blanks_eq (h : Blank gap ahead) (hahead : ∀ c ∈ ahead.head?, solid c = true) :
    blanks (gap ++ ahead) = (gap, ahead) := by
  induction h with
  | @nil ahead =>
    cases ahead with
    | nil => rfl
    | cons c ahead => exact blanks_solid (hahead c rfl) ahead
  | space hc _ ih =>
    rw [List.cons_append, blanks, if_pos (hc.imp_right .inl), ih hahead]
  | carriage hline _ ih =>
    rw [List.cons_append, blanks, if_pos (.inr (.inr ⟨rfl, hline⟩)), ih hahead]
  | @comment c body gap ahead hc hbody hend h _ =>
    obtain rfl : gap = [] := by
      cases gap with
      | nil => rfl
      | cons d gap =>
        obtain rfl := hend d rfl
        exact absurd List.mem_cons_self h.no_break
    have hline : ∀ d ∈ c :: body, (d ≠ '\n' : Bool) = true := by
      refine List.forall_mem_cons.mpr ⟨?_, fun d hd => ?_⟩
      · rcases hc with rfl | rfl <;> rfl
      · rw [decide_eq_true_eq]
        rintro rfl
        exact hbody hd
    have hstop : ∀ d ∈ ahead.head?, decide (d ≠ '\n') = false := by
      intro d hd
      simp [hend d hd]
    have hspan := span_append hline hstop
    rw [List.append_nil, List.cons_append, blanks, if_neg, if_pos hc]
    · exact hspan
    · rcases hc with rfl | rfl <;> simp

end Blank

/-! ### Runs -/

/-- What a token starts with is no blank. -/
theorem solid_of_lexeme {c : Char} {cs : List Char} {l : Lexeme} (h : scan c cs = .lexeme l) :
    solid c = true := by
  have hfault : ∀ d, (∃ fault, scan d cs = .fault fault [d]) → c ≠ d := by
    rintro d ⟨fault, hd⟩ rfl
    rw [h] at hd
    cases hd
  simp only [solid, Bool.and_eq_true, bne_iff_ne]
  exact ⟨⟨⟨⟨hfault _ ⟨_, rfl⟩, hfault _ ⟨_, rfl⟩⟩, hfault _ ⟨_, rfl⟩⟩, hfault _ ⟨_, rfl⟩⟩,
    hfault _ ⟨_, rfl⟩⟩

/-- A run without a failure is what the lexer does. -/
theorem LexRun.lexFrom_eq {source : Option String} {front cs : List Char} {line : Nat}
    {lexed : Lexed} (h : LexRun source front line cs lexed) (hf : lexed.failure = none) {n : Nat}
    (hn : cs.length ≤ n) : lexFrom source n (byteSize front) line cs = lexed := by
  induction h generalizing n with
  | @finish front gap line hgap =>
    cases n with
    | zero =>
      obtain rfl := List.length_eq_zero_iff.mp (Nat.le_zero.mp hn)
      rw [List.append_nil]
      rfl
    | succ n =>
      have hblanks := hgap.blanks_eq (by simp)
      rw [List.append_nil] at hblanks
      rw [lexFrom, hblanks, byteSize_append]
  | fault => cases hf
  | @token front gap cs line c l next hgap hscan _ ih =>
    obtain ⟨body, hspans⟩ := scan_spans hscan
    have hsolid := solid_of_lexeme hscan
    obtain ⟨n, rfl⟩ : ∃ m, n = m + 1 := ⟨n - 1, by
      simp only [List.length_append, List.length_cons] at hn
      omega⟩
    have hrest : l.rest.length ≤ n := by
      have hmore := congrArg List.length hspans.rest
      simp only [List.length_append, List.length_cons] at hn hmore
      omega
    have hnext := ih hf hrest
    rw [byteSize_append (front ++ gap), byteSize_append] at hnext
    rw [lexFrom, hgap.blanks_eq (by simpa using hsolid)]
    dsimp only
    rw [hscan]
    dsimp only
    rw [hnext, byteSize_append]

/-- The tokens of a text for which there is a run. -/
theorem tokenize_eq_of_run {cs : List Char} {name : Option String} {lexed : Lexed}
    (h : LexRun (name.map fun n => (Path.fileName? n).getD n) [] 1 cs lexed)
    (hf : lexed.failure = none) : tokenize (String.ofList cs) name = lexed := by
  rw [tokenize, String.toList_ofList]
  exact h.lexFrom_eq hf (Nat.le_refl _)

end ScriptEngine
