import ScriptEngine.Proofs.ProgramText

/-! # Lexing text behind a line break

A token ends at the latest with its line, and so does a comment. What stands behind a line break is
therefore lexed as if it stood alone, unless the line ends in a backslash, which would take the line
break into a string. -/

namespace ScriptEngine

open Lexer

/-! ### Scanning up to a line break -/

theorem takeWhile_break {p : Char → Bool} (hp : p '\n' = false) (cs rest : List Char) :
    (cs ++ '\n' :: rest).takeWhile p = cs.takeWhile p := by
  induction cs with
  | nil => rw [List.nil_append, List.takeWhile_cons, hp]; rfl
  | cons c cs ih => rw [List.cons_append, List.takeWhile_cons, List.takeWhile_cons, ih]

theorem dropWhile_break {p : Char → Bool} (hp : p '\n' = false) (cs rest : List Char) :
    (cs ++ '\n' :: rest).dropWhile p = cs.dropWhile p ++ '\n' :: rest := by
  induction cs with
  | nil => rw [List.nil_append, List.dropWhile_cons, hp]; rfl
  | cons c cs ih =>
    rw [List.cons_append, List.dropWhile_cons, List.dropWhile_cons, ih]
    split
    · rfl
    · rfl

theorem numberBody_break (seen : Bool) (cs rest : List Char) :
    numberBody seen (cs ++ '\n' :: rest) =
      ((numberBody seen cs).1, (numberBody seen cs).2 ++ '\n' :: rest) := by
  induction cs generalizing seen with
  | nil => rfl
  | cons c cs ih =>
    rw [List.cons_append, numberBody, numberBody, ih, ih]
    split
    · rfl
    · split
      · rfl
      · rfl

theorem numberBody_suffix (seen : Bool) (cs : List Char) : (numberBody seen cs).2 <:+ cs := by
  induction cs generalizing seen with
  | nil => exact List.suffix_refl _
  | cons c cs ih =>
    rw [numberBody]
    split
    · exact (ih seen).trans (List.suffix_cons c cs)
    · split
      · exact (ih true).trans (List.suffix_cons c cs)
      · exact List.suffix_refl _

theorem hexBody_break (n : Nat) (cs rest : List Char) :
    hexBody n (cs ++ '\n' :: rest) = ((hexBody n cs).1, (hexBody n cs).2 ++ '\n' :: rest) := by
  induction n generalizing cs with
  | zero => rfl
  | succ n ih =>
    cases cs with
    | nil => rfl
    | cons c cs =>
      rw [List.cons_append, hexBody, hexBody, ih]
      split
      · rfl
      · rfl

theorem hexBody_suffix (n : Nat) (cs : List Char) : (hexBody n cs).2 <:+ cs := by
  induction n generalizing cs with
  | zero => exact List.suffix_refl _
  | succ n ih =>
    cases cs with
    | nil => exact List.suffix_refl _
    | cons c cs =>
      rw [hexBody]
      split
      · exact (ih cs).trans (List.suffix_cons c cs)
      · exact List.suffix_refl _

/-- The text does not end in a backslash. -/
def Unescaped (cs : List Char) : Prop :=
  cs.getLast? ≠ some '\\'

theorem Unescaped.suffix {cs ds : List Char} (h : Unescaped cs) (hds : ds <:+ cs) :
    Unescaped ds := by
  obtain ⟨front, rfl⟩ := hds
  intro hlast
  refine h ?_
  rw [List.getLast?_append, hlast]
  rfl

theorem Unescaped.tail {c : Char} {cs : List Char} (h : Unescaped (c :: cs)) : Unescaped cs :=
  h.suffix (List.suffix_cons c cs)

theorem stringBody_break (quote : Char) (cs rest : List Char) (hcs : Unescaped cs) :
    stringBody quote (cs ++ '\n' :: rest) = ((stringBody quote cs).1, (stringBody quote cs).2.1,
      (stringBody quote cs).2.2 ++ '\n' :: rest) := by
  fun_induction stringBody quote cs with
  | case1 => rw [List.nil_append, stringBody.eq_def]; rfl
  | case2 cs => rw [List.cons_append, stringBody.eq_def]; rfl
  | case3 => exact absurd rfl hcs
  | case4 d cs value span left hbody hline ih =>
    rw [List.cons_append, List.cons_append, stringBody.eq_def]
    simp only [ih hcs.tail.tail, hbody]
    rfl
  | case5 cs hline hescape =>
    rw [List.cons_append, stringBody.eq_def]
    simp only [hline, hescape, if_false, if_true]
  | case6 c cs hline hescape hquote value span left hbody ih =>
    rw [List.cons_append, stringBody.eq_def]
    simp only [hline, hescape, hquote, if_false, ih hcs.tail, hbody]

theorem stringBody_suffix (quote : Char) (cs : List Char) : (stringBody quote cs).2.2 <:+ cs := by
  fun_induction stringBody quote cs with
  | case1 => exact List.suffix_refl _
  | case2 cs => exact List.suffix_refl _
  | case3 => exact List.nil_suffix
  | case4 d cs value span left hbody hline ih =>
    rw [hbody] at ih
    exact ih.trans ((List.suffix_cons d cs).trans (List.suffix_cons _ _))
  | case5 cs hline hescape => exact List.suffix_cons quote cs
  | case6 c cs hline hescape hquote value span left hbody ih =>
    rw [hbody] at ih
    exact ih.trans (List.suffix_cons c cs)

/-- The lexeme with a line break and more behind it. -/
def Lexer.Lexeme.before (l : Lexeme) (rest : List Char) : Lexeme :=
  { l with rest := l.rest ++ '\n' :: rest }

/-- What a scanner takes from the text is a token that ends with its line. -/
structure EndsInLine (scanner : List Char → Scan) (cs : List Char) (l : Lexeme) : Prop where
  kind : l.kind ≠ .endOfCode
  suffix : l.rest <:+ cs
  joined : Unescaped cs → ∀ rest, scanner (cs ++ '\n' :: rest) = .lexeme (l.before rest)

namespace EndsInLine

variable {c : Char} {cs : List Char} {l : Lexeme}

theorem plain {kind : TokenKind} (hkind : kind ≠ .endOfCode)
    (h : Scan.plain kind [c] cs = .lexeme l) : EndsInLine (Scan.plain kind [c]) cs l := by
  cases h
  exact ⟨hkind, List.suffix_refl _, fun _ _ => rfl⟩

theorem name (h : scanName c cs = .lexeme l) : EndsInLine (scanName c) cs l := by
  have hline : isNamePart '\n' = false := by decide
  unfold scanName at h
  rw [List.span_eq_takeWhile_dropWhile] at h
  cases h
  refine ⟨?_, List.dropWhile_suffix _, fun _ rest => ?_⟩
  · dsimp only
    split <;> nofun
  · unfold scanName
    rw [List.span_eq_takeWhile_dropWhile, takeWhile_break hline, dropWhile_break hline]
    rfl

theorem hex (h : scanHex cs = .lexeme l) : EndsInLine scanHex cs l := by
  unfold scanHex at h
  dsimp only at h
  split at h
  · cases h
  · rename_i hdigits
    cases h
    refine ⟨nofun, hexBody_suffix 8 cs, fun _ rest => ?_⟩
    unfold scanHex
    rw [hexBody_break]
    dsimp only
    rw [if_neg hdigits]
    rfl

theorem number (h : scanNumber c cs = .lexeme l) : EndsInLine (scanNumber c) cs l := by
  unfold scanNumber at h
  split at h
  · rename_i more
    obtain ⟨hkind, hsuffix, hjoined⟩ := hex h
    exact ⟨hkind, hsuffix.trans (List.suffix_cons 'x' more), fun hcs rest => hjoined hcs.tail rest⟩
  · rename_i hhex
    have hhex' : ∀ rest more, c = '0' → cs ++ '\n' :: rest ≠ 'x' :: more := by
      intro rest more hc hcs
      cases cs with
      | nil => cases hcs
      | cons d cs =>
        rw [List.cons_append, List.cons.injEq] at hcs
        exact hhex cs hc (hcs.1 ▸ rfl)
    cases h
    refine ⟨?_, numberBody_suffix false cs, fun _ rest => ?_⟩
    · dsimp only
      split <;> nofun
    · unfold scanNumber
      split
      · rename_i hcs
        exact absurd hcs (hhex' rest _ rfl)
      · rw [numberBody_break]
        rfl

theorem text (h : scanString c cs = .lexeme l) : EndsInLine (scanString c) cs l := by
  cases h
  refine ⟨nofun, stringBody_suffix c cs, fun hcs rest => ?_⟩
  unfold scanString
  rw [stringBody_break c cs rest hcs]
  rfl

theorem lookup_spec {pairs : List (Char × TokenKind)}
    (hpairs : pairs.all (fun p => p.1 != '\n' && p.2 != .endOfCode) = true) (d : Char)
    (kind : TokenKind) (h : pairs.lookup d = some kind) : d ≠ '\n' ∧ kind ≠ .endOfCode := by
  induction pairs with
  | nil => cases h
  | cons p pairs ih =>
    rw [List.all_cons, Bool.and_eq_true, Bool.and_eq_true, bne_iff_ne, bne_iff_ne] at hpairs
    rw [List.lookup_cons] at h
    split at h
    · rename_i heq
      cases h
      exact ⟨beq_iff_eq.mp heq ▸ hpairs.1.1, hpairs.1.2⟩
    · exact ih hpairs.2 h

theorem operator {single : TokenKind} {pairs : List (Char × TokenKind)}
    (hsingle : single ≠ .endOfCode)
    (hpairs : pairs.all (fun p => p.1 != '\n' && p.2 != .endOfCode) = true)
    (h : scanOperator single pairs c cs = .lexeme l) :
    EndsInLine (scanOperator single pairs c) cs l := by
  have hlookup := lookup_spec hpairs
  cases cs with
  | nil =>
    cases h
    refine ⟨hsingle, List.suffix_refl _, fun _ rest => ?_⟩
    have hnone : pairs.lookup '\n' = none := by
      cases hpair : pairs.lookup '\n' with
      | none => rfl
      | some kind => exact absurd rfl (hlookup _ _ hpair).1
    rw [List.nil_append, scanOperator, hnone]
    rfl
  | cons d cs =>
    unfold scanOperator at h
    dsimp only at h
    split at h
    · rename_i hpair
      cases h
      refine ⟨(hlookup _ _ hpair).2, List.suffix_cons d cs, fun _ rest => ?_⟩
      rw [List.cons_append, scanOperator, hpair]
      rfl
    · rename_i hnone
      cases h
      refine ⟨hsingle, List.suffix_refl _, fun _ rest => ?_⟩
      rw [List.cons_append, scanOperator, hnone]
      rfl

end EndsInLine

/-- Every token ends with its line. -/
theorem scan_endsInLine {c : Char} {cs : List Char} {l : Lexeme} (h : scan c cs = .lexeme l) :
    EndsInLine (scan c) cs l := by
  by_cases hname : isNameStart c = true
  · have hscan : scan c = scanName c := funext fun _ => if_pos hname
    rw [hscan] at h ⊢
    exact .name h
  by_cases hdigit : Text.isAsciiDigit c = true
  · have hscan : scan c = scanNumber c := funext fun _ =>
      (if_neg hname).trans (if_pos hdigit)
    rw [hscan] at h ⊢
    exact .number h
  unfold scan at h ⊢
  rw [if_neg hname, if_neg hdigit] at h
  split at h
  all_goals first
    | exact .plain (by decide) h
    | exact .text h
    | exact .operator (by decide) rfl h
    | cases h

/-! ### Between tokens -/

/-- What is left behind blanks is nothing, or starts with what starts a token or with a carriage
return inside a line. -/
theorem blanks_front (cs : List Char) : (blanks cs).2 = [] ∨ ∃ c more, (blanks cs).2 = c :: more ∧
    (solid c = true ∨ c = '\r' ∧ more.head? ≠ some '\n') := by
  induction cs with
  | nil => exact .inl rfl
  | cons c cs ih =>
    rw [blanks]
    split
    · exact ih
    · rename_i hblank
      split
      · rw [restOfLine, List.span_eq_takeWhile_dropWhile]
        cases hrest : (c :: cs).dropWhile (fun c => decide (c ≠ '\n')) with
        | nil => exact .inl rfl
        | cons d more =>
          have hhead := List.head?_dropWhile_not (fun c => decide (c ≠ '\n')) (c :: cs)
          rw [hrest] at hhead
          have hline : d = '\n' := by simpa using hhead
          exact .inr ⟨d, more, rfl, .inl (by rw [hline]; decide)⟩
      · rename_i hcomment
        refine .inr ⟨c, cs, rfl, ?_⟩
        simp only [not_or, not_and] at hblank hcomment
        by_cases hreturn : c = '\r'
        · exact .inr ⟨hreturn, hblank.2.2 hreturn⟩
        · refine .inl ?_
          simp [solid, hblank.1, hblank.2.1, hreturn, hcomment.1, hcomment.2]

theorem blanks_blanks (cs : List Char) : blanks (blanks cs).2 = ([], (blanks cs).2) := by
  rcases blanks_front cs with hnil | ⟨c, more, hcons, hsolid | ⟨rfl, hreturn⟩⟩
  · rw [hnil]
    rfl
  · rw [hcons, blanks_solid hsolid]
  · rw [hcons, blanks, if_neg (by simp [hreturn]), if_neg (by decide)]

theorem blanks_suffix (cs : List Char) : (blanks cs).2 <:+ cs := by
  induction cs with
  | nil => exact List.suffix_refl _
  | cons c cs ih =>
    rw [blanks]
    split
    · exact ih.trans (List.suffix_cons c cs)
    · split
      · rw [restOfLine, List.span_eq_takeWhile_dropWhile]
        exact List.dropWhile_suffix _
      · exact List.suffix_refl _

/-- A line break ends a comment. Only a carriage return before it would be taken for a part of the
line ending. -/
theorem blanks_break (cs rest : List Char) (h : (blanks cs).2 ≠ ['\r']) :
    (blanks (cs ++ '\n' :: rest)).2 = (blanks cs).2 ++ '\n' :: rest := by
  induction cs with
  | nil => rw [List.nil_append, blanks_solid (by decide)]; rfl
  | cons c cs ih =>
    have hhead : c = '\r' → (cs ++ '\n' :: rest).head? = cs.head? := by
      rintro rfl
      cases cs with
      | nil => exact absurd rfl h
      | cons d cs => rfl
    have hblank : (c = ' ' ∨ c = '\t' ∨ c = '\r' ∧ (cs ++ '\n' :: rest).head? = some '\n') ↔
        (c = ' ' ∨ c = '\t' ∨ c = '\r' ∧ cs.head? = some '\n') := by
      refine or_congr_right (or_congr_right (and_congr_right fun hreturn => ?_))
      rw [hhead hreturn]
    rw [blanks] at h
    rw [List.cons_append, blanks, blanks]
    by_cases hskip : c = ' ' ∨ c = '\t' ∨ c = '\r' ∧ cs.head? = some '\n'
    · rw [if_pos hskip] at h
      rw [if_pos (hblank.mpr hskip), if_pos hskip]
      exact ih h
    · rw [if_neg (fun hjoined => hskip (hblank.mp hjoined)), if_neg hskip]
      split
      · rw [restOfLine, restOfLine, List.span_eq_takeWhile_dropWhile,
          List.span_eq_takeWhile_dropWhile]
        exact dropWhile_break (p := fun c => decide (c ≠ '\n')) (by decide) (c :: cs) rest
      · rfl

theorem Lexes.skip {cs : List Char} {ts : List Token} (h : Lexes (blanks cs).2 ts) :
    Lexes cs ts := by
  intro source n offset line hn
  cases n with
  | zero =>
    cases List.length_eq_zero_iff.mp (Nat.le_zero.mp hn)
    exact h source 0 offset line hn
  | succ n =>
    have hskip : lexFrom source (n + 1) offset line cs =
        lexFrom source (n + 1) (offset + byteSize (blanks cs).1) line (blanks cs).2 := by
      rw [lexFrom, lexFrom, blanks_blanks]
      rfl
    rw [hskip]
    exact h source (n + 1) _ line (Nat.le_trans (blanks_suffix cs).length_le hn)

theorem scan_return (cs : List Char) : scan '\r' cs = .fault (.illegalCharacter '\r') ['\r'] := by
  rfl

/-- What is scanned behind blanks starts a token: a carriage return inside a line does not. -/
theorem solid_of_scan {cs more : List Char} {c : Char} {l : Lexeme}
    (hahead : (blanks cs).2 = c :: more) (hscan : scan c more = .lexeme l) : solid c = true := by
  rcases blanks_front cs with hnil | ⟨d, rest, hcons, hsolid⟩
  · rw [hnil] at hahead
    cases hahead
  · cases hahead.symm.trans hcons
    rcases hsolid with hsolid | ⟨rfl, -⟩
    · exact hsolid
    · rw [scan_return] at hscan
      cases hscan

theorem Lexes.line {cs : List Char} {ts : List Token} (h : Lexes cs ts) :
    Lexes ('\n' :: cs) (TokenKind.newline.token :: ts) :=
  .token (l := ⟨.newline, "\n", ['\n'], cs⟩) (by decide) rfl (Nat.le_refl _) h

/-- Text that is lexed without a failure is lexed into the same tokens wherever it stands, also with
a line break and more behind it. -/
theorem lexes_of_success {source : Option String} {n offset line : Nat} {cs : List Char}
    (hn : cs.length ≤ n) (h : (lexFrom source n offset line cs).failure = none) :
    ∃ ts, Lexes cs ts ∧ Inside ts ∧ (Unescaped cs → ∀ rest us, Lexes rest us →
      Lexes (cs ++ '\n' :: rest) (ts ++ TokenKind.newline.token :: us)) := by
  induction n generalizing offset line cs with
  | zero =>
    cases List.length_eq_zero_iff.mp (Nat.le_zero.mp hn)
    exact ⟨[], .nil, List.forall_mem_nil _, fun _ rest us hrest => hrest.line⟩
  | succ n ih =>
    rw [lexFrom] at h
    dsimp only at h
    split at h
    · rename_i hahead
      refine ⟨[], .skip (hahead ▸ .nil), List.forall_mem_nil _, fun _ rest us hrest => .skip ?_⟩
      rw [blanks_break cs rest (by rw [hahead]; exact (List.cons_ne_nil _ _).symm), hahead]
      exact hrest.line
    · rename_i c more hahead
      split at h
      · cases h
      · rename_i l hscan
        have hends := scan_endsInLine hscan
        have hsuffix : c :: more <:+ cs := hahead ▸ blanks_suffix cs
        have hsolid := solid_of_scan hahead hscan
        have hlength := hends.suffix.length_le
        have hle := hsuffix.length_le
        rw [List.length_cons] at hle
        obtain ⟨ts, hts, hinside, hjoin⟩ := ih (by omega) h
        refine ⟨⟨l.kind, l.text, .none⟩ :: ts, .skip (hahead ▸ .token hsolid hscan hlength hts),
          List.forall_mem_cons.mpr ⟨hends.kind, hinside⟩, fun hcs rest us hrest => .skip ?_⟩
        -- The one thing that the line break could still be a part of.
        have hreturn : (blanks cs).2 ≠ ['\r'] := by
          rw [hahead]
          rintro heq
          cases heq
          cases hsolid
        have hmore : Unescaped more := (hcs.suffix hsuffix).tail
        rw [blanks_break cs rest hreturn, hahead, List.cons_append]
        refine .token (l := l.before rest) hsolid (hends.joined hmore rest) ?_
          (hjoin (hmore.suffix hends.suffix) rest us hrest)
        rw [Lexeme.before, List.length_append, List.length_append]
        exact Nat.add_le_add_right hlength _

end ScriptEngine
