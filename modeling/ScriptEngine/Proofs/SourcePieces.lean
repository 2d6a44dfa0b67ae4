import Mathlib.Data.List.TakeDrop
import ScriptEngine.Proofs.CanonicalShape
import ScriptEngine.Proofs.DecimalText
import ScriptEngine.Proofs.ParserPlaces

/-! # Source text in pieces

Canonical text is put together from tokens and blanks. Where no token runs into the next one, the
text is lexed into the tokens that it was put together from; two pairs run together: a whole number
and the point behind it, and two signs. -/

namespace ScriptEngine

open Canonical Lexer

/-! ### Lexing without places -/

/-- The text is lexed into these tokens, whatever place it stands at. -/
def Lexes (cs : List Char) (ts : List Token) : Prop :=
  ∀ (source : Option String) (n offset line : Nat), cs.length ≤ n →
    (lexFrom source n offset line cs).failure = none ∧
      (lexFrom source n offset line cs).tokens.map Token.bare =
        ts ++ [TokenKind.endOfCode.token]

/-- A token can start with such a character. -/
def solid (c : Char) : Bool :=
  c != ' ' && c != '\t' && c != '\r' && c != '#' && c != '@'

theorem blanks_solid {c : Char} (h : solid c = true) (cs : List Char) :
    blanks (c :: cs) = ([], c :: cs) := by
  simp only [solid, Bool.and_eq_true, bne_iff_ne] at h
  obtain ⟨⟨⟨⟨hspace, htab⟩, hreturn⟩, hhash⟩, hat⟩ := h
  rw [blanks, if_neg (by simp [hspace, htab, hreturn]), if_neg (by simp [hhash, hat])]

namespace Lexes

theorem nil : Lexes [] [] := by
  intro source n offset line hn
  cases n with
  | zero => exact ⟨rfl, rfl⟩
  | succ n => exact ⟨rfl, rfl⟩

theorem blank {cs : List Char} {ts : List Token} (h : Lexes cs ts) : Lexes (' ' :: cs) ts := by
  intro source n offset line hn
  obtain ⟨n, rfl⟩ : ∃ l, n = l + 1 := ⟨n - 1, by
    rw [List.length_cons] at hn
    omega⟩
  have hskip : lexFrom source (n + 1) offset line (' ' :: cs) =
      lexFrom source (n + 1) (offset + 1) line cs := by
    have hblanks : blanks (' ' :: cs) = (' ' :: (blanks cs).1, (blanks cs).2) := by
      rw [blanks, if_pos (.inl rfl)]
    have hsize : ∀ ds : List Char, offset + byteSize (' ' :: ds) = offset + 1 + byteSize ds := by
      intro ds
      rw [byteSize, show Char.utf8Size ' ' = 1 from rfl]
      omega
    rw [lexFrom, lexFrom, hblanks]
    dsimp only
    rw [hsize]
  rw [hskip]
  refine h source (n + 1) (offset + 1) line ?_
  rw [List.length_cons] at hn
  omega

theorem token {c : Char} {cs : List Char} {ts : List Token} {l : Lexeme} (hc : solid c = true)
    (hscan : scan c cs = .lexeme l) (hlength : l.rest.length ≤ cs.length) (h : Lexes l.rest ts) :
    Lexes (c :: cs) (⟨l.kind, l.text, .none⟩ :: ts) := by
  intro source n offset line hn
  obtain ⟨n, rfl⟩ : ∃ m, n = m + 1 := ⟨n - 1, by
    rw [List.length_cons] at hn
    omega⟩
  rw [List.length_cons] at hn
  have hnext := h source n (offset + byteSize [] + byteSize l.span)
    (if c = '\n' then line + 1 else line) (by omega)
  rw [lexFrom, blanks_solid hc]
  dsimp only
  rw [hscan]
  dsimp only
  refine ⟨hnext.1, ?_⟩
  rw [List.map_cons, hnext.2]
  rfl

end Lexes

/-! ### Names -/

/-- A text that is lexed as an identifier. -/
def IsName (name : String) : Prop :=
  ∃ c cs, name.toList = c :: cs ∧ isNameStart c = true ∧ (∀ d ∈ cs, isNamePart d = true) ∧
    Keyword.ofWord? name = none

theorem span_append {p : Char → Bool} {cs rest : List Char} (hcs : ∀ c ∈ cs, p c = true)
    (hrest : ∀ c ∈ rest.head?, p c = false) : (cs ++ rest).span p = (cs, rest) := by
  rw [List.span_eq_takeWhile_dropWhile]
  have htake : rest.takeWhile p = [] := by
    cases rest with
    | nil => rfl
    | cons c rest => rw [List.takeWhile_cons, hrest c rfl]; rfl
  have hdrop : rest.dropWhile p = rest := by
    cases rest with
    | nil => rfl
    | cons c rest => rw [List.dropWhile_cons, hrest c rfl]; rfl
  rw [List.takeWhile_append_of_pos hcs, List.dropWhile_append_of_pos hcs, htake, hdrop,
    List.append_nil]

theorem scan_word {c : Char} {cs rest : List Char} (hc : isNameStart c = true)
    (hcs : ∀ d ∈ cs, isNamePart d = true) (hrest : ∀ d ∈ rest.head?, isNamePart d = false) :
    scan c (cs ++ rest) = .plain (match Keyword.ofWord? (String.ofList (c :: cs)) with
      | some k => .keyword k
      | none => .identifier) (c :: cs) rest := by
  have hspan := span_append hcs hrest
  unfold scan scanName
  rw [if_pos hc]
  exact hspan ▸ rfl

theorem solid_of_nameStart {c : Char} (h : isNameStart c = true) : solid c = true := by
  have hne : ∀ d, isNameStart d = false → c ≠ d := by
    rintro d hd rfl
    rw [h] at hd
    cases hd
  simp only [solid, Bool.and_eq_true, bne_iff_ne]
  exact ⟨⟨⟨⟨hne _ (by decide), hne _ (by decide)⟩, hne _ (by decide)⟩, hne _ (by decide)⟩,
    hne _ (by decide)⟩

/-- Keywords are spelled like names. -/
theorem Keyword.word_facts (k : Keyword) :
    ∃ c cs, k.word.toList = c :: cs ∧ isNameStart c = true ∧ (∀ d ∈ cs, isNamePart d = true) ∧
      Keyword.ofWord? k.word = some k := by
  cases k <;> exact ⟨_, _, rfl, rfl, List.all_eq_true.mp rfl, rfl⟩

/-! ### Numbers -/

theorem isAsciiDigit_iff (c : Char) : Text.isAsciiDigit c = c.isDigit := by
  rfl

/-- Digits with nothing behind them that goes on. -/
theorem numberBody_digits {seen : Bool} {ds rest : List Char} (hds : ∀ c ∈ ds, c.isDigit = true)
    (hrest : ∀ c ∈ rest.head?, c.isDigit = false ∧ (c = '.' → seen = true)) :
    numberBody seen (ds ++ rest) = (ds, rest) := by
  induction ds with
  | nil =>
    cases rest with
    | nil => rfl
    | cons c rest =>
      obtain ⟨hdigit, hpoint⟩ := hrest c rfl
      rw [List.nil_append, numberBody, isAsciiDigit_iff, hdigit, if_neg Bool.false_ne_true, if_neg]
      rintro ⟨rfl, hseen⟩
      rw [hpoint rfl] at hseen
      cases hseen
  | cons d ds ih =>
    rw [List.cons_append, numberBody, isAsciiDigit_iff, hds d List.mem_cons_self, if_pos rfl,
      ih fun c hc => hds c (List.mem_cons_of_mem d hc)]

theorem numberBody_pointed {front rest : List Char} (back : List Char)
    (hfront : ∀ c ∈ front, c.isDigit = true) (hback : ∀ c ∈ back, c.isDigit = true)
    (hrest : ∀ c ∈ rest.head?, c.isDigit = false) :
    numberBody false (front ++ '.' :: (back ++ rest)) = (front ++ '.' :: back, rest) := by
  induction front with
  | nil =>
    have hend : ∀ c ∈ rest.head?, c.isDigit = false ∧ (c = '.' → true = true) :=
      fun c hc => ⟨hrest c hc, fun _ => rfl⟩
    have hbody := numberBody_digits hback hend
    rw [List.nil_append, numberBody, if_neg (by decide), if_pos ⟨rfl, rfl⟩, hbody]
    rfl
  | cons d front ih =>
    rw [List.cons_append, numberBody, isAsciiDigit_iff, hfront d List.mem_cons_self, if_pos rfl,
      ih fun c hc => hfront c (List.mem_cons_of_mem d hc)]
    rfl

theorem not_nameStart_of_isDigit {c : Char} (h : c.isDigit = true) : isNameStart c = false := by
  rw [Char.isDigit, Bool.and_eq_true, decide_eq_true_eq, decide_eq_true_eq] at h
  have hbelow : ∀ d : Char, '9'.val < d.val → ¬ d ≤ c := fun d hd hle =>
    absurd (UInt32.lt_of_lt_of_le hd (UInt32.le_trans hle h.2)) (UInt32.lt_irrefl _)
  have hsmall : c.toNat < 128 := Nat.lt_of_le_of_lt (UInt32.le_iff_toNat_le.mp h.2) (by decide)
  have hunderscore : (c == '_') = false := by
    refine beq_false_of_ne ?_
    rintro rfl
    exact absurd h.2 (by decide)
  rw [isNameStart, Text.isLetter, if_pos hsmall, Text.isAsciiLetter,
    decide_eq_false (hbelow 'a' (by decide)), decide_eq_false (hbelow 'A' (by decide)), hunderscore]
  rfl

theorem solid_of_isDigit {c : Char} (h : c.isDigit = true) : solid c = true := by
  have hne : ∀ d : Char, d.isDigit = false → c ≠ d := by
    rintro d hd rfl
    rw [h] at hd
    cases hd
  simp only [solid, Bool.and_eq_true, bne_iff_ne]
  exact ⟨⟨⟨⟨hne _ (by decide), hne _ (by decide)⟩, hne _ (by decide)⟩, hne _ (by decide)⟩,
    hne _ (by decide)⟩

theorem scan_number {c : Char} {cs body rest : List Char} (hc : c.isDigit = true)
    (hhex : cs.head? ≠ some 'x') (hbody : numberBody false cs = (body, rest)) :
    scan c cs = .plain (if body.contains '.' then .float else .int) (c :: body) rest := by
  unfold scan
  rw [not_nameStart_of_isDigit hc, if_neg Bool.false_ne_true, isAsciiDigit_iff, hc, if_pos rfl]
  unfold scanNumber
  split
  · exact absurd rfl hhex
  · rw [hbody]


/-! ### Texts -/

theorem escape_cases (c : Char) :
    (∃ d, Printer.escape c = ['\\', d] ∧ unescape d = c) ∨
      (Printer.escape c = [c] ∧ c ≠ '\n' ∧ c ≠ '\\' ∧ c ≠ '"') := by
  unfold Printer.escape
  split
  · exact .inl ⟨'n', rfl, by rw [‹c = '\n'›]; rfl⟩
  split
  · exact .inl ⟨'t', rfl, by rw [‹c = '\t'›]; rfl⟩
  split
  · exact .inl ⟨'\\', rfl, by rw [‹c = '\\'›]; rfl⟩
  split
  · exact .inl ⟨'"', rfl, by rw [‹c = '"'›]; rfl⟩
  · exact .inr ⟨rfl, ‹_›, ‹_›, ‹_›⟩

/-- The body of a canonical text is its value. -/
theorem stringBody_escape (cs rest : List Char) :
    stringBody '"' (cs.flatMap Printer.escape ++ '"' :: rest) =
      (cs, cs.flatMap Printer.escape ++ ['"'], rest) := by
  induction cs with
  | nil =>
    rw [List.flatMap_nil, List.nil_append, stringBody.eq_def]
    dsimp only
    rw [if_neg (by decide), if_neg (by decide), if_pos rfl]
    rfl
  | cons c cs ih =>
    rw [List.flatMap_cons, List.append_assoc]
    rcases escape_cases c with ⟨d, hescape, hd⟩ | ⟨hescape, hline, hslash, hquote⟩
    · rw [hescape, List.cons_append, List.cons_append, List.nil_append, stringBody,
        if_neg (by decide), if_pos rfl, ih]
      dsimp only
      rw [hd]
      rfl
    · rw [hescape, List.cons_append, List.nil_append, stringBody.eq_def]
      dsimp only
      rw [if_neg hline, if_neg hslash, if_neg hquote, ih]
      rfl

/-! ### Tokens in text -/

/-- The characters of a token in canonical text. -/
def Token.chars (t : Token) : List Char :=
  match t.kind with
  | .text => '"' :: t.lexeme.toList.flatMap Printer.escape ++ ['"']
  | _ => t.lexeme.toList

-- The equations of printing are made here, once for all the modules that rewrite by them.
attribute [local simp] Node.print Arms.print printAll printSegments printSome printReturned

theorem Node.toList_print_text (indent : Nat) (pos : Position) (value : String) :
    ((Node.text pos value).print indent).toList = (Token.mk .text value .none).chars := by
  rw [Node.print, Printer.textLiteral, String.toList_ofList]
  rfl

/-- The token stands for what its lexeme says. -/
def Token.Spelled (t : Token) : Prop :=
  match t.kind with
  | .identifier => IsName t.lexeme ∧ t.position = .none
  | .int | .float => ∃ m, t = magnitudeToken m
  | .text => t.position = .none
  | .endOfCode => False
  | kind => t = kind.token

/-- Such a character behind a token of the kind does not belong to it. -/
def TokenKind.stopsAt (kind : TokenKind) (c : Char) : Bool :=
  match kind with
  | .identifier | .keyword _ => !isNamePart c
  | .int => !c.isDigit && c != '.' && c != 'x'
  | .float => !c.isDigit
  | .plus => c != '+' && c != '='
  | .minus => c != '-' && c != '='
  | .mult | .div | .equals | .less | .greater => c != '='
  | _ => true

/-- The text behind a token starts with nothing that belongs to it. -/
def Stops (kind : TokenKind) (rest : List Char) : Prop :=
  ∀ c ∈ rest.head?, kind.stopsAt c = true

theorem scanOperator_single {single : TokenKind} {pairs : List (Char × TokenKind)} (c : Char)
    {rest : List Char} (h : ∀ d ∈ rest.head?, pairs.lookup d = none) :
    scanOperator single pairs c rest = .plain single [c] rest := by
  cases rest with
  | nil => rfl
  | cons d rest => rw [scanOperator, h d rfl]

/-- The lexer takes these characters for the token. -/
def Scans (t : Token) (cs rest : List Char) : Prop :=
  ∃ c body, cs = c :: body ∧ solid c = true ∧
    ∃ l : Lexeme, scan c (body ++ rest) = .lexeme l ∧ l.rest = rest ∧ t = ⟨l.kind, l.text, .none⟩

theorem Scans.lexes {t : Token} {cs rest : List Char} (h : Scans t cs rest) {ts : List Token}
    (hrest : Lexes rest ts) : Lexes (cs ++ rest) (t :: ts) := by
  obtain ⟨c, body, rfl, hc, l, hscan, hl, rfl⟩ := h
  refine Lexes.token hc hscan ?_ (hl ▸ hrest)
  show l.rest.length ≤ (body ++ rest).length
  rw [hl, List.length_append]
  omega

theorem Scans.plain {t : Token} {c : Char} {b rest : List Char} (hc : solid c = true)
    (hscan : scan c (b ++ rest) = .plain t.kind (c :: b) rest)
    (ht : t = ⟨t.kind, String.ofList (c :: b), .none⟩) : Scans t (c :: b) rest :=
  ⟨c, b, rfl, hc, _, hscan, rfl, ht⟩

theorem ofList_of_toList {s : String} {cs : List Char} (h : s.toList = cs) : String.ofList cs = s := by
  rw [← h, String.ofList_toList]

theorem scans_name {t : Token} (hkind : t.kind = .identifier) (h : t.Spelled) {rest : List Char}
    (hrest : Stops t.kind rest) : Scans t t.chars rest := by
  obtain ⟨kind, lexeme, position⟩ := t
  change kind = _ at hkind
  subst hkind
  obtain ⟨⟨c, cs, htext, hc, hcs, hword⟩, hposition⟩ := h
  change position = _ at hposition
  subst hposition
  have hname := ofList_of_toList htext
  have hstop : ∀ d ∈ rest.head?, isNamePart d = false := fun d hd => by
    have hd' := hrest d hd
    rwa [TokenKind.stopsAt, Bool.not_eq_true'] at hd'
  show Scans _ lexeme.toList rest
  rw [htext]
  refine .plain (solid_of_nameStart hc) ?_ (by rw [hname])
  rw [scan_word hc hcs hstop, hname, hword]

theorem scans_keyword (k : Keyword) {rest : List Char}
    (hrest : Stops (.keyword k) rest) : Scans (TokenKind.keyword k).token k.word.toList rest := by
  obtain ⟨c, cs, htext, hc, hcs, hword⟩ := k.word_facts
  have hname := ofList_of_toList htext
  have hstop : ∀ d ∈ rest.head?, isNamePart d = false := fun d hd => by
    have hd' := hrest d hd
    rwa [TokenKind.stopsAt, Bool.not_eq_true'] at hd'
  rw [htext]
  refine .plain (solid_of_nameStart hc) ?_ ?_
  · rw [scan_word hc hcs hstop, hname, hword]
    rfl
  · rw [hname]
    rfl

theorem scans_text {t : Token} (hkind : t.kind = .text) (h : t.Spelled) (rest : List Char) :
    Scans t t.chars rest := by
  obtain ⟨kind, lexeme, position⟩ := t
  change kind = _ at hkind
  subst hkind
  change position = _ at h
  subst h
  refine ⟨'"', lexeme.toList.flatMap Printer.escape ++ ['"'], rfl, by decide, ?_⟩
  have hscan : ∀ cs, scan '"' cs = scanString '"' cs := fun _ => rfl
  rw [hscan, scanString, List.append_assoc, List.singleton_append, stringBody_escape]
  refine ⟨_, rfl, rfl, ?_⟩
  rw [String.ofList_toList]

theorem scans_operator {kind : TokenKind} {pairs : List (Char × TokenKind)} {c : Char}
    (hspelling : kind.spelling.toList = [c]) (hc : solid c = true)
    (hscan : ∀ cs, scan c cs = scanOperator kind pairs c cs) {rest : List Char}
    (hpairs : ∀ d ∈ rest.head?, pairs.lookup d = none) :
    Scans kind.token kind.spelling.toList rest := by
  rw [hspelling]
  refine .plain hc ?_ ?_
  · rw [List.nil_append, hscan, scanOperator_single c hpairs]
    rfl
  · rw [TokenKind.token, ofList_of_toList hspelling]

theorem lookup_none {d : Char} {pairs : List (Char × TokenKind)} (h : ∀ p ∈ pairs, d ≠ p.1) :
    pairs.lookup d = none := by
  induction pairs with
  | nil => rfl
  | cons p pairs ih =>
    rw [List.lookup_cons, beq_false_of_ne (h p List.mem_cons_self)]
    exact ih fun q hq => h q (List.mem_cons_of_mem p hq)

/-- Kinds whose tokens are always spelled the same way. -/
def TokenKind.isFixed : TokenKind → Bool
  | .int | .float | .text | .identifier | .endOfCode => false
  | _ => true

theorem scans_fixed {kind : TokenKind} (h : kind.isFixed = true) {rest : List Char}
    (hrest : Stops kind rest) : Scans kind.token kind.spelling.toList rest := by
  have hstop : ∀ {d : Char} {pairs : List (Char × TokenKind)}, d ∈ rest.head? →
      (kind.stopsAt d = true → ∀ p ∈ pairs, d ≠ p.1) → pairs.lookup d = none :=
    fun hd hne => lookup_none (hne (hrest _ hd))
  cases kind with
  | keyword k => exact scans_keyword k hrest
  | int | float | text | identifier | endOfCode => cases h
  | plusPlus | minusMinus | plusEqual | minusEqual | multEqual | divEqual | doubleEquals
  | notEquals | lessEquals | greaterEquals =>
    exact ⟨_, _, rfl, by decide, _, rfl, rfl, rfl⟩
  | lParen | rParen | lSquare | rSquare | lBrace | rBrace | colon | comma | point | newline =>
    exact ⟨_, _, rfl, by decide, _, rfl, rfl, rfl⟩
  | plus =>
    refine scans_operator rfl (by decide) (fun _ => rfl) fun d hd => hstop hd fun h => ?_
    simpa [TokenKind.stopsAt] using h
  | minus =>
    refine scans_operator rfl (by decide) (fun _ => rfl) fun d hd => hstop hd fun h => ?_
    simpa [TokenKind.stopsAt] using h
  | mult | div | equals | less | greater =>
    refine scans_operator rfl (by decide) (fun _ => rfl) fun d hd => hstop hd fun h => ?_
    simpa [TokenKind.stopsAt] using h

theorem not_contains_point {ds : List Char} (h : ∀ c ∈ ds, c.isDigit = true) :
    ds.contains '.' = false := by
  rw [List.contains_eq_mem, decide_eq_false_iff_not]
  intro hmem
  exact absurd (h '.' hmem) (by decide)

theorem head_append_ne {body rest : List Char} {x : Char} (hbody : ∀ c ∈ body, c ≠ x)
    (hrest : ∀ c ∈ rest.head?, c ≠ x) : (body ++ rest).head? ≠ some x := by
  intro h
  cases body with
  | nil => exact hrest x h rfl
  | cons d body =>
    cases h
    exact hbody x List.mem_cons_self rfl

theorem ne_of_isDigit {c d : Char} (h : c.isDigit = true) (hd : d.isDigit = false) : c ≠ d := by
  rintro rfl
  rw [h] at hd
  cases hd

/-- The text of a magnitude, with what stands behind it. -/
theorem scans_number (m : Magnitude Format.single) {rest : List Char}
    (hrest : Stops (magnitudeToken m).kind rest) :
    Scans (magnitudeToken m) (magnitudeToken m).lexeme.toList rest := by
  have hwritten := Decimal.written_layout (Decimal.shortest m)
  unfold magnitudeToken at hrest ⊢
  dsimp only at hrest ⊢
  rw [String.toList_ofList]
  generalize (Decimal.shortest m).layout = cs at hrest hwritten
  cases hwritten with
  | whole _ hne hfront _ =>
    obtain ⟨c, body, rfl⟩ := List.exists_cons_of_ne_nil hne
    rw [not_contains_point hfront] at hrest ⊢
    have hstop : ∀ d ∈ rest.head?, d.isDigit = false ∧ d ≠ '.' ∧ d ≠ 'x' := fun d hd => by
      simpa [TokenKind.stopsAt, and_assoc] using hrest d hd
    have hc := hfront c List.mem_cons_self
    have hbody : ∀ d ∈ body, d.isDigit = true := fun d hd => hfront d (List.mem_cons_of_mem c hd)
    refine .plain (solid_of_isDigit hc) ?_ rfl
    rw [scan_number hc ?_ (numberBody_digits hbody fun d hd =>
      ⟨(hstop d hd).1, fun h => absurd h (hstop d hd).2.1⟩), not_contains_point hbody]
    exact head_append_ne (fun d hd => ne_of_isDigit (hbody d hd) (by decide))
      fun d hd => (hstop d hd).2.2
  | pointed front back hne hfront hback _ =>
    obtain ⟨c, body, rfl⟩ := List.exists_cons_of_ne_nil hne
    have hcontains : ∀ front : List Char, (front ++ '.' :: back).contains '.' = true := fun front => by
      rw [List.contains_eq_mem, decide_eq_true_eq]
      exact List.mem_append_right front List.mem_cons_self
    rw [hcontains] at hrest ⊢
    have hstop : ∀ d ∈ rest.head?, d.isDigit = false := fun d hd => by
      simpa [TokenKind.stopsAt] using hrest d hd
    have hc := hfront c List.mem_cons_self
    have hbody : ∀ d ∈ body, d.isDigit = true := fun d hd => hfront d (List.mem_cons_of_mem c hd)
    refine .plain (solid_of_isDigit hc) (b := body ++ '.' :: back) ?_ rfl
    rw [List.append_assoc, List.cons_append, scan_number hc ?_
      (numberBody_pointed back hbody hback hstop), hcontains]
    refine head_append_ne (fun d hd => ne_of_isDigit (hbody d hd) (by decide)) ?_
    rintro d ⟨⟩
    decide

/-- The token of a whole number and the point behind it. -/
def joinedToken (t : Token) : Token :=
  ⟨.float, t.lexeme ++ ".", .none⟩

/-- A point behind a whole number is taken with it. -/
theorem scans_joined (m : Magnitude Format.single) (hkind : (magnitudeToken m).kind = .int)
    {rest : List Char} (hrest : ∀ c ∈ rest.head?, c.isDigit = false) :
    Scans (joinedToken (magnitudeToken m)) ((magnitudeToken m).lexeme.toList ++ ['.']) rest := by
  have hwritten := Decimal.written_layout (Decimal.shortest m)
  have hpoint : (Decimal.shortest m).layout.contains '.' = false := by
    cases hcontains : (Decimal.shortest m).layout.contains '.' with
    | false => rfl
    | true =>
      unfold magnitudeToken at hkind
      dsimp only at hkind
      rw [hcontains] at hkind
      cases hkind
  unfold joinedToken magnitudeToken
  dsimp only
  rw [String.toList_ofList]
  generalize (Decimal.shortest m).layout = cs at hpoint hwritten
  cases hwritten with
  | whole _ hne hfront _ =>
    obtain ⟨c, body, rfl⟩ := List.exists_cons_of_ne_nil hne
    have hc := hfront c List.mem_cons_self
    have hbody : ∀ d ∈ body, d.isDigit = true := fun d hd => hfront d (List.mem_cons_of_mem c hd)
    refine .plain (t := ⟨_, _, _⟩) (b := body ++ ['.']) (solid_of_isDigit hc) ?_ ?_
    · rw [List.append_assoc]
      refine (scan_number hc ?_ (numberBody_pointed [] hbody nofun hrest)).trans ?_
      · refine head_append_ne (fun d hd => ne_of_isDigit (hbody d hd) (by decide)) ?_
        rintro d ⟨⟩
        decide
      · rw [List.contains_eq_mem, decide_eq_true (List.mem_append_right body List.mem_cons_self)]
        rfl
    · rw [← List.cons_append, String.ofList_append]
  | pointed front back _ _ _ _ =>
    rw [List.contains_eq_mem, decide_eq_false_iff_not] at hpoint
    exact absurd (List.mem_append_right front List.mem_cons_self) hpoint

/-- A token that is spelled right is scanned back where nothing behind it belongs to it. -/
theorem Token.Spelled.scans {t : Token} (h : t.Spelled) {rest : List Char}
    (hrest : Stops t.kind rest) : Scans t t.chars rest := by
  cases hkind : t.kind with
  | identifier => exact scans_name hkind h hrest
  | text => exact scans_text hkind h rest
  | int | float =>
    unfold Token.Spelled at h
    rw [hkind] at h
    obtain ⟨m, rfl⟩ := h
    have hchars : (magnitudeToken m).chars = (magnitudeToken m).lexeme.toList := by
      unfold Token.chars
      rw [hkind]
    rw [hchars]
    exact scans_number m hrest
  | endOfCode =>
    unfold Token.Spelled at h
    rw [hkind] at h
    exact h.elim
  | _ =>
    unfold Token.Spelled at h
    rw [hkind] at h
    dsimp only at h
    rw [h] at hrest ⊢
    exact scans_fixed rfl hrest


/-! ### Pieces -/

inductive Piece where
  | token (token : Token)
  | blank

namespace Piece

def chars : Piece → List Char
  | token t => t.chars
  | blank => [' ']

def token? : Piece → Option Token
  | token t => some t
  | blank => none

end Piece

def render (ps : List Piece) : List Char :=
  ps.flatMap Piece.chars

def pieceTokens (ps : List Piece) : List Token :=
  ps.filterMap Piece.token?

/-- The lexer does not look across such a token. -/
def TokenKind.isWall : TokenKind → Bool
  | .lParen | .rParen | .lSquare | .rSquare | .lBrace | .rBrace | .comma | .colon | .newline
  | .text => true
  | _ => false

/-- A construct can start with such a token; `digits` tells whether it may start with a number, and
`signs` whether the number may have a sign. -/
def TokenKind.begins (digits signs : Bool) (k : TokenKind) : Bool :=
  (k.leads && (digits || (k != .int && k != .float))) || (digits && signs && k == .minus)

namespace Piece

def isWall : Piece → Bool
  | token t => t.kind.isWall
  | blank => true

/-- The piece can follow any other one directly. -/
def closes : Piece → Bool
  | token t => t.kind.isWall || t.kind == .point
  | blank => true

/-- The second piece can follow the first one directly; `signs` tells whether numbers may have
signs. -/
def clear (signs : Bool) (a b : Piece) : Bool :=
  a.isWall || b.closes ||
    match a, b with
    | token a, token b =>
      (a.kind == .point && b.kind.begins false signs) ||
        ((a.kind == .plus || a.kind == .minus) && b.kind.begins true signs)
    | _, _ => false

end Piece

/-- No piece runs into the next one, but for a point behind a number and a sign before a sign. -/
def Spaced (signs : Bool) : List Piece → Prop
  | [] => True
  | a :: ps => (∀ b ∈ ps.head?, a.clear signs b = true) ∧ Spaced signs ps

/-- What the lexer makes of the pieces. -/
def fuse : List Piece → List Token
  | [] => []
  | .blank :: ps => fuse ps
  | [.token a] => [a]
  | .token a :: .blank :: ps => a :: fuse ps
  | .token a :: .token b :: ps =>
    if a.kind = .int ∧ b.kind = .point then joinedToken a :: fuse ps
    else if a.kind = .minus ∧ b.kind = .minus then TokenKind.minusMinus.token :: fuse ps
    else a :: fuse (.token b :: ps)


/-! ### First characters -/

/-- The characters that separate tokens start with. -/
def quiet : List Char :=
  [' ', '(', ')', '[', ']', '\x7b', '\x7d', ',', ':', '\n', '"', '.']

theorem not_digit_of_quiet {c : Char} (hc : c ∈ quiet) : c.isDigit = false := by
  have hall : quiet.all (fun c => !c.isDigit) = true := rfl
  rw [← Bool.not_eq_true']
  exact List.all_eq_true.mp hall c hc

theorem quiet_stops {c : Char} (hc : c ∈ quiet) (kind : TokenKind) :
    kind.stopsAt c = true ∨ (kind = .int ∧ c = '.') := by
  have hnames : quiet.all (fun c => !isNamePart c) = true := rfl
  have hothers : quiet.all (fun c => c != '+' && c != '-' && c != '=' && c != 'x') = true := rfl
  have hname := List.all_eq_true.mp hnames c hc
  have hdigit := not_digit_of_quiet hc
  have hother := List.all_eq_true.mp hothers c hc
  simp only [Bool.and_eq_true, bne_iff_ne] at hother
  obtain ⟨⟨⟨hplus, hminus⟩, hequals⟩, hx⟩ := hother
  cases kind with
  | identifier | keyword _ => exact .inl hname
  | int =>
    by_cases hpoint : c = '.'
    · exact .inr ⟨rfl, hpoint⟩
    · exact .inl (by simp [TokenKind.stopsAt, hdigit, hpoint, hx])
  | float => exact .inl (by simp [TokenKind.stopsAt, hdigit])
  | plus => exact .inl (by simp [TokenKind.stopsAt, hplus, hequals])
  | minus => exact .inl (by simp [TokenKind.stopsAt, hminus, hequals])
  | mult | div | equals | less | greater => exact .inl (by simp [TokenKind.stopsAt, hequals])
  | _ => exact .inl rfl

theorem Token.Spelled.eq_token {t : Token} (h : t.Spelled) (hfixed : t.kind.isFixed = true) :
    t = t.kind.token := by
  unfold Token.Spelled at h
  cases hkind : t.kind with
  | int | float | text | identifier | endOfCode =>
    rw [hkind] at hfixed
    cases hfixed
  | _ =>
    rw [hkind] at h
    exact h

theorem Token.chars_text {t : Token} (h : t.kind = .text) :
    t.chars = '"' :: (t.lexeme.toList.flatMap Printer.escape ++ ['"']) := by
  unfold Token.chars
  rw [h]
  rfl

theorem chars_closes {b : Piece} (hb : b.closes = true) (h : ∀ t, b = .token t → t.Spelled) :
    ∃ c cs, b.chars = c :: cs ∧ c ∈ quiet ∧ (c = '.' → ∃ t, b = .token t ∧ t.kind = .point) := by
  cases b with
  | blank => exact ⟨' ', [], rfl, by decide, fun h => absurd h (by decide)⟩
  | token t =>
    have hspelled := h t rfl
    rw [Piece.closes, Bool.or_eq_true, beq_iff_eq] at hb
    rcases hb with hwall | hpoint
    · cases hkind : t.kind with
      | text =>
        refine ⟨'"', _, Token.chars_text hkind, by decide, fun h => absurd h (by decide)⟩
      | lParen | rParen | lSquare | rSquare | lBrace | rBrace | comma | colon | newline =>
        have heq := hspelled.eq_token (by rw [hkind]; rfl)
        rw [hkind] at heq
        rw [heq]
        exact ⟨_, _, rfl, by decide, fun h => absurd h (by decide)⟩
      | _ =>
        rw [hkind] at hwall
        cases hwall
    · have heq := hspelled.eq_token (by rw [hpoint]; rfl)
      refine ⟨'.', [], ?_, by decide, fun _ => ⟨t, rfl, hpoint⟩⟩
      rw [heq, hpoint]
      rfl

theorem chars_magnitude (m : Magnitude Format.single) :
    (magnitudeToken m).chars = (Decimal.shortest m).layout := by
  have hlexeme : (magnitudeToken m).lexeme.toList = (Decimal.shortest m).layout :=
    String.toList_ofList
  unfold Token.chars
  rcases magnitudeToken_kind m with hkind | hkind <;> rw [hkind] <;> exact hlexeme

theorem chars_number (m : Magnitude Format.single) :
    ∃ c cs, (magnitudeToken m).chars = c :: cs ∧ c.isDigit = true := by
  have hwritten := Decimal.written_layout (Decimal.shortest m)
  rw [chars_magnitude]
  generalize (Decimal.shortest m).layout = cs at hwritten
  cases hwritten with
  | whole _ hne hfront _ =>
    obtain ⟨c, body, rfl⟩ := List.exists_cons_of_ne_nil hne
    exact ⟨c, body, rfl, hfront c List.mem_cons_self⟩
  | pointed front back hne hfront _ _ =>
    obtain ⟨c, body, rfl⟩ := List.exists_cons_of_ne_nil hne
    exact ⟨c, _, rfl, hfront c List.mem_cons_self⟩

/-- The first character of what can start a construct. -/
theorem chars_leads {t : Token} (h : t.Spelled) (hleads : t.kind.leads = true) :
    ∃ c cs, t.chars = c :: cs ∧ (c ≠ '+' ∧ c ≠ '-' ∧ c ≠ '=') ∧
      (t.kind ≠ .int → t.kind ≠ .float → c.isDigit = false) := by
  have hstart : ∀ {c : Char}, isNameStart c = true → (c ≠ '+' ∧ c ≠ '-' ∧ c ≠ '=') ∧
      c.isDigit = false := by
    intro c hc
    have hne : ∀ d, isNameStart d = false → c ≠ d := by
      rintro d hd rfl
      rw [hc] at hd
      cases hd
    refine ⟨⟨hne _ (by decide), hne _ (by decide), hne _ (by decide)⟩, ?_⟩
    cases hdigit : c.isDigit with
    | false => rfl
    | true =>
      rw [not_nameStart_of_isDigit hdigit] at hc
      cases hc
  cases hkind : t.kind with
  | int | float =>
    unfold Token.Spelled at h
    rw [hkind] at h
    obtain ⟨m, rfl⟩ := h
    obtain ⟨c, cs, hchars, hc⟩ := chars_number m
    refine ⟨c, cs, hchars, ⟨ne_of_isDigit hc (by decide), ne_of_isDigit hc (by decide),
      ne_of_isDigit hc (by decide)⟩, ?_⟩
    first
      | exact fun hint _ => absurd rfl hint
      | exact fun _ hfloat => absurd rfl hfloat
  | text => exact ⟨'"', _, Token.chars_text hkind, by decide, fun _ _ => by decide⟩
  | identifier =>
    unfold Token.Spelled at h
    rw [hkind] at h
    obtain ⟨⟨c, cs, htext, hc, -⟩, -⟩ := h
    refine ⟨c, cs, ?_, (hstart hc).1, fun _ _ => (hstart hc).2⟩
    unfold Token.chars
    rw [hkind]
    exact htext
  | keyword k =>
    have heq := h.eq_token (by rw [hkind]; rfl)
    obtain ⟨c, cs, htext, hc, -⟩ := k.word_facts
    refine ⟨c, cs, ?_, (hstart hc).1, fun _ _ => (hstart hc).2⟩
    rw [heq, hkind]
    exact htext
  | lSquare | lParen | lBrace =>
    have heq := h.eq_token (by rw [hkind]; rfl)
    rw [hkind] at heq
    rw [heq]
    exact ⟨_, _, rfl, by decide, fun _ _ => by decide⟩
  | _ =>
    rw [hkind] at hleads
    cases hleads


/-! ### Lexing pieces -/

theorem stops_of_head {kind : TokenKind} {c : Char} {l more : List Char}
    (h : kind.stopsAt c = true) : Stops kind (c :: l ++ more) := by
  rintro d ⟨⟩
  exact h

/-- Where the next piece can follow and does not fuse, the token stops. -/
theorem stops_of_clear {signs : Bool} {a : Token} {b : Piece}
    (hclear : (Piece.token a).clear signs b = true) (hb : ∀ t, b = .token t → t.Spelled)
    (hpoint : ¬ (a.kind = .int ∧ ∃ t, b = .token t ∧ t.kind = .point))
    (hminus : ¬ (a.kind = .minus ∧ ∃ t, b = .token t ∧ t.kind = .minus)) (more : List Char) :
    Stops a.kind (b.chars ++ more) := by
  by_cases hwall : (Piece.token a).isWall = true
  · intro c _
    change a.kind.isWall = true at hwall
    cases hkind : a.kind <;> rw [hkind] at hwall <;> first | rfl | cases hwall
  by_cases hcloses : b.closes = true
  · obtain ⟨c, cs, hchars, hc, hdot⟩ := chars_closes hcloses hb
    rw [hchars]
    refine stops_of_head ?_
    rcases quiet_stops hc a.kind with hstop | ⟨hint, hchar⟩
    · exact hstop
    · exact absurd ⟨hint, hdot hchar⟩ hpoint
  unfold Piece.clear at hclear
  rw [Bool.eq_false_iff.mpr hwall, Bool.eq_false_iff.mpr hcloses, Bool.false_or, Bool.false_or]
    at hclear
  cases b with
  | blank => cases hclear
  | token b =>
    simp only [Bool.or_eq_true, Bool.and_eq_true, beq_iff_eq] at hclear
    rcases hclear with ⟨hkind, -⟩ | ⟨hkind, hbegins⟩
    · intro c _
      rw [hkind]
      rfl
    · rw [TokenKind.begins, Bool.true_or, Bool.and_true, Bool.true_and, Bool.or_eq_true,
        Bool.and_eq_true, beq_iff_eq] at hbegins
      rcases hbegins with hleads | ⟨-, hsign⟩
      · obtain ⟨c, cs, hchars, ⟨hplus, hdash, hequals⟩, -⟩ := chars_leads (hb b rfl) hleads
        show Stops a.kind (b.chars ++ more)
        rw [hchars]
        refine stops_of_head ?_
        rcases hkind with hkind | hkind
        · rw [hkind]
          simp [TokenKind.stopsAt, hplus, hequals]
        · rw [hkind]
          simp [TokenKind.stopsAt, hdash, hequals]
      · rcases hkind with hkind | hkind
        · have heq := (hb b rfl).eq_token (by rw [hsign]; rfl)
          show Stops a.kind (b.chars ++ more)
          rw [heq, hsign, hkind]
          exact stops_of_head (c := '-') (l := []) (by decide)
        · exact absurd ⟨hkind, b, rfl, hsign⟩ hminus

/-- Behind a point no number follows. -/
theorem not_digit_of_clear {signs : Bool} {a : Token} {b : Piece} (ha : a.kind = .point)
    (hclear : (Piece.token a).clear signs b = true) (hb : ∀ t, b = .token t → t.Spelled)
    (more : List Char) : ∀ c ∈ (b.chars ++ more).head?, c.isDigit = false := by
  by_cases hcloses : b.closes = true
  · obtain ⟨c, cs, hchars, hc, -⟩ := chars_closes hcloses hb
    rw [hchars]
    rintro d ⟨⟩
    exact not_digit_of_quiet hc
  unfold Piece.clear at hclear
  rw [show (Piece.token a).isWall = false by rw [Piece.isWall, ha]; rfl,
    Bool.eq_false_iff.mpr hcloses, Bool.false_or, Bool.false_or] at hclear
  cases b with
  | blank => cases hclear
  | token b =>
    simp only [ha, beq_self_eq_true, Bool.true_and, Bool.or_eq_true, Bool.and_eq_true,
      beq_iff_eq, reduceCtorEq, false_and, or_false] at hclear
    simp only [TokenKind.begins, Bool.false_or, Bool.false_and, Bool.or_false, Bool.and_eq_true,
      bne_iff_ne] at hclear
    obtain ⟨c, cs, hchars, -, hdigit⟩ := chars_leads (hb b rfl) hclear.1
    show ∀ c ∈ (b.chars ++ more).head?, c.isDigit = false
    rw [hchars]
    rintro d ⟨⟩
    exact hdigit hclear.2.1 hclear.2.2

theorem render_cons (p : Piece) (ps : List Piece) : render (p :: ps) = p.chars ++ render ps :=
  List.flatMap_cons

/-- The pieces are lexed as they fuse. -/
theorem lexes_pieces {signs : Bool} (ps : List Piece) (hspaced : Spaced signs ps)
    (hspelled : ∀ t, .token t ∈ ps → t.Spelled) : Lexes (render ps) (fuse ps) := by
  induction ps using fuse.induct with
  | case1 => exact Lexes.nil
  | case2 ps ih =>
    rw [render_cons, fuse]
    exact (ih hspaced.2 fun t ht => hspelled t (List.mem_cons_of_mem _ ht)).blank
  | case3 a =>
    rw [render_cons, fuse]
    refine ((hspelled a List.mem_cons_self).scans ?_).lexes Lexes.nil
    exact nofun
  | case4 a ps ih =>
    rw [render_cons, render_cons, fuse]
    have hrest := ih hspaced.2.2 fun t ht =>
      hspelled t (List.mem_cons_of_mem _ (List.mem_cons_of_mem _ ht))
    refine ((hspelled a List.mem_cons_self).scans ?_).lexes hrest.blank
    exact stops_of_clear (hspaced.1 .blank rfl) nofun (by rintro ⟨_, _, ⟨⟩, _⟩)
      (by rintro ⟨_, _, ⟨⟩, _⟩) (render ps)
  | case5 a b ps hpair ih =>
    obtain ⟨hint, hpoint⟩ := hpair
    have hrest := ih hspaced.2.2 fun t ht =>
      hspelled t (List.mem_cons_of_mem _ (List.mem_cons_of_mem _ ht))
    have ha := hspelled a List.mem_cons_self
    have hb := (hspelled b (List.mem_cons_of_mem _ List.mem_cons_self)).eq_token
      (by rw [hpoint]; rfl)
    have hchars : (Piece.token a).chars ++ (Piece.token b).chars = a.lexeme.toList ++ ['.'] := by
      rw [hb, hpoint]
      show a.chars ++ _ = _
      unfold Token.chars
      rw [hint]
      rfl
    have hdigit : ∀ c ∈ (render ps).head?, c.isDigit = false := by
      cases ps with
      | nil => exact nofun
      | cons p ps =>
        rw [render_cons]
        refine not_digit_of_clear hpoint (hspaced.2.1 p rfl) (fun t ht => ?_) (render ps)
        exact hspelled t (ht ▸ List.mem_cons_of_mem _ (List.mem_cons_of_mem _ List.mem_cons_self))
    rw [fuse, if_pos ⟨hint, hpoint⟩, render_cons, render_cons, ← List.append_assoc, hchars]
    unfold Token.Spelled at ha
    rw [hint] at ha
    obtain ⟨m, rfl⟩ := ha
    exact (scans_joined m hint hdigit).lexes hrest
  | case6 a b ps hpoint hpair ih =>
    obtain ⟨hfirst, hsecond⟩ := hpair
    have hrest := ih hspaced.2.2 fun t ht =>
      hspelled t (List.mem_cons_of_mem _ (List.mem_cons_of_mem _ ht))
    have ha := (hspelled a List.mem_cons_self).eq_token (by rw [hfirst]; rfl)
    have hb := (hspelled b (List.mem_cons_of_mem _ List.mem_cons_self)).eq_token
      (by rw [hsecond]; rfl)
    have hchars : (Piece.token a).chars ++ (Piece.token b).chars =
        TokenKind.minusMinus.spelling.toList := by
      rw [ha, hb, hfirst, hsecond]
      rfl
    rw [fuse, if_neg hpoint, if_pos ⟨hfirst, hsecond⟩, render_cons, render_cons,
      ← List.append_assoc, hchars]
    exact (scans_fixed rfl fun _ _ => rfl).lexes hrest
  | case7 a b ps hpoint hminus ih =>
    have hrest := ih hspaced.2 fun t ht => hspelled t (List.mem_cons_of_mem _ ht)
    rw [fuse, if_neg hpoint, if_neg hminus, render_cons]
    refine ((hspelled a List.mem_cons_self).scans ?_).lexes hrest
    rw [render_cons]
    refine stops_of_clear (hspaced.1 _ rfl) (fun t ht => ?_) ?_ ?_ (render ps)
    · exact hspelled t (ht ▸ List.mem_cons_of_mem _ List.mem_cons_self)
    · rintro ⟨hint, t, ⟨⟩, ht⟩
      exact hpoint ⟨hint, ht⟩
    · rintro ⟨hsign, t, ⟨⟩, ht⟩
      exact hminus ⟨hsign, ht⟩

end ScriptEngine
