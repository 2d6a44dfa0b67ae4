import ScriptEngine.Proofs.DecimalText
import ScriptEngine.Proofs.LineBreakGrammar
import ScriptEngine.Proofs.TokenPlaces

/-! # Where a syntax error points

A rule that fails leaves in front the token that its error names: errors are made where the cursor
stands, and a rule that gives up an error goes back to where it began. The one rule that takes a
token and then blames it is that of a number whose digits cannot be read, and the lexer makes no
such token. So the error of a source is found by counting the tokens that were passed over. -/

namespace ScriptEngine

/-! ### Numbers that can be read -/

/-- If the token is one of a number, its lexeme names a number. -/
def Token.Legible (t : Token) : Prop :=
  t.kind.isNumeral = true → ∃ value : Single, Number.ofText? t.lexeme = some value

open Lexer in
theorem numberBody_written (seen : Bool) (cs : List Char) :
    (∀ c ∈ (numberBody seen cs).1, c.isDigit = true) ∨
      seen = false ∧ ∃ front back, (numberBody seen cs).1 = front ++ '.' :: back ∧
        (∀ c ∈ front, c.isDigit = true) ∧ ∀ c ∈ back, c.isDigit = true := by
  induction cs generalizing seen with
  | nil => exact .inl (by simp [numberBody])
  | cons c cs ih =>
    rw [numberBody]
    split
    · rename_i hdigit
      rcases ih seen with hall | ⟨hseen, front, back, hbody, hfront, hback⟩
      · exact .inl (List.forall_mem_cons.mpr ⟨hdigit, hall⟩)
      · refine .inr ⟨hseen, c :: front, back, ?_, List.forall_mem_cons.mpr ⟨hdigit, hfront⟩, hback⟩
        simp [hbody]
    · split
      · rename_i hpoint
        rcases ih true with hall | ⟨hseen, _⟩
        · refine .inr ⟨hpoint.2, [], (numberBody true cs).1, ?_, by simp, hall⟩
          simp [hpoint.1]
        · cases hseen
      · exact .inl (by simp)

namespace Number

open Decimal

variable {f : Format}

theorem exists_ofText?_written {d : Decimal} {cs : List Char} (h : Written d cs) :
    ∃ value : Number f, ofText? (String.ofList cs) = some value := by
  refine ⟨_, ofText?_of_read ?_ (read?_written h)⟩
  cases h with
  | whole front hne hfront _ =>
    rw [← List.append_nil cs]
    exact isDigit_head hne hfront []
  | pointed front back hne hfront _ _ => exact isDigit_head hne hfront _

theorem exists_ofText?_nat (n : Nat) :
    ∃ value : Number f, ofText? (String.ofList (digitChars n)) = some value :=
  exists_ofText?_written (.whole _ Nat.toDigits_ne_nil (isDigit_digitChars n) rfl)

theorem exists_ofText?_minus (n : Nat) :
    ∃ value : Number f, ofText? (String.ofList ('-' :: digitChars n)) = some value := by
  have hdigits := isDigit_digitChars n
  have hread := read?_written (.whole (digitChars n) Nat.toDigits_ne_nil hdigits rfl)
  cases hcs : digitChars n with
  | nil => exact absurd hcs Nat.toDigits_ne_nil
  | cons c cs =>
    rw [hcs] at hdigits hread
    refine ⟨toNumber true ⟨Nat.ofDigitChars 10 (c :: cs) 0, 0⟩, ?_⟩
    rw [ofText?, String.toList_ofList, ofChars?_of_sign rfl (hdigits c List.mem_cons_self), hread]
    rfl

/-- A whole number is written in digits, behind a minus if it is below zero. -/
theorem exists_ofText?_int (i : Int) :
    ∃ value : Number f, ofText? (toString i) = some value := by
  cases i with
  | ofNat n => exact exists_ofText?_nat n
  | negSucc n =>
    have htext : toString (Int.negSucc n) = String.ofList ('-' :: digitChars (n + 1)) := by
      show "-" ++ String.ofList (Nat.toDigits 10 (n + 1)) = _
      rw [← String.toList_inj]
      simp [digitChars]
    rw [htext]
    exact exists_ofText?_minus (n + 1)

end Number

namespace Lexer

theorem scanName_kind {c : Char} {cs : List Char} {l : Lexeme} (h : scanName c cs = .lexeme l) :
    l.kind.isNumeral = false := by
  unfold scanName at h
  cases h
  dsimp only
  split <;> rfl

theorem scanOperator_kind {single : TokenKind} {pairs : List (Char × TokenKind)} {c : Char}
    {cs : List Char} {l : Lexeme} (hsingle : single.isNumeral = false)
    (hpairs : ∀ p ∈ pairs, p.2.isNumeral = false) (h : scanOperator single pairs c cs = .lexeme l) :
    l.kind.isNumeral = false := by
  unfold scanOperator at h
  split at h
  · rename_i d rest
    split at h
    · rename_i kind hpair
      cases h
      obtain ⟨_, _, hmem, _⟩ := List.lookup_eq_some_iff.mp hpair
      exact hpairs (d, kind) (hmem ▸ by simp)
    · cases h
      exact hsingle
  · cases h
    exact hsingle

/-- The digits of a number are read, and those of a hexadecimal one are replaced by its value. -/
theorem scanNumber_legible {c : Char} {cs : List Char} {l : Lexeme} (hc : c.isDigit = true)
    (h : scanNumber c cs = .lexeme l) : ∃ value : Single, Number.ofText? l.text = some value := by
  unfold scanNumber at h
  split at h
  · unfold scanHex at h
    dsimp only at h
    split at h
    · cases h
    · cases h
      exact Number.exists_ofText?_int _
  · cases h
    rcases numberBody_written false cs with hall | ⟨-, front, back, hbody, hfront, hback⟩
    · exact Number.exists_ofText?_written
        (.whole _ (by simp) (List.forall_mem_cons.mpr ⟨hc, hall⟩) rfl)
    · dsimp only
      rw [hbody, ← List.cons_append]
      exact Number.exists_ofText?_written
        (.pointed _ _ (by simp) (List.forall_mem_cons.mpr ⟨hc, hfront⟩) hback rfl)

theorem scan_legible {c : Char} {cs : List Char} {l : Lexeme} (h : scan c cs = .lexeme l)
    (hkind : l.kind.isNumeral = true) : ∃ value : Single, Number.ofText? l.text = some value := by
  have hnumber : ∀ kind span rest, Scan.plain kind span rest = .lexeme l →
      kind.isNumeral = false → False := by
    intro kind span rest hplain hother
    cases hplain
    rw [hother] at hkind
    cases hkind
  unfold scan at h
  split at h
  · rw [scanName_kind h] at hkind
    cases hkind
  · split at h
    · rename_i hdigit
      exact scanNumber_legible hdigit h
    · split at h
      all_goals first
        | exact (hnumber _ _ _ h rfl).elim
        | (rw [scanOperator_kind rfl (by decide) h] at hkind; cases hkind)
        | (cases h <;> cases hkind)

end Lexer

theorem LexRun.legible {source : Option String} {front cs : List Char} {line : Nat} {lexed : Lexed}
    (h : LexRun source front line cs lexed) : ∀ t ∈ lexed.tokens, t.Legible := by
  induction h with
  | finish _ =>
    intro t ht hkind
    rw [List.mem_singleton.mp ht] at hkind
    cases hkind
  | fault _ _ => simp
  | token _ hscan _ ih => exact List.forall_mem_cons.mpr ⟨Lexer.scan_legible hscan, ih⟩

/-! ### Rules that fail in front of their error -/

def Stream.Legible (s : Stream) : Prop :=
  ∀ t ∈ s.ahead, t.Legible

/-- The error is one of grammar and names the place of the next token. -/
def Diagnostic.Names (d : Diagnostic) (s : Stream) : Prop :=
  ∃ fault : Fault, fault.kind = .grammar ∧ d = .located fault s.peek.position

/-- If the rule fails where all numbers can be read, its error names the token that it leaves in
front. -/
structure FailsAhead (α : Type) (p : Parse α) : Prop where
  trails : Trails α p
  names : ∀ {s r : Stream} {d : Diagnostic}, s.Legible → p s = .error d r → d.Names r

namespace FailsAhead

variable {α β : Type}

/-- A rule that never fails. -/
theorem of_ok {p : Parse α} (htrails : Trails α p) (h : ∀ s d r, p s ≠ .error d r) :
    FailsAhead α p :=
  ⟨htrails, fun _ hrun => absurd hrun (h _ _ _)⟩

theorem legible {p : Parse α} (hp : FailsAhead α p) {s r : Stream} {a : α} (hs : s.Legible)
    (hrun : p s = .ok a r) : r.Legible := by
  have hrest := (hp.trails s).1
  rw [hrun] at hrest
  exact fun t ht => hs t (hrest.mem ht)

theorem bind {p : Parse α} {f : α → Parse β} (hp : FailsAhead α p)
    (hf : ∀ a, FailsAhead β (f a)) : FailsAhead β (p >>= f) := by
  refine ⟨Trails.bind hp.trails fun a => (hf a).trails, fun {s r d} hs hrun => ?_⟩
  cases hfirst : p s with
  | ok a r₁ =>
    rw [Parse.bind_of_ok hfirst] at hrun
    exact (hf a).names (hp.legible hs hfirst) hrun
  | error d₁ r₁ =>
    rw [Parse.bind_of_error hfirst] at hrun
    cases hrun
    exact hp.names hs hfirst

theorem expect (kind : TokenKind) (what : String) :
    FailsAhead Token (Parse.expect kind what) := by
  refine ⟨Trails.expect kind what, fun _ hrun => ?_⟩
  simp only [Parse.expect] at hrun
  split at hrun
  · cases hrun
  · cases hrun
    exact ⟨_, rfl, rfl⟩

/-- An error that is given up is not seen; any other is passed on with what was left. -/
theorem attempt {p : Parse α} (hp : FailsAhead α p) :
    FailsAhead (Option α) (Parse.attempt p) := by
  refine ⟨Trails.attempt hp.trails, fun {s r d} hs hrun => ?_⟩
  simp only [Parse.attempt] at hrun
  cases hfirst : p s with
  | ok a r₁ =>
    rw [hfirst] at hrun
    cases hrun
  | error d₁ r₁ =>
    rw [hfirst] at hrun
    dsimp only at hrun
    split at hrun
    · cases hrun
    · cases hrun
      exact hp.names hs hfirst

theorem beyond (next : TokenKind → Option (Parse α)) (a : α)
    (hnext : ∀ kind p, next kind = some p → FailsAhead α p) :
    FailsAhead α (Parse.beyond next a) := by
  refine ⟨Trails.beyond next a fun kind p hp => (hnext kind p hp).trails, fun {s r d} hs hrun => ?_⟩
  simp only [Parse.beyond] at hrun
  split at hrun
  · rename_i p hp
    have hrest : s.skipNewlines.advance.ahead <:+ s.ahead :=
      (Trails.advance_suffix _).trans (Trails.skipNewlines_suffix s)
    exact (hnext _ p hp).names (fun t ht => hs t (hrest.mem ht)) hrun
  · cases hrun

/-- A number is only asked for in front of a token of one, which can be read. -/
theorem numeral {rule : Token → Parse Node}
    (hnumeral : ∀ token, token.kind.isNumeral = true → rule token = Grammar.numeral)
    (hrule : ∀ token, token.kind.isNumeral = false → FailsAhead Node (rule token)) :
    FailsAhead Node (Parse.peek >>= rule) := by
  refine ⟨Trails.closed.numeral hnumeral fun token h => (hrule token h).trails,
    fun {s r d} hs hrun => ?_⟩
  have hpeek : rule s.peek s = .error d r := hrun
  cases hkind : s.peek.kind.isNumeral with
  | false => exact (hrule _ hkind).names hs hpeek
  | true =>
    have hmem : s.peek ∈ s.ahead := by
      obtain ⟨ahead, finish⟩ := s
      cases ahead with
      | nil => cases hkind
      | cons t ts => exact List.mem_cons_self
    obtain ⟨value, hvalue⟩ := hs _ hmem hkind
    rw [hnumeral _ hkind, Grammar.numeral, Parse.bind_of_ok (Grammar.advance_apply s), hvalue] at hpeek
    cases hpeek

theorem closed : ParseClosed FailsAhead where
  done a := of_ok (Trails.closed.done a) fun _ _ _ h => by cases h
  bind := bind
  peek := of_ok Trails.closed.peek fun _ _ _ h => by cases h
  advance := of_ok Trails.closed.advance fun _ _ _ h => by cases h
  remaining := of_ok Trails.closed.remaining fun _ _ _ h => by cases h
  skipNewlines := of_ok Trails.closed.skipNewlines fun _ _ _ h => by cases h
  expected what := ⟨Trails.closed.expected what, fun _ h => by cases h; exact ⟨_, rfl, rfl⟩⟩
  unexpected := ⟨Trails.closed.unexpected, fun _ h => by cases h; exact ⟨_, rfl, rfl⟩⟩
  numeral := numeral
  accept kind := of_ok (Trails.accept kind) fun s d r h => by
    simp only [Parse.accept] at h
    split at h <;> cases h
  expect := expect
  attempt := attempt
  beyond := beyond

end FailsAhead

/-! ### Sources -/

/-- The token in front of what is left stands behind as many tokens as were taken. -/
theorem position_of_rest (before : List Token) {finish : Token} {rest : Stream}
    (hfinish : rest.finish = finish.position) :
    ∃ t, (before ++ rest.ahead ++ [finish])[before.length]? = some t ∧
      rest.peek.position = t.position := by
  obtain ⟨ahead, stop⟩ := rest
  cases ahead with
  | nil => exact ⟨finish, by simp, hfinish⟩
  | cons t ts => exact ⟨t, by simp, rfl⟩

/-- A source that is lexed and not parsed has an error of grammar, at the token whose index is the
number of tokens that were passed over. -/
theorem syntax_error_at_first_unconsumed {source : String} {name : Option String}
    (hlexed : (tokenize source name).failure = none)
    (hfails : ∀ root, (parseSource source name).result ≠ .ok root) :
    ∃ d t, (parseSource source name).result = .error d ∧ d.kind = .grammar ∧
      (tokenize source name).tokens[(parseSource source name).consumed]? = some t ∧
      d.position = some t.position := by
  obtain ⟨base, hcourse⟩ := tokenize_run source name
  obtain ⟨front, finish, htokens, ⟨hend, -, -⟩, hfront⟩ := (hcourse.covers hlexed).last
  have hlegible := hcourse.legible
  have hstream : Stream.ofTokens (front ++ [finish]) = ⟨front, finish.position⟩ :=
    ofTokens_append hend fun t ht => (hfront t ht).1
  simp only [parseSource, hlexed, htokens, parseTokens, hstream] at hfails hlegible ⊢
  have hrule := FailsAhead.closed.program (FailsAhead.closed.rules front.length)
  cases hrun : Grammar.program (Grammar.rules front.length) ⟨front, finish.position⟩ with
  | ok root rest =>
    rw [hrun] at hfails
    exact absurd rfl (hfails root)
  | error d rest =>
    obtain ⟨⟨before, hbefore⟩, hfinish⟩ := hrule.trails ⟨front, finish.position⟩
    obtain ⟨fault, hkind, rfl⟩ :=
      hrule.names (fun t ht => hlegible t (List.mem_append_left _ ht)) hrun
    rw [hrun] at hbefore hfinish
    obtain ⟨t, ht, hposition⟩ := position_of_rest before hfinish
    have hfront' : before ++ rest.ahead = front := hbefore
    have hcount : front.length - rest.ahead.length = before.length := by
      rw [← hfront', List.length_append, Nat.add_sub_cancel]
    refine ⟨_, t, rfl, hkind, ?_, congrArg some hposition⟩
    show (front ++ [finish])[front.length - rest.ahead.length]? = some t
    rw [hcount, ← ht]
    exact congrArg (fun ts => (ts ++ [finish])[before.length]?) hfront'.symm

/-- The second bracket closes nothing. -/
theorem syntax_error_at_second_bracket :
    (tokenize "f(0x1) )" none).failure = none ∧
      ∃ d t, (parseSource "f(0x1) )" none).result = .error d ∧ d.kind = .grammar ∧
        (tokenize "f(0x1) )" none).tokens[(parseSource "f(0x1) )" none).consumed]? = some t ∧
        d.position = some t.position := by
  have hlexed : (tokenize "f(0x1) )" none).failure = none := by decide +kernel
  have hfails : (parseSource "f(0x1) )" none).result.isOk = false := by decide +kernel
  refine ⟨hlexed, syntax_error_at_first_unconsumed hlexed fun root hroot => ?_⟩
  rw [hroot] at hfails
  cases hfails

end ScriptEngine
