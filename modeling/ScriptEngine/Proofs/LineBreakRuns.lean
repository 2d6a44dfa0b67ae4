import Mathlib.Data.List.Destutter
import ScriptEngine.Proofs.GrammarExtension

/-! # Runs of line breaks

Where line breaks follow each other, only the first one is kept in the *condensed* tokens. A rule is
*even* if on condensed tokens it gives what it gives on the tokens themselves, and leaves what is
left of them condensed. A rule that takes a token is even where that token is no line break, since
behind a single line break the rest of its run would be lost. -/

namespace ScriptEngine

open Parse Grammar

/-! ### Condensed tokens -/

/-- Each run of line breaks is replaced by the first of them. -/
def condense (ts : List Token) : List Token :=
  ts.destutter fun t u => ¬ (t.kind = .newline ∧ u.kind = .newline)

theorem condense_cons {t : Token} (ht : t.kind ≠ .newline) (ts : List Token) :
    condense (t :: ts) = t :: condense ts := by
  cases ts with
  | nil => rfl
  | cons u ts =>
    rw [condense, List.destutter_cons_cons, if_pos (by simp [ht])]
    rfl

theorem condense_break {t : Token} (ht : t.kind = .newline) (ts : List Token) :
    condense (t :: ts) = t :: condense (ts.dropWhile (·.kind == .newline)) := by
  induction ts with
  | nil => rfl
  | cons u ts ih =>
    by_cases hu : u.kind = .newline
    · rw [List.dropWhile_cons_of_pos (by simp [hu]), ← ih, condense, List.destutter_cons_cons,
        if_neg (by simp [ht, hu])]
      rfl
    · rw [List.dropWhile_cons_of_neg (by simp [hu]), condense, List.destutter_cons_cons,
        if_pos (by simp [hu])]
      rfl

/-- Tokens before and behind one that is no line break are condensed apart. -/
theorem condense_append {e : Token} (he : e.kind ≠ .newline) (front back : List Token) :
    condense (front ++ e :: back) = condense front ++ condense (e :: back) := by
  cases front with
  | nil => rfl
  | cons t front =>
    simp only [condense, List.cons_append, List.destutter_cons']
    induction front generalizing t with
    | nil => simp [he]
    | cons u front ih =>
      simp only [List.cons_append, List.destutter'_cons, ih]
      split <;> rfl

theorem head?_condense (ts : List Token) : (condense ts).head? = ts.head? := by
  cases ts with
  | nil => rfl
  | cons t ts =>
    by_cases ht : t.kind = .newline
    · rw [condense_break ht]
      rfl
    · rw [condense_cons ht]
      rfl

theorem condense_eq_nil {ts : List Token} : condense ts = [] ↔ ts = [] := by
  rw [← List.head?_eq_none_iff, head?_condense, List.head?_eq_none_iff]

theorem dropWhile_of_head {ts : List Token} (h : ∀ t ∈ ts.head?, t.kind ≠ .newline) :
    ts.dropWhile (·.kind == .newline) = ts := by
  cases ts with
  | nil => rfl
  | cons t ts => exact List.dropWhile_cons_of_neg (by simp [h t rfl])

theorem head_dropWhile (ts : List Token) :
    ∀ t ∈ (ts.dropWhile (·.kind == .newline)).head?, t.kind ≠ .newline := by
  intro t ht hkind
  have hstop := List.head?_dropWhile_not (fun t : Token => t.kind == .newline) ts
  rw [Option.mem_def.mp ht] at hstop
  simp [hkind] at hstop

theorem dropWhile_condense (ts : List Token) :
    (condense ts).dropWhile (·.kind == .newline) =
      condense (ts.dropWhile (·.kind == .newline)) := by
  cases ts with
  | nil => rfl
  | cons t ts =>
    by_cases ht : t.kind = .newline
    · have hhead : ∀ u ∈ (condense (ts.dropWhile (·.kind == .newline))).head?,
          u.kind ≠ .newline := by
        rw [head?_condense]
        exact head_dropWhile ts
      rw [condense_break ht, List.dropWhile_cons_of_pos (by simp [ht]), dropWhile_of_head hhead,
        List.dropWhile_cons_of_pos (by simp [ht])]
    · rw [condense_cons ht, List.dropWhile_cons_of_neg (by simp [ht]),
        List.dropWhile_cons_of_neg (by simp [ht]), condense_cons ht]

theorem length_condense_cons (t : Token) (ts : List Token) :
    (condense ts).length ≤ (condense (t :: ts)).length := by
  by_cases ht : t.kind = .newline
  · rw [condense_break ht]
    cases ts with
    | nil => exact Nat.zero_le _
    | cons u ts =>
      by_cases hu : u.kind = .newline
      · rw [condense_break hu, List.dropWhile_cons_of_pos (by simp [hu])]
        exact Nat.le_refl _
      · rw [List.dropWhile_cons_of_neg (by simp [hu])]
        exact Nat.le_succ _
  · rw [condense_cons ht]
    exact Nat.le_succ _

theorem length_condense_suffix {ts us : List Token} (h : us <:+ ts) :
    (condense us).length ≤ (condense ts).length := by
  obtain ⟨front, rfl⟩ := h
  induction front with
  | nil => exact Nat.le_refl _
  | cons t front ih => exact Nat.le_trans ih (length_condense_cons t (front ++ us))

/-- Of tokens that start with no line break, an end is as long as all of them if its condensed
tokens are. -/
theorem length_condense_eq_iff {ts us : List Token} (h : us <:+ ts)
    (hts : ∀ t ∈ ts.head?, t.kind ≠ .newline) :
    (condense us).length = (condense ts).length ↔ us.length = ts.length := by
  cases ts with
  | nil => simp [List.suffix_nil.mp h]
  | cons t ts =>
    rcases List.suffix_cons_iff.mp h with rfl | htail
    · exact ⟨fun _ => rfl, fun _ => rfl⟩
    · have hlength := htail.length_le
      have hcondensed := length_condense_suffix htail
      rw [condense_cons (hts t rfl), List.length_cons, List.length_cons]
      omega

/-! ### Condensed streams -/

namespace Stream

def condense (s : Stream) : Stream :=
  { s with ahead := ScriptEngine.condense s.ahead }

theorem condense_of_nil {s : Stream} (hs : s.ahead = []) : s.condense = s := by
  obtain ⟨ahead, finish⟩ := s
  cases hs
  rfl

theorem peek_condense (s : Stream) : s.condense.peek = s.peek := by
  rw [peek, peek, List.headD_eq_head?_getD, List.headD_eq_head?_getD]
  exact congrArg (Option.getD · _) (head?_condense s.ahead)

theorem advance_condense {s : Stream} (hs : s.peek.kind ≠ .newline) :
    s.condense.advance = s.advance.condense := by
  obtain ⟨ahead, finish⟩ := s
  cases ahead with
  | nil => rfl
  | cons t ts =>
    have ht : t.kind ≠ .newline := hs
    simp only [condense, advance, condense_cons ht, List.tail_cons]

theorem skipNewlines_condense (s : Stream) : s.condense.skipNewlines = s.skipNewlines.condense := by
  simp only [condense, skipNewlines, dropWhile_condense]

end Stream

/-- The first stream is shorter, also when both are condensed. -/
structure Below (r s : Stream) : Prop where
  ahead : r.ahead.length < s.ahead.length
  condensed : (condense r.ahead).length < (condense s.ahead).length

namespace Below

theorem mono {r r' s s' : Stream} (h : Below r s) (hr : r'.ahead <:+ r.ahead)
    (hs : s.ahead <:+ s'.ahead) : Below r' s' := by
  have hr' := length_condense_suffix hr
  have hs' := length_condense_suffix hs
  exact ⟨Nat.lt_of_le_of_lt hr.length_le (Nat.lt_of_lt_of_le h.ahead hs.length_le),
    Nat.lt_of_le_of_lt hr' (Nat.lt_of_lt_of_le h.condensed hs')⟩

theorem advance {s : Stream} (hend : s.peek.kind ≠ .endOfCode) (hs : s.peek.kind ≠ .newline) :
    Below s.advance s := by
  obtain ⟨t, ht, hahead⟩ := ahead_of_peek hend rfl
  rw [← ht] at hs
  constructor
  · rw [hahead]
    exact Nat.lt_succ_self _
  · rw [hahead, condense_cons hs]
    exact Nat.lt_succ_self _

theorem skip {s : Stream} (hs : s.peek.kind = .newline) : Below s.skipNewlines s := by
  refine ⟨length_skip_of_line hs, ?_⟩
  obtain ⟨t, ht, hahead⟩ := ahead_of_peek (by decide) hs
  rw [Stream.skipNewlines, hahead, condense_break ht, List.dropWhile_cons_of_pos (by simp [ht])]
  exact Nat.lt_succ_self _

end Below

/-! ### Even rules -/

def Reply.condense {α : Type} : Reply α → Reply α
  | .ok a r => .ok a r.condense
  | .error d r => .error d r.condense

/-- On the condensed stream the second rule does what the first one does on the stream. -/
def Matches {α : Type} (p q : Parse α) (s : Stream) : Prop :=
  q s.condense = (p s).condense

def Even {α : Type} (p : Parse α) : Prop :=
  ∀ s, Matches p p s

/-- The rule is even where the next token is no line break. -/
def EvenInLine {α : Type} (p : Parse α) : Prop :=
  ∀ s, s.peek.kind ≠ .newline → Matches p p s

namespace Matches

variable {α β : Type} {s : Stream}

theorem bind {p q : Parse α} {f g : α → Parse β} (hp : Matches p q s)
    (hf : ∀ a r, p s = .ok a r → Matches (f a) (g a) r) : Matches (p >>= f) (q >>= g) s := by
  cases h : p s with
  | ok a r =>
    have hq : q s.condense = .ok a r.condense := by rw [hp, h]; rfl
    rw [Matches, bind_of_ok hq, bind_of_ok h]
    exact hf a r h
  | error d r =>
    have hq : q s.condense = .error d r.condense := by rw [hp, h]; rfl
    rw [Matches, bind_of_error hq, bind_of_error h]
    rfl

theorem done (a : α) : Matches (Parse.done a) (Parse.done a) s :=
  rfl

theorem skipNewlines : Matches Parse.skipNewlines Parse.skipNewlines s := by
  rw [Matches, skipNewlines_apply, skipNewlines_apply, Stream.skipNewlines_condense]
  rfl

theorem peek_bind {f g : Token → Parse β} (hf : Matches (f s.peek) (g s.peek) s) :
    Matches (Parse.peek >>= f) (Parse.peek >>= g) s := by
  rw [Matches, bind_of_ok (peek_apply _), bind_of_ok (peek_apply _), Stream.peek_condense]
  exact hf

theorem advance_bind {f g : Token → Parse β} (hs : s.peek.kind ≠ .newline)
    (hf : Matches (f s.peek) (g s.peek) s.advance) :
    Matches (Parse.advance >>= f) (Parse.advance >>= g) s := by
  rw [Matches, bind_of_ok (advance_apply _), bind_of_ok (advance_apply _), Stream.peek_condense,
    Stream.advance_condense hs]
  exact hf

theorem accept_bind {kind : TokenKind} (hkind : kind ≠ .newline) {f g : Bool → Parse β}
    (hyes : s.peek.kind = kind → Matches (f true) (g true) s.advance)
    (hno : s.peek.kind ≠ kind → Matches (f false) (g false) s) :
    Matches (Parse.accept kind >>= f) (Parse.accept kind >>= g) s := by
  rw [Matches, bind_apply, bind_apply, Parse.accept, Parse.accept, Stream.peek_condense]
  by_cases hs : s.peek.kind = kind
  · rw [beq_iff_eq.mpr hs, Stream.advance_condense (by rwa [hs])]
    exact hyes hs
  · rw [beq_false_of_ne hs]
    exact hno hs

/-- A failure that took no token took none of the condensed ones, and the other way round. -/
theorem attempt {p : Parse α} (ht : Trails α p) (hs : s.peek.kind ≠ .newline)
    (hp : Matches p p s) : Matches (Parse.attempt p) (Parse.attempt p) s := by
  rw [Matches] at hp ⊢
  rw [Parse.attempt, Parse.attempt, hp]
  have hsuffix := (ht s).1
  cases h : p s with
  | ok a r => rfl
  | error d r =>
    rw [h] at hsuffix
    have hhead : ∀ t ∈ s.ahead.head?, t.kind ≠ .newline := by
      intro t ht
      rwa [Stream.peek, List.headD_eq_head?_getD, Option.mem_def.mp ht] at hs
    have hlength : r.condense.ahead.length = s.condense.ahead.length ↔
        r.ahead.length = s.ahead.length := length_condense_eq_iff hsuffix hhead
    simp only [Reply.condense, hlength]
    split
    · rfl
    · rfl

/-- Two loops with bounds of their own: it is enough to look at one round, and to know that on no
tokens the bound makes no difference. -/
theorem loop {ι : Type} {q : Nat → ι → Parse α} (hstop : ∀ i s, s.ahead = [] → q 0 i s = q 1 i s)
    (hround : ∀ n m i s, (∀ j r, Below r s → Matches (q n j) (q m j) r) →
      Matches (q (n + 1) i) (q (m + 1) i) s) {n m : Nat} (i : ι) (hn : s.ahead.length ≤ n)
    (hm : (condense s.ahead).length ≤ m) : Matches (q n i) (q m i) s := by
  have hnil : ∀ n m i s, s.ahead = [] → Matches (q n i) (q m i) s := by
    intro n m i s hs
    have hbound : ∀ k, ∃ l, q k i s = q (l + 1) i s := by
      intro k
      cases k with
      | zero => exact ⟨0, hstop i s hs⟩
      | succ k => exact ⟨k, rfl⟩
    obtain ⟨k, hk⟩ := hbound n
    obtain ⟨l, hl⟩ := hbound m
    have hone : Matches (q (k + 1) i) (q (l + 1) i) s :=
      hround k l i s fun j r hbelow => absurd hbelow.ahead (by simp [hs])
    rw [Matches, Stream.condense_of_nil hs] at hone ⊢
    rw [hl, hk, hone]
  induction n generalizing m i s with
  | zero => exact hnil 0 m i s (List.length_eq_zero_iff.mp (Nat.le_zero.mp hn))
  | succ n ih =>
    by_cases hs : s.ahead = []
    · exact hnil (n + 1) m i s hs
    · cases m with
      | zero =>
        have hempty := List.length_eq_zero_iff.mp (Nat.le_zero.mp hm)
        exact absurd (condense_eq_nil.mp hempty) hs
      | succ m =>
        refine hround n m i s fun j r hbelow => ih j ?_ ?_
        · have := hbelow.ahead
          omega
        · have := hbelow.condensed
          omega

/-- The bound of a loop is the number of tokens ahead, which is another one for condensed tokens. -/
theorem remaining {q : Nat → Parse α}
    (h : Matches (q s.ahead.length) (q (condense s.ahead).length) s) :
    Matches (Parse.remaining >>= q) (Parse.remaining >>= q) s :=
  h

end Matches

/-- The two rules match on every end of these tokens. -/
def MatchesOn {α : Type} (ts : List Token) (p q : Parse α) : Prop :=
  ∀ s, s.ahead <:+ ts → Matches p q s

namespace MatchesOn

variable {α β : Type} {ts : List Token}

theorem bind {p : Parse α} {f g : α → Parse β} (hp : Even p) (ht : Trails α p)
    (hf : ∀ a, MatchesOn ts (f a) (g a)) : MatchesOn ts (p >>= f) (p >>= g) :=
  fun s hs => (hp s).bind fun a r hr => hf a r ((ht.of_ok hr).1.trans hs)

/-- The rounds behind a token that was taken somewhere in this one. -/
theorem rounds {p q : Parse α} {s r : Stream} (hrounds : ∀ r, Below r s → Matches p q r)
    (hr : r.ahead <:+ s.ahead) (hend : r.peek.kind ≠ .endOfCode) (hline : r.peek.kind ≠ .newline) :
    MatchesOn r.advance.ahead p q :=
  fun r' hr' => hrounds r' ((Below.advance hend hline).mono hr' hr)

end MatchesOn

namespace EvenInLine

variable {α β : Type}

theorem bind {p : Parse α} {f : α → Parse β} (hp : EvenInLine p) (hf : ∀ a, Even (f a)) :
    EvenInLine (p >>= f) :=
  fun s hs => (hp s hs).bind fun a r _ => hf a r

theorem advance : EvenInLine Parse.advance := by
  intro s hs
  rw [Matches, advance_apply, advance_apply, Stream.peek_condense, Stream.advance_condense hs]
  rfl

theorem attempt {p : Parse α} (ht : Trails α p) (hp : EvenInLine p) :
    EvenInLine (Parse.attempt p) :=
  fun s hs => (hp s hs).attempt ht hs

theorem discard {p : Parse α} (hp : EvenInLine p) :
    EvenInLine (Functor.discard p : Parse Unit) :=
  hp.bind fun _ _ => Matches.done ()

end EvenInLine

namespace Even

variable {α β : Type}

theorem inLine {p : Parse α} (hp : Even p) : EvenInLine p :=
  fun s _ => hp s

theorem done (a : α) : Even (Parse.done a) :=
  fun _ => .done a

theorem bind {p : Parse α} {f : α → Parse β} (hp : Even p) (hf : ∀ a, Even (f a)) :
    Even (p >>= f) :=
  fun s => (hp s).bind fun a r _ => hf a r

theorem map {p : Parse α} (f : α → β) (hp : Even p) : Even (f <$> p) :=
  hp.bind fun a => done (f a)

theorem discard {p : Parse α} (hp : Even p) : Even (Functor.discard p : Parse Unit) :=
  hp.bind fun _ => done ()

theorem check (kind : TokenKind) : Even (Parse.check kind) := by
  intro s
  rw [Matches, check_apply, check_apply, Stream.peek_condense]
  rfl

/-- A token that is looked for is no line break. -/
theorem check_bind {kind : TokenKind} (hkind : kind ≠ .newline) {f : Bool → Parse α}
    (hyes : EvenInLine (f true)) (hno : Even (f false)) : Even (Parse.check kind >>= f) := by
  intro s
  refine (check kind s).bind fun found r hr => ?_
  cases hr
  cases hfound : s.peek.kind == kind with
  | true => exact hyes s (by rwa [beq_iff_eq.mp hfound])
  | false => exact hno s

theorem fail (fault : Fault) : Even (Parse.fail fault : Parse α) := by
  intro s
  rw [Matches, Parse.fail, Parse.fail, Stream.peek_condense]
  rfl

theorem unexpected : Even (Parse.unexpected : Parse α) := by
  intro s
  rw [Matches, Parse.unexpected, Parse.unexpected, Stream.peek_condense]
  rfl

theorem skipNewlines : Even Parse.skipNewlines :=
  fun _ => .skipNewlines

/-- Behind line breaks there is none. -/
theorem skip {p : Parse α} (hp : EvenInLine p) : Even (Parse.skipNewlines >>= fun _ => p) := by
  intro s
  refine Matches.skipNewlines.bind fun _ r hr => hp r ?_
  cases hr
  exact not_newline_of_skip s

theorem accept {kind : TokenKind} (hkind : kind ≠ .newline) : Even (Parse.accept kind) := by
  intro s
  rw [Matches, Parse.accept, Parse.accept, Stream.peek_condense]
  split
  · rename_i hs
    rw [Stream.advance_condense (by rwa [beq_iff_eq.mp hs])]
    rfl
  · rfl

theorem expect {kind : TokenKind} (hkind : kind ≠ .newline) (what : String) :
    Even (Parse.expect kind what) := by
  intro s
  rw [Matches, Parse.expect, Parse.expect, Stream.peek_condense]
  split
  · rename_i hs
    rw [Stream.advance_condense (by rwa [beq_iff_eq.mp hs])]
    rfl
  · exact fail (.expected what) s

/-- A loop whose bound is the number of tokens ahead. -/
theorem loop {ι : Type} {q : Nat → ι → Parse α} (hstop : ∀ i s, s.ahead = [] → q 0 i s = q 1 i s)
    (hround : ∀ n m i s, (∀ j r, Below r s → Matches (q n j) (q m j) r) →
      Matches (q (n + 1) i) (q (m + 1) i) s) (i : ι) : Even (Parse.remaining >>= fun n => q n i) :=
  fun _ => .remaining (.loop hstop hround i (Nat.le_refl _) (Nat.le_refl _))

theorem bind_remaining {q : Nat → Parse α} {f : α → Parse β} (hq : Even (Parse.remaining >>= q))
    (hf : ∀ a, Even (f a)) : Even (Parse.remaining >>= fun n => q n >>= f) := by
  rw [← bind_assoc]
  exact hq.bind hf

/-- Items in a list: a round ends with a comma or closes the list. -/
theorem separated {item : Parse α} (hi : Even item) (ht : Trails α item) (hhungry : Hungry item)
    {close : TokenKind} (hclose : close ≠ .newline) (what : String) :
    Even (Parse.remaining >>= Parse.separated item close what) := by
  refine loop (q := fun n (_ : Unit) => Parse.separated item close what n) ?_ ?_ ()
  · intro _ s hs
    show (item >>= _) s = (item >>= _) s
    cases hitem : item s with
    | ok a r => exact absurd hitem (hhungry s hs a r)
    | error d r => rw [bind_of_error hitem, bind_of_error hitem]
  · intro n m _ s hrounds
    refine (hi s).bind fun x r hr => Matches.skipNewlines.bind fun _ r' hr' => ?_
    cases hr'
    refine .accept_bind (by decide) (fun hcomma => ?_) fun _ =>
      (expect hclose what).discard.bind (fun _ => done [x]) _
    have hsuffix := (Trails.skipNewlines_suffix r).trans (ht.of_ok hr).1
    have hmore := MatchesOn.rounds (hrounds ()) hsuffix (by rw [hcomma]; decide)
      (by rw [hcomma]; decide)
    exact MatchesOn.bind skipNewlines Trails.closed.skipNewlines (fun _ r' hr' =>
      (hmore r' hr').bind fun more _ _ => .done (x :: more)) _ (List.suffix_refl _)

/-- Items with a token before each: a round takes the token or ends the loop. -/
theorem repeated {item : Parse α} (hi : Even item) (ht : Trails α item) {kind : TokenKind}
    (hline : kind ≠ .newline) (hend : kind ≠ .endOfCode) (f : α → β) {q : Nat → Parse (List β)}
    (hzero : q 0 = Parse.done [])
    (hsucc : ∀ n, q (n + 1) = do
      if ← Parse.accept kind then
        Parse.skipNewlines
        let x ← item
        return f x :: (← q n)
      else return []) : Even (Parse.remaining >>= q) := by
  refine loop (q := fun n (_ : Unit) => q n) ?_ ?_ ()
  · intro _ s hs
    have hmiss : s.peek.kind ≠ kind := by
      rw [peek_nil hs]
      exact hend.symm
    rw [hzero, hsucc, bind_apply, Parse.accept, beq_false_of_ne hmiss]
    rfl
  · intro n m _ s hrounds
    simp only [hsucc]
    refine .accept_bind hline (fun hkind => ?_) fun _ => .done []
    have hmore := MatchesOn.rounds (hrounds ()) (List.suffix_refl _) (by rwa [hkind])
      (by rwa [hkind])
    exact MatchesOn.bind skipNewlines Trails.closed.skipNewlines (fun _ =>
      .bind hi ht fun x r hr => (hmore r hr).bind fun more _ _ => .done (f x :: more)) _
      (List.suffix_refl _)

theorem enclosed {item : Parse α} (hi : Even item) (ht : Trails α item) (hhungry : Hungry item)
    {close : TokenKind} (hclose : close ≠ .newline) (what : String) :
    Even (Parse.enclosed item close what) := by
  refine skipNewlines.bind fun _ => (accept hclose).bind fun closed => ?_
  cases closed with
  | true => exact done []
  | false => exact separated hi ht hhungry hclose what

end Even

end ScriptEngine
