import Mathlib.Data.List.TakeWhile
import ScriptEngine.Proofs.ReadBackPieces

/-! # Parsing with more behind

A rule that succeeds does the same with a line break and more tokens behind those that it was given:
it looks past a line break only for a further arm or for the value of a return. The same goes for a
larger bound on the tokens ahead, with nothing more behind them. -/

namespace ScriptEngine

open Parse Grammar

/-! ### Streams with more behind -/

/-- The stream with more tokens behind those that are ahead. -/
def Stream.followedBy (s : Stream) (tail : List Token) : Stream :=
  { s with ahead := s.ahead ++ tail }

/-- The kind of the last token that is neither a line break nor the end of the code. -/
def lastKind (ts : List Token) : Option TokenKind :=
  (ts.filter fun t => t.kind != .newline && t.kind != .endOfCode).getLast?.map (·.kind)

/-- Nothing, or a line break and behind it and others anything but an arm. -/
structure Detached (tail : List Token) : Prop where
  line : ∀ t ∈ tail.head?, t.kind = .newline
  arm : ∀ t ∈ (tail.dropWhile (·.kind == .newline)).head?,
    t.kind ≠ .keyword .elseif_ ∧ t.kind ≠ .keyword .else_

theorem Detached.nil : Detached [] :=
  ⟨fun _ h => (by cases h), fun _ h => by cases h⟩

/-- No return at the end of the stream would take what follows for its value. -/
def Complete (tail : List Token) (s : Stream) : Prop :=
  tail = [] ∨ lastKind s.ahead ≠ some (.keyword .return_)

theorem lastKind_append (ts us : List Token) :
    lastKind (ts ++ us) = (lastKind us).or (lastKind ts) := by
  unfold lastKind
  rw [List.filter_append, List.getLast?_append, Option.map_or]

section Streams

variable {tail : List Token} {s r : Stream}

theorem Complete.suffix (h : Complete tail s) (hr : r.ahead <:+ s.ahead) : Complete tail r := by
  rcases h with h | h
  · exact .inl h
  · obtain ⟨front, hfront⟩ := hr
    refine .inr fun hlast => h ?_
    rw [← hfront, lastKind_append, hlast]
    rfl

theorem followedBy_nil (s : Stream) : s.followedBy [] = s := by
  simp only [Stream.followedBy, List.append_nil]

theorem length_followedBy (s : Stream) (tail : List Token) :
    (s.followedBy tail).ahead.length = s.ahead.length + tail.length :=
  List.length_append

theorem peek_followedBy (hs : s.ahead ≠ []) : (s.followedBy tail).peek = s.peek := by
  obtain ⟨ahead, finish⟩ := s
  cases ahead with
  | nil => exact absurd rfl hs
  | cons t ts => rfl

theorem advance_followedBy (hs : s.ahead ≠ []) :
    (s.followedBy tail).advance = s.advance.followedBy tail := by
  obtain ⟨ahead, finish⟩ := s
  cases ahead with
  | nil => exact absurd rfl hs
  | cons t ts => rfl

theorem advance_apply_followedBy (hs : s.ahead ≠ []) :
    Parse.advance (s.followedBy tail) = .ok s.peek (s.advance.followedBy tail) := by
  rw [advance_apply, peek_followedBy hs, advance_followedBy hs]

theorem dropWhile_append_of_ne {p : Token → Bool} {ts us : List Token}
    (h : ts.dropWhile p ≠ []) : (ts ++ us).dropWhile p = ts.dropWhile p ++ us := by
  rw [List.dropWhile_append, if_neg (by simpa using h)]

theorem dropWhile_append_of_eq {p : Token → Bool} {ts us : List Token}
    (h : ts.dropWhile p = []) : (ts ++ us).dropWhile p = us.dropWhile p := by
  rw [List.dropWhile_append, if_pos (by simpa using h)]

theorem skipNewlines_followedBy (hs : s.skipNewlines.ahead ≠ []) :
    (s.followedBy tail).skipNewlines = s.skipNewlines.followedBy tail := by
  have hahead : (s.ahead ++ tail).dropWhile (·.kind == .newline) =
      s.ahead.dropWhile (·.kind == .newline) ++ tail := dropWhile_append_of_ne hs
  simp only [Stream.skipNewlines, Stream.followedBy, hahead]

/-- A token that is seen is there to be taken. -/
theorem ahead_of_seen {kind : TokenKind} (hend : kind ≠ .endOfCode)
    (hseen : (s.peek.kind == kind) = true) : s.ahead ≠ [] := by
  refine ahead_ne_nil ?_
  rw [beq_iff_eq.mp hseen]
  exact hend

theorem ahead_of_bound (hs : s.ahead.length ≤ 0) : s.ahead = [] :=
  List.length_eq_zero_iff.mp (Nat.le_zero.mp hs)

theorem peek_nil (hs : s.ahead = []) : s.peek.kind = .endOfCode := by
  rw [Stream.peek, hs]
  rfl

theorem skipNewlines_nil (hs : s.ahead = []) : s.skipNewlines = s := by
  obtain ⟨ahead, finish⟩ := s
  cases hs
  rfl

/-- A token that only line breaks follow is the last one. -/
theorem lastKind_of_skip {kind : TokenKind} (hkind : s.peek.kind = kind) (hend : kind ≠ .endOfCode)
    (hline : kind ≠ .newline) (hnil : s.advance.skipNewlines.ahead = []) :
    lastKind s.ahead = some kind := by
  obtain ⟨t, hlast, hahead⟩ := ahead_of_peek hend hkind
  have hlines : ∀ u ∈ s.advance.ahead, (u.kind == TokenKind.newline) = true :=
    List.dropWhile_eq_nil_iff.mp hnil
  have hrest : s.advance.ahead.filter
      (fun u => u.kind != .newline && u.kind != .endOfCode) = [] := by
    refine List.filter_eq_nil_iff.mpr fun u hu => ?_
    rw [bne, hlines u hu]
    exact Bool.false_ne_true
  have hkeep : (t.kind != .newline && t.kind != .endOfCode) = true := by
    rw [hlast, bne_iff_ne.mpr hline, bne_iff_ne.mpr hend]
    rfl
  rw [hahead, lastKind, List.filter_cons, if_pos hkeep, hrest, ← hlast]
  rfl

/-- At the end of the tokens the next one is a line break, unless there is none. -/
theorem peek_end (ht : Detached tail) (hs : s.ahead = []) :
    (s.followedBy tail).peek.kind = .newline ∨ (s.followedBy tail).peek.kind = .endOfCode := by
  obtain ⟨ahead, finish⟩ := s
  cases hs
  cases tail with
  | nil => exact .inr rfl
  | cons t ts => exact .inl (ht.line t rfl)

/-- What the kind of the next token is not, it does not become. -/
theorem peek_keeps (ht : Detached tail) {P : TokenKind → Prop} (hline : P .newline)
    (hend : P .endOfCode) (hs : P s.peek.kind) : P (s.followedBy tail).peek.kind := by
  by_cases hnil : s.ahead = []
  · rcases peek_end ht hnil with hpeek | hpeek
    · rw [hpeek]
      exact hline
    · rw [hpeek]
      exact hend
  · rw [peek_followedBy hnil]
    exact hs

/-- At the end of the tokens such a token does not follow. -/
theorem peek_ne_end (ht : Detached tail) (hnil : s.ahead = []) {kind : TokenKind}
    (hline : TokenKind.newline ≠ kind) (hend : TokenKind.endOfCode ≠ kind) :
    (s.followedBy tail).peek.kind ≠ kind := by
  refine peek_keeps ht (P := (· ≠ kind)) hline hend ?_
  rw [peek_nil hnil]
  exact hend

end Streams

/-! ### Rules that do the same -/

section Stability

variable {α β : Type} {tail : List Token} {k : Nat}

/-- With the tail behind, the second rule does what the first one does, if that succeeds. -/
def Extends (tail : List Token) (p q : Parse α) (s : Stream) : Prop :=
  ∀ a r, p s = .ok a r →
    r.ahead <:+ s.ahead ∧ q (s.followedBy tail) = .ok a (r.followedBy tail)

/-- The rules do the same on at most `k` tokens, whatever they leave. -/
def Stable (tail : List Token) (k : Nat) (p q : Parse α) : Prop :=
  ∀ s, s.ahead.length ≤ k → Complete tail s → Extends tail p q s

/-- The rules do the same on at most `k` tokens if they leave one of them. -/
def StableInside (tail : List Token) (k : Nat) (p q : Parse α) : Prop :=
  ∀ s a r, s.ahead.length ≤ k → Complete tail s → p s = .ok a r →
    r.ahead <:+ s.ahead ∧ (r.ahead ≠ [] → q (s.followedBy tail) = .ok a (r.followedBy tail))

/-- The rule does not succeed at the end of the tokens. -/
def Hungry (p : Parse α) : Prop :=
  ∀ s, s.ahead = [] → ∀ a r, p s ≠ .ok a r

/-- Where the rule succeeds it takes a token. -/
def Takes (p : Parse α) : Prop :=
  ∀ s a r, p s = .ok a r → r.ahead.length < s.ahead.length

/-- At least one token is ahead and at most `k`. -/
structure Ready (tail : List Token) (k : Nat) (s : Stream) : Prop where
  nonempty : s.ahead ≠ []
  length : s.ahead.length ≤ k
  complete : Complete tail s

theorem Ready.succ {s : Stream} (hr : Ready tail k s) : Ready tail (k + 1) s :=
  ⟨hr.nonempty, Nat.le_succ_of_le hr.length, hr.complete⟩

theorem ne_nil_of_suffix {ts us : List Token} (h : us <:+ ts) (hus : us ≠ []) : ts ≠ [] :=
  fun hts => hus (List.suffix_nil.mp (hts ▸ h))

namespace Hungry

theorem bind {p : Parse α} (hp : Hungry p) (f : α → Parse β) : Hungry (p >>= f) := by
  intro s hs b r h
  obtain ⟨a, r₁, ha, -⟩ := bind_eq_ok h
  exact hp s hs a r₁ ha

theorem after {p : Parse α} {f : α → Parse β} (hp : Trails α p) (hf : ∀ a, Hungry (f a)) :
    Hungry (p >>= f) := by
  intro s hs b r h
  obtain ⟨a, r₁, ha, hb⟩ := bind_eq_ok h
  have hsuffix : r₁.ahead <:+ s.ahead := (hp.of_ok ha).1
  exact hf a r₁ (List.suffix_nil.mp (hs ▸ hsuffix)) b r hb

theorem check {kind : TokenKind} (hkind : kind ≠ .endOfCode) {f : Bool → Parse β}
    (hf : Hungry (f false)) : Hungry (check kind >>= f) := by
  intro s hs b r h
  have hfalse : (s.peek.kind == kind) = false := by
    rw [peek_nil hs]
    exact beq_false_of_ne hkind.symm
  rw [bind_of_ok (check_apply kind s), hfalse] at h
  exact hf s hs b r h

theorem accept {kind : TokenKind} (hkind : kind ≠ .endOfCode) {f : Bool → Parse β}
    (hf : Hungry (f false)) : Hungry (accept kind >>= f) := by
  intro s hs b r h
  have hmiss : Parse.accept kind s = .ok false s := by
    rw [Parse.accept, peek_nil hs, beq_false_of_ne hkind.symm]
    rfl
  rw [bind_of_ok hmiss] at h
  exact hf s hs b r h

theorem expect {kind : TokenKind} (hkind : kind ≠ .endOfCode) (what : String) :
    Hungry (expect kind what) := by
  intro s hs t r h
  rw [Parse.expect, peek_nil hs, beq_false_of_ne hkind.symm] at h
  cases h

theorem discard {p : Parse α} (hp : Hungry p) : Hungry (discard p : Parse Unit) :=
  hp.bind _

theorem map {p : Parse α} (hp : Hungry p) (f : α → β) : Hungry (f <$> p) :=
  hp.bind _

theorem skip {p : Parse α} (hp : Hungry p) : Hungry (skipNewlines >>= fun _ => p) :=
  after Trails.closed.skipNewlines fun _ => hp

end Hungry

namespace Takes

theorem expect {kind : TokenKind} (hkind : kind ≠ .endOfCode) (what : String) :
    Takes (expect kind what) := by
  intro s t r h
  unfold Parse.expect at h
  split at h
  · rename_i hpeek
    cases h
    exact Bites.advance_lt (ahead_of_seen hkind hpeek)
  · cases h

theorem discard {p : Parse α} (hp : Takes p) : Takes (discard p : Parse Unit) := by
  intro s u r h
  obtain ⟨a, r₁, ha, hdone⟩ := bind_eq_ok h
  cases hdone
  exact hp s a _ ha

end Takes

namespace Stable

theorem mono {p q : Parse α} {j : Nat} (hp : Stable tail k p q) (hjk : j ≤ k) :
    Stable tail j p q :=
  fun s hs => hp s (Nat.le_trans hs hjk)

theorem inside {p q : Parse α} (hp : Stable tail k p q) : StableInside tail k p q := by
  intro s a r hs hcomplete h
  obtain ⟨hsuffix, hq⟩ := hp s hs hcomplete a r h
  exact ⟨hsuffix, fun _ => hq⟩

theorem done (a : α) : Stable tail k (Parse.done a) (Parse.done a) := by
  intro s _ _ b r h
  cases h
  exact ⟨List.suffix_refl _, rfl⟩

theorem never {p q : Parse α} (hp : ∀ s a r, p s ≠ .ok a r) : Stable tail k p q :=
  fun s _ _ a r h => absurd h (hp s a r)

/-- What follows a rule sees as many tokens as its result tells. -/
theorem bindAt {p q : Parse α} {f g : α → Parse β} (hp : Stable tail k p q) {left : α → Nat}
    (hleft : ∀ s a r, s.ahead.length ≤ k → r.ahead <:+ s.ahead → p s = .ok a r →
      r.ahead.length ≤ left a)
    (hf : ∀ a, Stable tail (left a) (f a) (g a)) : Stable tail k (p >>= f) (q >>= g) := by
  intro s hs hcomplete b r h
  obtain ⟨a, r₁, ha, hb⟩ := bind_eq_ok h
  obtain ⟨hsuffix, hq⟩ := hp s hs hcomplete a r₁ ha
  obtain ⟨hsuffix', hg⟩ := hf a r₁ (hleft s a r₁ hs hsuffix ha) (hcomplete.suffix hsuffix) b r hb
  exact ⟨hsuffix'.trans hsuffix, (bind_of_ok hq).trans hg⟩

theorem bind {p q : Parse α} {f g : α → Parse β} (hp : Stable tail k p q)
    (hf : ∀ a, Stable tail k (f a) (g a)) : Stable tail k (p >>= f) (q >>= g) :=
  hp.bindAt (fun _ _ _ hs hsuffix _ => Nat.le_trans hsuffix.length_le hs) hf

theorem bindTaken {p q : Parse α} {f g : α → Parse β} (hp : Stable tail (k + 1) p q)
    (htakes : Takes p) (hf : ∀ a, Stable tail k (f a) (g a)) :
    Stable tail (k + 1) (p >>= f) (q >>= g) := by
  refine hp.bindAt (fun s a r hs _ ha => ?_) hf
  have hlt := htakes s a r ha
  omega

theorem map {p q : Parse α} (hp : Stable tail k p q) (f : α → β) :
    Stable tail k (f <$> p) (f <$> q) :=
  hp.bind fun _ => done _

theorem discard {p q : Parse α} (hp : Stable tail k p q) :
    Stable tail k (discard p : Parse Unit) (discard q) :=
  hp.bind fun _ => done _

theorem check (ht : Detached tail) {kind : TokenKind} (hend : kind ≠ .endOfCode)
    (hline : kind ≠ .newline) : Stable tail k (check kind) (check kind) := by
  intro s _ _ b r h
  cases h
  refine ⟨List.suffix_refl _, ?_⟩
  by_cases hs : s.ahead = []
  · have hhere : (s.peek.kind == kind) = false := by
      rw [peek_nil hs]
      exact beq_false_of_ne hend.symm
    have hthere : ((s.followedBy tail).peek.kind == kind) = false := by
      rcases peek_end ht hs with hpeek | hpeek
      · rw [hpeek]
        exact beq_false_of_ne hline.symm
      · rw [hpeek]
        exact beq_false_of_ne hend.symm
    rw [check_apply, hthere, hhere]
  · rw [check_apply, peek_followedBy hs]

theorem accept (ht : Detached tail) {kind : TokenKind} (hend : kind ≠ .endOfCode)
    (hline : kind ≠ .newline) : Stable tail k (accept kind) (accept kind) := by
  intro s hs hcomplete b r h
  have hcheck := (check ht hend hline s hs hcomplete _ s (check_apply kind s)).2
  rw [check_apply, Reply.ok.injEq] at hcheck
  unfold Parse.accept at h ⊢
  rw [hcheck.1]
  split at h
  · rename_i hpeek
    cases h
    rw [if_pos hpeek, advance_followedBy (ahead_of_seen hend hpeek)]
    exact ⟨Trails.advance_suffix s, rfl⟩
  · rename_i hpeek
    cases h
    rw [if_neg hpeek]
    exact ⟨List.suffix_refl _, rfl⟩

/-- A token that is taken leaves fewer of them; one that is not leaves all. -/
theorem acceptBind (ht : Detached tail) {kind : TokenKind} (hend : kind ≠ .endOfCode)
    (hline : kind ≠ .newline) {f g : Bool → Parse β} (htrue : Stable tail k (f true) (g true))
    (hfalse : Stable tail (k + 1) (f false) (g false)) :
    Stable tail (k + 1) (Parse.accept kind >>= f) (Parse.accept kind >>= g) := by
  have hleft : ∀ s b r, s.ahead.length ≤ k + 1 → r.ahead <:+ s.ahead →
      Parse.accept kind s = .ok b r → r.ahead.length ≤ if b then k else k + 1 := by
    intro s b r hs _ h
    unfold Parse.accept at h
    split at h
    · rename_i hpeek
      cases h
      have hlt := Bites.advance_lt (ahead_of_seen hend hpeek)
      rw [if_pos rfl]
      omega
    · cases h
      exact hs
  refine (accept ht hend hline).bindAt hleft fun b => ?_
  cases b with
  | true => exact htrue
  | false => exact hfalse

theorem expect {kind : TokenKind} (hend : kind ≠ .endOfCode) (what : String) :
    Stable tail k (Parse.expect kind what) (Parse.expect kind what) := by
  intro s _ _ t r h
  unfold Parse.expect at h
  split at h
  · rename_i hpeek
    cases h
    have hne := ahead_of_seen hend hpeek
    refine ⟨Trails.advance_suffix s, ?_⟩
    rw [Parse.expect, peek_followedBy hne, if_pos hpeek, advance_followedBy hne]
  · cases h

/-- What looks at the next token does the same at the end, where that is a line break. -/
theorem peekBind (ht : Detached tail) {f g : Token → Parse β}
    (hf : ∀ s, Ready tail k s → Extends tail (f s.peek) (g s.peek) s)
    (hend : ∀ t u : Token, t.kind = .endOfCode → u.kind = .newline ∨ u.kind = .endOfCode →
      Stable tail k (f t) (g u)) : Stable tail k (peek >>= f) (peek >>= g) := by
  intro s hs hcomplete b r h
  rw [bind_of_ok (peek_apply s)] at h
  rw [bind_of_ok (peek_apply _)]
  by_cases hnil : s.ahead = []
  · exact hend _ _ (peek_nil hnil) (peek_end ht hnil) s hs hcomplete b r h
  · rw [peek_followedBy hnil]
    exact hf s ⟨hnil, hs, hcomplete⟩ b r h

/-- What is done about a token that is seen may count on it. -/
theorem checkBind (ht : Detached tail) {kind : TokenKind} (hend : kind ≠ .endOfCode)
    (hline : kind ≠ .newline) {f g : Bool → Parse β}
    (htrue : ∀ s, Ready tail k s → Extends tail (f true) (g true) s)
    (hfalse : Stable tail k (f false) (g false)) :
    Stable tail k (Parse.check kind >>= f) (Parse.check kind >>= g) := by
  intro s hs hcomplete b r h
  have hthere := (check ht hend hline s hs hcomplete _ s (check_apply kind s)).2
  rw [bind_of_ok (check_apply kind s)] at h
  rw [bind_of_ok hthere]
  cases hkind : s.peek.kind == kind with
  | true =>
    rw [hkind] at h
    exact htrue s ⟨ahead_of_seen hend hkind, hs, hcomplete⟩ b r h
  | false =>
    rw [hkind] at h
    exact hfalse s hs hcomplete b r h

/-- A loop that is bounded by the tokens ahead. -/
theorem remainingBind {f g : Nat → Parse β}
    (hf : ∀ n n', n ≤ k → n ≤ n' → Stable tail n (f n) (g n')) :
    Stable tail k (remaining >>= f) (remaining >>= g) := by
  intro s hs hcomplete b r h
  rw [bind_of_ok (remaining_apply s)] at h
  rw [bind_of_ok (remaining_apply _), length_followedBy]
  exact hf _ _ hs (Nat.le_add_right _ _) s (Nat.le_refl _) hcomplete b r h

end Stable

namespace StableInside

theorem skipNewlines : StableInside tail k skipNewlines skipNewlines := by
  intro s a r _ _ h
  cases h
  refine ⟨Trails.skipNewlines_suffix s, fun hne => ?_⟩
  rw [Parse.skipNewlines, skipNewlines_followedBy hne]

theorem peek : StableInside tail k peek peek := by
  intro s a r _ _ h
  cases h
  refine ⟨List.suffix_refl _, fun hne => ?_⟩
  rw [Parse.peek, peek_followedBy hne]

theorem advance : StableInside tail k advance advance := by
  intro s a r _ _ h
  cases h
  have hsuffix := Trails.advance_suffix s
  refine ⟨hsuffix, fun hne => ?_⟩
  exact advance_apply_followedBy (ne_nil_of_suffix hsuffix hne)

theorem bind {p q : Parse α} {f g : α → Parse β} (hp : StableInside tail k p q)
    (hf : ∀ a, StableInside tail k (f a) (g a)) : StableInside tail k (p >>= f) (q >>= g) := by
  intro s b r hs hcomplete h
  obtain ⟨a, r₁, ha, hb⟩ := bind_eq_ok h
  obtain ⟨hsuffix, hq⟩ := hp s a r₁ hs hcomplete ha
  have hr₁ : r₁.ahead.length ≤ k := Nat.le_trans hsuffix.length_le hs
  obtain ⟨hsuffix', hg⟩ := hf a r₁ b r hr₁ (hcomplete.suffix hsuffix) hb
  refine ⟨hsuffix'.trans hsuffix, fun hne => ?_⟩
  exact (bind_of_ok (hq (ne_nil_of_suffix hsuffix' hne))).trans (hg hne)

theorem remainingBind {f g : Nat → Parse β}
    (hf : ∀ n n', n ≤ k → n ≤ n' → StableInside tail n (f n) (g n')) :
    StableInside tail k (remaining >>= f) (remaining >>= g) := by
  intro s b r hs hcomplete h
  rw [bind_of_ok (remaining_apply s)] at h
  rw [bind_of_ok (remaining_apply _), length_followedBy]
  exact hf _ _ hs (Nat.le_add_right _ _) s b r (Nat.le_refl _) hcomplete h

/-- What follows needs a token, so that one is left for it. -/
theorem bindHungry {p q : Parse α} {f g : α → Parse β} (hp : StableInside tail k p q)
    (hf : ∀ a, Stable tail k (f a) (g a)) (hhungry : ∀ a, Hungry (f a)) :
    Stable tail k (p >>= f) (q >>= g) := by
  intro s hs hcomplete b r h
  obtain ⟨a, r₁, ha, hb⟩ := bind_eq_ok h
  obtain ⟨hsuffix, hq⟩ := hp s a r₁ hs hcomplete ha
  have hr₁ : r₁.ahead.length ≤ k := Nat.le_trans hsuffix.length_le hs
  obtain ⟨hsuffix', hg⟩ := hf a r₁ hr₁ (hcomplete.suffix hsuffix) b r hb
  have hne : r₁.ahead ≠ [] := fun hnil => hhungry a r₁ hnil b r hb
  exact ⟨hsuffix'.trans hsuffix, (bind_of_ok (hq hne)).trans hg⟩

end StableInside

theorem Stable.skip {p q : Parse α} (hp : Stable tail k p q) (hhungry : Hungry p) :
    Stable tail k (skipNewlines >>= fun _ => p) (skipNewlines >>= fun _ => q) :=
  StableInside.skipNewlines.bindHungry (fun _ => hp) fun _ => hhungry

namespace Extends

theorem advance {f g : Token → Parse β} {s : Stream} (hr : Ready tail (k + 1) s)
    (hf : ∀ t, Stable tail k (f t) (g t)) :
    Extends tail (Parse.advance >>= f) (Parse.advance >>= g) s := by
  intro b r h
  rw [bind_of_ok (advance_apply s)] at h
  rw [bind_of_ok (advance_apply_followedBy hr.nonempty)]
  have hlength : s.advance.ahead.length ≤ k :=
    Nat.le_of_lt_succ (Nat.lt_of_lt_of_le (Bites.advance_lt hr.nonempty) hr.length)
  have hsuffix := Trails.advance_suffix s
  obtain ⟨hsuffix', hg⟩ := hf _ s.advance hlength (hr.complete.suffix hsuffix) b r h
  exact ⟨hsuffix'.trans hsuffix, hg⟩

theorem discardAdvance {f g : Unit → Parse β} {s : Stream} (hr : Ready tail (k + 1) s)
    (hf : Stable tail k (f ()) (g ())) :
    Extends tail (discard Parse.advance >>= f) (discard Parse.advance >>= g) s := by
  rw [discard_bind, discard_bind]
  exact advance hr fun _ => hf

end Extends

end Stability

end ScriptEngine
