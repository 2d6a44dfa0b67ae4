import ScriptEngine.Proofs.ParserExtension
import ScriptEngine.Proofs.UnboundedGrammar

/-! # Following a bounded rule

A rule without bounds *follows* a bounded one if from every cursor within the code it ends, stays
there, and gives what the bounded rule gives for the tokens ahead. The steps on single tokens follow
each other, and so does what is put together from rules that do. A token that was taken is not ahead
any more: behind it rules are enough that follow on fewer tokens, and for a loop it is enough to
look at one round. -/

namespace ScriptEngine

open Parse Grammar

/-! ### The code on a tape -/

namespace Tape

variable (tape : Tape)

/-- How many tokens there are before the first end of code. -/
def finish : Nat :=
  tape.tokens.findIdx (·.kind == .endOfCode)

theorem finish_lt : tape.finish < tape.tokens.length := by
  obtain ⟨t, ht, hkind⟩ := Option.map_eq_some_iff.mp tape.ended
  exact List.findIdx_lt_length_of_exists ⟨t, List.mem_of_getLast? ht, by simp [hkind]⟩

/-- The tokens from a place on. -/
def stream (i : Nat) : Stream :=
  { ahead := (tape.tokens.take tape.finish).drop i
    finish := (tape.read tape.finish).position }

theorem length_stream (i : Nat) : (tape.stream i).ahead.length = tape.finish - i := by
  have hlt := tape.finish_lt
  simp only [stream, List.length_drop, List.length_take]
  omega

theorem read_eq {i : Nat} (hi : i < tape.tokens.length) :
    tape.read i = if tape.tokens[i].kind = .endOfCode then { tape.tokens[i] with lexeme := "" }
      else tape.tokens[i] := by
  have hmin : min i (tape.tokens.length - 1) = i := by omega
  simp only [read, List.get_eq_getElem, hmin]

theorem kind_read_lt {i : Nat} (hi : i < tape.finish) : (tape.read i).kind ≠ .endOfCode := by
  have hlen : i < tape.tokens.length := Nat.lt_trans hi tape.finish_lt
  have hkind := List.not_of_lt_findIdx hi
  rw [read_eq tape hlen]
  split <;> simp_all

theorem kind_read_finish : (tape.read tape.finish).kind = .endOfCode := by
  have hlt := tape.finish_lt
  have hkind : tape.tokens[tape.finish].kind = .endOfCode :=
    beq_iff_eq.mp (List.findIdx_getElem (w := hlt))
  rw [read_eq tape hlt, if_pos hkind]
  exact hkind

theorem kind_read_iff {i : Nat} (hi : i ≤ tape.finish) :
    (tape.read i).kind = .endOfCode ↔ i = tape.finish := by
  constructor
  · intro hkind
    rcases Nat.lt_or_eq_of_le hi with hlt | heq
    · exact absurd hkind (kind_read_lt tape hlt)
    · exact heq
  · rintro rfl
    exact kind_read_finish tape

theorem ahead_stream {i : Nat} (hi : i < tape.finish) :
    (tape.stream i).ahead = tape.read i :: (tape.stream (i + 1)).ahead := by
  have hlen : i < tape.tokens.length := Nat.lt_trans hi tape.finish_lt
  have hkind := List.not_of_lt_findIdx hi
  have hread : tape.read i = tape.tokens[i] := by
    rw [read_eq tape hlen]
    split <;> simp_all
  have hdrop : i < (tape.tokens.take tape.finish).length := by
    rw [List.length_take]
    omega
  simp only [stream]
  rw [List.drop_eq_getElem_cons hdrop, List.getElem_take, hread]

theorem ahead_finish : (tape.stream tape.finish).ahead = [] := by
  apply List.eq_nil_of_length_eq_zero
  rw [length_stream, Nat.sub_self]

theorem peek_stream {i : Nat} (hi : i ≤ tape.finish) : (tape.stream i).peek = tape.read i := by
  rcases Nat.lt_or_eq_of_le hi with hlt | rfl
  · rw [Stream.peek, ahead_stream tape hlt]
    rfl
  · have hlexeme : (tape.read tape.finish).lexeme = "" := by
      have hkind := kind_read_finish tape
      rw [read_eq tape tape.finish_lt] at hkind ⊢
      split <;> simp_all
    have htoken : tape.read tape.finish =
        ⟨.endOfCode, "", (tape.read tape.finish).position⟩ := by
      rw [← kind_read_finish tape, ← hlexeme]
    rw [Stream.peek, ahead_finish, htoken]
    rfl

theorem advance_stream {i : Nat} (hi : i < tape.finish) :
    (tape.stream i).advance = tape.stream (i + 1) := by
  have hahead := ahead_stream tape hi
  simp only [Stream.advance, hahead, List.tail_cons]
  rfl

theorem advance_finish : (tape.stream tape.finish).advance = tape.stream tape.finish := by
  have hahead := ahead_finish tape
  simp only [Stream.advance, hahead, List.tail_nil]
  rw [← hahead]

end Tape

/-! ### Following a bounded rule -/

/-- How a computation ends from a cursor; none if it does not end. -/
def outcome {α : Type} (u : Walk α) (c : Cursor) : Option (Except Diagnostic α × Cursor) :=
  u.run.run c

def replied {α : Type} (rest : Stream) : Except Diagnostic α → Reply α
  | .ok a => .ok a rest
  | .error d => .error d rest

/-- The cursor is and has always been before the first end of code or at it. -/
structure Tape.Covers (tape : Tape) (c : Cursor) : Prop where
  reached : c.current ≤ c.furthest
  furthest : c.furthest ≤ tape.finish

theorem Tape.Covers.current {tape : Tape} {c : Cursor} (hc : tape.Covers c) :
    c.current ≤ tape.finish :=
  Nat.le_trans hc.reached hc.furthest

/-- From the cursor on the unbounded rule ends and does not go back, within the code, and the
bounded rule replies the same. -/
def FollowsAt (tape : Tape) {α : Type} (u : Walk α) (p : Parse α) (c : Cursor) : Prop :=
  ∃ result c', outcome u c = some (result, c') ∧ tape.Covers c' ∧ c.current ≤ c'.current ∧
    p (tape.stream c.current) = replied (tape.stream c'.current) result

/-- The unbounded rule follows the bounded one where fewer than `n` tokens are ahead. -/
def Follows (tape : Tape) (n : Nat) {α : Type} (u : Walk α) (p : Parse α) : Prop :=
  ∀ c, tape.Covers c → tape.finish - c.current < n → FollowsAt tape u p c

section Outcome

variable {α β : Type} {x : Walk α} {f : α → Walk β} {c c' : Cursor}

theorem outcome_bind_ok {a : α} (h : outcome x c = some (.ok a, c')) :
    outcome (x >>= f) c = outcome (f a) c' := by
  simp only [outcome, ExceptT.run_bind, StateT.run_bind] at h ⊢
  rw [h]
  rfl

theorem outcome_bind_error {d : Diagnostic} (h : outcome x c = some (.error d, c')) :
    outcome (x >>= f) c = some (.error d, c') := by
  simp only [outcome, ExceptT.run_bind, StateT.run_bind] at h ⊢
  rw [h]
  rfl

theorem Walk.discard_bind (f : Unit → Walk β) :
    (discard x >>= f) = (x >>= fun _ => f ()) := by
  simp [discard, Functor.discard, LawfulFunctor.map_const]

end Outcome

namespace FollowsAt

variable {tape : Tape} {α β : Type} {u : Walk α} {p : Parse α} {f : α → Walk β} {g : α → Parse β}
  {c : Cursor}

theorem done (a : α) (hc : tape.Covers c) : FollowsAt tape (pure a) (pure a) c :=
  ⟨.ok a, c, rfl, hc, Nat.le_refl _, rfl⟩

theorem bind (hu : FollowsAt tape u p c)
    (hf : ∀ a c', tape.Covers c' → c.current ≤ c'.current → FollowsAt tape (f a) (g a) c') :
    FollowsAt tape (u >>= f) (p >>= g) c := by
  obtain ⟨result, c', hu, hc', hle, hp⟩ := hu
  cases result with
  | error d =>
    refine ⟨.error d, c', outcome_bind_error hu, hc', hle, ?_⟩
    rw [bind_of_error hp]
    rfl
  | ok a =>
    obtain ⟨result, c'', hf, hc'', hle', hg⟩ := hf a c' hc' hle
    refine ⟨result, c'', ?_, hc'', Nat.le_trans hle hle', ?_⟩
    · rw [outcome_bind_ok hu, hf]
    · rw [bind_of_ok hp, hg]

/-! ### Tokens -/

theorem outcome_peek (c : Cursor) :
    outcome (Tape.peek tape) c = some (.ok (tape.read c.current), c) :=
  rfl

theorem outcome_check (kind : TokenKind) (c : Cursor) :
    outcome (Tape.check tape kind) c = some (.ok ((tape.read c.current).kind == kind), c) :=
  rfl

theorem check (kind : TokenKind) (hc : tape.Covers c) :
    FollowsAt tape (Tape.check tape kind) (Parse.check kind) c := by
  refine ⟨.ok ((tape.read c.current).kind == kind), c, outcome_check kind c, hc, Nat.le_refl _, ?_⟩
  rw [check_apply, tape.peek_stream hc.current]
  rfl

/-- Taking a token: the cursor moves unless it is at the end of the code. -/
theorem outcome_advance (hc : tape.Covers c) :
    ∃ c', outcome (Tape.advance tape) c = some (.ok (tape.read c.current), c') ∧
      tape.Covers c' ∧ c'.current = min (c.current + 1) tape.finish ∧
      (tape.stream c.current).advance = tape.stream c'.current := by
  by_cases hkind : (tape.read c.current).kind = .endOfCode
  · have hend := (tape.kind_read_iff hc.current).mp hkind
    refine ⟨c, ?_, hc, by omega, ?_⟩
    · rw [Tape.advance, outcome_bind_ok (outcome_peek c), if_pos hkind]
      rfl
    · rw [hend, tape.advance_finish]
  · have hlt : c.current < tape.finish := by
      have := mt (tape.kind_read_iff hc.current).mpr hkind
      have := hc.current
      omega
    refine ⟨c.next, ?_, ⟨Nat.le_max_right _ _, ?_⟩, ?_, tape.advance_stream hlt⟩
    · rw [Tape.advance, outcome_bind_ok (outcome_peek c), if_neg hkind]
      rfl
    · exact Nat.max_le.mpr ⟨hc.furthest, hlt⟩
    · show c.current + 1 = _
      omega

/-- What a rule does from a cursor on is what another one does from a later cursor on. -/
theorem shift {v : Walk α} {q : Parse α} {c' : Cursor} (hle : c.current ≤ c'.current)
    (hu : outcome u c = outcome v c')
    (hp : p (tape.stream c.current) = q (tape.stream c'.current)) (h : FollowsAt tape v q c') :
    FollowsAt tape u p c := by
  obtain ⟨result, c'', hv, hc'', hle', hq⟩ := h
  refine ⟨result, c'', ?_, hc'', Nat.le_trans hle hle', ?_⟩
  · rw [hu, hv]
  · rw [hp, hq]

theorem of_bind (h : FollowsAt tape (u >>= pure) (p >>= pure) c) : FollowsAt tape u p c := by
  refine shift (Nat.le_refl _) ?_ ?_ h
  · rw [bind_pure]
  · rw [bind_apply]
    cases p (tape.stream c.current) <;> rfl

theorem advance_bind {f : Token → Walk β} {g : Token → Parse β} (hc : tape.Covers c)
    (hf : ∀ c', tape.Covers c' → c'.current = min (c.current + 1) tape.finish →
      FollowsAt tape (f (tape.read c.current)) (g (tape.read c.current)) c') :
    FollowsAt tape (Tape.advance tape >>= f) (Parse.advance >>= g) c := by
  obtain ⟨c', hadvance, hc', hcurrent, hstream⟩ := outcome_advance hc
  have hle := hc.current
  refine shift (by omega) (outcome_bind_ok hadvance) ?_ (hf c' hc' hcurrent)
  rw [bind_of_ok (advance_apply _), tape.peek_stream hc.current, hstream]

theorem peek_bind {f : Token → Walk β} {g : Token → Parse β} (hc : tape.Covers c)
    (hf : FollowsAt tape (f (tape.read c.current)) (g (tape.read c.current)) c) :
    FollowsAt tape (Tape.peek tape >>= f) (Parse.peek >>= g) c := by
  refine shift (Nat.le_refl _) (outcome_bind_ok (outcome_peek c)) ?_ hf
  rw [bind_of_ok (peek_apply _), tape.peek_stream hc.current]

theorem fail (fault : Fault) (hc : tape.Covers c) :
    FollowsAt (α := α) tape (Tape.fail tape fault) (Parse.fail fault) c := by
  refine ⟨.error (.located fault (tape.read c.current).position), c, rfl, hc, Nat.le_refl _, ?_⟩
  rw [Parse.fail, tape.peek_stream hc.current]
  rfl

theorem unexpected (hc : tape.Covers c) :
    FollowsAt (α := α) tape (Tape.unexpected tape) Parse.unexpected c := by
  refine ⟨.error (.located (.unexpected (tape.read c.current).render)
    (tape.read c.current).position), c, rfl, hc, Nat.le_refl _, ?_⟩
  rw [Parse.unexpected, tape.peek_stream hc.current]
  rfl

theorem lt_finish {kind : TokenKind} (hkind : kind ≠ .endOfCode) (hc : tape.Covers c)
    (hnext : (tape.read c.current).kind = kind) : c.current < tape.finish := by
  have hne := mt (tape.kind_read_iff hc.current).mpr (hnext ▸ hkind)
  have hle := hc.current
  omega

theorem outcome_accept {kind : TokenKind} (hkind : kind ≠ .endOfCode) (hc : tape.Covers c)
    (hnext : (tape.read c.current).kind = kind) :
    ∃ c', outcome (Tape.accept tape kind) c = some (.ok true, c') ∧ tape.Covers c' ∧
      c'.current = c.current + 1 ∧ (tape.stream c.current).advance = tape.stream c'.current := by
  obtain ⟨c', hadvance, hc', hcurrent, hstream⟩ := outcome_advance hc
  refine ⟨c', ?_, hc', ?_, hstream⟩
  · rw [Tape.accept, outcome_bind_ok (outcome_check kind c), if_pos (beq_iff_eq.mpr hnext),
      Walk.discard_bind, outcome_bind_ok hadvance]
    rfl
  · have := lt_finish hkind hc hnext
    omega

theorem outcome_accept_not {kind : TokenKind} (hnext : (tape.read c.current).kind ≠ kind) :
    outcome (Tape.accept tape kind) c = some (.ok false, c) := by
  rw [Tape.accept, outcome_bind_ok (outcome_check kind c), if_neg (mt beq_iff_eq.mp hnext)]
  rfl

theorem accept_bind {kind : TokenKind} {f : Bool → Walk β} {g : Bool → Parse β}
    (hkind : kind ≠ .endOfCode) (hc : tape.Covers c)
    (hyes : ∀ c', tape.Covers c' → c'.current = c.current + 1 → FollowsAt tape (f true) (g true) c')
    (hno : FollowsAt tape (f false) (g false) c) :
    FollowsAt tape (Tape.accept tape kind >>= f) (Parse.accept kind >>= g) c := by
  by_cases hnext : (tape.read c.current).kind = kind
  · obtain ⟨c', haccept, hc', hcurrent, hstream⟩ := outcome_accept hkind hc hnext
    refine shift (by omega) (outcome_bind_ok haccept) ?_ (hyes c' hc' hcurrent)
    rw [bind_apply, Parse.accept, tape.peek_stream hc.current, if_pos (beq_iff_eq.mpr hnext),
      hstream]
  · refine shift (Nat.le_refl _) (outcome_bind_ok (outcome_accept_not hnext)) ?_ hno
    rw [bind_apply, Parse.accept, tape.peek_stream hc.current, if_neg (mt beq_iff_eq.mp hnext)]

/-- A token that is not the end of the code is taken if it is of this kind; else the rule fails. -/
theorem expect_bind {kind : TokenKind} {what : String} {f : Token → Walk β} {g : Token → Parse β}
    (hkind : kind ≠ .endOfCode) (hc : tape.Covers c)
    (hf : ∀ t c', tape.Covers c' → c'.current = c.current + 1 → FollowsAt tape (f t) (g t) c') :
    FollowsAt tape (Tape.expect tape kind what >>= f) (Parse.expect kind what >>= g) c := by
  by_cases hnext : (tape.read c.current).kind = kind
  · obtain ⟨c', hadvance, hc', hcurrent, hstream⟩ := outcome_advance hc
    have hlt := lt_finish hkind hc hnext
    have hexpect : outcome (Tape.expect tape kind what) c =
        some (.ok (tape.read c.current), c') := by
      rw [Tape.expect, outcome_bind_ok (outcome_check kind c), if_pos (beq_iff_eq.mpr hnext),
        hadvance]
    refine shift (by omega) (outcome_bind_ok hexpect) ?_
      (hf (tape.read c.current) c' hc' (by omega))
    rw [bind_apply, Parse.expect, tape.peek_stream hc.current, if_pos (beq_iff_eq.mpr hnext),
      hstream]
  · have hexpect : outcome (Tape.expect tape kind what) c =
        some (.error (.located (.expected what) (tape.read c.current).position), c) := by
      rw [Tape.expect, outcome_bind_ok (outcome_check kind c), if_neg (mt beq_iff_eq.mp hnext)]
      rfl
    refine ⟨_, c, outcome_bind_error hexpect, hc, Nat.le_refl _, ?_⟩
    rw [bind_apply, Parse.expect, tape.peek_stream hc.current, if_neg (mt beq_iff_eq.mp hnext),
      Parse.fail, tape.peek_stream hc.current]
    rfl

theorem skipNewlines_of_newline {s : Stream} (hline : s.peek.kind = .newline) :
    s.skipNewlines = s.advance.skipNewlines := by
  obtain ⟨t, hkind, hahead⟩ := ahead_of_peek (by decide) hline
  rw [Stream.skipNewlines, hahead, List.dropWhile_cons_of_pos (by rw [hkind]; rfl)]
  rfl

theorem skipNewlines_loop : Parse.skipNewlines =
    (Parse.accept .newline >>= fun taken =>
      if taken = true then Parse.skipNewlines else pure ()) := by
  funext s
  rw [bind_apply, Parse.accept, skipNewlines_apply]
  by_cases hline : s.peek.kind = .newline
  · rw [if_pos (beq_iff_eq.mpr hline), skipNewlines_of_newline hline]
    rfl
  · rw [if_neg (mt beq_iff_eq.mp hline), skipNewlines_eq hline]
    rfl

theorem skipNewlines (hc : tape.Covers c) :
    FollowsAt tape (Tape.skipNewlines tape) Parse.skipNewlines c := by
  generalize hn : tape.finish - c.current = n
  induction n generalizing c with
  | zero =>
    rw [Tape.skipNewlines, skipNewlines_loop]
    refine accept_bind (by decide) hc (fun c' hc' hcurrent => ?_) (done () hc)
    have := hc'.current
    omega
  | succ n ih =>
    rw [Tape.skipNewlines, skipNewlines_loop]
    exact accept_bind (by decide) hc (fun c' hc' hcurrent => ih hc' (by omega)) (done () hc)

theorem outcome_skipNewlines (hc : tape.Covers c) :
    ∃ c', outcome (Tape.skipNewlines tape) c = some (.ok (), c') ∧ tape.Covers c' ∧
      c.current ≤ c'.current ∧ (tape.stream c.current).skipNewlines = tape.stream c'.current := by
  obtain ⟨result, c', hu, hc', hle, hp⟩ := skipNewlines hc
  rw [skipNewlines_apply] at hp
  cases result with
  | ok a =>
    simp only [replied, Reply.ok.injEq, true_and] at hp
    exact ⟨c', hu, hc', hle, hp⟩
  | error d => cases hp

/-- A failure where the rule began is a miss on both sides: no token was taken. -/
theorem attempt {rule : Tape.Inner} {p : Parse Node}
    (h : FollowsAt tape (Tape.inner tape rule) p c) :
    FollowsAt tape (Tape.attempt tape rule) (Parse.attempt p) c := by
  obtain ⟨result, c', hu, hc', hle, hp⟩ := h
  have hattempt : outcome (Tape.attempt tape rule) c = some (Tape.orMiss c (result, c')) := by
    show Tape.attempt tape rule c = _
    rw [Tape.attempt]
    exact congrArg (Option.map (Tape.orMiss c)) hu
  cases result with
  | ok a =>
    refine ⟨.ok (some a), c', hattempt, hc', hle, ?_⟩
    rw [Parse.attempt, hp]
    rfl
  | error d =>
    by_cases hsame : c'.current = c.current
    · refine ⟨.ok none, c', ?_, hc', hle, ?_⟩
      · rw [hattempt, Tape.orMiss, if_pos hsame]
      · rw [Parse.attempt, hp]
        simp only [replied, hsame, if_true]
    · refine ⟨.error d, c', ?_, hc', hle, ?_⟩
      · rw [hattempt, Tape.orMiss, if_neg hsame]
      · have hcurrent := hc'.current
        have hshort : ¬ tape.finish - c'.current = tape.finish - c.current := by omega
        rw [Parse.attempt, hp]
        simp only [replied, tape.length_stream, hshort, if_false]

end FollowsAt

/-! ### Rules on fewer tokens -/

namespace Follows

variable {tape : Tape} {n : Nat} {α β : Type} {u : Walk α} {p : Parse α} {f : α → Walk β}
  {g : α → Parse β}

theorem mono {m : Nat} (h : Follows tape n u p) (hm : m ≤ n) : Follows tape m u p :=
  fun c hc hlt => h c hc (Nat.lt_of_lt_of_le hlt hm)

theorem done (a : α) : Follows tape n (pure a) (pure a) :=
  fun _ hc _ => .done a hc

theorem bind (hu : Follows tape n u p) (hf : ∀ a, Follows tape n (f a) (g a)) :
    Follows tape n (u >>= f) (p >>= g) := by
  intro c hc hlt
  refine (hu c hc hlt).bind fun a c' hc' hle => hf a c' hc' ?_
  omega

theorem map (k : α → β) (hu : Follows tape n u p) : Follows tape n (k <$> u) (k <$> p) := by
  rw [map_eq_pure_bind]
  exact hu.bind fun a => done (k a)

theorem discard (hu : Follows tape n u p) : Follows tape n (discard u) (discard p) := by
  have hmap : (Functor.discard u : Walk Unit) = (u >>= fun _ => pure ()) := by
    simp [Functor.discard, LawfulFunctor.map_const]
  rw [hmap]
  exact hu.bind fun _ => done ()

theorem skipNewlines : Follows tape n (Tape.skipNewlines tape) Parse.skipNewlines :=
  fun _ hc _ => .skipNewlines hc

theorem check (kind : TokenKind) :
    Follows tape n (Tape.check tape kind) (Parse.check kind) :=
  fun _ hc _ => .check kind hc

theorem fail (fault : Fault) :
    Follows (α := α) tape n (Tape.fail tape fault) (Parse.fail fault) :=
  fun _ hc _ => .fail fault hc

theorem advance : Follows tape n (Tape.advance tape) Parse.advance :=
  fun _ hc _ => .of_bind (.advance_bind hc fun _ hc' _ => .done _ hc')

theorem accept {kind : TokenKind} (hkind : kind ≠ .endOfCode) :
    Follows tape n (Tape.accept tape kind) (Parse.accept kind) :=
  fun _ hc _ => .of_bind (.accept_bind hkind hc (fun _ hc' _ => .done _ hc') (.done _ hc))

theorem expect {kind : TokenKind} {what : String} (hkind : kind ≠ .endOfCode) :
    Follows tape n (Tape.expect tape kind what) (Parse.expect kind what) :=
  fun _ hc _ => .of_bind (.expect_bind hkind hc fun _ _ hc' _ => .done _ hc')

theorem attempt {rule : Tape.Inner} {p : Parse Node}
    (h : Follows tape n (Tape.inner tape rule) p) :
    Follows tape n (Tape.attempt tape rule) (Parse.attempt p) :=
  fun c hc hlt => .attempt (h c hc hlt)

/-- A token that was taken is not ahead any more. -/
theorem advance_bind {f : Token → Walk β} {g : Token → Parse β} (hn : 0 < n)
    (hf : ∀ t, Follows tape n (f t) (g t)) :
    Follows tape (n + 1) (Tape.advance tape >>= f) (Parse.advance >>= g) := by
  intro c hc hlt
  refine .advance_bind hc fun c' hc' hcurrent => hf _ c' hc' ?_
  omega

theorem discard_advance_bind {f : Unit → Walk β} {g : Unit → Parse β} (hn : 0 < n)
    (hf : Follows tape n (f ()) (g ())) :
    Follows tape (n + 1) (Functor.discard (Tape.advance tape) >>= f)
      (Functor.discard Parse.advance >>= g) := by
  rw [Walk.discard_bind, Parse.discard_bind]
  exact advance_bind hn fun _ => hf

/-- Where a token of this kind is next, the code does not end yet. -/
theorem check_bind {kind : TokenKind} {f : Bool → Walk β} {g : Bool → Parse β}
    (hkind : kind ≠ .endOfCode) (hyes : 0 < n → Follows tape (n + 1) (f true) (g true))
    (hno : Follows tape (n + 1) (f false) (g false)) :
    Follows tape (n + 1) (Tape.check tape kind >>= f) (Parse.check kind >>= g) := by
  intro c hc hlt
  have hcheck : Parse.check kind (tape.stream c.current) =
      .ok ((tape.read c.current).kind == kind) (tape.stream c.current) := by
    rw [check_apply, tape.peek_stream hc.current]
  refine .shift (Nat.le_refl _) (outcome_bind_ok (FollowsAt.outcome_check kind c))
    (bind_of_ok hcheck) ?_
  cases hnext : (tape.read c.current).kind == kind with
  | true =>
    have := FollowsAt.lt_finish hkind hc (beq_iff_eq.mp hnext)
    exact hyes (by omega) c hc hlt
  | false => exact hno c hc hlt

theorem accept_bind {kind : TokenKind} {f : Bool → Walk β} {g : Bool → Parse β}
    (hkind : kind ≠ .endOfCode) (hyes : Follows tape n (f true) (g true))
    (hno : Follows tape (n + 1) (f false) (g false)) :
    Follows tape (n + 1) (Tape.accept tape kind >>= f) (Parse.accept kind >>= g) := by
  intro c hc hlt
  refine .accept_bind hkind hc (fun c' hc' hcurrent => hyes c' hc' ?_) (hno c hc hlt)
  have := hc'.current
  omega

theorem expect_bind {kind : TokenKind} {what : String} {f : Token → Walk β} {g : Token → Parse β}
    (hkind : kind ≠ .endOfCode) (hf : ∀ t, Follows tape n (f t) (g t)) :
    Follows tape (n + 1) (Tape.expect tape kind what >>= f) (Parse.expect kind what >>= g) := by
  intro c hc hlt
  refine .expect_bind hkind hc fun t c' hc' hcurrent => hf t c' hc' ?_
  have := hc'.current
  omega

/-- A loop may be bounded by the number of tokens ahead. -/
theorem remaining {q : Nat → Parse α} (h : ∀ k, Follows tape (min n (k + 1)) u (q k)) :
    Follows tape n u (Parse.remaining >>= q) := by
  intro c hc hlt
  refine .shift (Nat.le_refl _) rfl ?_ (h (tape.finish - c.current) c hc (by omega))
  rw [bind_of_ok (remaining_apply _), tape.length_stream]

/-- A bounded loop is followed if one more round is, whatever the rounds behind it do: a round takes
a token, and at the end of the code the bound makes no difference. -/
theorem loop {ι : Type} {u : ι → Walk α} {q : Nat → ι → Parse α}
    (hstop : ∀ i s, s.ahead = [] → q 0 i s = q 1 i s)
    (hstep : ∀ k m, m < n → (∀ i, Follows tape m (u i) (q k i)) →
      ∀ i, Follows tape (m + 1) (u i) (q (k + 1) i)) (k : Nat) (i : ι) :
    Follows tape (min n (k + 1)) (u i) (q k i) := by
  induction k generalizing i with
  | zero =>
    intro c hc hlt
    -- No token is ahead: a bound of one round does as well, and a round takes none.
    have hnil : (tape.stream c.current).ahead = [] := by
      apply List.eq_nil_of_length_eq_zero
      rw [tape.length_stream]
      omega
    refine .shift (Nat.le_refl _) rfl (hstop i _ hnil) ?_
    exact hstep 0 0 (by omega) (fun _ _ _ h => absurd h (Nat.not_lt_zero _)) i c hc (by omega)
  | succ k ih =>
    intro c hc hlt
    exact hstep k (tape.finish - c.current) (by omega) (fun i => (ih i).mono (by omega)) i c hc
      (Nat.lt_succ_self _)

end Follows

end ScriptEngine
