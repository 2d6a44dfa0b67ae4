import Mathlib.Data.List.DropRight
import ScriptEngine.Proofs.ParserGroups

/-! # What follows a node

Behind a node of canonical text stands a token that does not bind to it, or a line break and a new
line. A bare `return` also takes the line breaks behind it; a node that ends with one and reads back
is followed by something that starts no expression. -/

namespace ScriptEngine

open Canonical Printer

/-- What the tokens behind a node start with. -/
def Follow.of (rest : List Token) : Follow :=
  ⟨firstKind rest, firstKind (rest.dropWhile (·.kind == .newline))⟩

/-- Such a token makes something else of a name or a factor in front of it. -/
def TokenKind.binds : TokenKind → Bool
  | .lParen | .equals | .plusPlus | .minusMinus | .plusEqual | .minusEqual | .multEqual
  | .divEqual => true
  | _ => false

/-- A line, or what comes behind the last one, can start with such a token. -/
def TokenKind.startsLine (k : TokenKind) : Bool :=
  k.leads || k == .rBrace || k == .endOfCode

/-- No expression starts with such a token, and none goes on with it. -/
def TokenKind.isQuiet (k : TokenKind) : Bool :=
  k.jumps || k == .rBrace || k == .endOfCode

/-- Nothing that follows binds to the node. -/
structure Calm (rest : List Token) : Prop where
  next : (Follow.of rest).next.binds = false
  line : (Follow.of rest).next = .newline → (Follow.of rest).beyond.startsLine = true

/-- The tokens behind a node, without the line breaks that a bare `return` takes. -/
def settle (bare : Bool) (rest : List Token) : List Token :=
  if bare then rest.dropWhile (·.kind == .newline) else rest

/-! ### One token -/

namespace Follow

theorem of_cons (t : Token) (ts : List Token) (ht : t.kind ≠ .newline) :
    Follow.of (t :: ts) = .token t.kind := by
  rw [Follow.of, List.dropWhile_cons, beq_false_of_ne ht]
  rfl

theorem of_line (t : Token) (ts : List Token) (ht : t.kind = .newline) :
    Follow.of (t :: ts) = .line (Follow.of ts).beyond := by
  rw [Follow.of, List.dropWhile_cons, beq_iff_eq.mpr ht, firstKind, List.head?_cons, Option.map_some,
    Option.getD_some, ht]
  rfl

theorem beyond_of_ne {ts : List Token} (h : firstKind ts ≠ .newline) :
    (Follow.of ts).beyond = firstKind ts := by
  cases ts with
  | nil => rfl
  | cons t ts => rw [of_cons t ts h]; rfl

end Follow

theorem settle_of_ne (bare : Bool) {rest : List Token} (h : firstKind rest ≠ .newline) :
    settle bare rest = rest := by
  cases bare with
  | false => rfl
  | true =>
    cases rest with
    | nil => rfl
    | cons t ts =>
      have ht : (t.kind == TokenKind.newline) = false := beq_false_of_ne h
      rw [settle, if_pos rfl, List.dropWhile_cons, ht]
      rfl

theorem settle_cons (bare : Bool) {t : Token} (ts : List Token) (h : t.kind ≠ .newline) :
    settle bare (t :: ts) = t :: ts :=
  settle_of_ne bare h

theorem dropWhile_settle (bare : Bool) (rest : List Token) :
    (settle bare rest).dropWhile (·.kind == .newline) = rest.dropWhile (·.kind == .newline) := by
  cases bare with
  | false => rfl
  | true => exact List.dropWhile_idempotent _ _

namespace Calm

variable {rest : List Token}

theorem cons {t : Token} (ts : List Token) (ht : t.kind.binds = false)
    (hline : t.kind ≠ .newline) : Calm (t :: ts) :=
  ⟨ht, fun h => absurd h hline⟩

theorem nil : Calm [] :=
  ⟨rfl, nofun⟩

theorem newline {ts : List Token} (h : (firstKind ts).startsLine = true) :
    Calm (TokenKind.newline.token :: ts) := by
  have hline : firstKind ts ≠ .newline := fun hk => by
    rw [hk] at h
    cases h
  refine ⟨rfl, fun _ => ?_⟩
  rw [Follow.of_line _ _ rfl]
  show (Follow.of ts).beyond.startsLine = true
  rw [Follow.beyond_of_ne hline]
  exact h

end Calm

theorem isQuiet_of_startsLine {k : TokenKind} (h : k.startsLine = true) (hs : k.starts = false) :
    k.isQuiet = true := by
  revert h hs
  cases k with
  | keyword k => cases k <;> decide
  | _ => decide

theorem isQuiet_facts {k : TokenKind} (h : k.isQuiet = true) :
    k.binds = false ∧ k ≠ .comma ∧ ∀ t : Tier, t.takes k = false := by
  cases k with
  | keyword k =>
    cases k with
    | return_ | continue_ | break_ => exact ⟨rfl, nofun, fun t => by cases t <;> rfl⟩
    | _ => cases h
  | rBrace | endOfCode => exact ⟨rfl, nofun, fun t => by cases t <;> rfl⟩
  | _ => cases h

/-- Behind the line breaks that a bare `return` takes stands something quiet. -/
theorem settle_kind {bare : Bool} {rest : List Token} (hcalm : Calm rest)
    (hbare : bare = true → (Follow.of rest).beyond.starts = false) :
    firstKind (settle bare rest) = (Follow.of rest).next ∨
      ((Follow.of rest).next = .newline ∧ (firstKind (settle bare rest)).isQuiet = true) := by
  by_cases hline : firstKind rest = .newline
  · cases bare with
    | false => exact .inl rfl
    | true => exact .inr ⟨hline, isQuiet_of_startsLine (hcalm.line hline) (hbare rfl)⟩
  · rw [settle_of_ne bare hline]
    exact .inl rfl

section

variable {bare : Bool} {rest : List Token} (hcalm : Calm rest)
  (hbare : bare = true → (Follow.of rest).beyond.starts = false)

include hcalm hbare

theorem settle_binds : (firstKind (settle bare rest)).binds = false := by
  rcases settle_kind hcalm hbare with hk | ⟨-, hq⟩
  · rw [hk]
    exact hcalm.next
  · exact (isQuiet_facts hq).1

theorem settle_takes (t : Tier) :
    t.takes (firstKind (settle bare rest)) = t.takes (Follow.of rest).next := by
  rcases settle_kind hcalm hbare with hk | ⟨hline, hq⟩
  · rw [hk]
  · rw [(isQuiet_facts hq).2.2 t, hline]
    cases t <;> rfl

theorem settle_comma :
    (firstKind (settle bare rest) = .comma) ↔ (Follow.of rest).next = .comma := by
  rcases settle_kind hcalm hbare with hk | ⟨hline, hq⟩
  · rw [hk]
  · rw [hline]
    exact ⟨fun h => absurd h (isQuiet_facts hq).2.1, fun h => nomatch h⟩

end

/-! ### Bare ends -/

section

variable {f : Follow} {t : Tier}

theorem wrappedReads_bare {wrap : Bool} {reads : Tier → Follow → Bool}
    (h : wrappedReads wrap t f reads = true) (hw : wrap = false) : reads t f = true := by
  rw [hw] at h
  exact h

theorem bodyReads_bare {braced : Bool} {body : Node} {reads : Tier → Follow → Bool}
    (h : bodyReads braced body t f reads = true) (hb : braced = false)
    (ho : isOpenChoice body = false) : reads t f = true := by
  rw [hb] at h
  have hinline : (firstKind body.tokens != .lBrace &&
      wrappedReads (isOpenChoice body) t f reads) = true := h
  exact wrappedReads_bare (Bool.and_eq_true_iff.mp hinline).2 ho

mutual

/-- A node that ends with a bare `return` only reads back if nothing follows that starts an
expression. -/
theorem Node.beyond_of_bare (n : Node) {t : Tier} {f : Follow} (h : n.reads t f = true)
    (hbare : n.endsBare = true) : f.beyond.starts = false := by
  match n with
  | .declare _ _ value =>
    simp only [Node.reads, Node.endsBare, Bool.and_eq_true, Bool.not_eq_true'] at h hbare
    exact Node.beyond_of_bare value (wrappedReads_bare h.2 hbare.1) hbare.2
  | .assign _ _ value | .update _ _ _ value =>
    simp only [Node.reads, Node.endsBare, Bool.and_eq_true, Bool.not_eq_true'] at h hbare
    exact Node.beyond_of_bare value (wrappedReads_bare h.1 hbare.1) hbare.2
  | .choose _ arms =>
    simp only [Node.reads, Node.endsBare, Bool.and_eq_true] at h hbare
    exact Arms.beyond_of_bare arms h.1 hbare
  | .count _ _ _ _ _ braced body | .each _ _ _ braced body | .loop _ _ braced body =>
    simp only [Node.reads, Node.endsBare, Bool.and_eq_true, Bool.not_eq_true'] at h hbare
    exact Node.beyond_of_bare body (bodyReads_bare h.1.2 hbare.1.1 hbare.1.2) hbare.2
  | .function _ _ _ braced body =>
    simp only [Node.reads, Node.endsBare, Bool.and_eq_true, Bool.not_eq_true'] at h hbare
    rw [hbare.1.1, if_neg Bool.false_ne_true] at h
    exact Node.beyond_of_bare body (wrappedReads_bare h.1 hbare.1.2) hbare.2
  | .members _ segments =>
    simp only [Node.reads, Node.endsBare, Bool.and_eq_true] at h hbare
    exact segments_beyond_of_bare segments h.1.2 hbare
  | .return_ _ none =>
    simpa only [Node.reads, returnReads, Bool.not_eq_true'] using h
  | .return_ _ (some value) =>
    simp only [Node.reads, returnReads, Node.endsBare, returnEndsBare, Bool.and_eq_true,
      Bool.not_eq_true'] at h hbare
    exact Node.beyond_of_bare value (wrappedReads_bare h hbare.1) hbare.2
  | .include_ _ paths =>
    simp only [Node.reads, Node.endsBare, Bool.and_eq_true] at h hbare
    exact paths_beyond_of_bare paths h.1 hbare
  | .number _ _ | .text _ _ | .read _ _ | .this _ | .list _ _ | .binary _ _ _ _ | .unary _ _ _
  | .call _ _ _ | .sequence _ _ | .object _ _ _ _ _ | .create _ _ _ | .continue_ _ | .break_ _ =>
    cases hbare

theorem Arms.beyond_of_bare (arms : Arms) {f : Follow} (h : arms.reads f = true)
    (hbare : arms.endsBare = true) : f.beyond.starts = false := by
  match arms with
  | .done => cases hbare
  | .otherwise braced body =>
    simp only [Arms.reads, Arms.endsBare, Bool.and_eq_true, Bool.not_eq_true'] at h hbare
    exact Node.beyond_of_bare body (bodyReads_bare h hbare.1.1 hbare.1.2) hbare.2
  | .arm _ braced body .done =>
    simp only [Arms.reads, Arms.endsBare, Bool.and_eq_true, Bool.not_eq_true'] at h hbare
    exact Node.beyond_of_bare body (bodyReads_bare h.1.2 hbare.1.1 hbare.1.2) hbare.2
  | .arm _ _ _ (.otherwise braced body) =>
    simp only [Arms.reads, Bool.and_eq_true] at h
    exact Arms.beyond_of_bare (.otherwise braced body) h.2 hbare
  | .arm _ _ _ (.arm condition braced body more) =>
    simp only [Arms.reads, Bool.and_eq_true] at h
    exact Arms.beyond_of_bare (.arm condition braced body more)
      (by simpa only [Arms.reads, Bool.and_eq_true] using h.2) hbare

theorem segments_beyond_of_bare (ns : List Node) {f : Follow} (h : segmentsRead f ns = true)
    (hbare : lastEndsBare ns = true) : f.beyond.starts = false := by
  match ns with
  | [] => cases hbare
  | [n] =>
    have hnumber : isNumber n = false := by
      cases n with
      | number _ _ => cases hbare
      | _ => rfl
    exact Node.beyond_of_bare n (wrappedReads_bare h hnumber) hbare
  | _ :: m :: ns =>
    simp only [segmentsRead, Bool.and_eq_true] at h
    exact segments_beyond_of_bare (m :: ns) h.2 hbare

theorem paths_beyond_of_bare (ns : List Node) {f : Follow} (h : pathsRead f ns = true)
    (hbare : lastEndsBare ns = true) : f.beyond.starts = false := by
  match ns with
  | [] => cases hbare
  | [n] =>
    simp only [pathsRead, Bool.and_eq_true] at h
    exact Node.beyond_of_bare n h.1 hbare
  | _ :: m :: ns =>
    simp only [pathsRead, Bool.and_eq_true] at h
    exact paths_beyond_of_bare (m :: ns) h.2 hbare

end

end

end ScriptEngine
