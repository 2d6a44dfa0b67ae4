import ScriptEngine.Proofs.ParserSteps
import ScriptEngine.Proofs.TokenWeights

/-! # What parsing makes of the tokens that it takes

Where a rule succeeds, the tokens that it takes weigh as much as the tree that it gives, and their
parentheses match. Every tree that comes out is well formed, and its names and numbers are those of
tokens. -/

namespace ScriptEngine

/-! ### Well-formed trees -/

/-- The rules of the grammar make nothing else of an empty or a filled pair of braces. -/
def Node.isBlock : Node → Bool
  | .sequence _ _ => true
  | .number _ value => value = .zero false
  | _ => false

def Arms.isArm : Arms → Bool
  | .arm _ _ _ _ => true
  | _ => false

/-! ### Weights of well-formed trees -/

/-- The weight of what stands between the braces of a block. -/
def Node.fill : Node → Nat
  | .sequence _ statements => weightAll statements
  | _ => 0

theorem Node.weight_of_isBlock {n : Node} (h : n.isBlock = true) : n.weight = 1 + n.fill := by
  cases n with
  | sequence _ statements => rfl
  | number _ value => rfl
  | _ => cases h

/-- The measures of all items together. -/
def total {α : Type} (m : α → Nat) : List α → Nat
  | [] => 0
  | x :: xs => m x + total m xs

theorem weightAll_eq (ns : List Node) : weightAll ns = total Node.weight ns := by
  induction ns with
  | nil => rfl
  | cons n ns ih => rw [weightAll, ih, total]

theorem total_one {α : Type} (xs : List α) : total (fun _ => 1) xs = xs.length := by
  induction xs with
  | nil => rfl
  | cons x xs ih => rw [total, ih, List.length_cons, Nat.add_comm]

section

variable (V : String → Prop) (N : Single → Prop)

mutual

/-- Every construct has its parts, jumps stand where statements do, and names and numbers are
allowed ones; `stmt` tells whether the node stands where a statement may. -/
def Node.Formed (stmt : Bool) : Node → Prop
  | .number _ value => N value
  | .text _ _ | .this _ => True
  | .list _ items => allFormed false items
  | .binary _ _ left right => left.Formed false ∧ right.Formed false
  | .unary _ _ operand => operand.Formed false
  | .read _ name => V name
  | .declare _ name value | .assign _ name value | .update _ name _ value =>
    V name ∧ value.Formed false
  | .choose _ arms => arms.isArm = true ∧ arms.Formed
  | .count _ name start stop step braced body =>
    V name ∧ start.Formed false ∧ stop.Formed false ∧ someFormed step ∧
      (braced = true → body.isBlock = true) ∧ body.Formed false
  | .each _ name items braced body =>
    V name ∧ items.Formed false ∧ (braced = true → body.isBlock = true) ∧ body.Formed false
  | .loop _ condition braced body =>
    condition.Formed false ∧ (braced = true → body.isBlock = true) ∧ body.Formed (!braced)
  | .function _ name params braced body =>
    (∀ n ∈ name, V n) ∧ (∀ p ∈ params, V p) ∧ (braced = true → body.isBlock = true) ∧
      body.Formed (!braced)
  | .call _ callee args => callee.Formed false ∧ allFormed false args
  | .sequence _ statements => statements ≠ [] ∧ allFormed true statements
  | .members _ segments => 2 ≤ segments.length ∧ allFormed false segments
  | .object _ name params parent body =>
    V name ∧ (∀ p ∈ params, V p) ∧ (∀ p ∈ parent, V p) ∧ body.isBlock = true ∧ body.Formed false
  | .create _ name args => V name ∧ allFormed false args
  | .return_ _ value => stmt = true ∧ someFormed value
  | .continue_ _ | .break_ _ => stmt = true
  | .include_ _ paths => paths ≠ [] ∧ allFormed false paths
termination_by structural n => n

def Arms.Formed : Arms → Prop
  | .done => True
  | .otherwise braced body => (braced = true → body.isBlock = true) ∧ body.Formed (!braced)
  | .arm condition braced body more =>
    condition.Formed false ∧ (braced = true → body.isBlock = true) ∧ body.Formed (!braced) ∧
      more.Formed
termination_by structural arms => arms

def allFormed (stmt : Bool) : List Node → Prop
  | [] => True
  | n :: ns => n.Formed stmt ∧ allFormed stmt ns
termination_by structural ns => ns

def someFormed : Option Node → Prop
  | none => True
  | some n => n.Formed false
termination_by structural n => n

end

/-- The names and numbers that tokens stand for are allowed ones. -/
structure Token.Fine (t : Token) : Prop where
  name : t.kind = .identifier → V t.lexeme
  number : t.kind = .int ∨ t.kind = .float → ∀ v, Number.ofText? t.lexeme = some v → N v

/-! ### What a rule spends -/

/-- A rule that starts at a stream of `P` after tokens of weight `w`, inside `j` open parentheses:
where it succeeds, the weight so far is that of its result, `l` parentheses are open, and the result
is one of `Q`. -/
def Spends {α : Type} (w j : Nat) (P : Stream → Prop) (p : Parse α) (l : Nat) (m : α → Nat)
    (Q : α → Prop) : Prop :=
  ∀ s : Stream, (∀ t ∈ s.ahead, t.Fine V N) → P s → ∀ a r, p s = .ok a r →
    r.ahead <:+ s.ahead ∧ w + weight s.ahead = m a + weight r.ahead ∧
      (∀ d, closing (d + j) s.ahead = closing (d + l) r.ahead) ∧ Q a

/-- A rule that gives a well-formed tree of the weight it takes. -/
def Builds (P : Stream → Prop) (stmt : Bool) (p : Parse Node) : Prop :=
  ∀ j, Spends V N 0 j P p j Node.weight (Node.Formed V N stmt)

/-- A rule for what stands between braces. -/
def Fills (p : Parse Node) : Prop :=
  ∀ j, Spends V N 0 j (fun _ => True) p j Node.fill
    fun n => n.isBlock = true ∧ n.Formed V N false

structure Rules.Build (rules : Rules) : Prop where
  expression : Builds V N (fun _ => True) false rules.expression
  negation : Builds V N (fun _ => True) false rules.negation
  access : Builds V N (fun _ => True) false rules.access
  statement : Builds V N (fun _ => True) true rules.statement
  statements : Fills V N rules.statements

end

/-- A well-formed tree stands for at least one token. -/
theorem Node.weight_pos {V : String → Prop} {N : Single → Prop} {stmt : Bool} (n : Node)
    (h : n.Formed V N stmt) : 0 < n.weight := by
  match n with
  | .call _ callee args =>
    have hcallee := Node.weight_pos callee h.1
    rw [Node.weight]
    omega
  | .choose _ (.arm condition braced body more) =>
    rw [Node.weight, Arms.weight]
    omega
  | .choose _ .done => cases h.1
  | .choose _ (.otherwise _ _) => cases h.1
  | .members _ (first :: second :: more) =>
    rw [Node.weight, weightSegments, weightMore]
    omega
  | .members _ [] => exact absurd h.1 (by decide)
  | .members _ [_] => exact absurd h.1 (by simp)
  | .return_ _ none => exact Nat.one_pos
  | .return_ _ (some value) =>
    rw [Node.weight]
    omega
  | .number _ _ | .text _ _ | .read _ _ | .this _ | .continue_ _ | .break_ _ => exact Nat.one_pos
  | .list _ _ | .binary _ _ _ _ | .unary _ _ _ | .declare _ _ _ | .assign _ _ _ | .update _ _ _ _
  | .count _ _ _ _ _ _ _ | .each _ _ _ _ _ | .loop _ _ _ _ | .function _ _ _ _ _ | .sequence _ _
  | .object _ _ _ _ _ | .create _ _ _ | .include_ _ _ =>
    rw [Node.weight]
    omega

theorem allFormed_iff {V : String → Prop} {N : Single → Prop} {stmt : Bool} (ns : List Node) :
    allFormed V N stmt ns ↔ ∀ n ∈ ns, n.Formed V N stmt := by
  induction ns with
  | nil => exact ⟨fun _ => nofun, fun _ => trivial⟩
  | cons n ns ih => rw [allFormed, ih, List.forall_mem_cons]

/-- What may stand among expressions may stand among statements. -/
theorem Node.Formed.mono {V : String → Prop} {N : Single → Prop} {n : Node}
    (h : n.Formed V N false) : n.Formed V N true := by
  cases n with
  | return_ _ _ => exact ⟨rfl, h.2⟩
  | continue_ _ => rfl
  | break_ _ => rfl
  | _ => exact h

namespace Spends

open Parse Grammar

variable {V : String → Prop} {N : Single → Prop} {α β : Type} {w j k l : Nat}
  {P L : Stream → Prop} {m : β → Nat} {Q : β → Prop} {self : Rules}

/-! ### Primitive rules -/

/-- The second rule may rely on what the first one leaves. -/
theorem chained {p : Parse α} {f : α → Parse β} {mp : α → Nat} {Qp : α → Prop}
    (hp : Spends V N 0 j P p k mp Qp)
    (hL : ∀ s a r, P s → p s = .ok a r → r.ahead <:+ s.ahead → L r)
    (hf : ∀ a, Qp a → Spends V N (w + mp a) k L (f a) l m Q) :
    Spends V N w j P (p >>= f) l m Q := by
  intro s hs hP b r h
  obtain ⟨a, r₁, h₁, h₂⟩ := bind_eq_ok h
  obtain ⟨hsuffix, hweight, hclosing, hQ⟩ := hp s hs hP a r₁ h₁
  have hrest : ∀ t ∈ r₁.ahead, t.Fine V N := fun t ht => hs t (hsuffix.subset ht)
  obtain ⟨hsuffix', hweight', hclosing', hQ'⟩ :=
    hf a hQ r₁ hrest (hL s a r₁ hP h₁ hsuffix) b r h₂
  refine ⟨hsuffix'.trans hsuffix, by omega, ?_, hQ'⟩
  intro d
  rw [hclosing, hclosing']

theorem bind {p : Parse α} {f : α → Parse β} {mp : α → Nat} {Qp : α → Prop}
    (hp : Spends V N 0 j P p k mp Qp)
    (hf : ∀ a, Qp a → Spends V N (w + mp a) k (fun _ => True) (f a) l m Q) :
    Spends V N w j P (p >>= f) l m Q :=
  chained hp (fun _ _ _ _ _ _ => trivial) hf

theorem weaken {p : Parse β} (hp : Spends V N w j P p l m Q) (h : ∀ s, L s → P s) :
    Spends V N w j L p l m Q :=
  fun s hs hP b r hb => hp s hs (h s hP) b r hb

theorem done {b : β} (hw : w = m b) (hQ : Q b) : Spends V N w j P (Parse.done b) j m Q := by
  intro s hs hP a r h
  cases h
  exact ⟨List.suffix_refl _, by rw [hw], fun _ => rfl, hQ⟩

theorem fault (d : Stream → Diagnostic) :
    Spends V N w j P (fun s => .error (d s) s : Parse β) l m Q := by
  intro s hs hP a r h
  cases h

theorem peek_fine {s : Stream} (hs : ∀ t ∈ s.ahead, t.Fine V N) : s.peek.Fine V N := by
  obtain ⟨ahead, finish⟩ := s
  cases ahead with
  | nil =>
    refine ⟨fun h => ?_, fun h => ?_⟩
    · cases h
    · rcases h with h | h <;> cases h
  | cons t ts => exact hs t List.mem_cons_self

theorem peek {f : Token → Parse β}
    (hf : ∀ t, t.Fine V N → Spends V N w j (fun s => P s ∧ s.peek = t) (f t) l m Q) :
    Spends V N w j P (Parse.peek >>= f) l m Q :=
  fun s hs hP b r h => hf s.peek (peek_fine hs) s hs ⟨hP, rfl⟩ b r h

theorem remaining {f : Nat → Parse β}
    (hf : ∀ n, Spends V N w j (fun s => P s ∧ s.ahead.length ≤ n) (f n) l m Q) :
    Spends V N w j P (Parse.remaining >>= f) l m Q :=
  fun s hs hP b r h => hf _ s hs ⟨hP, Nat.le_refl _⟩ b r h

theorem check {kind : TokenKind} {f : Bool → Parse β}
    (ht : Spends V N w j (fun s => P s ∧ s.peek.kind = kind) (f true) l m Q)
    (hf : Spends V N w j (fun s => P s ∧ s.peek.kind ≠ kind) (f false) l m Q) :
    Spends V N w j P (Parse.check kind >>= f) l m Q := by
  intro s hs hP b r h
  rw [bind_of_ok (check_apply kind s)] at h
  by_cases hk : s.peek.kind = kind
  · rw [beq_iff_eq.mpr hk] at h
    exact ht s hs ⟨hP, hk⟩ b r h
  · rw [beq_false_of_ne hk] at h
    exact hf s hs ⟨hP, hk⟩ b r h

/-- Taking a token if it is of a kind is taking it behind a look at it. -/
theorem accept {kind : TokenKind} {f : Bool → Parse β}
    (ht : Spends V N w j (fun s => P s ∧ s.peek.kind = kind)
      (Parse.advance >>= fun _ => f true) l m Q)
    (hf : Spends V N w j (fun s => P s ∧ s.peek.kind ≠ kind) (f false) l m Q) :
    Spends V N w j P (Parse.accept kind >>= f) l m Q := by
  intro s hs hP b r h
  rw [bind_apply, Parse.accept] at h
  by_cases hk : s.peek.kind = kind
  · rw [beq_iff_eq.mpr hk] at h
    exact ht s hs ⟨hP, hk⟩ b r h
  · rw [beq_false_of_ne hk] at h
    exact hf s hs ⟨hP, hk⟩ b r h

theorem discard {p : Parse α} {f : Unit → Parse β}
    (hp : Spends V N w j P (p >>= fun _ => f ()) l m Q) :
    Spends V N w j P (Functor.discard p >>= f) l m Q := by
  rw [discard_bind]
  exact hp

theorem map {γ : Type} {g : α → γ} {p : Parse α} {f : γ → Parse β}
    (hp : Spends V N w j P (p >>= fun a => f (g a)) l m Q) :
    Spends V N w j P (g <$> p >>= f) l m Q := by
  rw [map_bind]
  exact hp

theorem given {a : α} {f : α → Parse β} (hf : Spends V N w j P (f a) l m Q) :
    Spends V N w j P (Parse.done a >>= f) l m Q :=
  hf

theorem skipNewlines : Spends V N 0 j P Parse.skipNewlines j (fun _ => 0) fun _ => True := by
  intro s hs hP a r h
  cases h
  have hline : ∀ ts : List Token,
      weight ts = weight (ts.dropWhile (·.kind == .newline)) ∧
        ∀ d, closing d ts = closing d (ts.dropWhile (·.kind == .newline)) := by
    intro ts
    induction ts with
    | nil => exact ⟨rfl, fun _ => rfl⟩
    | cons t ts ih =>
      rw [List.dropWhile_cons]
      split
      · rename_i hk
        have hkind : t.kind = .newline := beq_iff_eq.mp hk
        refine ⟨?_, fun d => ?_⟩
        · rw [weight, hkind, ih.1]
          exact Nat.zero_add _
        · rw [closing_other (by rw [hkind]; rfl), ih.2]
      · exact ⟨rfl, fun _ => rfl⟩
  refine ⟨List.dropWhile_suffix _, ?_, fun d => (hline s.ahead).2 _, trivial⟩
  have hweight := (hline s.ahead).1
  show 0 + weight s.ahead = 0 + weight (s.ahead.dropWhile (·.kind == .newline))
  omega

/-- Taking a token that was looked at and is no parenthesis. -/
theorem take {t : Token} (ht : t.kind.isParen = false) :
    Spends V N 0 j (fun s => s.peek = t) Parse.advance j (fun _ => t.kind.weight)
      (fun u => u = t) := by
  intro s hs hP a r ha
  cases ha
  refine ⟨List.tail_suffix _, ?_, ?_, hP⟩
  · obtain ⟨ahead, finish⟩ := s
    rw [← hP]
    cases ahead with
    | nil => rfl
    | cons t ts => exact Nat.zero_add _
  · intro d
    obtain ⟨ahead, finish⟩ := s
    cases ahead with
    | nil => rfl
    | cons u us =>
      have hu : u = t := hP
      rw [← hu] at ht
      exact closing_other ht _ _

theorem advance {kind : TokenKind} (hkind : kind.isParen = false) :
    Spends V N 0 j (fun s => s.peek.kind = kind) Parse.advance j (fun _ => kind.weight)
      fun t => t.kind = kind ∧ t.Fine V N := by
  intro s hs hP a r ha
  have hk : s.peek.kind.isParen = false := by rw [hP, hkind]
  obtain ⟨hsuffix, hweight, hclosing, hQ⟩ :=
    take (V := V) (N := N) (j := j) hk s hs rfl a r ha
  rw [hP] at hweight
  rw [hQ]
  exact ⟨hsuffix, hweight, hclosing, hP, peek_fine hs⟩

theorem opens : Spends V N 0 j (fun s => s.peek.kind = .lParen) Parse.advance (j + 1) (fun _ => 0)
    fun _ => True := by
  intro s hs hP a r ha
  cases ha
  obtain ⟨ahead, finish⟩ := s
  cases ahead with
  | nil => cases hP
  | cons t ts =>
    have ht : t.kind = .lParen := hP
    refine ⟨List.suffix_cons t ts, ?_, fun d => closing_open ht _ _, trivial⟩
    show 0 + (t.kind.weight + weight ts) = 0 + weight ts
    rw [ht]
    exact Nat.zero_add _

theorem closes : Spends V N 0 (j + 1) (fun s => s.peek.kind = .rParen) Parse.advance j (fun _ => 0)
    fun _ => True := by
  intro s hs hP a r ha
  cases ha
  obtain ⟨ahead, finish⟩ := s
  cases ahead with
  | nil => cases hP
  | cons t ts =>
    have ht : t.kind = .rParen := hP
    refine ⟨List.suffix_cons t ts, ?_, fun d => closing_close ht _ _, trivial⟩
    show 0 + (t.kind.weight + weight ts) = 0 + weight ts
    rw [ht]
    exact Nat.zero_add _

/-- Requiring a token of a kind is taking it behind a look at it. -/
theorem required {kind : TokenKind} {what : String} {mt : Token → Nat} {Qt : Token → Prop}
    (h : Spends V N w j (fun s => s.peek.kind = kind) Parse.advance l mt Qt) :
    Spends V N w j P (Parse.expect kind what) l mt Qt := by
  intro s hs hP a r ha
  rw [Parse.expect] at ha
  by_cases hk : s.peek.kind = kind
  · rw [beq_iff_eq.mpr hk] at ha
    exact h s hs hk a r ha
  · rw [beq_false_of_ne hk] at ha
    cases ha

theorem expect {kind : TokenKind} {what : String} (hkind : kind.isParen = false) :
    Spends V N 0 j P (Parse.expect kind what) j (fun _ => kind.weight)
      fun t => t.kind = kind ∧ t.Fine V N :=
  required (advance hkind)

theorem attempt {p : Parse α} {mp : α → Nat} {Qp : α → Prop} (hp : Spends V N 0 j P p j mp Qp) :
    Spends V N 0 j P (Parse.attempt p) j (fun a => (a.map mp).getD 0) fun a => ∀ x ∈ a, Qp x := by
  intro s hs hP a r h
  rw [Parse.attempt] at h
  cases hrun : p s with
  | ok b r₁ =>
    rw [hrun] at h
    cases h
    obtain ⟨hsuffix, hweight, hclosing, hQ⟩ := hp s hs hP b r hrun
    refine ⟨hsuffix, hweight, hclosing, ?_⟩
    intro x hx
    cases hx
    exact hQ
  | error d r₁ =>
    rw [hrun] at h
    dsimp only at h
    split at h
    · cases h
      exact ⟨List.suffix_refl _, rfl, fun _ => rfl, fun x hx => by cases hx⟩
    · cases h

/-! ### Lists of items -/

/-- The closing token of a list leaves the `l` parentheses open that are around it. -/
theorem separated {item : Parse α} {mi : α → Nat} {Qi : α → Prop} {close : TokenKind}
    {what : String} (hi : Spends V N 0 j (fun _ => True) item j mi Qi)
    (hpos : ∀ a, Qi a → 0 < mi a)
    (hclose : Spends V N 0 j (fun s => s.peek.kind = close) Parse.advance l (fun _ => 0)
      fun _ => True) (n : Nat) :
    Spends V N 0 j (fun s => s.ahead.length ≤ n) (separated item close what n) l
      (total mi) fun xs => ∀ x ∈ xs, Qi x := by
  induction n with
  | zero =>
    -- Without tokens ahead there is no item, which has a weight.
    intro s hs hP xs r h
    obtain ⟨a, r₁, ha, -⟩ := bind_eq_ok h
    obtain ⟨-, hweight, -, hQ⟩ := hi s hs trivial a r₁ ha
    have hmi := hpos a hQ
    rw [List.length_eq_zero_iff.mp (Nat.le_zero.mp hP), weight] at hweight
    omega
  | succ n ih =>
    refine chained (L := fun s => s.ahead.length ≤ n + 1) (weaken hi fun _ _ => trivial)
      (fun s a r hs _ hr => Nat.le_trans hr.length_le hs) fun x hx =>
        chained (L := fun s => s.ahead.length ≤ n + 1) skipNewlines
          (fun s a r hs _ hr => Nat.le_trans hr.length_le hs) fun _ _ => accept ?_ ?_
    · refine chained (L := fun s => s.ahead.length ≤ n)
        (weaken (advance rfl) fun s hs => hs.2) (fun s a r hs ha _ => ?_) fun _ _ =>
          chained (L := fun s => s.ahead.length ≤ n) skipNewlines
            (fun s a r hs _ hr => Nat.le_trans hr.length_le hs) fun _ _ =>
              bind ih fun ys hys => done ?_ ?_
      · cases ha
        have hlen := hs.1
        show s.ahead.tail.length ≤ n
        rw [List.length_tail]
        omega
      · simp only [total, TokenKind.weight]
        omega
      · intro y hy
        rcases List.mem_cons.mp hy with rfl | hy
        · exact hx
        · exact hys y hy
    · refine discard (bind (required hclose) fun _ _ => done ?_ ?_)
      · simp only [total]
        omega
      · intro y hy
        rw [List.mem_singleton.mp hy]
        exact hx

theorem enclosed {item : Parse α} {mi : α → Nat} {Qi : α → Prop} {close : TokenKind}
    {what : String} (hi : Spends V N 0 j (fun _ => True) item j mi Qi)
    (hpos : ∀ a, Qi a → 0 < mi a)
    (hclose : Spends V N 0 j (fun s => s.peek.kind = close) Parse.advance l (fun _ => 0)
      fun _ => True) :
    Spends V N 0 j P (enclosed item close what) l (total mi) fun xs => ∀ x ∈ xs, Qi x := by
  refine bind skipNewlines fun _ _ => accept ?_ ?_
  · refine bind (weaken hclose fun s hs => hs.2) fun _ _ => done rfl fun x hx => ?_
    cases hx
  · exact remaining fun n => weaken (separated hi hpos hclose n) fun s hs => hs.2

/-! ### Operators -/

/-- The operators of a tier are tokens of weight one. -/
def Operators (op? : TokenKind → Option BinaryOp) : Prop :=
  ∀ kind op, op? kind = some op → kind.isParen = false ∧ kind.weight = 1

theorem operators_factor : Operators factorOp? := by
  intro kind op h
  unfold factorOp? at h
  split at h <;> cases h <;> exact ⟨rfl, rfl⟩

theorem operators_term : Operators termOp? := by
  intro kind op h
  unfold termOp? at h
  split at h <;> cases h <;> exact ⟨rfl, rfl⟩

theorem operators_comparison : Operators comparisonOp? := by
  intro kind op h
  unfold comparisonOp? at h
  split at h <;> cases h <;> exact ⟨rfl, rfl⟩

theorem operators_logic : Operators logicOp? := by
  intro kind op h
  unfold logicOp? at h
  split at h <;> cases h <;> exact ⟨rfl, rfl⟩

theorem chainRest {operand : Parse Node} {op? : TokenKind → Option BinaryOp} (hop : Operators op?)
    (ho : Builds V N (fun _ => True) false operand) (n : Nat) (left : Node)
    (hl : left.Formed V N false) :
    Spends V N left.weight j P (chainRest operand op? n left) j Node.weight
      (Node.Formed V N false) := by
  induction n generalizing left P with
  | zero => exact done rfl hl
  | succ n ih =>
    refine peek fun token _ => ?_
    split
    · exact done rfl hl
    · rename_i op hk
      obtain ⟨hparen, hweight⟩ := hop _ _ hk
      refine discard (bind (weaken (take hparen) fun s hs => hs.2) fun _ _ =>
        bind skipNewlines fun _ _ => bind (ho j) fun right hr => ?_)
      have hrest := ih (P := fun _ => True) (.binary token.position op left right) ⟨hl, hr⟩
      rw [Node.weight] at hrest
      have hsum : left.weight + token.kind.weight + 0 + right.weight =
          1 + left.weight + right.weight := by omega
      rw [hsum]
      exact hrest

theorem chain {operand : Parse Node} {op? : TokenKind → Option BinaryOp} (hop : Operators op?)
    (ho : Builds V N (fun _ => True) false operand) :
    Builds V N (fun _ => True) false (chain operand op?) := by
  intro j
  refine bind (ho j) fun left hl => remaining fun n => ?_
  rw [Nat.zero_add]
  exact chainRest hop ho n left hl

/-! ### Bodies -/

/-- A body and whether it is in braces. -/
def IsBody (V : String → Prop) (N : Single → Prop) (stmt : Bool) (b : Bool × Node) : Prop :=
  (b.1 = true → b.2.isBlock = true) ∧ b.2.Formed V N (stmt && !b.1)

theorem block (hs : self.Build V N) :
    Spends V N 0 j P (block self) j Node.weight
      fun n => n.isBlock = true ∧ n.Formed V N false := by
  refine discard (bind (expect rfl) fun _ _ => bind (hs.statements j) fun body hbody =>
    bind skipNewlines fun _ _ => discard (bind (expect rfl) fun _ _ => done ?_ hbody))
  rw [Node.weight_of_isBlock hbody.1]
  simp only [TokenKind.weight]
  omega

theorem bracedOr (hs : self.Build V N) {stmt : Bool} {inline_ : Parse Node}
    (hi : Builds V N (fun _ => True) stmt inline_) :
    Spends V N 0 j P (bracedOr self inline_) j (fun b => b.2.weight) (IsBody V N stmt) := by
  refine check ?_ ?_
  · refine bind (block hs) fun body hbody => done (Nat.zero_add _) ⟨fun _ => hbody.1, ?_⟩
    rw [Bool.not_true, Bool.and_false]
    exact hbody.2
  · refine bind (weaken (hi j) fun _ _ => trivial) fun body hbody =>
      done (Nat.zero_add _) ⟨nofun, ?_⟩
    rw [Bool.not_false, Bool.and_true]
    exact hbody

theorem branch (hs : self.Build V N) :
    Spends V N 0 j P (branch self) j (fun b => b.2.weight) (IsBody V N true) :=
  bind skipNewlines fun _ _ => weaken (bracedOr hs hs.statement) fun _ h => h

theorem colon {f : Bool → Parse β}
    (hf : ∀ b, Spends V N w j (fun _ => True) (f b) l m Q) :
    Spends V N w j P (Parse.accept .colon >>= f) l m Q :=
  accept (bind (weaken (advance rfl) fun _ h => h.2) fun _ _ => hf true)
    (weaken (hf false) fun _ _ => trivial)

theorem loopBody (hs : self.Build V N) {stmt : Bool} {inline_ : Parse Node}
    (hi : Builds V N (fun _ => True) stmt inline_) :
    Spends V N 0 j P (loopBody self inline_) j (fun b => b.2.weight) (IsBody V N stmt) :=
  bind skipNewlines fun _ _ => discard (colon fun _ => bind skipNewlines fun _ _ =>
    weaken (bracedOr hs hi) fun _ h => h)

/-! ### Expressions that start with a keyword or a bracket -/

theorem arm (hs : self.Build V N) :
    Spends V N 0 j P (arm self) j (fun a => a.1.weight + a.2.2.weight)
      fun a => a.1.Formed V N false ∧ IsBody V N true a.2 :=
  bind skipNewlines fun _ _ => bind (hs.expression j) fun condition hc =>
    discard (colon fun _ => bind (branch hs) fun body hb => done (by dsimp only; omega) ⟨hc, hb⟩)

theorem beyond {next : TokenKind → Option (Parse β)} {b : β}
    (hnext : ∀ kind p, next kind = some p → kind.isParen = false ∧
      Spends V N (w + kind.weight) j (fun _ => True) p j m Q)
    (hw : w = m b) (hQ : Q b) : Spends V N w j P (beyond next b) j m Q := by
  intro s hs hP a r h
  rw [Parse.beyond] at h
  split at h
  · rename_i p hp
    obtain ⟨hparen, hspend⟩ := hnext _ p hp
    have hrun : Spends V N w j (· = s) (Parse.skipNewlines >>= fun _ =>
        Parse.advance >>= fun _ => p) j m Q := by
      refine chained (L := fun r => r.peek = s.skipNewlines.peek) skipNewlines ?_
        fun _ _ => bind (take hparen) fun _ _ => hspend
      rintro _ _ _ rfl hskip _
      cases hskip
      rfl
    exact hrun s hs rfl a r h
  · cases h
    exact done hw hQ s hs hP b s rfl

theorem armsRest (hs : self.Build V N) (n : Nat) :
    Spends V N 0 j P (armsRest self n) j Arms.weight (Arms.Formed V N) := by
  induction n generalizing P with
  | zero => exact done rfl trivial
  | succ n ih =>
    have hnext : ∀ kind p, nextArm self n kind = some p → kind.isParen = false ∧
        Spends V N (0 + kind.weight) j (fun _ => True) p j Arms.weight (Arms.Formed V N) := by
      intro kind p hp
      unfold nextArm at hp
      split at hp
      · cases hp
        refine ⟨rfl, bind (arm hs) fun a ha => ?_⟩
        obtain ⟨condition, braced, body⟩ := a
        exact bind ih fun more hm =>
          done (by simp only [Arms.weight, TokenKind.weight]; omega) ⟨ha.1, ha.2.1, ha.2.2, hm⟩
      · cases hp
        exact ⟨rfl, discard (colon fun _ => bind (branch hs) fun b hb =>
          done (by simp only [Arms.weight, TokenKind.weight]) ⟨hb.1, hb.2⟩)⟩
      · cases hp
    rw [armsRest_succ]
    exact beyond hnext rfl trivial

theorem choice (hs : self.Build V N) :
    Spends V N 0 j (fun s => s.peek.kind = .keyword .if_) (choice self) j Node.weight
      (Node.Formed V N false) :=
  bind (advance rfl) fun _ _ => bind (arm hs) fun ⟨condition, braced, body⟩ ha =>
    remaining fun n => bind (armsRest hs n) fun more hm =>
      done (by simp only [Node.weight, Arms.weight, TokenKind.weight]; omega)
        ⟨rfl, ha.1, ha.2.1, ha.2.2, hm⟩

theorem forLoop (hs : self.Build V N) :
    Spends V N 0 j (fun s => s.peek.kind = .keyword .for_) (forLoop self) j Node.weight
      (Node.Formed V N false) := by
  refine bind (advance rfl) fun _ _ => bind skipNewlines fun _ _ => bind (expect rfl)
    fun name hname => bind skipNewlines fun _ _ => accept ?_ ?_
  · exact bind (weaken (advance rfl) fun _ h => h.2) fun _ _ => bind (hs.expression j)
      fun items hi => bind (loopBody hs hs.expression) fun ⟨braced, body⟩ hb =>
        done (by simp only [Node.weight, TokenKind.weight])
          ⟨hname.2.name hname.1, hi, hb.1, hb.2⟩
  · refine discard (bind (weaken (expect rfl) fun _ _ => trivial) fun _ _ => bind skipNewlines
      fun _ _ => bind (hs.expression j) fun start hstart => bind skipNewlines fun _ _ =>
        discard (bind (expect rfl) fun _ _ => bind skipNewlines fun _ _ => bind (hs.expression j)
          fun stop hstop => bind skipNewlines fun _ _ => accept ?_ ?_))
    · exact bind (weaken (advance rfl) fun _ h => h.2) fun _ _ => map (bind (hs.expression j)
        fun step hstep => bind (loopBody hs hs.expression) fun ⟨braced, body⟩ hb =>
          done (by simp only [Node.weight, weightSome, TokenKind.weight]; omega)
            ⟨hname.2.name hname.1, hstart, hstop, hstep, hb.1, hb.2⟩)
    · exact given <| bind (loopBody hs hs.expression) fun ⟨braced, body⟩ hb =>
        done (by simp only [Node.weight, weightSome, TokenKind.weight]; omega)
          ⟨hname.2.name hname.1, hstart, hstop, trivial, hb.1, hb.2⟩

theorem whileLoop (hs : self.Build V N) :
    Spends V N 0 j (fun s => s.peek.kind = .keyword .while_) (whileLoop self) j Node.weight
      (Node.Formed V N false) :=
  bind (advance rfl) fun _ _ => bind skipNewlines fun _ _ => bind (hs.expression j)
    fun condition hc => bind (loopBody hs hs.statement) fun ⟨braced, body⟩ hb =>
      done (by simp only [Node.weight, TokenKind.weight]) ⟨hc, hb.1, hb.2⟩

theorem parameters :
    Spends V N 0 j P parameters j List.length fun names => ∀ name ∈ names, V name := by
  have hname : Spends V N 0 (j + 1) (fun _ => True)
      (Token.lexeme <$> Parse.expect .identifier "identifier") (j + 1) (fun _ => 1) V :=
    bind (expect rfl) fun name hname => done rfl (hname.2.name hname.1)
  refine discard (bind (required opens) fun _ _ => ?_)
  intro s hfine hP names r h
  obtain ⟨hsuffix, hweight, hclosing, hnames⟩ :=
    enclosed (P := fun _ => True) hname (fun _ _ => Nat.one_pos) closes s hfine hP names r h
  refine ⟨hsuffix, ?_, hclosing, hnames⟩
  rw [total_one] at hweight
  exact hweight

theorem nodes {close : TokenKind} {what : String} (hs : self.Build V N)
    (hclose : Spends V N 0 j (fun s => s.peek.kind = close) Parse.advance l (fun _ => 0)
      fun _ => True) :
    Spends V N 0 j P (Parse.enclosed self.expression close what) l weightAll
      (allFormed V N false) := by
  intro s hfine hP ns r h
  obtain ⟨hsuffix, hweight, hclosing, hns⟩ :=
    enclosed (hs.expression j) (fun n => Node.weight_pos n) hclose s hfine hP ns r h
  rw [← weightAll_eq] at hweight
  exact ⟨hsuffix, hweight, hclosing, (allFormed_iff ns).mpr hns⟩

theorem arguments (hs : self.Build V N) :
    Spends V N 0 j P (arguments self) j weightAll (allFormed V N false) :=
  discard (bind (required opens) fun _ _ => nodes hs closes)

theorem functionName :
    Spends V N 0 j P functionName j (fun name => name.toList.length) fun name =>
      ∀ n ∈ name, V n := by
  refine check ?_ ?_
  · refine bind (weaken (advance rfl) fun _ h => h.2) fun name hname => bind skipNewlines
      fun _ _ => done rfl ?_
    intro n hn
    cases hn
    exact hname.2.name hname.1
  · exact done rfl nofun

theorem function (hs : self.Build V N) :
    Spends V N 0 j (fun s => s.peek.kind = .keyword .function_) (function self) j Node.weight
      (Node.Formed V N false) := by
  refine bind (advance rfl) fun _ _ => bind skipNewlines fun _ _ => bind functionName
    fun name hname => check ?_ ?_
  · refine bind parameters fun params hparams => bind skipNewlines fun _ _ => accept ?_ ?_
    · exact bind (weaken (advance rfl) fun _ h => h.2) fun _ _ => bind skipNewlines fun _ _ =>
        bind (hs.statement j) fun body hb =>
          done (by simp only [Node.weight, TokenKind.weight]; omega) ⟨hname, hparams, nofun, hb⟩
    · exact bind (block hs) fun body hb =>
        done (by simp only [Node.weight, TokenKind.weight]; omega)
          ⟨hname, hparams, fun _ => hb.1, hb.2⟩
  · exact fault _

theorem parentName :
    Spends V N 0 j P parentName j (fun name => 2 * name.toList.length) fun name =>
      ∀ n ∈ name, V n := by
  refine accept ?_ ?_
  · refine bind (weaken (advance rfl) fun _ h => h.2) fun _ _ => bind skipNewlines fun _ _ =>
      bind (expect rfl) fun name hname => bind skipNewlines fun _ _ => done rfl ?_
    intro n hn
    cases hn
    exact hname.2.name hname.1
  · exact done rfl nofun

theorem object (hs : self.Build V N) :
    Spends V N 0 j (fun s => s.peek.kind = .keyword .object_) (object self) j Node.weight
      (Node.Formed V N false) :=
  bind (advance rfl) fun _ _ => bind skipNewlines fun _ _ => bind (expect rfl) fun name hname =>
    bind skipNewlines fun _ _ => bind parameters fun params hparams => bind skipNewlines fun _ _ =>
      bind parentName fun parent hparent => bind (block hs) fun body hb =>
        done (by simp only [Node.weight, TokenKind.weight]; omega)
          ⟨hname.2.name hname.1, hparams, hparent, hb.1, hb.2⟩

theorem creation (hs : self.Build V N) :
    Spends V N 0 j (fun s => s.peek.kind = .keyword .new_) (creation self) j Node.weight
      (Node.Formed V N false) :=
  bind (advance rfl) fun _ _ => bind skipNewlines fun _ _ => bind (expect rfl) fun name hname =>
    bind skipNewlines fun _ _ => bind (arguments hs) fun args hargs =>
      done (by simp only [Node.weight, TokenKind.weight])
        ⟨hname.2.name hname.1, hargs⟩

theorem pathsRest (hs : self.Build V N) (n : Nat) :
    Spends V N 0 j P (pathsRest self n) j weightAll (allFormed V N false) := by
  induction n generalizing P with
  | zero => exact done rfl trivial
  | succ n ih =>
    refine accept ?_ (done rfl trivial)
    exact bind (weaken (advance rfl) fun _ h => h.2) fun _ _ => bind skipNewlines fun _ _ =>
      bind (hs.expression j) fun path hpath => bind ih fun more hmore =>
        done (by simp only [weightAll, TokenKind.weight]; omega) ⟨hpath, hmore⟩

theorem inclusion (hs : self.Build V N) :
    Spends V N 0 j (fun s => s.peek.kind = .keyword .include_) (inclusion self) j Node.weight
      (Node.Formed V N false) :=
  bind (advance rfl) fun _ _ => bind skipNewlines fun _ _ => bind (hs.expression j)
    fun path hpath => remaining fun n => bind (pathsRest hs n) fun more hmore =>
      done (by simp only [Node.weight, weightAll, TokenKind.weight]; omega)
        ⟨List.cons_ne_nil _ _, hpath, hmore⟩

theorem list (hs : self.Build V N) :
    Spends V N 0 j (fun s => s.peek.kind = .lSquare) (list self) j Node.weight
      (Node.Formed V N false) := by
  have hclose : Spends V N 0 j (fun s => s.peek.kind = .rSquare) Parse.advance j (fun _ => 0)
      fun _ => True :=
    fun s hfine hP a r h => by
      obtain ⟨hsuffix, hweight, hclosing, -⟩ :=
        advance (V := V) (N := N) (j := j) (show TokenKind.rSquare.isParen = false from rfl) s hfine hP a r h
      exact ⟨hsuffix, hweight, hclosing, trivial⟩
  exact bind (advance rfl) fun _ _ => bind (nodes hs hclose) fun items hitems =>
    done (by simp only [Node.weight, TokenKind.weight]) hitems

theorem parens (hs : self.Build V N) :
    Spends V N 0 j (fun s => s.peek.kind = .lParen) (parens self) j Node.weight
      (Node.Formed V N false) :=
  discard (bind opens fun _ _ => bind skipNewlines fun _ _ => bind (hs.expression (j + 1))
    fun inner hinner => bind skipNewlines fun _ _ => discard (bind (required closes) fun _ _ =>
      done (by omega) hinner))

/-! ### Names and numbers -/

theorem named (hs : self.Build V N) (hone : N (.ofNat 1)) :
    Spends V N 0 j (fun s => s.peek.kind = .identifier) (named self) j Node.weight
      (Node.Formed V N false) := by
  refine bind (advance rfl) fun token htoken => peek fun next _ => ?_
  have hname := htoken.2.name htoken.1
  split
  · rename_i hk
    exact discard (bind (weaken (take (by rw [hk]; rfl)) fun _ h => h.2) fun _ _ =>
      bind skipNewlines fun _ _ => bind (hs.expression j) fun value hvalue =>
        done (by rw [hk]; simp only [Node.weight, TokenKind.weight]) ⟨hname, hvalue⟩)
  · rename_i hk
    exact discard (bind (weaken (take (by rw [hk]; rfl)) fun _ h => h.2) fun _ _ =>
      done (by rw [hk]; rfl) ⟨hname, hone⟩)
  · rename_i hk
    exact discard (bind (weaken (take (by rw [hk]; rfl)) fun _ h => h.2) fun _ _ =>
      done (by rw [hk]; rfl) ⟨hname, hone⟩)
  · split
    · rename_i op hop
      have hkind : next.kind.isParen = false ∧ next.kind.weight = 1 := by
        unfold updateOp? at hop
        split at hop
        · rename_i hk
          rw [hk]
          exact ⟨rfl, rfl⟩
        · rename_i hk
          rw [hk]
          exact ⟨rfl, rfl⟩
        · rename_i hk
          rw [hk]
          exact ⟨rfl, rfl⟩
        · rename_i hk
          rw [hk]
          exact ⟨rfl, rfl⟩
        · cases hop
      exact discard (bind (weaken (take hkind.1) fun _ h => h.2) fun _ _ =>
        bind skipNewlines fun _ _ => bind (hs.expression j) fun value hvalue =>
          done (by rw [hkind.2]; simp only [Node.weight, TokenKind.weight])
            ⟨hname, hvalue⟩)
    · exact done rfl hname

theorem numeral {t : Token} (ht : t.kind = .int ∨ t.kind = .float) (hfine : t.Fine V N) :
    Spends V N 0 j (fun s => s.peek = t) numeral j Node.weight (Node.Formed V N false) := by
  have hkind : t.kind.isParen = false ∧ t.kind.weight = 1 := by
    rcases ht with ht | ht
    · rw [ht]
      exact ⟨rfl, rfl⟩
    · rw [ht]
      exact ⟨rfl, rfl⟩
  refine bind (take hkind.1) fun token htoken => ?_
  cases htoken
  split
  · rename_i value hvalue
    exact done (by rw [hkind.2]; rfl) (hfine.number ht value hvalue)
  · exact fault _

theorem signed (hs : self.Build V N) {kind : TokenKind} (hkind : kind.isParen = false)
    (hweight : kind.weight = 1) (op : UnaryOp) :
    Spends V N 0 j (fun s => s.peek.kind = kind) (signed self op) j Node.weight
      (Node.Formed V N false) :=
  bind (advance hkind) fun _ _ => bind skipNewlines fun _ _ => bind (hs.access j)
    fun operand ho => done (by simp only [Node.weight, hweight]) ho

/-! ### Tiers -/

/-- The numbers that have no token of their own kind are allowed ones. -/
structure Literals (N : Single → Prop) : Prop where
  one : N (.ofNat 1)
  zero : N (.zero false)

theorem word {t : Token} {kind : TokenKind} {n : Node} (ht : t.kind = kind)
    (hkind : kind.isParen = false) (hweight : kind.weight = n.weight)
    (hn : n.Formed V N false) :
    Spends V N 0 j (fun s => s.peek = t) (Functor.discard Parse.advance >>= fun _ => Parse.done n) j
      Node.weight (Node.Formed V N false) := by
  refine discard (bind (take (by rw [ht, hkind])) fun _ _ => done ?_ hn)
  rw [ht, hweight]
  exact Nat.zero_add _

theorem factorRule (hs : self.Build V N) (hN : Literals N) {t : Token} (hfine : t.Fine V N) :
    Spends V N 0 j (fun s => s.peek = t) (factorRule self t) j Node.weight
      (Node.Formed V N false) := by
  have hkind : ∀ {kind}, t.kind = kind → ∀ s : Stream, s.peek = t → s.peek.kind = kind :=
    fun ht s hs => by rw [hs, ht]
  unfold Grammar.factorRule
  split
  · exact numeral (.inl ‹_›) hfine
  · exact numeral (.inr ‹_›) hfine
  · exact word ‹_› rfl rfl trivial
  · exact weaken (named hs hN.one) (hkind ‹_›)
  · exact weaken (list hs) (hkind ‹_›)
  · exact weaken (signed hs rfl rfl _) (hkind ‹_›)
  · exact weaken (signed hs rfl rfl _) (hkind ‹_›)
  · exact word ‹_› rfl rfl hN.one
  · exact word ‹_› rfl rfl hN.zero
  · exact word ‹_› rfl rfl hN.zero
  · exact weaken (choice hs) (hkind ‹_›)
  · exact weaken (forLoop hs) (hkind ‹_›)
  · exact weaken (whileLoop hs) (hkind ‹_›)
  · exact weaken (function hs) (hkind ‹_›)
  · exact weaken (object hs) (hkind ‹_›)
  · exact weaken (creation hs) (hkind ‹_›)
  · exact word ‹_› rfl rfl trivial
  · exact weaken (inclusion hs) (hkind ‹_›)
  · exact weaken (parens hs) (hkind ‹_›)
  · intro s hs' hP n r h
    obtain ⟨hsuffix, hweight, hclosing, hn⟩ := block (P := fun _ => True) hs s hs' trivial n r h
    exact ⟨hsuffix, hweight, hclosing, hn.2⟩
  · exact fault _

theorem factor (hs : self.Build V N) (hN : Literals N) :
    Builds V N (fun _ => True) false (factor self) :=
  fun j => show Spends V N 0 j (fun _ => True)
      (Parse.skipNewlines >>= fun _ => Parse.peek >>= Grammar.factorRule self) j Node.weight
      (Node.Formed V N false) from
    bind skipNewlines fun _ _ => peek fun _ hfine => weaken (factorRule hs hN hfine) fun _ h => h.2

theorem call (hs : self.Build V N) (hN : Literals N) :
    Builds V N (fun _ => True) false (call self) := by
  intro j
  refine bind (factor hs hN j) fun callee hcallee => check ?_ ?_
  · exact bind (arguments hs) fun args hargs =>
      done (by rw [Node.weight]; omega) ⟨hcallee, hargs⟩
  · exact done (Nat.zero_add _) hcallee

theorem segmentsRest (hs : self.Build V N) (hN : Literals N) (n : Nat) :
    Spends V N 0 j P (segmentsRest self n) j weightMore (allFormed V N false) := by
  induction n generalizing P with
  | zero => exact done rfl trivial
  | succ n ih =>
    refine accept ?_ (done rfl trivial)
    refine bind (weaken (advance rfl) fun _ h => h.2) fun _ _ => bind skipNewlines fun _ _ =>
      bind (bracedOr hs (call hs hN)) fun ⟨braced, segment⟩ hsegment => bind ih fun more hmore =>
        done (by simp only [weightMore, TokenKind.weight]) ⟨?_, hmore⟩
    have hformed := hsegment.2
    rw [Bool.false_and] at hformed
    exact hformed

theorem access (hs : self.Build V N) (hN : Literals N) :
    Builds V N (fun _ => True) false (access self) := by
  intro j
  refine bind (call hs hN j) fun first hfirst => remaining fun n =>
    bind (segmentsRest hs hN n) fun more hmore => ?_
  cases more with
  | nil => exact done (by rw [weightMore]; omega) hfirst
  | cons second more =>
    exact done (by simp only [Node.weight, weightSegments]; omega)
      ⟨by simp only [List.length_cons]; omega, hfirst, hmore⟩

theorem term (hs : self.Build V N) (hN : Literals N) :
    Builds V N (fun _ => True) false (term self) :=
  chain operators_factor (access hs hN)

theorem sum (hs : self.Build V N) (hN : Literals N) :
    Builds V N (fun _ => True) false (sum self) :=
  chain operators_term (term hs hN)

theorem comparison (hs : self.Build V N) (hN : Literals N) :
    Builds V N (fun _ => True) false (comparison self) :=
  chain operators_comparison (sum hs hN)

theorem negation (hs : self.Build V N) (hN : Literals N) :
    Builds V N (fun _ => True) false (negation self) := by
  intro j
  refine check ?_ ?_
  · exact bind (weaken (advance rfl) fun _ h => h.2) fun _ _ => bind skipNewlines fun _ _ =>
      bind (hs.negation j) fun operand ho => done (by simp only [Node.weight, TokenKind.weight]) ho
  · exact weaken (comparison hs hN j) fun _ _ => trivial

theorem declaration (hs : self.Build V N) :
    Spends V N 0 j (fun s => s.peek.kind = .keyword .var_) (declaration self) j Node.weight
      (Node.Formed V N false) :=
  bind (advance rfl) fun _ _ => bind skipNewlines fun _ _ => bind (expect rfl) fun name hname =>
    bind skipNewlines fun _ _ => discard (bind (expect rfl) fun _ _ => bind skipNewlines fun _ _ =>
      bind (hs.expression j) fun value hvalue =>
        done (by simp only [Node.weight, TokenKind.weight]) ⟨hname.2.name hname.1, hvalue⟩)

theorem expression (hs : self.Build V N) (hN : Literals N) :
    Builds V N (fun _ => True) false (expression self) := by
  intro j
  refine check ?_ ?_
  · exact weaken (declaration hs) fun _ h => h.2
  · exact weaken (chain operators_logic (negation hs hN) j) fun _ _ => trivial

/-! ### Statements -/

theorem statement (hs : self.Build V N) (hN : Literals N) :
    Builds V N (fun _ => True) true (statement self) := by
  intro j
  refine peek fun token _ => ?_
  split
  · rename_i hk
    refine discard (bind (weaken (take (by rw [hk]; rfl)) fun _ h => h.2) fun _ _ =>
      bind skipNewlines fun _ _ => bind (attempt (hs.expression j)) fun value hvalue => ?_)
    rw [hk]
    cases value with
    | none => exact done rfl ⟨rfl, trivial⟩
    | some value => exact done rfl ⟨rfl, hvalue value rfl⟩
  · rename_i hk
    exact discard (bind (weaken (take (by rw [hk]; rfl)) fun _ h => h.2) fun _ _ =>
      done (by rw [hk]; rfl) rfl)
  · rename_i hk
    exact discard (bind (weaken (take (by rw [hk]; rfl)) fun _ h => h.2) fun _ _ =>
      done (by rw [hk]; rfl) rfl)
  · intro s hfine hP n r h
    obtain ⟨hsuffix, hweight, hclosing, hn⟩ := expression hs hN j s hfine trivial n r h
    exact ⟨hsuffix, hweight, hclosing, hn.mono⟩

theorem statementsRest (hs : self.Build V N) (hN : Literals N) (n : Nat) :
    Spends V N 0 j P (statementsRest self n) j weightAll (allFormed V N true) := by
  induction n generalizing P with
  | zero => exact done rfl trivial
  | succ n ih =>
    refine check ?_ (done rfl trivial)
    refine bind skipNewlines fun _ _ => bind (attempt (statement hs hN j)) fun next hnext => ?_
    cases next with
    | none => exact done rfl trivial
    | some next =>
      exact bind ih fun more hmore => done (by simp only [weightAll, Option.map_some, Option.getD_some]; omega)
        ⟨hnext next rfl, hmore⟩

theorem statements (hs : self.Build V N) (hN : Literals N) : Fills V N (statements self) := by
  intro j
  refine bind skipNewlines fun _ _ => peek fun token _ => ?_
  split
  · exact done rfl ⟨by simp [Node.isBlock], hN.zero⟩
  · exact bind (weaken (statement hs hN j) fun _ _ => trivial) fun first hfirst =>
      remaining fun n => bind (statementsRest hs hN n) fun more hmore =>
        done (by simp only [Node.fill, weightAll]; omega)
          ⟨rfl, List.cons_ne_nil _ _, hfirst, hmore⟩

/-- All rules spend what they build. -/
theorem rules (hN : Literals N) (n : Nat) : (rules n).Build V N := by
  induction n with
  | zero => exact ⟨fun _ => fault _, fun _ => fault _, fun _ => fault _, fun _ => fault _,
      fun _ => fault _⟩
  | succ n ih =>
    exact ⟨expression ih hN, negation ih hN, access ih hN, statement ih hN, statements ih hN⟩

end Spends

end ScriptEngine
