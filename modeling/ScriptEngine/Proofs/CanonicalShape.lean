import ScriptEngine.Proofs.ParsedTrees
import ScriptEngine.Proofs.ReadBack

/-! # The shape of canonical tokens

The tokens of a well-formed tree whose numbers are finite and not below zero weigh as much as the
tree, their parentheses match, and they start with a token that tells what follows. -/

namespace ScriptEngine

open Canonical Printer

/-! ### Balanced tokens of a weight -/

/-- Tokens of weight `w` whose parentheses match; one that stands at the front closes among them. -/
structure Shape (ts : List Token) (w : Nat) : Prop where
  weighs : weight ts = w
  balanced : ∀ d rest, closing d (ts ++ rest) = closing d rest
  opened : ∀ t us, ts = t :: us → t.kind = .lParen →
    ∀ rest, ∃ inner, closing 0 (us ++ rest) = some (inner ++ rest)

namespace Shape

variable {ts us : List Token} {w v : Nat}

theorem congr (h : Shape ts w) (hw : w = v) : Shape ts v :=
  hw ▸ h

theorem regroup (h : Shape ts w) (hts : ts = us) : Shape us w :=
  hts ▸ h

theorem nil : Shape [] 0 :=
  ⟨rfl, fun _ _ => rfl, nofun⟩

theorem cons {t : Token} (ht : t.kind.isParen = false) (h : Shape ts w) :
    Shape (t :: ts) (t.kind.weight + w) := by
  refine ⟨by rw [weight, h.weighs], ?_, ?_⟩
  · intro d rest
    rw [List.cons_append, closing_other ht, h.balanced]
  · intro u us heq hu
    cases heq
    rw [hu] at ht
    cases ht

theorem append (ha : Shape ts w) (hb : Shape us v) : Shape (ts ++ us) (w + v) := by
  refine ⟨by rw [weight_append, ha.weighs, hb.weighs], ?_, ?_⟩
  · intro d rest
    rw [List.append_assoc, ha.balanced, hb.balanced]
  · intro t vs heq ht rest
    cases ts with
    | nil => exact hb.opened t vs heq ht rest
    | cons u ts =>
      rw [List.cons_append, List.cons.injEq] at heq
      obtain ⟨inner, hinner⟩ := ha.opened u ts rfl (heq.1 ▸ ht) (us ++ rest)
      refine ⟨inner ++ us, ?_⟩
      rw [← heq.2, List.append_assoc, hinner, List.append_assoc]

theorem closing_group (h : Shape ts w) (rest : List Token) :
    closing 0 (ts ++ TokenKind.rParen.token :: rest) = some rest := by
  rw [h.balanced, closing_close_zero rfl]

/-- Parentheses around balanced tokens weigh nothing. -/
theorem group (h : Shape ts w) :
    Shape (TokenKind.lParen.token :: (ts ++ [TokenKind.rParen.token])) w := by
  refine ⟨?_, ?_, ?_⟩
  · rw [weight, weight_append, h.weighs]
    exact Nat.zero_add w
  · intro d rest
    rw [List.cons_append, closing_open rfl, List.append_assoc, h.balanced, List.singleton_append,
      closing_close rfl]
  · intro t us heq ht rest
    cases heq
    refine ⟨[], ?_⟩
    rw [List.append_assoc, List.singleton_append, h.closing_group, List.nil_append]

theorem wrap (b : Bool) (h : Shape ts w) : Shape (wrapped b ts) w := by
  unfold wrapped
  split
  · exact h.group
  · exact h

theorem single {t : Token} (ht : t.kind.isParen = false) : Shape [t] t.kind.weight :=
  nil.cons ht

theorem parameters (names : List String) : Shape (parameterTokens names) names.length := by
  induction names with
  | nil => exact nil
  | cons name names ih =>
    cases names with
    | nil => exact single rfl
    | cons second names =>
      refine ((ih.cons (t := TokenKind.comma.token) rfl).cons (t := nameToken name) rfl).congr ?_
      simp only [TokenKind.token, nameToken, TokenKind.weight, List.length_cons]
      omega

theorem block {body : Node} (hblock : body.isBlock = true) (h : Shape body.tokens body.weight) :
    Shape (blockTokens body body.tokens) body.weight := by
  cases body with
  | sequence _ statements => exact h
  | number _ value =>
    have hvalue : value = .zero false := by simpa [Node.isBlock] using hblock
    rw [hvalue]
    exact ((single rfl).cons (t := TokenKind.newline.token) rfl).cons
      (t := TokenKind.lBrace.token) rfl
  | _ => cases hblock

theorem body {braced : Bool} {body : Node} (hblock : braced = true → body.isBlock = true)
    (h : Shape body.tokens body.weight) :
    Shape (bodyTokens braced body body.tokens) body.weight := by
  unfold bodyTokens
  split
  · rename_i hbraced
    exact block (hblock hbraced) h
  · refine ((h.wrap _).cons (t := TokenKind.colon.token) rfl).congr ?_
    exact Nat.zero_add _

end Shape

/-! ### Trees -/

/-- Trees that parsing can give, with numbers that are written as one token. -/
def Node.Regular (stmt : Bool) (n : Node) : Prop :=
  n.Formed (fun _ => True) (fun value => value.isPlain = true) stmt

def Arms.Regular (arms : Arms) : Prop :=
  arms.Formed (fun _ => True) (fun value => value.isPlain = true)

def allRegular (stmt : Bool) (ns : List Node) : Prop :=
  allFormed (fun _ => True) (fun value => value.isPlain = true) stmt ns

def someRegular (n : Option Node) : Prop :=
  someFormed (fun _ => True) (fun value => value.isPlain = true) n

theorem magnitudeToken_kind (m : Magnitude Format.single) :
    (magnitudeToken m).kind = .int ∨ (magnitudeToken m).kind = .float := by
  unfold magnitudeToken
  dsimp only
  split
  · exact .inr rfl
  · exact .inl rfl

theorem BinaryOp.kind_facts (op : BinaryOp) :
    op.kind.token.kind.isParen = false ∧ op.kind.token.kind.weight = 1 := by
  cases op with
  | arithmetic op => cases op <;> exact ⟨rfl, rfl⟩
  | _ => exact ⟨rfl, rfl⟩

theorem UnaryOp.kind_facts (op : UnaryOp) :
    op.kind.token.kind.isParen = false ∧ op.kind.token.kind.weight = 1 := by
  cases op <;> exact ⟨rfl, rfl⟩

theorem Arithmetic.updateKind_facts (op : Arithmetic) :
    op.updateKind.token.kind.isParen = false ∧ op.updateKind.token.kind.weight = 1 := by
  cases op <;> exact ⟨rfl, rfl⟩

mutual

theorem Node.shape {stmt : Bool} (n : Node) (h : n.Regular stmt) : Shape n.tokens n.weight := by
  match n with
  | .number _ (.finite false m) =>
    refine (Shape.single ?_).congr ?_
    · rcases magnitudeToken_kind m with hm | hm <;> rw [hm] <;> rfl
    · rcases magnitudeToken_kind m with hm | hm <;> rw [hm] <;> rfl
  | .number _ .nan | .number _ (.infinite _) | .number _ (.finite true _) => cases h
  | .text _ _ | .read _ _ | .this _ | .continue_ _ | .break_ _ => exact Shape.single rfl
  | .list _ items =>
    exact ((itemTokens_shape items h).cons (t := TokenKind.lSquare.token) rfl).append
      (Shape.single (t := TokenKind.rSquare.token) rfl)
  | .binary _ op left right =>
    have hop := op.kind_facts
    have hl := (Node.shape left h.1).wrap (isGreedy left)
    have hr := (Node.shape right h.2).wrap (isGreedy right)
    refine (hl.append (hr.cons hop.1)).group.congr ?_
    rw [hop.2, Node.weight]
    omega
  | .unary _ op operand =>
    have hop := op.kind_facts
    refine (((Node.shape operand h).wrap (isGreedy operand)).cons hop.1).group.congr ?_
    rw [hop.2, Node.weight]
  | .declare _ name value =>
    refine ((((Node.shape value h.2).wrap (isOpenChoice value)).cons
      (t := TokenKind.equals.token) rfl).cons (t := nameToken name) rfl).cons
        (t := (TokenKind.keyword .var_).token) rfl |>.congr ?_
    simp only [Node.weight, TokenKind.token, nameToken, TokenKind.weight]
    omega
  | .assign _ name value =>
    refine (((Node.shape value h.2).wrap (isOpenChoice value)).cons
      (t := TokenKind.equals.token) rfl).cons (t := nameToken name) rfl |>.congr ?_
    simp only [Node.weight, TokenKind.token, nameToken, TokenKind.weight]
    omega
  | .update _ name op value =>
    have hop := op.updateKind_facts
    refine (((Node.shape value h.2).wrap (isOpenChoice value)).cons hop.1).cons
      (t := nameToken name) rfl |>.congr ?_
    rw [hop.2]
    simp only [Node.weight, nameToken, TokenKind.weight]
    omega
  | .choose _ arms => exact Arms.shape .if_ arms h.2
  | .count _ name start stop step braced body =>
    have hstart := ((((Node.shape start h.2.1).cons (t := TokenKind.equals.token) rfl).cons
      (t := nameToken name) rfl).cons (t := (TokenKind.keyword .for_).token) rfl)
    have hstop := (Node.shape stop h.2.2.1).cons (t := (TokenKind.keyword .to_).token) rfl
    have hbody := Shape.body h.2.2.2.2.1 (Node.shape body h.2.2.2.2.2)
    refine (((hstart.append hstop).append (stepTokens_shape step h.2.2.2.1)).append hbody).congr ?_
    simp only [Node.weight, TokenKind.token, nameToken, TokenKind.weight]
    omega
  | .each _ name items braced body =>
    have hitems := (((Node.shape items h.2.1).cons (t := (TokenKind.keyword .in_).token) rfl).cons
      (t := nameToken name) rfl).cons (t := (TokenKind.keyword .for_).token) rfl
    refine (hitems.append (Shape.body h.2.2.1 (Node.shape body h.2.2.2))).congr ?_
    simp only [Node.weight, TokenKind.token, nameToken, TokenKind.weight]
    omega
  | .loop _ condition braced body =>
    exact ((Node.shape condition h.1).cons (t := (TokenKind.keyword .while_).token) rfl).append
      (Shape.body h.2.1 (Node.shape body h.2.2))
  | .function _ name params braced body =>
    have hname : Shape (name.map nameToken).toList name.toList.length := by
      cases name with
      | none => exact Shape.nil
      | some name => exact Shape.single (t := nameToken name) rfl
    have hbody := Shape.body h.2.2.1 (Node.shape body h.2.2.2)
    refine (((hname.cons (t := (TokenKind.keyword .function_).token) rfl).append
      ((Shape.parameters params).group.append hbody)).regroup ?_).congr ?_
    · rw [Node.tokens]
      simp only [List.cons_append, List.append_assoc, List.nil_append]
    · simp only [Node.weight, TokenKind.token, TokenKind.weight]
      omega
  | .call _ callee args =>
    refine (((Node.shape callee h.1).wrap (!isBareCallee callee)).append
      (itemTokens_shape args h.2).group).regroup ?_
    rw [Node.tokens]
    simp only [List.cons_append, List.append_assoc]
  | .sequence _ statements =>
    have hend := (Shape.single (t := TokenKind.rBrace.token) rfl).cons
      (t := TokenKind.newline.token) rfl
    exact ((lineTokens_shape statements h.2).cons (t := TokenKind.lBrace.token) rfl).append hend
  | .members _ segments => exact segmentTokens_shape segments h.2
  | .object _ name params parent body =>
    have hparent : Shape (match parent with
        | some p => [(TokenKind.keyword .extends_).token, nameToken p]
        | none => []) (2 * parent.toList.length) := by
      cases parent with
      | none => exact Shape.nil
      | some p =>
        exact (Shape.single (t := nameToken p) rfl).cons (t := (TokenKind.keyword .extends_).token) rfl
    have hbody := Shape.block h.2.2.2.1 (Node.shape body h.2.2.2.2)
    refine (((((Shape.parameters params).group.append (hparent.append hbody)).cons
      (t := nameToken name) rfl).cons
        (t := (TokenKind.keyword .object_).token) rfl).regroup ?_).congr ?_
    · cases parent <;>
        simp only [Node.tokens, List.cons_append, List.append_assoc, List.nil_append]
    · simp only [Node.weight, TokenKind.token, nameToken, TokenKind.weight]
      omega
  | .create _ name args =>
    refine (((itemTokens_shape args h.2).group.cons (t := nameToken name) rfl).cons
      (t := (TokenKind.keyword .new_).token) rfl).congr ?_
    simp only [Node.weight, TokenKind.token, nameToken, TokenKind.weight]
    omega
  | .return_ _ none => exact Shape.single (t := (TokenKind.keyword .return_).token) rfl
  | .return_ _ (some value) =>
    exact ((Node.shape value h.2).wrap (isOpenChoice value)).cons
      (t := (TokenKind.keyword .return_).token) rfl
  | .include_ _ paths =>
    exact (itemTokens_shape paths h.2).cons (t := (TokenKind.keyword .include_).token) rfl

theorem Arms.shape (word : Keyword) (arms : Arms) (h : arms.Regular) :
    Shape (arms.tokens word) arms.weight := by
  match arms with
  | .done => exact Shape.nil
  | .otherwise braced body =>
    exact (Shape.body h.1 (Node.shape body h.2)).cons (t := (TokenKind.keyword .else_).token) rfl
  | .arm condition braced body more =>
    have hcondition := (Node.shape condition h.1).cons (t := (TokenKind.keyword word).token) rfl
    exact (hcondition.append (Shape.body h.2.1 (Node.shape body h.2.2.1))).append
      (Arms.shape .elseif_ more h.2.2.2)

theorem itemTokens_shape {stmt : Bool} (ns : List Node) (h : allRegular stmt ns) :
    Shape (itemTokens ns) (weightAll ns) := by
  match ns with
  | [] => exact Shape.nil
  | n :: ns => exact (Node.shape n h.1).append (moreItemTokens_shape ns h.2)

theorem moreItemTokens_shape {stmt : Bool} (ns : List Node) (h : allRegular stmt ns) :
    Shape (moreItemTokens ns) (weightAll ns) := by
  match ns with
  | [] => exact Shape.nil
  | n :: ns =>
    refine (((Node.shape n h.1).append (moreItemTokens_shape ns h.2)).cons
      (t := TokenKind.comma.token) rfl).congr ?_
    exact Nat.zero_add _

theorem segmentTokens_shape {stmt : Bool} (ns : List Node) (h : allRegular stmt ns) :
    Shape (segmentTokens ns) (weightSegments ns) := by
  match ns with
  | [] => exact Shape.nil
  | n :: ns =>
    exact ((Node.shape n h.1).wrap (isNumber n)).append (moreSegmentTokens_shape ns h.2)

theorem moreSegmentTokens_shape {stmt : Bool} (ns : List Node) (h : allRegular stmt ns) :
    Shape (moreSegmentTokens ns) (weightMore ns) := by
  match ns with
  | [] => exact Shape.nil
  | n :: ns =>
    exact (((Node.shape n h.1).wrap (isNumber n)).cons (t := TokenKind.point.token) rfl).append
      (moreSegmentTokens_shape ns h.2)

theorem lineTokens_shape {stmt : Bool} (ns : List Node) (h : allRegular stmt ns) :
    Shape (lineTokens ns) (weightAll ns) := by
  match ns with
  | [] => exact Shape.nil
  | n :: ns =>
    refine (((Node.shape n h.1).append (lineTokens_shape ns h.2)).cons
      (t := TokenKind.newline.token) rfl).congr ?_
    exact Nat.zero_add _

theorem stepTokens_shape (step : Option Node) (h : someRegular step) :
    Shape (stepTokens step) (weightSome step) := by
  match step with
  | none => exact Shape.nil
  | some step =>
    exact (Node.shape step h).cons (t := (TokenKind.keyword .by_).token) rfl

end

/-! ### The first token -/

/-- A jump is a statement of its own. -/
def TokenKind.jumps : TokenKind → Bool
  | .keyword .return_ | .keyword .continue_ | .keyword .break_ => true
  | _ => false

/-- Canonical text can start with such a token. -/
def TokenKind.leads : TokenKind → Bool
  | .int | .float | .text | .identifier | .lSquare | .lParen | .lBrace => true
  | .keyword k =>
    match k with
    | .var_ | .if_ | .for_ | .while_ | .function_ | .object_ | .new_ | .this_ | .include_
    | .return_ | .continue_ | .break_ => true
    | _ => false
  | _ => false

/-- The tokens start with one at no place that canonical text can start with, and with a jump only
if the text is a statement. -/
def Leads (stmt : Bool) (ts : List Token) : Prop :=
  ∃ t us, ts = t :: us ∧ t.position = .none ∧ t.kind.leads = true ∧
    (t.kind.jumps = true → stmt = true)

namespace Leads

variable {stmt : Bool} {ts : List Token}

theorem cons {t : Token} (us : List Token) (hp : t.position = .none) (ht : t.kind.leads = true)
    (hj : t.kind.jumps = false) : Leads stmt (t :: us) :=
  ⟨t, us, rfl, hp, ht, fun h => by rw [hj] at h; cases h⟩

theorem append (h : Leads stmt ts) (us : List Token) : Leads stmt (ts ++ us) := by
  obtain ⟨t, vs, rfl, ht⟩ := h
  exact ⟨t, vs ++ us, rfl, ht⟩

theorem wrap (h : Leads stmt ts) (b : Bool) : Leads stmt (wrapped b ts) := by
  unfold wrapped
  split
  · exact cons _ rfl rfl rfl
  · exact h

theorem firstKind (h : Leads stmt ts) :
    (firstKind ts).leads = true ∧ ((ScriptEngine.firstKind ts).jumps = true → stmt = true) := by
  obtain ⟨t, vs, rfl, -, ht⟩ := h
  exact ht

end Leads

theorem Node.leads {stmt : Bool} (n : Node) (h : n.Regular stmt) : Leads stmt n.tokens := by
  match n with
  | .number _ (.finite false m) =>
    refine Leads.cons [] rfl ?_ ?_
    · rcases magnitudeToken_kind m with hm | hm <;> rw [hm] <;> rfl
    · rcases magnitudeToken_kind m with hm | hm <;> rw [hm] <;> rfl
  | .number _ .nan | .number _ (.infinite _) | .number _ (.finite true _) => cases h
  | .call _ callee args =>
    rw [Node.tokens]
    have hcallee : Leads stmt (wrapped (!isBareCallee callee) callee.tokens) := by
      cases callee with
      | read _ _ | this _ | text _ _ | list _ _ => exact Leads.cons _ rfl rfl rfl
      | _ => exact Leads.cons _ rfl rfl rfl
    rw [List.append_assoc]
    exact hcallee.append _
  | .choose _ (.arm condition braced body more) => exact Leads.cons _ rfl rfl rfl
  | .choose _ .done => cases h.1
  | .choose _ (.otherwise _ _) => cases h.1
  | .members _ [] => exact absurd h.1 (by decide)
  | .members _ (n :: ns) =>
    have hfirst := (Node.leads n h.2.1).wrap (isNumber n)
    obtain ⟨t, ts, heq, hp, ht, hj⟩ := hfirst.append (moreSegmentTokens ns)
    exact ⟨t, ts, heq, hp, ht, fun hk => by cases hj hk⟩
  | .return_ _ _ => exact ⟨_, _, rfl, rfl, rfl, fun _ => h.1⟩
  | .continue_ _ | .break_ _ => exact ⟨_, _, rfl, rfl, rfl, fun _ => h⟩
  | .text _ _ | .read _ _ | .this _ | .list _ _ | .binary _ _ _ _ | .unary _ _ _ | .declare _ _ _
  | .assign _ _ _ | .update _ _ _ _ | .count _ _ _ _ _ _ _ | .each _ _ _ _ _ | .loop _ _ _ _
  | .function _ _ _ _ _ | .sequence _ _ | .object _ _ _ _ _ | .create _ _ _ | .include_ _ _ =>
    exact Leads.cons _ rfl rfl rfl

/-! ### Places weigh nothing -/

mutual

theorem Node.weight_erase (n : Node) : n.erase.weight = n.weight := by
  match n with
  | .number _ _ | .text _ _ | .read _ _ | .this _ | .continue_ _ | .break_ _ => rfl
  | .list _ items | .create _ _ items | .include_ _ items | .sequence _ items =>
    simp only [Node.erase, Node.weight, weightAll_erase items]
  | .binary _ _ left right =>
    simp only [Node.erase, Node.weight, Node.weight_erase left, Node.weight_erase right]
  | .unary _ _ value | .declare _ _ value | .assign _ _ value | .update _ _ _ value =>
    simp only [Node.erase, Node.weight, Node.weight_erase value]
  | .choose _ arms => simp only [Node.erase, Node.weight, Arms.weight_erase arms]
  | .count _ _ start stop step _ body =>
    simp only [Node.erase, Node.weight, Node.weight_erase start, Node.weight_erase stop,
      weightSome_erase step, Node.weight_erase body]
  | .each _ _ items _ body =>
    simp only [Node.erase, Node.weight, Node.weight_erase items, Node.weight_erase body]
  | .loop _ condition _ body =>
    simp only [Node.erase, Node.weight, Node.weight_erase condition, Node.weight_erase body]
  | .function _ _ _ _ body | .object _ _ _ _ body =>
    simp only [Node.erase, Node.weight, Node.weight_erase body]
  | .call _ callee args =>
    simp only [Node.erase, Node.weight, Node.weight_erase callee, weightAll_erase args]
  | .members _ [] => rfl
  | .members _ (n :: ns) =>
    simp only [Node.erase, eraseAll, Node.weight, weightSegments, Node.weight_erase n,
      weightMore_erase ns]
  | .return_ _ none => rfl
  | .return_ _ (some value) =>
    simp only [Node.erase, eraseSome, Node.weight, Node.weight_erase value]

theorem Arms.weight_erase (arms : Arms) : arms.erase.weight = arms.weight := by
  match arms with
  | .done => rfl
  | .otherwise _ body => simp only [Arms.erase, Arms.weight, Node.weight_erase body]
  | .arm condition _ body more =>
    simp only [Arms.erase, Arms.weight, Node.weight_erase condition, Node.weight_erase body,
      Arms.weight_erase more]

theorem weightAll_erase (ns : List Node) : weightAll (eraseAll ns) = weightAll ns := by
  match ns with
  | [] => rfl
  | n :: ns => simp only [eraseAll, weightAll, Node.weight_erase n, weightAll_erase ns]

theorem weightMore_erase (ns : List Node) : weightMore (eraseAll ns) = weightMore ns := by
  match ns with
  | [] => rfl
  | n :: ns => simp only [eraseAll, weightMore, Node.weight_erase n, weightMore_erase ns]

theorem weightSome_erase (n : Option Node) : weightSome (eraseSome n) = weightSome n := by
  match n with
  | none => rfl
  | some n => simp only [eraseSome, weightSome, Node.weight_erase n]

end

end ScriptEngine
