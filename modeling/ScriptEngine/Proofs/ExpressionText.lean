import ScriptEngine.Proofs.SourceReadBack

/-! # Text of operators, assignments and calls

Trees of literals, names, operators, assignments and calls read back wherever they stand: what
would swallow an operator behind it is put in parentheses. Their canonical text denotes them. -/

namespace ScriptEngine

open Canonical Printer

/-! ### Trees -/

mutual

/-- A tree of numbers that are finite and without sign, texts, lists, names, operators, assignments
and calls. -/
def Node.Operational : Node → Prop
  | .number _ value => value.isPlain = true
  | .text _ _ | .this _ => True
  | .list _ items => allOperational items
  | .binary _ _ left right => left.Operational ∧ right.Operational
  | .unary _ _ operand => operand.Operational
  | .read _ name => IsName name
  | .declare _ name value | .assign _ name value | .update _ name _ value =>
    IsName name ∧ value.Operational
  | .call _ callee args => callee.Operational ∧ allOperational args
  | .create _ name args => IsName name ∧ allOperational args
  | .choose _ _ | .count _ _ _ _ _ _ _ | .each _ _ _ _ _ | .loop _ _ _ _ | .function _ _ _ _ _
  | .sequence _ _ | .members _ _ | .object _ _ _ _ _ | .return_ _ _ | .continue_ _ | .break_ _
  | .include_ _ _ => False
termination_by structural n => n

def allOperational : List Node → Prop
  | [] => True
  | n :: ns => n.Operational ∧ allOperational ns
termination_by structural ns => ns

end

section

variable {V : String → Prop} {N : Single → Prop}

mutual

theorem Node.Operational.formed (hV : ∀ x, IsName x → V x)
    (hN : ∀ v : Single, v.isPlain = true → N v) (n : Node) {stmt : Bool} (h : n.Operational) :
    n.Formed V N stmt := by
  cases n with
  | number _ value => exact hN value h
  | text _ _ => exact trivial
  | this _ => exact trivial
  | list _ items => exact allOperational_formed hV hN items h
  | binary _ _ left right =>
    exact ⟨Node.Operational.formed hV hN left h.1, Node.Operational.formed hV hN right h.2⟩
  | unary _ _ operand => exact Node.Operational.formed hV hN operand h
  | read _ name => exact hV name h
  | declare _ name value => exact ⟨hV name h.1, Node.Operational.formed hV hN value h.2⟩
  | assign _ name value => exact ⟨hV name h.1, Node.Operational.formed hV hN value h.2⟩
  | update _ name _ value => exact ⟨hV name h.1, Node.Operational.formed hV hN value h.2⟩
  | call _ callee args =>
    exact ⟨Node.Operational.formed hV hN callee h.1, allOperational_formed hV hN args h.2⟩
  | create _ name args => exact ⟨hV name h.1, allOperational_formed hV hN args h.2⟩
  | _ => cases h

theorem allOperational_formed (hV : ∀ x, IsName x → V x)
    (hN : ∀ v : Single, v.isPlain = true → N v) (ns : List Node) {stmt : Bool}
    (h : allOperational ns) : allFormed V N stmt ns := by
  cases ns with
  | nil => exact trivial
  | cons n ns => exact ⟨Node.Operational.formed hV hN n h.1, allOperational_formed hV hN ns h.2⟩

end

end

/-! ### Reading back -/

/-- A tier in front of a token that neither it goes on with nor, behind an assignment, the value. -/
def Node.Fits (n : Node) (t : Tier) (f : Follow) : Prop :=
  t.takes f.next = false ∧
    (isGreedy n = true → t.declares = true ∧ Tier.takes .expression f.next = false)

theorem not_openChoice {n : Node} (h : n.Operational) : isOpenChoice n = false := by
  cases n with
  | choose _ _ => cases h
  | _ => rfl

theorem fits_expression (n : Node) {f : Follow} (h : Tier.takes .expression f.next = false) :
    n.Fits .expression f :=
  ⟨h, fun _ => ⟨rfl, h⟩⟩

/-- An operand is followed by its operator or by the parenthesis that closes the operation. -/
theorem BinaryOp.operand_takes (op : BinaryOp) :
    op.operand.takes op.kind = false ∧ op.operand.takes .rParen = false := by
  cases op with
  | arithmetic op => cases op <;> exact ⟨rfl, rfl⟩
  | _ => exact ⟨rfl, rfl⟩

theorem UnaryOp.operand_takes (op : UnaryOp) : op.operand.takes .rParen = false := by
  cases op <;> rfl

/-- Whatever would swallow the operator behind it is read in parentheses. -/
theorem operand_reads {n : Node} {t : Tier} {f : Follow} (ht : t.takes f.next = false)
    (hn : ∀ t f, n.Fits t f → n.reads t f = true) :
    wrappedReads (isGreedy n) t f (fun t f => n.reads t f) = true := by
  cases hgreedy : isGreedy n with
  | true =>
    rw [wrappedReads, if_pos rfl, hn .expression _ (fits_expression n rfl), ht]
    rfl
  | false => exact hn t f ⟨ht, fun h => by rw [hgreedy] at h; cases h⟩

theorem value_reads {n : Node} {f : Follow} (h : n.Operational)
    (hf : Tier.takes .expression f.next = false) (hn : ∀ t f, n.Fits t f → n.reads t f = true) :
    wrappedReads (isOpenChoice n) .expression f (fun t f => n.reads t f) = true := by
  rw [not_openChoice h]
  exact hn .expression f (fits_expression n hf)

theorem itemsRead_of_reads {close : TokenKind} (hclose : Tier.takes .expression close = false)
    {ns : List Node} (hns : ∀ n ∈ ns, ∀ t f, n.Fits t f → n.reads t f = true) :
    itemsRead close ns = true := by
  induction ns with
  | nil => rfl
  | cons n ns ih =>
    have hn := hns n List.mem_cons_self
    cases ns with
    | nil => exact hn .expression _ (fits_expression n hclose)
    | cons m ns =>
      rw [itemsRead, hn .expression _ (fits_expression n rfl),
        ih fun k hk => hns k (List.mem_cons_of_mem n hk)]
      rfl

mutual

/-- The trees read back wherever they fit. -/
theorem Node.Operational.reads (n : Node) (h : n.Operational) :
    ∀ t f, n.Fits t f → n.reads t f = true := by
  intro t f hfits
  obtain ⟨htakes, hgreedy⟩ := hfits
  cases n with
  | number _ value =>
    rw [Node.reads, htakes]
    exact Bool.and_eq_true_iff.mpr ⟨h, rfl⟩
  | text _ _ => rw [Node.reads, htakes]; rfl
  | this _ => rw [Node.reads, htakes]; rfl
  | read _ _ => rw [Node.reads, htakes]; rfl
  | list _ items =>
    rw [Node.reads, itemsRead_of_reads rfl (allOperational_reads items h), htakes]
    rfl
  | binary _ op left right =>
    rw [Node.reads, operand_reads op.operand_takes.1 (Node.Operational.reads left h.1),
      operand_reads op.operand_takes.2 (Node.Operational.reads right h.2), htakes]
    rfl
  | unary _ op operand =>
    rw [Node.reads, operand_reads op.operand_takes (Node.Operational.reads operand h), htakes]
    rfl
  | declare _ _ value =>
    obtain ⟨hdeclares, hvalue⟩ := hgreedy rfl
    rw [Node.reads, hdeclares, value_reads h.2 hvalue (Node.Operational.reads value h.2)]
    rfl
  | assign _ _ value =>
    rw [Node.reads, value_reads h.2 (hgreedy rfl).2 (Node.Operational.reads value h.2), htakes]
    rfl
  | update _ _ _ value =>
    rw [Node.reads, value_reads h.2 (hgreedy rfl).2 (Node.Operational.reads value h.2), htakes]
    rfl
  | call _ callee args =>
    have hcallee : callee.reads (if isBareCallee callee then .call else .expression)
        (.token .rParen) = true := by
      refine Node.Operational.reads callee h.1 _ _ ?_
      cases callee with
      | read _ _ => exact ⟨rfl, fun h => by cases h⟩
      | this _ => exact ⟨rfl, fun h => by cases h⟩
      | text _ _ => exact ⟨rfl, fun h => by cases h⟩
      | list _ _ => exact ⟨rfl, fun h => by cases h⟩
      | _ => exact fits_expression _ rfl
    rw [Node.reads, hcallee, itemsRead_of_reads rfl (allOperational_reads args h.2), htakes]
    rfl
  | create _ _ args =>
    rw [Node.reads, itemsRead_of_reads rfl (allOperational_reads args h.2), htakes]
    rfl
  | _ => cases h

theorem allOperational_reads (ns : List Node) (h : allOperational ns) :
    ∀ n ∈ ns, ∀ t f, n.Fits t f → n.reads t f = true := by
  cases ns with
  | nil => exact fun n hn => by cases hn
  | cons n ns =>
    exact List.forall_mem_cons.mpr ⟨Node.Operational.reads n h.1, allOperational_reads ns h.2⟩

end

theorem Node.Operational.not_endsBare (n : Node) (h : n.Operational) : n.endsBare = false := by
  cases n with
  | declare _ _ value =>
    rw [Node.endsBare, Node.Operational.not_endsBare value h.2, Bool.and_false]
  | assign _ _ value =>
    rw [Node.endsBare, Node.Operational.not_endsBare value h.2, Bool.and_false]
  | update _ _ _ value =>
    rw [Node.endsBare, Node.Operational.not_endsBare value h.2, Bool.and_false]
  | choose _ _ => cases h
  | count _ _ _ _ _ _ _ => cases h
  | each _ _ _ _ _ => cases h
  | loop _ _ _ _ => cases h
  | function _ _ _ _ _ => cases h
  | members _ _ => cases h
  | return_ _ _ => cases h
  | include_ _ _ => cases h
  | _ => rfl

/-- Such statements read back on lines of their own. -/
theorem linesRead_of_operational {f : Follow} (hf : Tier.takes .statement f.next = false)
    (ns : List Node) (h : allOperational ns) : linesRead f ns = true := by
  have hfits : ∀ {n : Node} {f : Follow}, Tier.takes .statement f.next = false →
      n.Fits .statement f := fun hf => ⟨hf, fun _ => ⟨rfl, hf⟩⟩
  induction ns with
  | nil => rfl
  | cons n ns ih =>
    cases ns with
    | nil => exact Node.Operational.reads n h.1 _ _ (hfits hf)
    | cons m ns =>
      rw [linesRead, Node.Operational.reads n h.1 _ _ (hfits rfl),
        Node.Operational.not_endsBare n h.1, ih h.2]
      rfl

/-- The canonical text of operators, assignments and calls is lexed without failure and parsed to
the tree that it was printed from. -/
theorem operational_denotes (pos : Position) (es : List Node) (h : allOperational es)
    (name : Option String) :
    (tokenize (Node.sequence pos es).toSource name).failure = none ∧
      ∃ root, parseProgram (Node.sequence pos es).toSource name = .ok root ∧
        root.erase = (Node.sequence pos es).erase := by
  apply parses_of_readsBack
  · exact allOperational_formed (fun _ hx => hx) (fun _ hv => .inr hv) es h
  · exact allOperational_formed (fun _ _ => trivial) (fun _ hv => hv) es h
  · exact linesRead_of_operational rfl es h

/-- A call of an assignment with a declaration inside it and a text of a quote and a line break. -/
def assignmentCall : Node :=
  .call .none
    (.assign .none "a" (.binary .none .and_ (.declare .none "b" (.text .none "\"\n"))
      (.unary .none .not_ (.number .none (.ofNat 1)))))
    [.list .none [.this .none, .update .none "a" .mul (.read .none "b")]]

theorem operational_denotes_assignmentCall :
    allOperational [assignmentCall] ∧
      (tokenize (Node.sequence .none [assignmentCall]).toSource none).failure = none ∧
      ∃ root, parseProgram (Node.sequence .none [assignmentCall]).toSource none = .ok root ∧
        root.erase = (Node.sequence .none [assignmentCall]).erase := by
  have ha : IsName "a" := ⟨'a', [], rfl, rfl, fun c hc => (by cases hc), rfl⟩
  have hb : IsName "b" := ⟨'b', [], rfl, rfl, fun c hc => (by cases hc), rfl⟩
  have h : allOperational [assignmentCall] :=
    ⟨⟨⟨ha, ⟨hb, trivial⟩, isPlain_one⟩, ⟨trivial, ⟨ha, hb⟩, trivial⟩, trivial⟩, trivial⟩
  exact ⟨h, operational_denotes .none [assignmentCall] h none⟩

end ScriptEngine
