import ScriptEngine.Proofs.ReadBackProgram
import ScriptEngine.Proofs.SourcePieces

/-! # Trees that read back are written apart

In canonical text a point right behind a whole number is taken with the number. A tree that reads
back has no such place, and no number that is written with a sign or a name. -/

namespace ScriptEngine

open Canonical Printer

/-! ### Numbers -/

/-- Some rule in front of some token reads the node back. -/
def Node.Readable (n : Node) : Prop :=
  ∃ t f, n.reads t f = true

theorem readable_of_wrapped {n : Node} {wrap : Bool} {t : Tier} {f : Follow}
    (h : wrappedReads wrap t f (fun t f => n.reads t f) = true) : n.Readable := by
  unfold wrappedReads at h
  split at h
  · rw [Bool.and_eq_true] at h
    exact ⟨_, _, h.1⟩
  · exact ⟨_, _, h⟩

theorem readable_of_body {n : Node} {braced : Bool} {t : Tier} {f : Follow}
    (h : bodyReads braced n t f (fun t f => n.reads t f) = true) : n.Readable := by
  unfold bodyReads at h
  split at h
  · exact ⟨_, _, h⟩
  · rw [Bool.and_eq_true] at h
    exact readable_of_wrapped h.2

theorem readable_of_items {close : TokenKind} {ns : List Node} (h : itemsRead close ns = true) :
    ∀ n ∈ ns, n.Readable := by
  induction ns with
  | nil => exact fun n hn => by cases hn
  | cons n ns ih =>
    cases ns with
    | nil => exact List.forall_mem_singleton.mpr ⟨_, _, h⟩
    | cons m ns =>
      rw [itemsRead, Bool.and_eq_true] at h
      exact List.forall_mem_cons.mpr ⟨⟨_, _, h.1⟩, ih h.2⟩

theorem readable_of_paths {f : Follow} {ns : List Node} (h : pathsRead f ns = true) :
    ∀ n ∈ ns, n.Readable := by
  induction ns with
  | nil => exact fun n hn => by cases hn
  | cons n ns ih =>
    cases ns with
    | nil =>
      rw [pathsRead, Bool.and_eq_true] at h
      exact List.forall_mem_singleton.mpr ⟨_, _, h.1⟩
    | cons m ns =>
      rw [pathsRead, Bool.and_eq_true] at h
      exact List.forall_mem_cons.mpr ⟨⟨_, _, h.1⟩, ih h.2⟩

theorem readable_of_segments {f : Follow} {ns : List Node} (h : segmentsRead f ns = true) :
    ∀ n ∈ ns, n.Readable := by
  induction ns with
  | nil => exact fun n hn => by cases hn
  | cons n ns ih =>
    cases ns with
    | nil => exact List.forall_mem_singleton.mpr (readable_of_wrapped h)
    | cons m ns =>
      rw [segmentsRead, Bool.and_eq_true] at h
      exact List.forall_mem_cons.mpr ⟨readable_of_wrapped h.1, ih h.2⟩

theorem readable_of_lines {f : Follow} {ns : List Node} (h : linesRead f ns = true) :
    ∀ n ∈ ns, n.Readable := by
  induction ns with
  | nil => exact fun n hn => by cases hn
  | cons n ns ih =>
    cases ns with
    | nil => exact List.forall_mem_singleton.mpr ⟨_, _, h⟩
    | cons m ns =>
      rw [linesRead, Bool.and_eq_true, Bool.and_eq_true] at h
      exact List.forall_mem_cons.mpr ⟨⟨_, _, h.1.1⟩, ih h.2⟩

theorem readable_of_step {start : TokenKind} {n : Option Node} (h : stepReads start n = true) :
    ∀ m ∈ n, m.Readable := by
  cases n with
  | none => exact fun m hm => by cases hm
  | some n =>
    rintro m ⟨⟩
    exact ⟨_, _, h⟩

theorem readable_of_returned {f : Follow} {n : Option Node} (h : returnReads f n = true) :
    ∀ m ∈ n, m.Readable := by
  cases n with
  | none => exact fun m hm => by cases hm
  | some n =>
    rintro m ⟨⟩
    exact readable_of_wrapped h

section

variable {V : String → Prop} {N M : Single → Prop}

mutual

/-- The numbers of a tree that reads back are written as single tokens. -/
theorem Node.plain_of_reads (hM : ∀ value : Single, value.isPlain = true → M value) (n : Node)
    {stmt : Bool} (hread : n.Readable) (h : n.Formed V N stmt) : n.Formed V M stmt := by
  obtain ⟨t, f, hread⟩ := hread
  cases n with
  | number _ value =>
    rw [Node.reads, Bool.and_eq_true] at hread
    exact hM value hread.1
  | text _ _ => exact h
  | list _ items =>
    rw [Node.reads, Bool.and_eq_true] at hread
    exact nodes_plain hM items (readable_of_items hread.1) h
  | binary _ _ left right =>
    rw [Node.reads, Bool.and_eq_true, Bool.and_eq_true] at hread
    exact ⟨left.plain_of_reads hM (readable_of_wrapped hread.1.1) h.1,
      right.plain_of_reads hM (readable_of_wrapped hread.1.2) h.2⟩
  | unary _ _ operand =>
    rw [Node.reads, Bool.and_eq_true] at hread
    exact operand.plain_of_reads hM (readable_of_wrapped hread.1) h
  | read _ _ => exact h
  | this _ => exact h
  | declare _ _ value =>
    rw [Node.reads, Bool.and_eq_true] at hread
    exact ⟨h.1, value.plain_of_reads hM (readable_of_wrapped hread.2) h.2⟩
  | assign _ _ value =>
    rw [Node.reads, Bool.and_eq_true] at hread
    exact ⟨h.1, value.plain_of_reads hM (readable_of_wrapped hread.1) h.2⟩
  | update _ _ _ value =>
    rw [Node.reads, Bool.and_eq_true] at hread
    exact ⟨h.1, value.plain_of_reads hM (readable_of_wrapped hread.1) h.2⟩
  | choose _ arms =>
    rw [Node.reads, Bool.and_eq_true] at hread
    exact ⟨h.1, arms.plain_of_reads hM hread.1 h.2⟩
  | count _ _ start stop step _ body =>
    simp only [Node.reads, Bool.and_eq_true] at hread
    obtain ⟨⟨⟨⟨hstart, hstop⟩, hstep⟩, hbody⟩, -⟩ := hread
    exact ⟨h.1, start.plain_of_reads hM ⟨_, _, hstart⟩ h.2.1, stop.plain_of_reads hM ⟨_, _, hstop⟩ h.2.2.1,
      option_plain hM step (readable_of_step hstep) h.2.2.2.1, h.2.2.2.2.1,
      body.plain_of_reads hM (readable_of_body hbody) h.2.2.2.2.2⟩
  | each _ _ items _ body =>
    simp only [Node.reads, Bool.and_eq_true] at hread
    obtain ⟨⟨hitems, hbody⟩, -⟩ := hread
    exact ⟨h.1, items.plain_of_reads hM ⟨_, _, hitems⟩ h.2.1, h.2.2.1,
      body.plain_of_reads hM (readable_of_body hbody) h.2.2.2⟩
  | loop _ condition _ body =>
    simp only [Node.reads, Bool.and_eq_true] at hread
    obtain ⟨⟨hcondition, hbody⟩, -⟩ := hread
    exact ⟨condition.plain_of_reads hM ⟨_, _, hcondition⟩ h.1, h.2.1,
      body.plain_of_reads hM (readable_of_body hbody) h.2.2⟩
  | function _ _ _ braced body =>
    rw [Node.reads, Bool.and_eq_true] at hread
    have hbody : body.Readable := by
      have hbody := hread.1
      split at hbody
      · exact ⟨_, _, hbody⟩
      · exact readable_of_wrapped hbody
    exact ⟨h.1, h.2.1, h.2.2.1, body.plain_of_reads hM hbody h.2.2.2⟩
  | call _ callee args =>
    simp only [Node.reads, Bool.and_eq_true] at hread
    obtain ⟨⟨hcallee, hargs⟩, -⟩ := hread
    exact ⟨callee.plain_of_reads hM ⟨_, _, hcallee⟩ h.1, nodes_plain hM args (readable_of_items hargs) h.2⟩
  | sequence _ statements =>
    rw [Node.reads, Bool.and_eq_true] at hread
    exact ⟨h.1, nodes_plain hM statements (readable_of_lines hread.1) h.2⟩
  | members _ segments =>
    simp only [Node.reads, Bool.and_eq_true] at hread
    exact ⟨h.1, nodes_plain hM segments (readable_of_segments hread.1.2) h.2⟩
  | object _ _ _ _ body =>
    rw [Node.reads, Bool.and_eq_true] at hread
    exact ⟨h.1, h.2.1, h.2.2.1, h.2.2.2.1, body.plain_of_reads hM ⟨_, _, hread.1⟩ h.2.2.2.2⟩
  | create _ _ args =>
    rw [Node.reads, Bool.and_eq_true] at hread
    exact ⟨h.1, nodes_plain hM args (readable_of_items hread.1) h.2⟩
  | return_ _ value => exact ⟨h.1, option_plain hM value (readable_of_returned hread) h.2⟩
  | continue_ _ => exact h
  | break_ _ => exact h
  | include_ _ paths =>
    rw [Node.reads, Bool.and_eq_true] at hread
    exact ⟨h.1, nodes_plain hM paths (readable_of_paths hread.1) h.2⟩

theorem Arms.plain_of_reads (hM : ∀ value : Single, value.isPlain = true → M value) (arms :
    Arms) {f : Follow} (hread : arms.reads f = true) (h : arms.Formed V N) : arms.Formed V M := by
  cases arms with
  | done => exact h
  | otherwise _ body => exact ⟨h.1, body.plain_of_reads hM (readable_of_body hread) h.2⟩
  | arm condition _ body more =>
    simp only [Arms.reads, Bool.and_eq_true] at hread
    obtain ⟨⟨hcondition, hbody⟩, hmore⟩ := hread
    exact ⟨condition.plain_of_reads hM ⟨_, _, hcondition⟩ h.1, h.2.1,
      body.plain_of_reads hM (readable_of_body hbody) h.2.2.1, more.plain_of_reads hM hmore h.2.2.2⟩

theorem nodes_plain (hM : ∀ value : Single, value.isPlain = true → M value) (ns : List Node)
    {stmt : Bool} (hread : ∀ n ∈ ns, n.Readable) (h : allFormed V N stmt ns) : allFormed V M
    stmt ns := by
  cases ns with
  | nil => exact trivial
  | cons n ns =>
    rw [List.forall_mem_cons] at hread
    exact ⟨n.plain_of_reads hM hread.1 h.1, nodes_plain hM ns hread.2 h.2⟩

theorem option_plain (hM : ∀ value : Single, value.isPlain = true → M value) (n : Option Node)
    (hread : ∀ m ∈ n, m.Readable) (h : someFormed V N n) : someFormed V M n := by
  cases n with
  | none => exact trivial
  | some n => exact n.plain_of_reads hM (hread n rfl) h

end

end

/-! ### Numbers and points -/

/-- No point stands right behind a whole number. -/
def Apart : List Token → Prop
  | [] => True
  | t :: ts => (t.kind = .int → firstKind ts ≠ .point) ∧ Apart ts

theorem Apart.cons {t : Token} {ts : List Token} (ht : t.kind ≠ .int) (h : Apart ts) :
    Apart (t :: ts) :=
  ⟨fun hkind => absurd hkind ht, h⟩

/-- In front of tokens that are written apart, those of the node are written apart too. -/
def Node.StaysApart (n : Node) : Prop :=
  ∀ (t : Tier) (f : Follow) (rest : List Token), n.reads t f = true →
    (firstKind rest = .point → f.next = .point ∧ (isNumber n = true → t ≠ .call)) →
    Apart rest → Apart (n.tokens ++ rest)

def AllApart (ns : List Node) : Prop :=
  ∀ n ∈ ns, n.StaysApart

def Arms.StaysApart (arms : Arms) : Prop :=
  ∀ (word : Keyword) (f : Follow) (rest : List Token), arms.reads f = true →
    (firstKind rest = .point → f.next = .point) → Apart rest → Apart (arms.tokens word ++ rest)

namespace Apart

theorem name (name : String) {ts : List Token} (h : Apart ts) : Apart (nameToken name :: ts) :=
  h.cons fun hkind => by cases hkind

theorem ahead {kind : TokenKind} {ts : List Token} (hkind : kind ≠ .point) :
    firstKind (kind.token :: ts) ≠ .point :=
  hkind

variable {n : Node} {ns : List Node} {t : Tier} {f : Follow} {rest : List Token}

theorem before (hn : n.StaysApart) (hread : n.reads t f = true) (hrest : firstKind rest ≠ .point)
    (h : Apart rest) : Apart (n.tokens ++ rest) :=
  hn t f rest hread (fun hpoint => absurd hpoint hrest) h

theorem wrap {b : Bool} (hn : n.StaysApart)
    (hread : wrappedReads b t f (fun t f => n.reads t f) = true)
    (hrest : firstKind rest = .point → f.next = .point ∧ (b = false → isNumber n = true → t ≠ .call))
    (h : Apart rest) : Apart (wrapped b n.tokens ++ rest) := by
  cases b with
  | false => exact hn t f rest hread (fun hpoint => ⟨(hrest hpoint).1, (hrest hpoint).2 rfl⟩) h
  | true =>
    rw [wrappedReads, if_pos rfl, Bool.and_eq_true] at hread
    simp only [wrapped, if_true, List.cons_append, List.append_assoc, List.nil_append]
    apply Apart.cons (by decide)
    apply before hn hread.1 (ahead (by decide))
    exact Apart.cons (by decide) h

theorem value {b : Bool} (hn : n.StaysApart)
    (hread : wrappedReads b .expression f (fun t f => n.reads t f) = true)
    (hrest : firstKind rest = .point → f.next = .point) (h : Apart rest) :
    Apart (wrapped b n.tokens ++ rest) :=
  wrap hn hread (fun hpoint => ⟨hrest hpoint, fun _ _ => by decide⟩) h

theorem items {close : TokenKind} (hns : AllApart ns) (hread : itemsRead close ns = true)
    (hrest : firstKind rest ≠ .point) (h : Apart rest) : Apart (itemTokens ns ++ rest) := by
  induction ns with
  | nil => exact h
  | cons n ns ih =>
    have hn := hns n List.mem_cons_self
    rw [itemTokens, List.append_assoc]
    cases ns with
    | nil => exact before hn hread hrest h
    | cons m ns =>
      rw [itemsRead, Bool.and_eq_true] at hread
      apply before hn hread.1
      · rw [moreItemTokens]
        exact ahead (by decide)
      · have hmore := ih (fun k hk => hns k (List.mem_cons_of_mem n hk)) hread.2
        rw [itemTokens] at hmore
        rw [moreItemTokens, List.cons_append]
        exact Apart.cons (by decide) hmore

theorem paths (hns : AllApart ns) (hread : pathsRead f ns = true)
    (hrest : firstKind rest = .point → f.next = .point) (h : Apart rest) :
    Apart (itemTokens ns ++ rest) := by
  induction ns with
  | nil => exact h
  | cons n ns ih =>
    have hn := hns n List.mem_cons_self
    rw [itemTokens, List.append_assoc]
    cases ns with
    | nil =>
      rw [pathsRead, Bool.and_eq_true] at hread
      exact hn _ f rest hread.1 (fun hpoint => ⟨hrest hpoint, fun _ => by decide⟩) h
    | cons m ns =>
      rw [pathsRead, Bool.and_eq_true] at hread
      apply before hn hread.1
      · rw [moreItemTokens]
        exact ahead (by decide)
      · have hmore := ih (fun k hk => hns k (List.mem_cons_of_mem n hk)) hread.2
        rw [itemTokens] at hmore
        rw [moreItemTokens, List.cons_append]
        exact Apart.cons (by decide) hmore

theorem segments (hns : AllApart ns) (hread : segmentsRead f ns = true)
    (hrest : firstKind rest = .point → f.next = .point) (h : Apart rest) :
    Apart (segmentTokens ns ++ rest) := by
  have hwrap : ∀ {n : Node} {f : Follow} {rest : List Token}, n.StaysApart →
      wrappedReads (isNumber n) .call f (fun t f => n.reads t f) = true →
      (firstKind rest = .point → f.next = .point) → Apart rest →
      Apart (wrapped (isNumber n) n.tokens ++ rest) := fun hn hread hrest h =>
    wrap hn hread (fun hpoint => ⟨hrest hpoint, fun hno hyes => by rw [hno] at hyes; cases hyes⟩) h
  induction ns with
  | nil => exact h
  | cons n ns ih =>
    have hn := hns n List.mem_cons_self
    rw [segmentTokens, List.append_assoc]
    cases ns with
    | nil => exact hwrap hn hread hrest h
    | cons m ns =>
      rw [segmentsRead, Bool.and_eq_true] at hread
      apply hwrap hn hread.1 (fun _ => rfl)
      have hmore := ih (fun k hk => hns k (List.mem_cons_of_mem n hk)) hread.2
      rw [segmentTokens] at hmore
      rw [moreSegmentTokens, List.cons_append]
      exact Apart.cons (by decide) hmore

theorem lines (hns : AllApart ns) (hread : linesRead f ns = true)
    (hrest : firstKind rest ≠ .point) (h : Apart rest) : Apart (lineTokens ns ++ rest) := by
  induction ns with
  | nil => exact h
  | cons n ns ih =>
    have hn := hns n List.mem_cons_self
    simp only [lineTokens, List.cons_append, List.append_assoc]
    apply Apart.cons (by decide)
    cases ns with
    | nil => exact before hn hread hrest h
    | cons m ns =>
      rw [linesRead, Bool.and_eq_true, Bool.and_eq_true] at hread
      apply before hn hread.1.1
      · rw [lineTokens]
        exact ahead (by decide)
      · exact ih (fun k hk => hns k (List.mem_cons_of_mem n hk)) hread.2

theorem parameters (names : List String) (h : Apart rest) :
    Apart (parameterTokens names ++ rest) := by
  induction names with
  | nil => exact h
  | cons name names ih =>
    cases names with
    | nil => exact h.name name
    | cons second names => exact Apart.name name (Apart.cons (by decide) ih)

theorem braces (hbody : n.StaysApart) (hread : n.reads .call (.token .rBrace) = true)
    (h : Apart rest) :
    Apart (TokenKind.lBrace.token :: TokenKind.newline.token :: n.tokens ++
      [TokenKind.newline.token, TokenKind.rBrace.token] ++ rest) := by
  simp only [List.cons_append, List.append_assoc, List.nil_append]
  apply Apart.cons (by decide)
  apply Apart.cons (by decide)
  apply before hbody hread (ahead (by decide))
  exact Apart.cons (by decide) (Apart.cons (by decide) h)

theorem block {body : Node} (hbody : body.StaysApart)
    (hread : body.reads .call (.token .rBrace) = true) (h : Apart rest) :
    Apart (blockTokens body body.tokens ++ rest) := by
  cases body with
  | sequence pos statements =>
    -- What follows a closing brace does not matter to the lines before it.
    have hlines : (Node.sequence pos statements).reads .call (.token (firstKind rest)) = true := by
      rw [Node.reads] at hread ⊢
      exact hread
    exact hbody _ _ rest hlines (fun hpoint => ⟨hpoint, fun hno => by cases hno⟩) h
  | number pos value =>
    rw [blockTokens]
    split
    · exact Apart.cons (by decide) (Apart.cons (by decide) (Apart.cons (by decide) h))
    · exact braces hbody hread h
  | _ => exact braces hbody hread h

theorem body {body : Node} {braced : Bool} (hbody : body.StaysApart)
    (hread : bodyReads braced body t f (fun t f => body.reads t f) = true) (ht : t ≠ .call)
    (hrest : firstKind rest = .point → f.next = .point) (h : Apart rest) :
    Apart (bodyTokens braced body body.tokens ++ rest) := by
  cases braced with
  | true => exact block hbody hread h
  | false =>
    simp only [bodyReads, Bool.false_eq_true, if_false, Bool.and_eq_true] at hread
    simp only [bodyTokens, Bool.false_eq_true, if_false, List.cons_append]
    apply Apart.cons (by decide)
    exact wrap hbody hread.2 (fun hpoint => ⟨hrest hpoint, fun _ _ => ht⟩) h

end Apart

open Apart

namespace Node

theorem staysApart_single {n : Node} {kind : TokenKind} {lexeme : String}
    (hn : n.tokens = [⟨kind, lexeme, .none⟩]) (hkind : kind ≠ .int) : n.StaysApart := by
  intro t f rest _ _ h
  rw [hn]
  exact h.cons hkind

theorem staysApart_number (pos : Position) (value : Single) : (Node.number pos value).StaysApart := by
  intro t f rest hread hrest h
  rw [Node.reads, Bool.and_eq_true, Bool.not_eq_true'] at hread
  have hpoint : firstKind rest ≠ .point := by
    intro hpoint
    obtain ⟨hnext, ht⟩ := hrest hpoint
    have htakes := hread.2
    rw [hnext] at htakes
    cases t with
    | call => exact ht rfl rfl
    | _ => cases htakes
  cases value with
  | nan => cases hread.1
  | infinite _ => cases hread.1
  | finite sign m =>
    cases sign with
    | true => cases hread.1
    | false => exact ⟨fun _ => hpoint, h⟩

theorem staysApart_list (pos : Position) {items : List Node} (hitems : AllApart items) :
    (Node.list pos items).StaysApart := by
  intro t f rest hread _ h
  rw [Node.reads, Bool.and_eq_true] at hread
  simp only [Node.tokens, List.cons_append, List.append_assoc, List.nil_append]
  apply Apart.cons (by decide)
  apply Apart.items hitems hread.1 (ahead (by decide))
  exact Apart.cons (by decide) h

theorem staysApart_binary (pos : Position) (op : BinaryOp) {left right : Node}
    (hleft : left.StaysApart) (hright : right.StaysApart) :
    (Node.binary pos op left right).StaysApart := by
  intro t f rest hread _ h
  rw [Node.reads, Bool.and_eq_true, Bool.and_eq_true] at hread
  have hop : op.kind ≠ .point ∧ op.kind ≠ .int := by
    cases op with
    | arithmetic op => cases op <;> decide
    | _ => decide
  simp only [Node.tokens, List.cons_append, List.append_assoc, List.nil_append]
  apply Apart.cons (by decide)
  apply wrap hleft hread.1.1 fun hpoint => absurd hpoint (ahead hop.1)
  apply Apart.cons hop.2
  apply wrap hright hread.1.2 fun hpoint => by cases hpoint
  exact Apart.cons (by decide) h

theorem staysApart_unary (pos : Position) (op : UnaryOp) {operand : Node}
    (hoperand : operand.StaysApart) : (Node.unary pos op operand).StaysApart := by
  intro t f rest hread _ h
  rw [Node.reads, Bool.and_eq_true] at hread
  have hop : op.kind ≠ .int := by cases op <;> decide
  simp only [Node.tokens, List.cons_append, List.append_assoc, List.nil_append]
  apply Apart.cons (by decide)
  apply Apart.cons hop
  apply wrap hoperand hread.1 fun hpoint => by cases hpoint
  exact Apart.cons (by decide) h

theorem staysApart_declare (pos : Position) (name : String) {value : Node}
    (hvalue : value.StaysApart) : (Node.declare pos name value).StaysApart := by
  intro t f rest hread hrest h
  rw [Node.reads, Bool.and_eq_true] at hread
  simp only [Node.tokens, List.cons_append]
  apply Apart.cons (by decide)
  apply Apart.name
  apply Apart.cons (by decide)
  exact Apart.value hvalue hread.2 (fun hpoint => (hrest hpoint).1) h

theorem staysApart_assign (pos : Position) (name : String) {value : Node}
    (hvalue : value.StaysApart) : (Node.assign pos name value).StaysApart := by
  intro t f rest hread hrest h
  rw [Node.reads, Bool.and_eq_true] at hread
  simp only [Node.tokens, List.cons_append]
  apply Apart.name
  apply Apart.cons (by decide)
  exact Apart.value hvalue hread.1 (fun hpoint => (hrest hpoint).1) h

theorem staysApart_update (pos : Position) (name : String) (op : Arithmetic) {value : Node}
    (hvalue : value.StaysApart) : (Node.update pos name op value).StaysApart := by
  intro t f rest hread hrest h
  rw [Node.reads, Bool.and_eq_true] at hread
  have hop : op.updateKind ≠ .int := by cases op <;> decide
  simp only [Node.tokens, List.cons_append]
  apply Apart.name
  apply Apart.cons hop
  exact Apart.value hvalue hread.1 (fun hpoint => (hrest hpoint).1) h

theorem staysApart_choose (pos : Position) {arms : Arms} (harms : arms.StaysApart) :
    (Node.choose pos arms).StaysApart := by
  intro t f rest hread hrest h
  rw [Node.reads, Bool.and_eq_true] at hread
  exact harms .if_ f rest hread.1 (fun hpoint => (hrest hpoint).1) h

theorem firstKind_body (braced : Bool) (body : Node) (rest : List Token) :
    firstKind (bodyTokens braced body body.tokens ++ rest) ≠ .point := by
  cases braced with
  | false => exact ahead (by decide)
  | true =>
    cases body with
    | number _ value =>
      simp only [bodyTokens, if_true, blockTokens]
      split <;> exact ahead (by decide)
    | _ => exact ahead (by decide)

theorem staysApart_count (pos : Position) (name : String) (braced : Bool) {start stop body : Node}
    {step : Option Node} (hstart : start.StaysApart) (hstop : stop.StaysApart)
    (hstep : ∀ n ∈ step, n.StaysApart) (hbody : body.StaysApart) :
    (Node.count pos name start stop step braced body).StaysApart := by
  intro t f rest hread hrest h
  simp only [Node.reads, Bool.and_eq_true] at hread
  obtain ⟨⟨⟨⟨hreadStart, hreadStop⟩, hreadStep⟩, hreadBody⟩, -⟩ := hread
  have hinner := Apart.body hbody hreadBody (by decide) (fun hpoint => (hrest hpoint).1) h
  simp only [Node.tokens, List.cons_append, List.append_assoc]
  apply Apart.cons (by decide)
  apply Apart.name
  apply Apart.cons (by decide)
  apply before hstart hreadStart (ahead (by decide))
  apply Apart.cons (by decide)
  cases step with
  | none => exact before hstop hreadStop (firstKind_body braced body rest) hinner
  | some n =>
    simp only [stepTokens, List.cons_append]
    apply before hstop hreadStop (ahead (by decide))
    apply Apart.cons (by decide)
    exact before (hstep n rfl) hreadStep (firstKind_body braced body rest) hinner

theorem staysApart_each (pos : Position) (name : String) (braced : Bool) {items body : Node}
    (hitems : items.StaysApart) (hbody : body.StaysApart) :
    (Node.each pos name items braced body).StaysApart := by
  intro t f rest hread hrest h
  simp only [Node.reads, Bool.and_eq_true] at hread
  obtain ⟨⟨hreadItems, hreadBody⟩, -⟩ := hread
  simp only [Node.tokens, List.cons_append, List.append_assoc]
  apply Apart.cons (by decide)
  apply Apart.name
  apply Apart.cons (by decide)
  apply before hitems hreadItems (firstKind_body braced body rest)
  exact Apart.body hbody hreadBody (by decide) (fun hpoint => (hrest hpoint).1) h

theorem staysApart_loop (pos : Position) (braced : Bool) {condition body : Node}
    (hcondition : condition.StaysApart) (hbody : body.StaysApart) :
    (Node.loop pos condition braced body).StaysApart := by
  intro t f rest hread hrest h
  simp only [Node.reads, Bool.and_eq_true] at hread
  obtain ⟨⟨hreadCondition, hreadBody⟩, -⟩ := hread
  simp only [Node.tokens, List.cons_append, List.append_assoc]
  apply Apart.cons (by decide)
  apply before hcondition hreadCondition (firstKind_body braced body rest)
  exact Apart.body hbody hreadBody (by decide) (fun hpoint => (hrest hpoint).1) h

theorem staysApart_function (pos : Position) (name : Option String) (params : List String)
    (braced : Bool) {body : Node} (hbody : body.StaysApart) :
    (Node.function pos name params braced body).StaysApart := by
  intro t f rest hread hrest h
  rw [Node.reads, Bool.and_eq_true] at hread
  have hinner : Apart (bodyTokens braced body body.tokens ++ rest) := by
    cases braced with
    | true => exact Apart.block hbody hread.1 h
    | false =>
      simp only [bodyTokens, Bool.false_eq_true, if_false, List.cons_append]
      apply Apart.cons (by decide)
      exact wrap hbody hread.1 (fun hpoint => ⟨(hrest hpoint).1, fun _ _ => by decide⟩) h
  simp only [Node.tokens, List.cons_append, List.append_assoc]
  apply Apart.cons (by decide)
  have hparameters : Apart (TokenKind.lParen.token :: (parameterTokens params ++
      TokenKind.rParen.token :: (bodyTokens braced body body.tokens ++ rest))) :=
    Apart.cons (by decide) (Apart.parameters params (Apart.cons (by decide) hinner))
  cases name with
  | none => exact hparameters
  | some name => exact hparameters.name name

theorem staysApart_call (pos : Position) {callee : Node} {args : List Node}
    (hcallee : callee.StaysApart) (hargs : AllApart args) :
    (Node.call pos callee args).StaysApart := by
  intro t f rest hread _ h
  simp only [Node.reads, Bool.and_eq_true] at hread
  obtain ⟨⟨hreadCallee, hreadArgs⟩, -⟩ := hread
  simp only [Node.tokens, List.cons_append, List.append_assoc, List.nil_append]
  have harguments : Apart (TokenKind.lParen.token :: (itemTokens args ++
      TokenKind.rParen.token :: rest)) :=
    Apart.cons (by decide) (Apart.items hargs hreadArgs (ahead (by decide)) (Apart.cons (by decide) h))
  cases hbare : isBareCallee callee with
  | true =>
    rw [Bool.not_true]
    exact before hcallee hreadCallee (ahead (by decide)) harguments
  | false =>
    rw [hbare] at hreadCallee
    simp only [Bool.not_false, wrapped, if_true, List.cons_append, List.append_assoc,
      List.nil_append]
    apply Apart.cons (by decide)
    apply before hcallee hreadCallee (ahead (by decide))
    exact Apart.cons (by decide) harguments

theorem staysApart_sequence (pos : Position) {statements : List Node} (hlines : AllApart statements) :
    (Node.sequence pos statements).StaysApart := by
  intro t f rest hread _ h
  rw [Node.reads, Bool.and_eq_true] at hread
  simp only [Node.tokens, List.cons_append, List.append_assoc, List.nil_append]
  apply Apart.cons (by decide)
  apply Apart.lines hlines hread.1 (ahead (by decide))
  exact Apart.cons (by decide) (Apart.cons (by decide) h)

theorem staysApart_members (pos : Position) {segments : List Node} (hsegments : AllApart segments) :
    (Node.members pos segments).StaysApart := by
  intro t f rest hread hrest h
  simp only [Node.reads, Bool.and_eq_true] at hread
  rw [Node.tokens]
  exact Apart.segments hsegments hread.1.2 (fun hpoint => (hrest hpoint).1) h

theorem staysApart_object (pos : Position) (name : String) (params : List String)
    (parent : Option String) {body : Node} (hbody : body.StaysApart) :
    (Node.object pos name params parent body).StaysApart := by
  intro t f rest hread _ h
  rw [Node.reads, Bool.and_eq_true] at hread
  have hinner := Apart.block hbody hread.1 h
  simp only [Node.tokens, List.cons_append, List.append_assoc]
  apply Apart.cons (by decide)
  apply Apart.name
  apply Apart.cons (by decide)
  apply Apart.parameters params
  apply Apart.cons (by decide)
  cases parent with
  | none => exact hinner
  | some parent => exact Apart.cons (by decide) (hinner.name parent)

theorem staysApart_create (pos : Position) (name : String) {args : List Node}
    (hargs : AllApart args) : (Node.create pos name args).StaysApart := by
  intro t f rest hread _ h
  rw [Node.reads, Bool.and_eq_true] at hread
  simp only [Node.tokens, List.cons_append, List.append_assoc, List.nil_append]
  apply Apart.cons (by decide)
  apply Apart.name
  apply Apart.cons (by decide)
  apply Apart.items hargs hread.1 (ahead (by decide))
  exact Apart.cons (by decide) h

theorem staysApart_return (pos : Position) {value : Option Node}
    (hvalue : ∀ n ∈ value, n.StaysApart) : (Node.return_ pos value).StaysApart := by
  intro t f rest hread hrest h
  rw [Node.tokens, List.cons_append]
  apply Apart.cons (by decide)
  cases value with
  | none => exact h
  | some value =>
    exact Apart.value (hvalue value rfl) hread (fun hpoint => (hrest hpoint).1) h

theorem staysApart_include (pos : Position) {paths : List Node} (hpaths : AllApart paths) :
    (Node.include_ pos paths).StaysApart := by
  intro t f rest hread hrest h
  rw [Node.reads, Bool.and_eq_true] at hread
  rw [Node.tokens, List.cons_append]
  apply Apart.cons (by decide)
  exact Apart.paths hpaths hread.1 (fun hpoint => (hrest hpoint).1) h

end Node

namespace Arms

theorem staysApart_otherwise (braced : Bool) {body : Node} (hbody : body.StaysApart) :
    (Arms.otherwise braced body).StaysApart := by
  intro word f rest hread hrest h
  rw [Arms.tokens, List.cons_append]
  apply Apart.cons (by decide)
  exact Apart.body hbody hread (by decide) hrest h

theorem staysApart_arm (braced : Bool) {condition body : Node} {more : Arms}
    (hcondition : condition.StaysApart) (hbody : body.StaysApart) (hmore : more.StaysApart) :
    (Arms.arm condition braced body more).StaysApart := by
  intro word f rest hread hrest h
  simp only [Arms.reads, Bool.and_eq_true] at hread
  obtain ⟨⟨hreadCondition, hreadBody⟩, hreadMore⟩ := hread
  simp only [Arms.tokens, List.cons_append, List.append_assoc]
  apply Apart.cons (fun hkind => by cases hkind)
  apply before hcondition hreadCondition (Node.firstKind_body braced body _)
  apply Apart.body hbody hreadBody (by decide)
  · cases more with
    | done => exact hrest
    | otherwise _ _ => exact fun hpoint => by cases hpoint
    | arm _ _ _ _ => exact fun hpoint => by cases hpoint
  · exact hmore .elseif_ f rest hreadMore hrest h

end Arms

mutual

theorem Node.staysApart (n : Node) : n.StaysApart := by
  cases n with
  | number pos value => exact Node.staysApart_number pos value
  | text _ _ => exact Node.staysApart_single rfl (by decide)
  | list pos items => exact Node.staysApart_list pos (nodes_apart items)
  | binary pos op left right => exact Node.staysApart_binary pos op left.staysApart right.staysApart
  | unary pos op operand => exact Node.staysApart_unary pos op operand.staysApart
  | read _ _ => exact Node.staysApart_single rfl (by decide)
  | this _ => exact Node.staysApart_single rfl (by decide)
  | declare pos name value => exact Node.staysApart_declare pos name value.staysApart
  | assign pos name value => exact Node.staysApart_assign pos name value.staysApart
  | update pos name op value => exact Node.staysApart_update pos name op value.staysApart
  | choose pos arms => exact Node.staysApart_choose pos arms.staysApart
  | count pos name start stop step braced body =>
    exact Node.staysApart_count pos name braced start.staysApart stop.staysApart
      (option_apart step) body.staysApart
  | each pos name items braced body =>
    exact Node.staysApart_each pos name braced items.staysApart body.staysApart
  | loop pos condition braced body =>
    exact Node.staysApart_loop pos braced condition.staysApart body.staysApart
  | function pos name params braced body =>
    exact Node.staysApart_function pos name params braced body.staysApart
  | call pos callee args => exact Node.staysApart_call pos callee.staysApart (nodes_apart args)
  | sequence pos statements => exact Node.staysApart_sequence pos (nodes_apart statements)
  | members pos segments => exact Node.staysApart_members pos (nodes_apart segments)
  | object pos name params parent body =>
    exact Node.staysApart_object pos name params parent body.staysApart
  | create pos name args => exact Node.staysApart_create pos name (nodes_apart args)
  | return_ pos value => exact Node.staysApart_return pos (option_apart value)
  | continue_ _ => exact Node.staysApart_single rfl (by decide)
  | break_ _ => exact Node.staysApart_single rfl (by decide)
  | include_ pos paths => exact Node.staysApart_include pos (nodes_apart paths)

theorem Arms.staysApart (arms : Arms) : arms.StaysApart := by
  cases arms with
  | done => exact fun _ _ _ _ _ h => h
  | otherwise braced body => exact Arms.staysApart_otherwise braced body.staysApart
  | arm condition braced body more =>
    exact Arms.staysApart_arm braced condition.staysApart body.staysApart more.staysApart

theorem nodes_apart (ns : List Node) : AllApart ns := by
  cases ns with
  | nil => exact fun n hn => by cases hn
  | cons n ns => exact List.forall_mem_cons.mpr ⟨n.staysApart, nodes_apart ns⟩

theorem option_apart (n : Option Node) : ∀ m ∈ n, m.StaysApart := by
  cases n with
  | none => exact fun m hm => by cases hm
  | some n => exact fun m hm => Option.mem_some.mp hm ▸ n.staysApart

end

/-- The tokens of a program that reads back are written apart. -/
theorem apart_of_readsBack {root : Node} (h : root.readsBack = true) : Apart root.programTokens := by
  cases root with
  | sequence pos statements =>
    cases statements with
    | nil => exact trivial
    | cons n ns =>
      have hnil : firstKind ([] : List Token) ≠ .point := by decide
      have hlines := Apart.lines (nodes_apart (n :: ns)) h hnil trivial
      rw [List.append_nil] at hlines
      exact hlines.2
  | _ => cases h

end ScriptEngine
