import ScriptEngine.Proofs.SourcePieces

/-! # Canonical text and its tokens

The canonical text of a well-formed tree is made of pieces whose tokens are the canonical tokens of
the tree, and no piece runs into the next one but for a point behind a number and a sign before a
sign. -/

namespace ScriptEngine

open Canonical Printer

/-! ### Text made of pieces -/

/-- The text is made of pieces with these tokens, the first of which is one of `first`. -/
def Lays (signs : Bool) (first : Piece → Bool) (cs : List Char) (ts : List Token) : Prop :=
  ∃ ps, render ps = cs ∧ pieceTokens ps = ts ∧ Spaced signs ps ∧
    (∀ t, .token t ∈ ps → t.Spelled) ∧ ∀ p ∈ ps.head?, first p = true

/-- A construct can start with the piece. -/
def Piece.begins (digits signs : Bool) : Piece → Bool
  | token t => t.kind.begins digits signs
  | blank => false

/-- The token of the kind, or a blank. -/
def kindPiece : Option TokenKind → Piece
  | some kind => .token kind.token
  | none => .blank

/-- Tokens of fixed spelling and blanks that can stand in a row. -/
def settled : List (Option TokenKind) → Bool
  | [] => true
  | k :: ks =>
    k.all TokenKind.isFixed && ks.head?.all (fun l => (kindPiece k).clear false (kindPiece l)) &&
      settled ks

theorem clear_signs {signs : Bool} {a b : Piece} (h : a.clear false b = true) :
    a.clear signs b = true := by
  have hmono : ∀ (d : Bool) (k : TokenKind), k.begins d false = true → k.begins d signs = true := by
    intro d k hk
    simp only [TokenKind.begins, Bool.and_false, Bool.false_and, Bool.or_false] at hk
    simp only [TokenKind.begins, hk, Bool.true_or]
  cases a with
  | blank => exact h
  | token a =>
    cases b with
    | blank => exact h
    | token b =>
      simp only [Piece.clear, Bool.or_eq_true, Bool.and_eq_true] at h ⊢
      rcases h with h | ⟨hkind, hbegins⟩ | ⟨hkind, hbegins⟩
      · exact .inl h
      · exact .inr (.inl ⟨hkind, hmono _ _ hbegins⟩)
      · exact .inr (.inr ⟨hkind, hmono _ _ hbegins⟩)

namespace Lays

variable {signs : Bool} {first before : Piece → Bool} {cs : List Char} {ts : List Token}

theorem nil : Lays signs first [] [] :=
  ⟨[], rfl, rfl, trivial, nofun, nofun⟩

theorem weaken (h : Lays signs first cs ts) (hfirst : ∀ p, first p = true → before p = true) :
    Lays signs before cs ts := by
  obtain ⟨ps, hrender, htokens, hspaced, hspelled, hhead⟩ := h
  exact ⟨ps, hrender, htokens, hspaced, hspelled, fun p hp => hfirst p (hhead p hp)⟩

theorem piece (p : Piece) (hp : ∀ t, p = .token t → t.Spelled) (hbefore : before p = true)
    (hclear : ∀ q, first q = true → p.clear signs q = true) (h : Lays signs first cs ts) :
    Lays signs before (p.chars ++ cs) (p.token?.toList ++ ts) := by
  obtain ⟨ps, rfl, rfl, hspaced, hspelled, hhead⟩ := h
  refine ⟨p :: ps, render_cons p ps, ?_, ⟨fun q hq => hclear q (hhead q hq), hspaced⟩, ?_, ?_⟩
  · cases p with
    | token t => rfl
    | blank => rfl
  · intro t ht
    rcases List.mem_cons.mp ht with ht | ht
    · exact hp t ht.symm
    · exact hspelled t ht
  · rintro q ⟨⟩
    exact hbefore

/-- A token that something follows which can follow anything. -/
theorem token {t : Token} (ht : t.Spelled) (hbefore : before (.token t) = true)
    (h : Lays signs Piece.closes cs ts) : Lays signs before (t.chars ++ cs) (t :: ts) := by
  refine h.piece (.token t) (fun u hu => ?_) hbefore fun q hq => ?_
  · cases hu
    exact ht
  · simp only [Piece.clear, hq, Bool.or_true, Bool.true_or]

theorem any (h : Lays signs first cs ts) : Lays signs (fun _ => true) cs ts :=
  h.weaken fun _ _ => rfl

theorem blank (h : Lays signs (fun _ => true) cs ts) : Lays signs Piece.closes (' ' :: cs) ts :=
  h.piece .blank nofun rfl fun _ _ => rfl

theorem blanks (n : Nat) (h : Lays signs (fun _ => true) cs ts) :
    Lays signs (fun _ => true) (List.replicate n ' ' ++ cs) ts := by
  induction n with
  | zero => exact h
  | succ n ih => exact ih.blank.any

theorem spelled_kindPiece {k : Option TokenKind} (h : k.all TokenKind.isFixed = true) {t : Token}
    (ht : kindPiece k = .token t) : t.Spelled := by
  cases k with
  | none => cases ht
  | some kind =>
    cases ht
    change kind.isFixed = true at h
    cases kind <;> first | rfl | cases h

/-- A fixed text of tokens and blanks. -/
theorem fixed {text : String} (k : Option TokenKind) (ks : List (Option TokenKind))
    (htext : text.toList = render ((k :: ks).map kindPiece)) (hsettled : settled (k :: ks) = true)
    (hbefore : before (kindPiece k) = true)
    (hclear : ∀ l ∈ (k :: ks).getLast?, ∀ q, first q = true → (kindPiece l).clear signs q = true)
    (h : Lays signs first cs ts) :
    Lays signs before (text.toList ++ cs)
      ((k :: ks).filterMap (·.map TokenKind.token) ++ ts) := by
  rw [htext]
  clear htext
  induction ks generalizing k before with
  | nil =>
    simp only [settled, Bool.and_true, List.head?_nil, Option.all_none] at hsettled
    have hpiece := h.piece (kindPiece k) (fun t => spelled_kindPiece hsettled) hbefore (hclear k rfl)
    cases k with
    | none => exact hpiece
    | some kind => rwa [List.map_cons, render_cons, List.append_assoc]
  | cons l ks ih =>
    rw [settled, Bool.and_eq_true, Bool.and_eq_true] at hsettled
    obtain ⟨⟨hfixed, hnext⟩, hsettled⟩ := hsettled
    rw [List.getLast?_cons_cons] at hclear
    have hrest : Lays signs ((kindPiece k).clear signs) _ _ :=
      ih l hsettled (clear_signs hnext) hclear
    have hpiece := hrest.piece (kindPiece k) (fun t => spelled_kindPiece hfixed) hbefore
      fun _ hq => hq
    rw [List.map_cons, render_cons, List.append_assoc]
    cases k with
    | none => exact hpiece
    | some kind => exact hpiece

/-- A fixed text that the lexer does not look across. -/
theorem walled {text : String} (k : Option TokenKind) (ks : List (Option TokenKind))
    (htext : text.toList = render ((k :: ks).map kindPiece)) (hsettled : settled (k :: ks) = true)
    (hwall : (k :: ks).getLast?.all (fun l => (kindPiece l).isWall) = true)
    (hbefore : before (kindPiece k) = true) (h : Lays signs (fun _ => true) cs ts) :
    Lays signs before (text.toList ++ cs)
      ((k :: ks).filterMap (·.map TokenKind.token) ++ ts) := by
  refine h.fixed k ks htext hsettled hbefore fun l hl q hq => ?_
  rw [Option.mem_def.mp hl, Option.all_some] at hwall
  simp only [Piece.clear, hwall, Bool.true_or]

/-- A fixed text that something follows which can follow anything. -/
theorem word {text : String} (k : Option TokenKind) (ks : List (Option TokenKind))
    (htext : text.toList = render ((k :: ks).map kindPiece)) (hsettled : settled (k :: ks) = true)
    (hbefore : before (kindPiece k) = true) (h : Lays signs Piece.closes cs ts) :
    Lays signs before (text.toList ++ cs)
      ((k :: ks).filterMap (·.map TokenKind.token) ++ ts) := by
  refine h.fixed k ks htext hsettled hbefore fun l _ q hq => ?_
  simp only [Piece.clear, hq, Bool.or_true, Bool.true_or]

theorem name {name : String} (hname : IsName name) (hbefore : before (.token (nameToken name)) = true)
    (h : Lays signs Piece.closes cs ts) :
    Lays signs before (name.toList ++ cs) (nameToken name :: ts) :=
  h.token (t := nameToken name) ⟨hname, rfl⟩ hbefore

/-- A line break and the indentation behind it. -/
theorem line (indent : Nat) (h : Lays signs (fun _ => true) cs ts) :
    Lays signs Piece.closes ((newline indent).toList ++ cs) (TokenKind.newline.token :: ts) := by
  have hspaces : ∀ n : Nat, (String.join (List.replicate n "    ")).toList =
      List.replicate (4 * n) ' ' := by
    intro n
    induction n with
    | zero => rfl
    | succ n ih =>
      rw [List.replicate_succ, String.join_cons, String.toList_append, ih, Nat.mul_succ,
        Nat.add_comm, ← List.replicate_append_replicate]
      rfl
  have htext : (newline indent).toList ++ cs =
      "\n".toList ++ (List.replicate (4 * indent) ' ' ++ cs) := by
    rw [newline, String.toList_append, hspaces, List.append_assoc]
  rw [htext]
  exact (h.blanks (4 * indent)).walled (some .newline) [] rfl rfl rfl rfl

end Lays

/-! ### Text before what can follow anything -/

/-- A text with these tokens, whatever stands behind it that can follow anything. -/
def Chunk (signs : Bool) (first : Piece → Bool) (cs : List Char) (ts : List Token) : Prop :=
  ∀ ds us, Lays signs Piece.closes ds us → Lays signs first (cs ++ ds) (ts ++ us)

theorem Piece.begins_mono {d e signs : Bool} (hde : d = true → e = true) {p : Piece}
    (h : p.begins d signs = true) : p.begins e signs = true := by
  cases p with
  | blank => exact h
  | token t =>
    cases d with
    | true => rwa [hde rfl]
    | false =>
      simp only [Piece.begins, TokenKind.begins, Bool.false_or, Bool.false_and, Bool.or_false,
        Bool.and_eq_true] at h ⊢
      simp only [h.1, h.2, Bool.or_true, Bool.and_true, Bool.true_or]

namespace Chunk

variable {signs d : Bool} {first : Piece → Bool} {cs : List Char} {ts : List Token} {text : String}

theorem nil : Chunk signs Piece.closes [] [] :=
  fun _ _ h => h

theorem weaken {before : Piece → Bool} (h : Chunk signs first cs ts)
    (hfirst : ∀ p, first p = true → before p = true) : Chunk signs before cs ts :=
  fun ds us hrest => (h ds us hrest).weaken hfirst

theorem any (h : Chunk signs first cs ts) : Chunk signs (fun _ => true) cs ts :=
  h.weaken fun _ _ => rfl

theorem wrapped (b : Bool) (h : Chunk signs (Piece.begins d signs) text.toList ts) :
    Chunk signs (Piece.begins (d && !b) signs) (parenthesized b text).toList
      (Canonical.wrapped b ts) := by
  intro ds us hrest
  cases b with
  | false =>
    rw [Bool.not_false, Bool.and_true]
    exact h ds us hrest
  | true =>
    rw [Bool.not_true, Bool.and_false]
    simp only [parenthesized, Canonical.wrapped, if_true, String.toList_append, List.append_assoc,
      List.cons_append]
    refine Lays.walled (some .lParen) [] rfl rfl rfl rfl ?_
    apply h.any
    exact Lays.walled (some .rParen) [] rfl rfl rfl rfl hrest.any

theorem joinStrings_cons (sep s : String) (ss : List String) :
    (Text.joinStrings sep (s :: ss)).toList =
      s.toList ++ ss.flatMap fun t => sep.toList ++ t.toList := by
  rw [Text.joinStrings, String.toList_ofList]
  induction ss generalizing s with
  | nil => rw [List.map_cons, List.map_nil, Text.join, List.flatMap_nil, List.append_nil]
  | cons t ss ih =>
    rw [List.map_cons, List.map_cons, Text.join, ← List.map_cons, ih, List.flatMap_cons,
      List.append_assoc, List.append_assoc]
    nofun

theorem parameters {params : List String} (h : ∀ p ∈ params, IsName p) :
    Chunk signs (fun _ => true) (commaSeparated params).toList (parameterTokens params) := by
  cases params with
  | nil => exact nil.any
  | cons name names =>
    intro ds us hrest
    have hmore : ∀ names : List String, (∀ p ∈ names, IsName p) → ∀ name, IsName name →
        Lays signs (fun _ => true) (name.toList ++ ((names.flatMap fun t => ", ".toList ++ t.toList) ++ ds))
          (parameterTokens (name :: names) ++ us) := by
      intro names
      induction names with
      | nil =>
        intro _ name hname
        exact hrest.name hname rfl
      | cons next names ih =>
        intro hnames name hname
        rw [List.flatMap_cons, List.append_assoc, List.append_assoc]
        refine Lays.name hname rfl ?_
        refine Lays.walled (some .comma) [none] rfl rfl rfl rfl ?_
        exact ih (fun p hp => hnames p (List.mem_cons_of_mem next hp)) next
          (hnames next List.mem_cons_self)
    rw [commaSeparated, joinStrings_cons, List.append_assoc]
    exact hmore names (fun p hp => h p (List.mem_cons_of_mem name hp)) name (h name List.mem_cons_self)

theorem parameterList {params : List String} (h : ∀ p ∈ params, IsName p) {ds : List Char}
    {us : List Token} (hrest : Lays signs Piece.closes ds us) :
    Lays signs Piece.closes ((Printer.parameters params).toList ++ ds)
      (TokenKind.lParen.token :: (parameterTokens params ++ TokenKind.rParen.token :: us)) := by
  simp only [Printer.parameters, String.toList_append, List.append_assoc]
  refine Lays.walled (some .lParen) [] rfl rfl rfl rfl ?_
  apply parameters h
  exact Lays.walled (some .rParen) [] rfl rfl rfl rfl hrest.any

/-! ### Numbers -/

theorem magnitude (m : Magnitude Format.single) {ds : List Char} {us : List Token}
    (h : Lays signs Piece.closes ds us) :
    Lays signs (Piece.begins true signs) ((Decimal.shortest m).layout ++ ds)
      (magnitudeToken m :: us) := by
  rw [← chars_magnitude m]
  refine h.token ?_ ?_
  · unfold Token.Spelled
    rcases magnitudeToken_kind m with hkind | hkind <;> rw [hkind] <;> exact ⟨m, rfl⟩
  · rw [Piece.begins, TokenKind.begins]
    rcases magnitudeToken_kind m with hkind | hkind <;> rw [hkind] <;> rfl

theorem isName_inf : IsName "inf" :=
  ⟨'i', ['n', 'f'], rfl, rfl, List.all_eq_true.mp rfl, rfl⟩

theorem isName_nan : IsName "NaN" :=
  ⟨'N', ['a', 'N'], rfl, rfl, List.all_eq_true.mp rfl, rfl⟩

/-- A sign can stand before what can start with a number. -/
theorem clear_sign {kind : TokenKind} (hkind : kind = .plus ∨ kind = .minus) {q : Piece}
    (hq : q.begins true signs = true) : (kindPiece (some kind)).clear signs q = true := by
  cases q with
  | blank => cases hq
  | token t =>
    change t.kind.begins true signs = true at hq
    rcases hkind with rfl | rfl <;> simp [kindPiece, Piece.clear, TokenKind.token, hq]

theorem negative {ds : List Char} {us : List Token}
    (h : Lays true (Piece.begins true true) ds us) :
    Lays true (Piece.begins true true) ("-".toList ++ ds) (TokenKind.minus.token :: us) := by
  refine h.fixed (some .minus) [] rfl rfl rfl ?_
  rintro l ⟨⟩ q hq
  exact clear_sign (.inr rfl) hq

theorem number {value : Single} (h : signs = true ∨ value.isPlain = true) :
    Chunk signs (Piece.begins true signs) value.text.toList (numberTokens value) := by
  intro ds us hrest
  cases value with
  | nan => exact hrest.name isName_nan rfl
  | infinite s =>
    cases s with
    | false => exact hrest.name isName_inf rfl
    | true =>
      obtain rfl : signs = true := h.resolve_right nofun
      exact negative (hrest.name isName_inf rfl)
  | finite s m =>
    cases s with
    | false =>
      rw [Number.text, String.toList_ofList]
      exact magnitude m hrest
    | true =>
      obtain rfl : signs = true := h.resolve_right nofun
      rw [Number.text, String.toList_ofList, List.append_assoc]
      exact negative (magnitude m hrest)

/-- A point before what does not start with a number. -/
theorem point {ds : List Char} {us : List Token} (h : Lays signs (Piece.begins false signs) ds us) :
    Lays signs Piece.closes (".".toList ++ ds) (TokenKind.point.token :: us) := by
  refine h.fixed (some .point) [] rfl rfl rfl ?_
  rintro l ⟨⟩ q hq
  cases q with
  | blank => cases hq
  | token t =>
    change t.kind.begins false signs = true at hq
    simp [kindPiece, Piece.clear, TokenKind.token, hq]

theorem operator (op : BinaryOp) {ds : List Char} {us : List Token}
    (h : Lays signs (fun _ => true) ds us) :
    Lays signs Piece.closes (" ".toList ++ (op.symbol.toList ++ (" ".toList ++ ds)))
      (op.kind.token :: us) := by
  have hchars : op.kind.token.chars = op.symbol.toList ∧ op.kind.token.Spelled := by
    cases op with
    | arithmetic op => cases op <;> exact ⟨rfl, rfl⟩
    | _ => exact ⟨rfl, rfl⟩
  apply Lays.blank
  rw [← hchars.1]
  exact h.blank.token hchars.2 rfl

theorem update (op : Arithmetic) {ds : List Char} {us : List Token}
    (h : Lays signs (fun _ => true) ds us) :
    Lays signs Piece.closes (" ".toList ++ (op.symbol.toList ++ ("= ".toList ++ ds)))
      (op.updateKind.token :: us) := by
  have hchars : op.symbol.toList ++ ("= ".toList ++ ds) = op.updateKind.token.chars ++ (' ' :: ds) ∧
      op.updateKind.token.Spelled := by
    cases op <;> exact ⟨rfl, rfl⟩
  apply Lays.blank
  rw [hchars.1]
  exact h.blank.token hchars.2 rfl

/-! ### Bodies -/

theorem braced (indent : Nat) (h : Chunk signs first text.toList ts) :
    Chunk signs (Piece.begins false signs) (braces indent [text]).toList
      (TokenKind.lBrace.token :: TokenKind.newline.token :: ts ++
        [TokenKind.newline.token, TokenKind.rBrace.token]) := by
  intro ds us hrest
  simp only [braces, List.map_cons, List.map_nil, String.join_cons, String.join_nil,
    String.append_empty, String.toList_append, List.append_assoc, List.cons_append, List.nil_append]
  refine Lays.walled (some .lBrace) [] rfl rfl rfl rfl ?_
  refine (Lays.line (indent + 1) ?_).any
  apply h.any
  refine Lays.line indent ?_
  exact Lays.walled (some .rBrace) [] rfl rfl rfl rfl hrest.any

theorem block {body : Node} {print : Nat → String}
    (h : ∀ i, Chunk signs (Piece.begins (isNumber body) signs) (print i).toList ts) (indent : Nat) :
    Chunk signs (Piece.begins false signs) (Printer.block body print indent).toList
      (blockTokens body ts) := by
  cases body with
  | sequence _ _ => exact h indent
  | number _ value =>
    rw [Printer.block, blockTokens]
    split
    · intro ds us hrest
      simp only [braces, List.map_nil, String.join_nil, String.append_empty, String.toList_append,
        List.append_assoc]
      refine Lays.walled (some .lBrace) [] rfl rfl rfl rfl ?_
      refine (Lays.line indent ?_).any
      exact Lays.walled (some .rBrace) [] rfl rfl rfl rfl hrest.any
    · exact braced indent (h (indent + 1))
  | _ => exact braced indent (h (indent + 1))

theorem body {body : Node} {print : Nat → String}
    (h : ∀ i, Chunk signs (Piece.begins (isNumber body) signs) (print i).toList ts)
    (braced : Bool) (indent : Nat) :
    Chunk signs Piece.closes (bodyText braced body print indent).toList
      (bodyTokens braced body ts) := by
  intro ds us hrest
  cases braced with
  | true =>
    have hblock := (block h indent).any ds us hrest
    simp only [bodyText, bodyTokens, if_true, String.toList_append, List.append_assoc]
    exact hblock.blank
  | false =>
    have hinline := ((h indent).wrapped (isOpenChoice body)).any ds us hrest
    simp only [bodyText, bodyTokens, Bool.false_eq_true, if_false, String.toList_append,
      List.append_assoc]
    exact Lays.walled (some .colon) [none] rfl rfl rfl rfl hinline

end Chunk

/-! ### Trees -/

/-- The canonical text of the node has its canonical tokens. -/
def Node.Chunks (signs : Bool) (n : Node) : Prop :=
  ∀ indent, Chunk signs (Piece.begins (isNumber n) signs) (n.print indent).toList n.tokens

def AllChunks (signs : Bool) (ns : List Node) : Prop :=
  ∀ n ∈ ns, n.Chunks signs

def Arms.Chunks (signs : Bool) (arms : Arms) : Prop :=
  ∀ indent, Chunk signs Piece.closes (arms.print indent " elseif ").toList (arms.tokens .elseif_)

section

variable {signs : Bool}

namespace Chunk

theorem moreItems (indent : Nat) {ns : List Node} (h : AllChunks signs ns) :
    Chunk signs Piece.closes ((printAll indent ns).flatMap fun t => ", ".toList ++ t.toList)
      (moreItemTokens ns) := by
  induction ns with
  | nil => exact Chunk.nil
  | cons n ns ih =>
    intro ds us hrest
    rw [printAll, List.flatMap_cons, moreItemTokens]
    simp only [List.append_assoc, List.cons_append]
    refine Lays.walled (some .comma) [none] rfl rfl rfl rfl ?_
    apply (h n List.mem_cons_self indent).any
    exact ih (fun m hm => h m (List.mem_cons_of_mem n hm)) ds us hrest

theorem items (indent : Nat) {ns : List Node} (h : AllChunks signs ns) :
    Chunk signs (fun _ => true) (commaSeparated (printAll indent ns)).toList (itemTokens ns) := by
  cases ns with
  | nil => exact Chunk.nil.any
  | cons n ns =>
    intro ds us hrest
    rw [printAll, commaSeparated, joinStrings_cons, itemTokens, List.append_assoc, List.append_assoc]
    apply (h n List.mem_cons_self indent).any
    exact moreItems indent (fun m hm => h m (List.mem_cons_of_mem n hm)) ds us hrest

theorem arguments (indent : Nat) {ns : List Node} (h : AllChunks signs ns) {ds : List Char}
    {us : List Token} (hrest : Lays signs Piece.closes ds us) :
    Lays signs Piece.closes
      ("(".toList ++ ((commaSeparated (printAll indent ns)).toList ++ (")".toList ++ ds)))
      (TokenKind.lParen.token :: (itemTokens ns ++ TokenKind.rParen.token :: us)) := by
  refine Lays.walled (some .lParen) [] rfl rfl rfl rfl ?_
  apply items indent h
  exact Lays.walled (some .rParen) [] rfl rfl rfl rfl hrest.any

/-- A segment does not start with a number. -/
theorem segment {n : Node} (h : n.Chunks signs) (indent : Nat) :
    Chunk signs (Piece.begins false signs) (parenthesized (isNumber n) (n.print indent)).toList
      (Canonical.wrapped (isNumber n) n.tokens) := by
  have hsegment := (h indent).wrapped (isNumber n)
  rwa [Bool.and_not_self] at hsegment

theorem moreSegments (indent : Nat) {ns : List Node} (h : AllChunks signs ns) :
    Chunk signs Piece.closes ((printSegments indent ns).flatMap fun t => ".".toList ++ t.toList)
      (moreSegmentTokens ns) := by
  induction ns with
  | nil => exact Chunk.nil
  | cons n ns ih =>
    intro ds us hrest
    rw [printSegments, List.flatMap_cons, moreSegmentTokens]
    simp only [List.append_assoc, List.cons_append]
    apply point
    apply Chunk.segment (h n List.mem_cons_self)
    exact ih (fun m hm => h m (List.mem_cons_of_mem n hm)) ds us hrest

theorem lines (indent : Nat) {ns : List Node} (h : AllChunks signs ns) :
    Chunk signs Piece.closes
      (String.join ((printAll indent ns).map (newline indent ++ ·))).toList (lineTokens ns) := by
  induction ns with
  | nil => exact Chunk.nil
  | cons n ns ih =>
    intro ds us hrest
    rw [printAll, List.map_cons, String.join_cons, lineTokens]
    simp only [String.toList_append, List.append_assoc, List.cons_append]
    refine Lays.line indent ?_
    apply (h n List.mem_cons_self indent).any
    exact ih (fun m hm => h m (List.mem_cons_of_mem n hm)) ds us hrest

theorem step (indent : Nat) {step : Option Node} (h : ∀ n ∈ step, n.Chunks signs) :
    Chunk signs Piece.closes (printSome indent " by " step).toList (stepTokens step) := by
  cases step with
  | none => exact Chunk.nil
  | some n =>
    intro ds us hrest
    simp only [printSome, stepTokens, String.toList_append, List.append_assoc, List.cons_append]
    refine Lays.walled none [some (.keyword .by_), none] rfl rfl rfl rfl ?_
    exact (h n rfl indent).any ds us hrest

theorem assigned {value : Node} (h : value.Chunks signs) (indent : Nat) :
    Chunk signs (fun _ => true)
      (parenthesized (isOpenChoice value) (value.print indent)).toList
      (Canonical.wrapped (isOpenChoice value) value.tokens) :=
  ((h indent).wrapped (isOpenChoice value)).any

end Chunk

open Chunk

namespace Node

theorem chunks_text (pos : Position) (value : String) : (Node.text pos value).Chunks signs := by
  intro indent ds us hrest
  rw [Node.toList_print_text]
  exact hrest.token rfl rfl

theorem chunks_list (pos : Position) {items : List Node} (h : AllChunks signs items) :
    (Node.list pos items).Chunks signs := by
  intro indent ds us hrest
  simp only [Node.print, Node.tokens, String.toList_append, List.append_assoc, List.cons_append]
  refine Lays.walled (some .lSquare) [] rfl rfl rfl rfl ?_
  apply Chunk.items indent h
  exact Lays.walled (some .rSquare) [] rfl rfl rfl rfl hrest.any

theorem chunks_binary (pos : Position) (op : BinaryOp) {left right : Node}
    (hleft : left.Chunks signs) (hright : right.Chunks signs) :
    (Node.binary pos op left right).Chunks signs := by
  intro indent ds us hrest
  simp only [Node.print, Node.tokens, String.toList_append, List.append_assoc, List.cons_append]
  refine Lays.walled (some .lParen) [] rfl rfl rfl rfl ?_
  apply ((hleft indent).wrapped (isGreedy left)).any
  apply operator op
  apply ((hright indent).wrapped (isGreedy right)).any
  exact Lays.walled (some .rParen) [] rfl rfl rfl rfl hrest.any

theorem chunks_unary (pos : Position) (op : UnaryOp) {operand : Node} (h : operand.Chunks signs) :
    (Node.unary pos op operand).Chunks signs := by
  intro indent ds us hrest
  have hclose : Lays signs Piece.closes (")".toList ++ ds) (TokenKind.rParen.token :: us) :=
    hrest.any.walled (some .rParen) [] rfl rfl rfl rfl
  have hoperand := (h indent).wrapped (isGreedy operand) _ _ hclose
  have hsigned : Lays signs (Piece.begins true signs) _ _ :=
    hoperand.weaken fun _ => Piece.begins_mono fun _ => rfl
  simp only [Node.print, Node.tokens, String.toList_append, List.append_assoc, List.cons_append]
  cases op with
  | not_ => exact hoperand.any.walled (some .lParen) [some (.keyword .not_), none] rfl rfl rfl rfl
  | plus =>
    refine hsigned.fixed (some .lParen) [some .plus] rfl rfl rfl ?_
    rintro l ⟨⟩ q hq
    exact clear_sign (.inl rfl) hq
  | negate =>
    refine hsigned.fixed (some .lParen) [some .minus] rfl rfl rfl ?_
    rintro l ⟨⟩ q hq
    exact clear_sign (.inr rfl) hq

theorem chunks_read (pos : Position) {name : String} (h : IsName name) :
    (Node.read pos name).Chunks signs := by
  intro indent ds us hrest
  exact hrest.name h rfl

theorem chunks_this (pos : Position) : (Node.this pos).Chunks signs := by
  intro indent ds us hrest
  rw [Node.print]
  exact hrest.word (some (.keyword .this_)) [] rfl rfl rfl

theorem chunks_declare (pos : Position) {name : String} (hname : IsName name) {value : Node}
    (h : value.Chunks signs) : (Node.declare pos name value).Chunks signs := by
  intro indent ds us hrest
  simp only [Node.print, Node.tokens, String.toList_append, List.append_assoc, List.cons_append]
  refine Lays.walled (some (.keyword .var_)) [none] rfl rfl rfl rfl ?_
  refine Lays.name hname rfl ?_
  refine Lays.walled none [some .equals, none] rfl rfl rfl rfl ?_
  exact assigned h indent ds us hrest

theorem chunks_assign (pos : Position) {name : String} (hname : IsName name) {value : Node}
    (h : value.Chunks signs) : (Node.assign pos name value).Chunks signs := by
  intro indent ds us hrest
  simp only [Node.print, Node.tokens, String.toList_append, List.append_assoc, List.cons_append]
  refine Lays.name hname rfl ?_
  refine Lays.walled none [some .equals, none] rfl rfl rfl rfl ?_
  exact assigned h indent ds us hrest

theorem chunks_update (pos : Position) {name : String} (hname : IsName name) (op : Arithmetic)
    {value : Node} (h : value.Chunks signs) : (Node.update pos name op value).Chunks signs := by
  intro indent ds us hrest
  simp only [Node.print, Node.tokens, String.toList_append, List.append_assoc, List.cons_append]
  refine Lays.name hname rfl ?_
  apply Chunk.update op
  exact assigned h indent ds us hrest

theorem chunks_choose (pos : Position) (braced : Bool) {condition body : Node} {more : Arms}
    (hcondition : condition.Chunks signs) (hbody : body.Chunks signs) (hmore : more.Chunks signs) :
    (Node.choose pos (.arm condition braced body more)).Chunks signs := by
  intro indent ds us hrest
  simp only [Node.print, Node.tokens, Arms.print, Arms.tokens, String.toList_append,
    List.append_assoc, List.cons_append]
  refine Lays.walled (some (.keyword .if_)) [none] rfl rfl rfl rfl ?_
  apply (hcondition indent).any
  apply Chunk.body hbody braced indent
  exact hmore indent ds us hrest

theorem chunks_count (pos : Position) {name : String} (hname : IsName name) (braced : Bool)
    {start stop body : Node} {step : Option Node} (hstart : start.Chunks signs)
    (hstop : stop.Chunks signs) (hstep : ∀ n ∈ step, n.Chunks signs) (hbody : body.Chunks signs) :
    (Node.count pos name start stop step braced body).Chunks signs := by
  intro indent ds us hrest
  simp only [Node.print, Node.tokens, String.toList_append, List.append_assoc, List.cons_append]
  refine Lays.walled (some (.keyword .for_)) [none] rfl rfl rfl rfl ?_
  refine Lays.name hname rfl ?_
  refine Lays.walled none [some .equals, none] rfl rfl rfl rfl ?_
  apply (hstart indent).any
  refine Lays.walled none [some (.keyword .to_), none] rfl rfl rfl rfl ?_
  apply (hstop indent).any
  apply Chunk.step indent hstep
  exact Chunk.body hbody braced indent ds us hrest

theorem chunks_each (pos : Position) {name : String} (hname : IsName name) (braced : Bool)
    {items body : Node} (hitems : items.Chunks signs) (hbody : body.Chunks signs) :
    (Node.each pos name items braced body).Chunks signs := by
  intro indent ds us hrest
  simp only [Node.print, Node.tokens, String.toList_append, List.append_assoc, List.cons_append]
  refine Lays.walled (some (.keyword .for_)) [none] rfl rfl rfl rfl ?_
  refine Lays.name hname rfl ?_
  refine Lays.walled none [some (.keyword .in_), none] rfl rfl rfl rfl ?_
  apply (hitems indent).any
  exact Chunk.body hbody braced indent ds us hrest

theorem chunks_loop (pos : Position) (braced : Bool) {condition body : Node}
    (hcondition : condition.Chunks signs) (hbody : body.Chunks signs) :
    (Node.loop pos condition braced body).Chunks signs := by
  intro indent ds us hrest
  simp only [Node.print, Node.tokens, String.toList_append, List.append_assoc, List.cons_append]
  refine Lays.walled (some (.keyword .while_)) [none] rfl rfl rfl rfl ?_
  apply (hcondition indent).any
  exact Chunk.body hbody braced indent ds us hrest

theorem chunks_function (pos : Position) {name : Option String} (hname : ∀ n ∈ name, IsName n)
    {params : List String} (hparams : ∀ p ∈ params, IsName p) (braced : Bool) {body : Node}
    (hbody : body.Chunks signs) : (Node.function pos name params braced body).Chunks signs := by
  intro indent ds us hrest
  have hparameters := parameterList hparams (Chunk.body hbody braced indent ds us hrest)
  simp only [Node.print, Node.tokens, String.toList_append, List.append_assoc, List.cons_append]
  cases name with
  | none => exact hparameters.word (some (.keyword .function_)) [] rfl rfl rfl
  | some name =>
    simp only [String.toList_append, List.append_assoc]
    refine Lays.word (some (.keyword .function_)) [] rfl rfl rfl ?_
    apply Lays.blank
    exact hparameters.name (hname name rfl) rfl

theorem chunks_call (pos : Position) {callee : Node} {args : List Node}
    (hcallee : callee.Chunks signs) (hargs : AllChunks signs args) :
    (Node.call pos callee args).Chunks signs := by
  intro indent ds us hrest
  have harguments := arguments indent hargs hrest
  simp only [Node.print, Node.tokens, String.toList_append, List.append_assoc, List.cons_append]
  have hwrapped := (hcallee indent).wrapped (!isBareCallee callee) _ _ harguments
  refine hwrapped.weaken fun p => Piece.begins_mono fun hbare => ?_
  cases callee <;> cases hbare

theorem chunks_sequence (pos : Position) {statements : List Node} (h : AllChunks signs statements) :
    (Node.sequence pos statements).Chunks signs := by
  intro indent ds us hrest
  simp only [Node.print, braces, Node.tokens, String.toList_append, List.append_assoc,
    List.cons_append]
  refine Lays.walled (some .lBrace) [] rfl rfl rfl rfl ?_
  apply (Chunk.lines (indent + 1) h).any
  refine Lays.line indent ?_
  exact Lays.walled (some .rBrace) [] rfl rfl rfl rfl hrest.any

theorem chunks_members (pos : Position) {n : Node} {ns : List Node} (h : AllChunks signs (n :: ns)) :
    (Node.members pos (n :: ns)).Chunks signs := by
  intro indent ds us hrest
  rw [Node.print, printSegments, joinStrings_cons, Node.tokens, segmentTokens, List.append_assoc,
    List.append_assoc]
  apply Chunk.segment (h n List.mem_cons_self)
  exact moreSegments indent (fun m hm => h m (List.mem_cons_of_mem n hm)) ds us hrest

theorem chunks_object (pos : Position) {name : String} (hname : IsName name) {params : List String}
    (hparams : ∀ p ∈ params, IsName p) {parent : Option String} (hparent : ∀ p ∈ parent, IsName p)
    {body : Node} (hbody : body.Chunks signs) :
    (Node.object pos name params parent body).Chunks signs := by
  intro indent ds us hrest
  have hblock := ((Chunk.block hbody indent).any ds us hrest).blank
  simp only [Node.print, Node.tokens, String.toList_append, List.append_assoc, List.cons_append]
  refine Lays.walled (some (.keyword .object_)) [none] rfl rfl rfl rfl ?_
  refine Lays.name hname rfl ?_
  apply parameterList hparams
  cases parent with
  | none => exact hblock
  | some parent =>
    simp only [String.toList_append, List.append_assoc]
    refine Lays.walled none [some (.keyword .extends_), none] rfl rfl rfl rfl ?_
    exact hblock.name (hparent parent rfl) rfl

theorem chunks_create (pos : Position) {name : String} (hname : IsName name) {args : List Node}
    (hargs : AllChunks signs args) : (Node.create pos name args).Chunks signs := by
  intro indent ds us hrest
  have harguments := arguments indent hargs hrest
  simp only [Node.print, Node.tokens, String.toList_append, List.append_assoc, List.cons_append]
  refine Lays.walled (some (.keyword .new_)) [none] rfl rfl rfl rfl ?_
  exact harguments.name hname rfl

theorem chunks_return (pos : Position) {value : Option Node} (h : ∀ n ∈ value, n.Chunks signs) :
    (Node.return_ pos value).Chunks signs := by
  intro indent ds us hrest
  simp only [Node.print, Node.tokens, String.toList_append, List.append_assoc, List.cons_append]
  cases value with
  | none => exact hrest.word (some (.keyword .return_)) [] rfl rfl rfl
  | some value =>
    simp only [printReturned, returnedTokens, String.toList_append, List.append_assoc]
    refine Lays.word (some (.keyword .return_)) [] rfl rfl rfl ?_
    apply Lays.blank
    exact assigned (h value rfl) indent ds us hrest

theorem chunks_continue (pos : Position) : (Node.continue_ pos).Chunks signs := by
  intro indent ds us hrest
  rw [Node.print]
  exact hrest.word (some (.keyword .continue_)) [] rfl rfl rfl

theorem chunks_break (pos : Position) : (Node.break_ pos).Chunks signs := by
  intro indent ds us hrest
  rw [Node.print]
  exact hrest.word (some (.keyword .break_)) [] rfl rfl rfl

theorem chunks_include (pos : Position) {paths : List Node} (h : AllChunks signs paths) :
    (Node.include_ pos paths).Chunks signs := by
  intro indent ds us hrest
  simp only [Node.print, Node.tokens, String.toList_append, List.append_assoc, List.cons_append]
  refine Lays.walled (some (.keyword .include_)) [none] rfl rfl rfl rfl ?_
  exact items indent h ds us hrest

end Node

namespace Arms

theorem chunks_otherwise (braced : Bool) {body : Node} (h : body.Chunks signs) :
    (Arms.otherwise braced body).Chunks signs := by
  intro indent ds us hrest
  simp only [Arms.print, Arms.tokens, String.toList_append, List.append_assoc, List.cons_append]
  refine Lays.word none [some (.keyword .else_)] rfl rfl rfl ?_
  exact Chunk.body h braced indent ds us hrest

theorem chunks_arm (braced : Bool) {condition body : Node} {more : Arms}
    (hcondition : condition.Chunks signs) (hbody : body.Chunks signs) (hmore : more.Chunks signs) :
    (Arms.arm condition braced body more).Chunks signs := by
  intro indent ds us hrest
  simp only [Arms.print, Arms.tokens, String.toList_append, List.append_assoc, List.cons_append]
  refine Lays.walled none [some (.keyword .elseif_), none] rfl rfl rfl rfl ?_
  apply (hcondition indent).any
  apply Chunk.body hbody braced indent
  exact hmore indent ds us hrest

end Arms

/-- A number whose sign can be written. -/
def Writable (signs : Bool) (value : Single) : Prop :=
  signs = true ∨ value.isPlain = true

mutual

theorem Node.chunks (n : Node) {stmt : Bool} (h : n.Formed IsName (Writable signs) stmt) :
    n.Chunks signs := by
  match n with
  | .number _ value => exact fun _ => Chunk.number h
  | .text pos value => exact Node.chunks_text pos value
  | .list pos items => exact Node.chunks_list pos (nodes_chunks items h)
  | .binary pos op left right => exact Node.chunks_binary pos op (left.chunks h.1) (right.chunks h.2)
  | .unary pos op operand => exact Node.chunks_unary pos op (operand.chunks h)
  | .read pos name => exact Node.chunks_read pos h
  | .this pos => exact Node.chunks_this pos
  | .declare pos name value => exact Node.chunks_declare pos h.1 (value.chunks h.2)
  | .assign pos name value => exact Node.chunks_assign pos h.1 (value.chunks h.2)
  | .update pos name op value => exact Node.chunks_update pos h.1 op (value.chunks h.2)
  | .choose _ .done => cases h.1
  | .choose _ (.otherwise _ _) => cases h.1
  | .choose pos (.arm condition braced body more) =>
    obtain ⟨-, hcondition, -, hbody, hmore⟩ := h
    exact Node.chunks_choose pos braced (condition.chunks hcondition) (body.chunks hbody)
      (more.chunks hmore)
  | .count pos name start stop step braced body =>
    obtain ⟨hname, hstart, hstop, hstep, -, hbody⟩ := h
    exact Node.chunks_count pos hname braced (start.chunks hstart) (stop.chunks hstop)
      (option_chunks step hstep) (body.chunks hbody)
  | .each pos name items braced body =>
    obtain ⟨hname, hitems, -, hbody⟩ := h
    exact Node.chunks_each pos hname braced (items.chunks hitems) (body.chunks hbody)
  | .loop pos condition braced body =>
    exact Node.chunks_loop pos braced (condition.chunks h.1) (body.chunks h.2.2)
  | .function pos name params braced body =>
    obtain ⟨hname, hparams, -, hbody⟩ := h
    exact Node.chunks_function pos hname hparams braced (body.chunks hbody)
  | .call pos callee args => exact Node.chunks_call pos (callee.chunks h.1) (nodes_chunks args h.2)
  | .sequence pos statements => exact Node.chunks_sequence pos (nodes_chunks statements h.2)
  | .members _ [] => exact absurd h.1 (by decide)
  | .members pos (n :: ns) => exact Node.chunks_members pos (nodes_chunks (n :: ns) h.2)
  | .object pos name params parent body =>
    obtain ⟨hname, hparams, hparent, -, hbody⟩ := h
    exact Node.chunks_object pos hname hparams hparent (body.chunks hbody)
  | .create pos name args => exact Node.chunks_create pos h.1 (nodes_chunks args h.2)
  | .return_ pos value => exact Node.chunks_return pos (option_chunks value h.2)
  | .continue_ pos => exact Node.chunks_continue pos
  | .break_ pos => exact Node.chunks_break pos
  | .include_ pos paths => exact Node.chunks_include pos (nodes_chunks paths h.2)

theorem Arms.chunks (arms : Arms) (h : arms.Formed IsName (Writable signs)) :
    arms.Chunks signs := by
  match arms with
  | .done => exact fun _ => Chunk.nil
  | .otherwise braced body => exact Arms.chunks_otherwise braced (body.chunks h.2)
  | .arm condition braced body more =>
    obtain ⟨hcondition, -, hbody, hmore⟩ := h
    exact Arms.chunks_arm braced (condition.chunks hcondition) (body.chunks hbody)
      (more.chunks hmore)

theorem nodes_chunks (ns : List Node) {stmt : Bool}
    (h : allFormed IsName (Writable signs) stmt ns) : AllChunks signs ns := by
  match ns with
  | [] => exact nofun
  | n :: ns => exact List.forall_mem_cons.mpr ⟨n.chunks h.1, nodes_chunks ns h.2⟩

theorem option_chunks (n : Option Node) (h : someFormed IsName (Writable signs) n) :
    ∀ m ∈ n, m.Chunks signs := by
  match n with
  | none => exact nofun
  | some n => exact fun m hm => Option.mem_some.mp hm ▸ n.chunks h

end

end

end ScriptEngine
