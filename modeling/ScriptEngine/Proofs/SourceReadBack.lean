import Mathlib
import ScriptEngine.Proofs.CanonicalText
import ScriptEngine.Proofs.ProgramText
import ScriptEngine.Proofs.ReadBackApart

/-! # Reading canonical source text back

The canonical text of a parsed program is parsed to the same tree exactly where the program reads
back. Where a whole number stands before a point the text has fewer tokens than the tree needs. -/

namespace ScriptEngine

open Canonical Grammar

/-! ### Fused tokens -/

/-- Numbers without signs leave no two signs side by side. -/
theorem not_clear_minus {a b : Token} (ha : a.kind = .minus) (hb : b.kind = .minus) :
    (Piece.token a).clear false (.token b) = false := by
  simp only [Piece.clear, Piece.isWall, Piece.closes, ha, hb]
  decide

theorem fuse_eq_of_apart (ps : List Piece) (hspaced : Spaced false ps)
    (h : Apart (pieceTokens ps)) : fuse ps = pieceTokens ps := by
  induction ps using fuse.induct with
  | case1 => rfl
  | case2 ps ih => exact ih hspaced.2 h
  | case3 a => rfl
  | case4 a ps ih =>
    rw [fuse, ih hspaced.2.2 h.2]
    rfl
  | case5 a b ps hpair ih => exact absurd hpair.2 (h.1 hpair.1)
  | case6 a b ps _ hpair ih =>
    have hclear := hspaced.1 _ rfl
    rw [not_clear_minus hpair.1 hpair.2] at hclear
    cases hclear
  | case7 a b ps hpoint hminus ih =>
    rw [fuse, if_neg hpoint, if_neg hminus, ih hspaced.2 h.2]
    rfl

/-- Fusing loses weight. -/
theorem fuse_eq_or_lt (ps : List Piece) (hspaced : Spaced false ps) :
    fuse ps = pieceTokens ps ∨ weight (fuse ps) < weight (pieceTokens ps) := by
  induction ps using fuse.induct with
  | case1 => exact .inl rfl
  | case2 ps ih => exact ih hspaced.2
  | case3 a => exact .inl rfl
  | case4 a ps ih =>
    rw [fuse]
    exact (ih hspaced.2.2).imp (congrArg (a :: ·)) fun h => Nat.add_lt_add_left h a.kind.weight
  | case5 a b ps hpair ih =>
    right
    have hle : weight (fuse ps) ≤ weight (pieceTokens ps) :=
      (ih hspaced.2.2).elim (fun h => Nat.le_of_eq (congrArg weight h)) Nat.le_of_lt
    have htokens : pieceTokens (.token a :: .token b :: ps) = a :: b :: pieceTokens ps := rfl
    rw [fuse, if_pos hpair, htokens]
    simp only [weight, joinedToken, hpair.1, hpair.2, TokenKind.weight]
    omega
  | case6 a b ps _ hpair ih =>
    have hclear := hspaced.1 _ rfl
    rw [not_clear_minus hpair.1 hpair.2] at hclear
    cases hclear
  | case7 a b ps hpoint hminus ih =>
    rw [fuse, if_neg hpoint, if_neg hminus]
    exact (ih hspaced.2).imp (congrArg (a :: ·)) fun h => Nat.add_lt_add_left h a.kind.weight

/-- A token that canonical text can be lexed into. -/
def Token.Canonical (t : Token) : Prop :=
  t.kind ≠ .endOfCode ∧ t.Fine IsName fun value => value.isPlain = true

/-- The text of a magnitude, perhaps with a point behind it, reads as a number without sign. -/
theorem canonical_number {t : Token} {m : Magnitude Format.single} (hkind : t.kind = .int ∨ t.kind = .float)
    (htext : Number.ofText? t.lexeme = some (Number.finite false m)) : t.Canonical := by
  refine ⟨?_, ⟨?_, ?_⟩⟩
  · rcases hkind with h | h <;> rw [h] <;> decide
  · intro h
    rcases hkind with hkind | hkind <;> cases hkind.symm.trans h
  · intro _ value hvalue
    rw [htext] at hvalue
    cases hvalue
    rfl

theorem Token.Spelled.canonical {t : Token} (h : t.Spelled) : t.Canonical := by
  by_cases hnumber : t.kind = .int ∨ t.kind = .float
  · obtain ⟨m, rfl⟩ : ∃ m, t = magnitudeToken m := by
      unfold Token.Spelled at h
      rcases hnumber with hkind | hkind <;> rw [hkind] at h <;> exact h
    exact canonical_number hnumber (Number.ofText?_layout m)
  · refine ⟨fun hend => ?_, fun hname => ?_, fun hkind => absurd hkind hnumber⟩
    · unfold Token.Spelled at h
      rw [hend] at h
      exact h
    · unfold Token.Spelled at h
      rw [hname] at h
      exact h.1

theorem canonical_joined {a : Token} (h : a.Spelled) (hint : a.kind = .int) :
    (joinedToken a).Canonical := by
  unfold Token.Spelled at h
  rw [hint] at h
  obtain ⟨m, rfl⟩ := h
  refine canonical_number (.inr rfl) (Number.ofText?_layout_point m ?_)
  unfold magnitudeToken at hint
  dsimp only at hint
  split at hint
  · cases hint
  · rename_i hpoint
    rwa [Bool.not_eq_true] at hpoint

theorem fuse_canonical (ps : List Piece) (h : ∀ t, .token t ∈ ps → t.Spelled) :
    ∀ t ∈ fuse ps, t.Canonical := by
  induction ps using fuse.induct with
  | case1 => exact fun t ht => by cases ht
  | case2 ps ih => exact ih fun t ht => h t (List.mem_cons_of_mem _ ht)
  | case3 a => exact List.forall_mem_singleton.mpr (h a List.mem_cons_self).canonical
  | case4 a ps ih =>
    rw [fuse, List.forall_mem_cons]
    exact ⟨(h a List.mem_cons_self).canonical,
      ih fun t ht => h t (List.mem_cons_of_mem _ (List.mem_cons_of_mem _ ht))⟩
  | case5 a b ps hpair ih =>
    rw [fuse, if_pos hpair, List.forall_mem_cons]
    exact ⟨canonical_joined (h a List.mem_cons_self) hpair.1,
      ih fun t ht => h t (List.mem_cons_of_mem _ (List.mem_cons_of_mem _ ht))⟩
  | case6 a b ps hpoint hpair ih =>
    have hminus : TokenKind.minusMinus.token.Spelled := rfl
    rw [fuse, if_neg hpoint, if_pos hpair, List.forall_mem_cons]
    exact ⟨hminus.canonical,
      ih fun t ht => h t (List.mem_cons_of_mem _ (List.mem_cons_of_mem _ ht))⟩
  | case7 a b ps hpoint hminus ih =>
    rw [fuse, if_neg hpoint, if_neg hminus, List.forall_mem_cons]
    exact ⟨(h a List.mem_cons_self).canonical, ih fun t ht => h t (List.mem_cons_of_mem _ ht)⟩

/-! ### Places do not matter to the form of a tree -/

theorem Node.isBlock_erase (n : Node) : n.erase.isBlock = n.isBlock := by
  cases n <;> rfl

theorem Arms.isArm_erase (arms : Arms) : arms.erase.isArm = arms.isArm := by
  cases arms <;> rfl

theorem length_eraseAll (ns : List Node) : (eraseAll ns).length = ns.length := by
  rw [eraseAll_eq_map, List.length_map]

theorem eraseAll_ne_nil (ns : List Node) : eraseAll ns ≠ [] ↔ ns ≠ [] := by
  rw [eraseAll_eq_map, Ne, List.map_eq_nil_iff]

section

variable {V : String → Prop} {N : Single → Prop}

mutual

theorem Node.formed_erase (n : Node) {stmt : Bool} :
    n.erase.Formed V N stmt ↔ n.Formed V N stmt := by
  cases n with
  | number _ _ => exact Iff.rfl
  | text _ _ => exact Iff.rfl
  | list _ items => exact nodes_formed_erase items
  | binary _ _ left right => exact and_congr left.formed_erase right.formed_erase
  | unary _ _ operand => exact operand.formed_erase
  | read _ _ => exact Iff.rfl
  | this _ => exact Iff.rfl
  | declare _ _ value => exact and_congr Iff.rfl value.formed_erase
  | assign _ _ value => exact and_congr Iff.rfl value.formed_erase
  | update _ _ _ value => exact and_congr Iff.rfl value.formed_erase
  | choose _ arms =>
    simp only [Node.erase, Node.Formed, arms.isArm_erase, arms.formed_erase]
  | count _ _ start stop step _ body =>
    simp only [Node.erase, Node.Formed, body.isBlock_erase, start.formed_erase, stop.formed_erase,
      option_formed_erase step, body.formed_erase]
  | each _ _ items _ body =>
    simp only [Node.erase, Node.Formed, body.isBlock_erase, items.formed_erase, body.formed_erase]
  | loop _ condition _ body =>
    simp only [Node.erase, Node.Formed, body.isBlock_erase, condition.formed_erase,
      body.formed_erase]
  | function _ _ _ _ body =>
    simp only [Node.erase, Node.Formed, body.isBlock_erase, body.formed_erase]
  | call _ callee args => exact and_congr callee.formed_erase (nodes_formed_erase args)
  | sequence _ statements =>
    exact and_congr (eraseAll_ne_nil statements) (nodes_formed_erase statements)
  | members _ segments =>
    simp only [Node.erase, Node.Formed, length_eraseAll, nodes_formed_erase segments]
  | object _ _ _ _ body =>
    simp only [Node.erase, Node.Formed, body.isBlock_erase, body.formed_erase]
  | create _ _ args => exact and_congr Iff.rfl (nodes_formed_erase args)
  | return_ _ value => exact and_congr Iff.rfl (option_formed_erase value)
  | continue_ _ => exact Iff.rfl
  | break_ _ => exact Iff.rfl
  | include_ _ paths => exact and_congr (eraseAll_ne_nil paths) (nodes_formed_erase paths)

theorem Arms.formed_erase (arms : Arms) : arms.erase.Formed V N ↔ arms.Formed V N := by
  cases arms with
  | done => exact Iff.rfl
  | otherwise _ body =>
    simp only [Arms.erase, Arms.Formed, body.isBlock_erase, body.formed_erase]
  | arm condition _ body more =>
    simp only [Arms.erase, Arms.Formed, body.isBlock_erase, condition.formed_erase,
      body.formed_erase, more.formed_erase]

theorem nodes_formed_erase (ns : List Node) {stmt : Bool} :
    allFormed V N stmt (eraseAll ns) ↔ allFormed V N stmt ns := by
  cases ns with
  | nil => exact Iff.rfl
  | cons n ns => exact and_congr n.formed_erase (nodes_formed_erase ns)

theorem option_formed_erase (n : Option Node) :
    someFormed V N (eraseSome n) ↔ someFormed V N n := by
  cases n with
  | none => exact Iff.rfl
  | some n => exact n.formed_erase

end

end

/-! ### The text of a program -/

theorem Chunk.program {signs : Bool} (pos : Position) {statements : List Node}
    (h : AllChunks signs statements) :
    Chunk signs (fun _ => true) (Node.sequence pos statements).toSource.toList
      (Node.sequence pos statements).programTokens := by
  cases statements with
  | nil => exact Chunk.nil.any
  | cons n ns =>
    intro ds us hrest
    have hlines : Chunk signs Piece.closes
        ((printAll 0 ns).flatMap fun t => "\n".toList ++ t.toList) (lineTokens ns) := by
      have hns : AllChunks signs ns := fun m hm => h m (List.mem_cons_of_mem n hm)
      clear h
      induction ns with
      | nil => exact Chunk.nil
      | cons m ns ih =>
        intro ds us hrest
        simp only [printAll, List.flatMap_cons, lineTokens, List.append_assoc, List.cons_append]
        refine Lays.walled (some .newline) [] rfl rfl rfl rfl ?_
        apply (hns m List.mem_cons_self 0).any
        exact ih (fun k hk => hns k (List.mem_cons_of_mem m hk)) ds us hrest
    rw [Node.toSource, printAll, Chunk.joinStrings_cons, Node.programTokens, List.append_assoc,
      List.append_assoc]
    apply (h n List.mem_cons_self 0).any
    exact hlines ds us hrest

theorem lays_toSource {signs : Bool} (pos : Position) {statements : List Node}
    (h : allFormed IsName (Writable signs) true statements) :
    Lays signs (fun _ => true) (Node.sequence pos statements).toSource.toList
      (Node.sequence pos statements).programTokens := by
  have hchunk := Chunk.program pos (nodes_chunks statements h) [] [] Lays.nil
  rwa [List.append_nil, List.append_nil] at hchunk

/-! ### Reading back -/

/-- Canonical text is lexed without failure into tokens that weigh less than those of the tree or
are the same. -/
theorem toSource_lexes {signs : Bool} (pos : Position) {statements : List Node}
    (h : allFormed IsName (Writable signs) true statements) :
    ∃ ps, Lexes (Node.sequence pos statements).toSource.toList (fuse ps) ∧
      pieceTokens ps = (Node.sequence pos statements).programTokens ∧ Spaced signs ps ∧
      ∀ t ∈ fuse ps, t.Canonical := by
  obtain ⟨ps, hrender, htokens, hspaced, hspelled, -⟩ := lays_toSource pos h
  exact ⟨ps, hrender ▸ lexes_pieces ps hspaced hspelled, htokens, hspaced,
    fuse_canonical ps hspelled⟩

/-- The text of a program that reads back is parsed to the program. -/
theorem parses_of_readsBack {pos : Position} {statements : List Node}
    (hformed : allFormed IsName (Writable false) true statements)
    (hregular : allRegular true statements)
    (hreads : (Node.sequence pos statements).readsBack = true) (name : Option String) :
    (tokenize (Node.sequence pos statements).toSource name).failure = none ∧
      ∃ again, parseProgram (Node.sequence pos statements).toSource name = .ok again ∧
        again.erase = (Node.sequence pos statements).erase := by
  obtain ⟨ps, hlexes, htokens, hspaced, hcanonical⟩ := toSource_lexes pos hformed
  have hfuse : fuse ps = (Node.sequence pos statements).programTokens :=
    (fuse_eq_of_apart ps hspaced (htokens ▸ apart_of_readsBack hreads)).trans htokens
  have hinside : Inside (fuse ps) := fun t ht => (hcanonical t ht).1
  refine ⟨(hlexes.stream hinside name).1, ?_⟩
  rw [hlexes.parse_iff hinside, hfuse]
  exact (program_exact pos statements hregular (Nat.le_refl _)).mpr hreads

/-- The tokens of a program weigh what its statements weigh. -/
theorem weight_programTokens {pos : Position} {statements : List Node}
    (h : allRegular true statements) :
    weight (Node.sequence pos statements).programTokens = weightAll statements := by
  cases statements with
  | nil => rfl
  | cons n ns => exact ((n.shape h.1).append (lineTokens_shape ns h.2)).weighs

theorem isPlain_one : (Number.ofNat 1 : Single).isPlain = true := by
  decide +kernel

/-- A program whose text is parsed to the program reads back. -/
theorem readsBack_of_parses {pos : Position} {statements : List Node}
    (hformed : allFormed IsName (Writable true) true statements) {name : Option String}
    {again : Node} (hparse : parseProgram (Node.sequence pos statements).toSource name = .ok again)
    (herase : again.erase = (Node.sequence pos statements).erase) :
    (Node.sequence pos statements).readsBack = true := by
  obtain ⟨ps, hlexes, -, -, hcanonical⟩ := toSource_lexes pos hformed
  have hinside : Inside (fuse ps) := fun t ht => (hcanonical t ht).1
  obtain ⟨r, hrun⟩ := (hlexes.parse_iff hinside name _).mp ⟨again, hparse, herase⟩
  -- What is parsed from canonical tokens has names of identifiers and plain numbers.
  have hparsed : ∀ {V : String → Prop} {N : Single → Prop}, (∀ x, IsName x → V x) →
      (∀ v : Single, v.isPlain = true → N v) → allFormed V N true statements ∧
        weightAll statements = weight (fuse ps) := by
    intro V N hV hN
    have hfine : ∀ t ∈ (bareStream (fuse ps)).ahead, t.Fine V N := fun t ht =>
      ⟨fun hkind => hV _ ((hcanonical t ht).2.name hkind),
        fun hkind v hv => hN v ((hcanonical t ht).2.number hkind v hv)⟩
    obtain ⟨_, written, hroot, hwritten, hweight⟩ :=
      program_formed ⟨hN _ isPlain_one, hN _ rfl⟩ hinside hfine hrun
    obtain ⟨-, rfl⟩ := Node.sequence.inj hroot
    exact ⟨(nodes_formed_erase statements).mp hwritten,
      (weightAll_erase statements).symm.trans hweight⟩
  have hregular : allRegular true statements := (hparsed (fun _ _ => trivial) fun _ hv => hv).1
  obtain ⟨hplain, hweight⟩ := hparsed (N := Writable false) (fun _ hx => hx) fun _ hv => .inr hv
  obtain ⟨qs, hlexes', htokens, hspaced, -⟩ := toSource_lexes pos hplain
  have hfuse : fuse qs = (Node.sequence pos statements).programTokens := by
    rcases fuse_eq_or_lt qs hspaced with h | h
    · exact h.trans htokens
    · rw [htokens, weight_programTokens hregular, hweight, hlexes.unique hlexes'] at h
      exact absurd h (Nat.lt_irrefl _)
  rw [hlexes.unique hlexes', hfuse] at hrun
  exact (program_exact pos statements hregular (Nat.le_refl _)).mp ⟨r, hrun⟩

/-- The canonical text of a parsed program is accepted and parsed to the same tree exactly where the
program reads back. -/
theorem reparses_iff_readsBack {source : String} {name : Option String} {root : Node}
    (h : parseProgram source name = .ok root) (again : Option String) :
    (∃ root', parseProgram root.toSource again = .ok root' ∧ root'.erase = root.erase) ↔
      root.readsBack = true := by
  obtain ⟨pos, statements, rfl, hformed⟩ :=
    parseProgram_formed (V := IsName) (N := Writable true) (fun _ hx => hx) (fun _ => .inl rfl) h
  constructor
  · rintro ⟨root', hparse, herase⟩
    exact readsBack_of_parses hformed hparse herase
  · intro hreads
    have hreadable := readable_of_lines hreads
    obtain ⟨_, _, hroot, hregular⟩ :=
      parseProgram_formed (V := fun _ => True) (N := fun _ => True) (fun _ _ => trivial)
        (fun _ => trivial) h
    obtain ⟨-, rfl⟩ := Node.sequence.inj hroot
    exact (parses_of_readsBack (nodes_plain (fun _ hv => .inr hv) statements hreadable hformed)
      (nodes_plain (fun _ hv => hv) statements hreadable hregular) hreads again).2

/-- A choice in a loop, a sign and a call on a member. -/
theorem reparses_loop : ∃ root,
    parseProgram "while a: if b \x7b c = -d \x7d else: e.f(g)" none = .ok root ∧
      root.readsBack = true ∧
      ∃ root', parseProgram root.toSource none = .ok root' ∧ root'.erase = root.erase := by
  obtain ⟨root, hroot, hreads⟩ : ∃ root,
      parseProgram "while a: if b \x7b c = -d \x7d else: e.f(g)" none = .ok root ∧
        root.readsBack = true := ⟨_, by cbv, by cbv⟩
  exact ⟨root, hroot, hreads, (reparses_iff_readsBack hroot none).mpr hreads⟩

/-- A declaration as a member is printed without the parentheses that it needs. -/
theorem not_reparses_member : ∃ root, parseProgram "a.(var x = y)" none = .ok root ∧
    ¬ ∃ root', parseProgram root.toSource none = .ok root' ∧ root'.erase = root.erase := by
  have hroot : parseProgram "a.(var x = y)" none = .ok (.sequence ⟨1, 0, 1, none⟩ [.members
      ⟨1, 0, 1, none⟩ [.read ⟨1, 0, 1, none⟩ "a", .declare ⟨1, 3, 3, none⟩ "x"
        (.read ⟨1, 11, 1, none⟩ "y")]]) := by cbv
  have hagain : (parseProgram "a.var x = y" none).isOk = false := by cbv
  refine ⟨_, hroot, ?_⟩
  rintro ⟨root', h, -⟩
  change parseProgram "a.var x = y" none = .ok root' at h
  rw [h] at hagain
  cases hagain

end ScriptEngine
