import ScriptEngine.Proofs.ProgramText
import ScriptEngine.Proofs.TreeParts

/-! # Parsed trees are well formed

Where a node stands below another one decides what it may be: only a statement is a jump, and a body
in braces is what the braces hold. In the tree of a program that was parsed this holds of every
node, no construct lacks its parts, and every name is an identifier. -/

namespace ScriptEngine

/-! ### Places -/

/-- A node stands below another one as a part of an expression, as a statement, or as a body in
braces. -/
inductive Place where
  | operand | statement | block
  deriving DecidableEq

/-- The place of a body that may be inline. -/
def Place.body (inline_ : Place) (braced : Bool) : Place :=
  if braced then .block else inline_

/-- The nodes of arms with their places. An inline body is a statement. -/
def Arms.places : Arms → List (Place × Node)
  | .done => []
  | .otherwise braced body => [(.body .statement braced, body)]
  | .arm condition braced body more =>
    (.operand, condition) :: (.body .statement braced, body) :: more.places

namespace Node

/-- The nodes right below with their places. The inline body of a `while` loop or a function is a
statement, that of a `for` loop an expression. -/
def places : Node → List (Place × Node)
  | .sequence _ statements => statements.map (.statement, ·)
  | .choose _ arms => arms.places
  | .count _ _ start stop step braced body =>
    (start :: stop :: step.toList).map (.operand, ·) ++ [(.body .operand braced, body)]
  | .each _ _ items braced body => [(.operand, items), (.body .operand braced, body)]
  | .loop _ condition braced body => [(.operand, condition), (.body .statement braced, body)]
  | .function _ _ _ braced body => [(.body .statement braced, body)]
  | .object _ _ _ _ body => [(.block, body)]
  | node => node.children.map (.operand, ·)

end Node

theorem Arms.places_nodes (arms : Arms) : arms.places.map Prod.snd = arms.nodes := by
  fun_induction Arms.places arms with
  | case1 => rfl
  | case2 => rfl
  | case3 condition braced body more ih => simp only [nodes, List.map_cons, ih]

theorem Node.places_children (node : Node) : node.places.map Prod.snd = node.children := by
  cases node with
  | choose _ arms => exact arms.places_nodes
  | _ => simp [places, children, Function.comp_def]

/-- A node that has what it needs, with jumps and bodies in braces where they belong. -/
structure Node.WellFormed (node : Node) : Prop where
  filled : ∀ pos, .sequence pos [] ∉ node.children
  segments : ∀ pos segments, node = .members pos segments → 2 ≤ segments.length
  arms : ∀ pos arms, node = .choose pos arms → arms.isArm = true
  paths : ∀ pos paths, node = .include_ pos paths → paths ≠ []
  jumps : ∀ place child, (place, child) ∈ node.places → child.jumpKind? ≠ none →
    place = .statement
  blocks : ∀ body, (.block, body) ∈ node.places →
    (∃ pos first more, body = .sequence pos (first :: more)) ∨
      ∃ pos, body = .number pos (.zero false)
  names : ∀ name ∈ node.names, IsName name

/-- The tree of a program: a sequence, in which everything is well formed. -/
structure Node.IsProgram (root : Node) : Prop where
  sequence : ∃ pos statements, root = .sequence pos statements
  parts : ∀ node, root.Part node → node.WellFormed

/-! ### Nodes in their places -/

/-- What is asked of a node in its place. -/
def Place.Admits (V : String → Prop) (N : Single → Prop) : Place → Node → Prop
  | .operand, node => node.Formed V N false
  | .statement, node => node.Formed V N true
  | .block, node => node.isBlock = true ∧ node.Formed V N false

namespace Place

variable {V : String → Prop} {N : Single → Prop} {place : Place} {node : Node}

theorem Admits.formed (h : place.Admits V N node) : ∃ stmt, node.Formed V N stmt := by
  cases place with
  | operand => exact ⟨false, h⟩
  | statement => exact ⟨true, h⟩
  | block => exact ⟨false, h.2⟩

theorem admits_body (stmt : Bool) {braced : Bool} (h : Spends.IsBody V N stmt (braced, node)) :
    (body (if stmt then .statement else .operand) braced).Admits V N node := by
  obtain ⟨hblock, hformed⟩ := h
  cases braced with
  | true =>
    rw [Bool.not_true, Bool.and_false] at hformed
    exact ⟨hblock rfl, hformed⟩
  | false =>
    rw [Bool.not_false, Bool.and_true] at hformed
    cases stmt with
    | true => exact hformed
    | false => exact hformed

theorem admits_operands {nodes : List Node} (h : allFormed V N false nodes) :
    ∀ p ∈ nodes.map (Place.operand, ·), p.1.Admits V N p.2 := by
  rw [List.forall_mem_map]
  exact (allFormed_iff nodes).mp h

theorem Admits.jump (h : place.Admits V N node) (hjump : node.jumpKind? ≠ none) :
    place = .statement := by
  have hoperand : ¬ node.Formed V N false := by
    intro hformed
    cases node with
    | return_ _ _ => cases hformed.1
    | continue_ _ => cases hformed
    | break_ _ => cases hformed
    | _ => exact hjump rfl
  cases place with
  | operand => exact absurd h hoperand
  | statement => rfl
  | block => exact absurd h.2 hoperand

theorem Admits.block (h : Place.block.Admits V N node) :
    (∃ pos first more, node = .sequence pos (first :: more)) ∨
      ∃ pos, node = .number pos (.zero false) := by
  obtain ⟨hblock, hformed⟩ := h
  cases node with
  | sequence pos statements =>
    obtain ⟨first, more, rfl⟩ := List.exists_cons_of_ne_nil hformed.1
    exact .inl ⟨pos, first, more, rfl⟩
  | number pos value =>
    obtain rfl : value = .zero false := by simpa [Node.isBlock] using hblock
    exact .inr ⟨pos, rfl⟩
  | _ => cases hblock

end Place

section

open Place

variable {V : String → Prop} {N : Single → Prop}

theorem Arms.Formed.places {arms : Arms} (h : arms.Formed V N) :
    ∀ p ∈ arms.places, p.1.Admits V N p.2 := by
  match arms with
  | .done => nofun
  | .otherwise braced body => exact List.forall_mem_singleton.mpr (admits_body true h)
  | .arm condition braced body more =>
    obtain ⟨hcondition, hblock, hbody, hmore⟩ := h
    exact List.forall_mem_cons.mpr ⟨hcondition, List.forall_mem_cons.mpr
      ⟨admits_body true ⟨hblock, hbody⟩, Arms.Formed.places hmore⟩⟩

namespace Node.Formed

variable {node : Node} {stmt : Bool}

theorem places (h : node.Formed V N stmt) : ∀ p ∈ node.places, p.1.Admits V N p.2 := by
  cases node with
  | number | text | read | this | continue_ | break_ => nofun
  | list => exact admits_operands h
  | members | create | include_ => exact admits_operands h.2
  | binary => exact admits_operands ⟨h.1, h.2, trivial⟩
  | unary => exact admits_operands ⟨h, trivial⟩
  | declare | assign | update => exact admits_operands ⟨h.2, trivial⟩
  | call => exact admits_operands h
  | return_ pos value =>
    cases value with
    | none => nofun
    | some value => exact admits_operands ⟨h.2, trivial⟩
  | choose => exact Arms.Formed.places h.2
  | sequence pos statements =>
    simp only [Node.places, List.forall_mem_map]
    exact (allFormed_iff statements).mp h.2
  | count pos name start stop step braced body =>
    obtain ⟨-, hstart, hstop, hstep, hblock, hbody⟩ := h
    have hbounds : allFormed V N false (start :: stop :: step.toList) := by
      cases step with
      | none => exact ⟨hstart, hstop, trivial⟩
      | some step => exact ⟨hstart, hstop, hstep, trivial⟩
    exact List.forall_mem_append.mpr ⟨admits_operands hbounds,
      List.forall_mem_singleton.mpr (admits_body false ⟨hblock, hbody⟩)⟩
  | each pos name items braced body =>
    obtain ⟨-, hitems, hblock, hbody⟩ := h
    exact List.forall_mem_cons.mpr ⟨hitems,
      List.forall_mem_singleton.mpr (admits_body false ⟨hblock, hbody⟩)⟩
  | loop pos condition braced body =>
    obtain ⟨hcondition, hblock, hbody⟩ := h
    exact List.forall_mem_cons.mpr ⟨hcondition,
      List.forall_mem_singleton.mpr (admits_body true ⟨hblock, hbody⟩)⟩
  | function => exact List.forall_mem_singleton.mpr (admits_body true h.2.2)
  | object => exact List.forall_mem_singleton.mpr h.2.2.2

theorem child (h : node.Formed V N stmt) {child : Node} (hc : child ∈ node.children) :
    ∃ stmt, child.Formed V N stmt := by
  rw [← node.places_children] at hc
  obtain ⟨⟨place, _⟩, hplace, rfl⟩ := List.mem_map.mp hc
  exact (h.places _ hplace).formed

theorem part {root : Node} (h : root.Formed V N stmt) (hn : root.Part node) :
    ∃ stmt, node.Formed V N stmt := by
  induction hn with
  | root => exact ⟨stmt, h⟩
  | inner _ hc ih =>
    obtain ⟨_, hnode⟩ := ih
    exact hnode.child hc

theorem names (h : node.Formed V N stmt) : ∀ name ∈ node.names, V name := by
  cases node with
  | read => exact List.forall_mem_singleton.mpr h
  | declare | assign | update | count | each | create => exact List.forall_mem_singleton.mpr h.1
  | function pos name params braced body =>
    obtain ⟨hname, hparams, -⟩ := h
    simp only [Node.names, List.forall_mem_append, Option.mem_toList]
    exact ⟨hname, hparams⟩
  | object pos name params parent body =>
    obtain ⟨hname, hparams, hparent, -⟩ := h
    simp only [Node.names, List.forall_mem_cons, List.forall_mem_append, Option.mem_toList]
    exact ⟨hname, hparams, hparent⟩
  | _ => nofun

theorem wellFormed (h : node.Formed IsName N stmt) : node.WellFormed where
  filled := by
    intro pos hc
    obtain ⟨_, hchild⟩ := h.child hc
    exact hchild.1 rfl
  segments := by
    rintro pos segments rfl
    exact h.1
  arms := by
    rintro pos arms rfl
    exact h.1
  paths := by
    rintro pos paths rfl
    exact h.1
  jumps := fun _ _ hplace hjump => (h.places _ hplace).jump hjump
  blocks := fun _ hplace => (h.places _ hplace).block
  names := h.names

end Node.Formed

end

theorem Node.wellFormed_empty (pos : Position) : (Node.sequence pos []).WellFormed :=
  ⟨nofun, nofun, nofun, nofun, nofun, nofun, nofun⟩

/-- Every program that is parsed gives a well-formed tree. -/
theorem isProgram_of_parseProgram {source : String} {name : Option String} {root : Node}
    (h : parseProgram source name = .ok root) : root.IsProgram := by
  obtain ⟨pos, statements, rfl, hformed⟩ :=
    parseProgram_formed (V := IsName) (N := fun _ => True) (fun _ hname => hname)
      (fun _ => trivial) h
  refine ⟨⟨pos, statements, rfl⟩, fun node hn => ?_⟩
  by_cases hempty : statements = []
  · subst hempty
    rw [hn.eq_of_leaf rfl]
    exact Node.wellFormed_empty pos
  · have hroot : (Node.sequence pos statements).Formed IsName (fun _ => True) true :=
      ⟨hempty, hformed⟩
    obtain ⟨stmt, hnode⟩ := hroot.part hn
    exact hnode.wellFormed

theorem isProgram_of_parseProgram_object : ∃ root,
    parseProgram "object A(x) extends B \x7b\x7d\nwhile a: return b.c" none = .ok root ∧
      root.IsProgram := by
  have hok : (parseProgram "object A(x) extends B \x7b\x7d\nwhile a: return b.c" none).isOk =
      true := by decide +kernel
  cases hroot : parseProgram "object A(x) extends B \x7b\x7d\nwhile a: return b.c" none with
  | ok root => exact ⟨root, rfl, isProgram_of_parseProgram hroot⟩
  | error d => simp [hroot, Except.isOk, Except.toBool] at hok

end ScriptEngine
