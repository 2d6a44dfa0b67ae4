import ScriptEngine.World

/-! # Parts of a tree

The nodes that a tree consists of, the names that they hold, and the jumps that can leave a tree:
loop control is caught by the loop whose body it stands in, and neither loop control nor a return
leaves the definition of a function or an object. -/

namespace ScriptEngine

/-! ### Parts -/

def Arms.nodes : Arms → List Node
  | .done => []
  | .otherwise _ body => [body]
  | .arm condition _ body more => condition :: body :: more.nodes

namespace Node

/-- The nodes right below. -/
def children : Node → List Node
  | .list _ items => items
  | .binary _ _ left right => [left, right]
  | .unary _ _ operand => [operand]
  | .declare _ _ value | .assign _ _ value | .update _ _ _ value => [value]
  | .choose _ arms => arms.nodes
  | .count _ _ start stop step _ body => start :: stop :: step.toList ++ [body]
  | .each _ _ items _ body => [items, body]
  | .loop _ condition _ body => [condition, body]
  | .function _ _ _ _ body | .object _ _ _ _ body => [body]
  | .call _ callee args => callee :: args
  | .sequence _ statements => statements
  | .members _ segments => segments
  | .create _ _ args => args
  | .return_ _ value => value.toList
  | .include_ _ paths => paths
  | _ => []

/-- The nodes that a tree consists of: its root and the parts of what is below. -/
inductive Part (root : Node) : Node → Prop where
  | root : Part root root
  | inner {node child : Node} : Part root node → child ∈ node.children → Part root child

theorem Part.of_child {root child node : Node} (hc : child ∈ root.children)
    (hn : child.Part node) : root.Part node := by
  induction hn with
  | root => exact .inner .root hc
  | inner _ hm ih => exact .inner ih hm

/-- What holds of all parts holds of the root and of all parts of what is below. -/
theorem forall_part_iff {p : Node → Prop} {root : Node} :
    (∀ node, root.Part node → p node) ↔
      p root ∧ ∀ child ∈ root.children, ∀ node, child.Part node → p node := by
  constructor
  · intro h
    exact ⟨h root .root, fun child hc node hn => h node (hn.of_child hc)⟩
  · rintro ⟨hroot, hbelow⟩ node hn
    -- A part is the root or is reached through a child of the root.
    have hreach : node = root ∨ ∃ child ∈ root.children, child.Part node := by
      induction hn with
      | root => exact .inl rfl
      | inner _ hm ih =>
        obtain rfl | ⟨child, hc, hp⟩ := ih
        · exact .inr ⟨_, hm, .root⟩
        · exact .inr ⟨child, hc, .inner hp hm⟩
    obtain rfl | ⟨child, hc, hp⟩ := hreach
    · exact hroot
    · exact hbelow child hc node hp

theorem Part.eq_of_leaf {leaf node : Node} (hl : leaf.children = []) (hn : leaf.Part node) :
    node = leaf := by
  induction hn with
  | root => rfl
  | inner _ hm ih =>
    rw [ih, hl] at hm
    cases hm

theorem sizeOf_arms_lt {arms : Arms} {node : Node} (hn : node ∈ arms.nodes) :
    sizeOf node < sizeOf arms := by
  cases arms with
  | done => cases hn
  | otherwise braced body =>
    rw [List.mem_singleton.mp hn, Arms.otherwise.sizeOf_spec]
    omega
  | arm condition braced body more =>
    rw [Arms.arm.sizeOf_spec]
    rcases List.mem_cons.mp hn with rfl | hn
    · omega
    · rcases List.mem_cons.mp hn with rfl | hn
      · omega
      · have hmore := sizeOf_arms_lt hn
        omega

theorem sizeOf_step_lt {step : Option Node} {node : Node} (hn : node ∈ step.toList) :
    sizeOf node < sizeOf step := by
  cases step with
  | none => cases hn
  | some value =>
    rw [List.mem_singleton.mp hn, Option.some.sizeOf_spec]
    omega

theorem sizeOf_child_lt {node child : Node} (hc : child ∈ node.children) :
    sizeOf child < sizeOf node := by
  cases node with
  | number | text | read | this | continue_ | break_ => cases hc
  | list | sequence | members | create | include_ =>
    have hlt := List.sizeOf_lt_of_mem hc
    simp only [children] at hlt
    simp only [list.sizeOf_spec, sequence.sizeOf_spec, members.sizeOf_spec, create.sizeOf_spec,
      include_.sizeOf_spec]
    omega
  | choose =>
    have hlt := sizeOf_arms_lt hc
    rw [choose.sizeOf_spec]
    omega
  | return_ =>
    have hlt := sizeOf_step_lt hc
    rw [return_.sizeOf_spec]
    omega
  | call pos callee args =>
    rw [call.sizeOf_spec]
    rcases List.mem_cons.mp hc with rfl | hc
    · omega
    · have hlt := List.sizeOf_lt_of_mem hc
      omega
  | count pos name start stop step braced body =>
    rw [count.sizeOf_spec]
    simp only [children, List.mem_cons, List.mem_append, List.not_mem_nil, or_false] at hc
    rcases hc with (rfl | rfl | hc) | rfl
    · omega
    · omega
    · have hlt := sizeOf_step_lt hc
      omega
    · omega
  | binary | unary | declare | assign | update | each | loop | function | object =>
    simp only [children, List.mem_cons, List.not_mem_nil, or_false] at hc
    simp only [binary.sizeOf_spec, unary.sizeOf_spec, declare.sizeOf_spec, assign.sizeOf_spec,
      update.sizeOf_spec, each.sizeOf_spec, loop.sizeOf_spec, function.sizeOf_spec,
      object.sizeOf_spec]
    rcases hc with rfl | rfl <;> omega

theorem sizeOf_part_le {root node : Node} (hn : root.Part node) : sizeOf node ≤ sizeOf root := by
  induction hn with
  | root => exact Nat.le_refl _
  | inner _ hm ih => exact Nat.le_trans (Nat.le_of_lt (sizeOf_child_lt hm)) ih

/-- The statements that a program is run as. -/
def statements : Node → List Node
  | .sequence _ statements => statements
  | node => [node]

/-! ### What a node holds -/

/-- The identifiers that the node itself holds. -/
def names : Node → List String
  | .read _ name | .declare _ name _ | .assign _ name _ | .update _ name _ _
  | .count _ name _ _ _ _ _ | .each _ name _ _ _ | .create _ name _ => [name]
  | .function _ name params _ _ => name.toList ++ params
  | .object _ name params parent _ => name :: (params ++ parent.toList)
  | _ => []

def isLoop : Node → Bool
  | .count _ _ _ _ _ _ _ | .each _ _ _ _ _ | .loop _ _ _ _ => true
  | _ => false

def isInclude : Node → Bool
  | .include_ _ _ => true
  | _ => false

/-- The body that a function or an object definition runs later. -/
def definition? : Node → Option Node
  | .function _ _ _ _ body | .object _ _ _ _ body => some body
  | _ => none

theorem definition_child {node body : Node} (hb : body ∈ node.definition?) :
    body ∈ node.children := by
  cases node with
  | function | object =>
    rw [Option.mem_some.mp hb]
    exact List.mem_singleton_self _
  | _ => cases hb

end Node

/-! ### Jumps that leave a tree -/

inductive JumpKind where
  | return_ | break_ | continue_
  deriving DecidableEq

def Jump.kind : Jump → JumpKind
  | .return_ _ => .return_
  | .break_ => .break_
  | .continue_ => .continue_

namespace Node

def jumpKind? : Node → Option JumpKind
  | .return_ _ _ => some .return_
  | .break_ _ => some .break_
  | .continue_ _ => some .continue_
  | _ => none

/-- The children from which a jump of this kind leaves the node: none of a definition, and for loop
control not the body of a loop. -/
def openTo (k : JumpKind) : Node → List Node
  | .function _ _ _ _ _ | .object _ _ _ _ _ => []
  | .count pos name start stop step braced body =>
    if k = .return_ then children (.count pos name start stop step braced body)
    else start :: stop :: step.toList
  | .each _ _ items _ body => if k = .return_ then [items, body] else [items]
  | .loop _ condition _ body => if k = .return_ then [condition, body] else [condition]
  | node => node.children

/-- The tree contains a jump of this kind that leaves it. -/
inductive Exposes (k : JumpKind) : Node → Prop where
  | here {node : Node} : node.jumpKind? = some k → Exposes k node
  | inner {node child : Node} : child ∈ node.openTo k → Exposes k child → Exposes k node

/-- No loop control leaves the tree. -/
def KeepsLoopControl (node : Node) : Prop :=
  ¬ node.Exposes .break_ ∧ ¬ node.Exposes .continue_

end Node

end ScriptEngine
