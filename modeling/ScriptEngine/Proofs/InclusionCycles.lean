import Mathlib
import ScriptEngine.Proofs.FuelStable
import ScriptEngine.Proofs.InclusionGraph

/-! # Cycles of inclusion

Inclusion is not counted as a call, so no limit ends a cycle of inclusions: a program that reaches
one without a failure goes on forever. -/

namespace ScriptEngine

/-! ### Computations that go on forever -/

/-- The computation is cut off, wherever it starts. -/
def Run.Diverges {α : Type} (table : Table String) (x : Run α) : Prop :=
  ∀ w, w.Serves table → ∃ w', x w = .exhausted w'

namespace Run.Diverges

variable {table : Table String} {α β : Type} {Q : α → Prop} {S : β → Prop} {self : Machine}

theorem bind {x : Run α} (hx : x.Diverges table) (f : α → Run β) :
    (x >>= f).Diverges table := by
  intro w hw
  obtain ⟨w', hcut⟩ := hx w hw
  refine ⟨w', ?_⟩
  show andThen x f w = _
  rw [andThen, hcut]

/-- A computation that does not fail gets to the one behind it or is cut off before. -/
theorem after {x : Run α} (hx : Steady table False True Q x) {f : α → Run β}
    (hf : ∀ a, Q a → (f a).Diverges table) : (x >>= f).Diverges table := by
  intro w hw
  have hrun := hx.run w hw
  show ∃ w', andThen x f w = .exhausted w'
  simp only [andThen]
  generalize x w = o at hrun
  cases o with
  | done a w₁ => exact hf a hrun.2 w₁ hrun.1
  | exhausted w₁ => exact ⟨w₁, rfl⟩
  | jumped | failed => exact hrun.2.elim

theorem catchJump {x : Run α} (hx : x.Diverges table) : (catchJump x).Diverges table := by
  intro w hw
  obtain ⟨w', hcut⟩ := hx w hw
  refine ⟨w', ?_⟩
  rw [Run.catchJump, hcut]

theorem during (entry : TraceEntry) {x : Run α} (hx : x.Diverges table) :
    (during entry x).Diverges table := by
  intro w hw
  obtain ⟨w', hcut⟩ := hx { w with calls := entry :: w.calls } ⟨hw.resolver, hw.running⟩
  refine ⟨w', ?_⟩
  rw [Run.during, hcut]

theorem mapAll {f : α → Run β} {as : List α} (hs : ∀ a ∈ as, Steady table False True S (f a))
    {a : α} (ha : a ∈ as) (hd : (f a).Diverges table) : (mapAll f as).Diverges table := by
  induction as with
  | nil => cases ha
  | cons b as ih =>
    obtain ⟨hfirst, hrest⟩ := List.forall_mem_cons.mp hs
    rcases List.mem_cons.mp ha with rfl | ha
    · exact hd.bind _
    · exact after hfirst fun _ _ => (ih hrest ha).bind _

theorem runStatements (e : ScopeRef) {statements : List Node}
    (hs : ∀ node ∈ statements, Steady table False True Whatever (self.evaluate node e))
    {node : Node} (hn : node ∈ statements) (hd : (self.evaluate node e).Diverges table)
    (last : Value) : (Evaluation.runStatements self e statements last).Diverges table := by
  induction statements generalizing last with
  | nil => cases hn
  | cons statement more ih =>
    obtain ⟨hfirst, hrest⟩ := List.forall_mem_cons.mp hs
    rcases List.mem_cons.mp hn with rfl | hn
    · exact (catchJump hd).bind _
    · refine after (Steady.catchJump hfirst) fun result hresult => ?_
      obtain ⟨value, rfl, -⟩ := hresult
      exact ih hrest hn value

theorem runSource {s : Loaded} {root : Node} (hp : parseProgram s.text s.name = .ok root)
    (e : ScopeRef)
    (hs : ∀ node ∈ root.statements,
      Steady table False True Whatever (self.evaluate node e))
    {node : Node} (hn : node ∈ root.statements) (hd : (self.evaluate node e).Diverges table) :
    (Evaluation.runSource self s.text e s.name).Diverges table := by
  unfold Evaluation.runSource
  rw [hp]
  refine after (Q := (· = root)) (Meets.done rfl) fun found hfound => ?_
  subst hfound
  cases found with
  | sequence pos statements => exact runStatements e hs hn hd .null
  | _ => exact runStatements e hs hn hd .null

theorem runIncluded (pos : Position) (path : String) (scope : ScopeRef)
    {sources : List IncludedSource}
    (hs : ∀ source ∈ sources, Steady table False True Whatever
      (Evaluation.runSource self source.text scope (some source.name)))
    {source : IncludedSource} (hm : source ∈ sources)
    (hd : (Evaluation.runSource self source.text scope (some source.name)).Diverges table) :
    (Evaluation.runIncluded self pos path scope sources).Diverges table := by
  induction sources with
  | nil => cases hm
  | cons first more ih =>
    obtain ⟨hfirst, hrest⟩ := List.forall_mem_cons.mp hs
    refine after (Steady.modifyHeap _) fun _ _ => ?_
    rcases List.mem_cons.mp hm with rfl | hm
    · exact bind (bind (during _ hd) _) _
    · exact after (Meets.discard (Steady.during _ hfirst)) fun _ _ => ih hrest hm

theorem includePath (pos : Position) {path : String} (e : ScopeRef)
    {sources : List IncludedSource} (hr : Resolver.resolveTable table path = .ok sources)
    (hs : ∀ source ∈ sources, ∀ scope, Steady table False True Whatever
      (Evaluation.runSource self source.text scope (some source.name)))
    {source : IncludedSource} (hm : source ∈ sources)
    (hd : ∀ scope,
      (Evaluation.runSource self source.text scope (some source.name)).Diverges table) :
    (Evaluation.includePath self pos path e).Diverges table := by
  refine after (Q := World.Serves table) (Meets.observe fun _ hw => hw) fun w hw => ?_
  refine after (Steady.resolve pos path _ hw (.inr ⟨sources, hr⟩)) fun found hfound => ?_
  rw [hr] at hfound
  cases hfound
  refine after (Q := Whatever) (Steady.make fun _ => trivial) fun scope _ => ?_
  exact (runIncluded pos path scope (fun source hm => hs source hm scope) hm (hd scope)).bind _

/-- One of the paths diverges, itself or with what it names. -/
theorem evalInclude (pos : Position) (e : ScopeRef) {nodes : List Node}
    (hs : ∀ node ∈ nodes, ∃ path,
      Steady table False True (Steady.IsText path) (self.evaluate node e) ∧
      Steady table False True Whatever (Evaluation.includePath self pos path e))
    {node : Node} (hn : node ∈ nodes)
    (hd : (self.evaluate node e).Diverges table ∨ ∃ path,
      Steady table False True (Steady.IsText path) (self.evaluate node e) ∧
      (Evaluation.includePath self pos path e).Diverges table) (last : Value) :
    (Evaluation.evalInclude self pos e nodes last).Diverges table := by
  induction nodes generalizing last with
  | nil => cases hn
  | cons first more ih =>
    obtain ⟨⟨path, hpath, hinclude⟩, hrest⟩ := List.forall_mem_cons.mp hs
    rcases List.mem_cons.mp hn with rfl | hn
    · rcases hd with hd | ⟨shown, hshown, hd⟩
      · exact hd.bind _
      · refine after hshown fun v hv => after (Steady.display_text hv) fun found hfound => ?_
        subst hfound
        exact hd.bind _
    · refine after hpath fun v hv => after (Steady.display_text hv) fun found hfound => ?_
      subst hfound
      exact after hinclude fun next _ => ih hrest hn next

/-- A declarative node diverges with any of its children or with what it includes. -/
theorem evalNode {node : Node} (hd : node.isDeclarative = true)
    (hchildren : ∀ child ∈ node.children, ∀ e,
      Steady table False True Whatever (self.evaluate child e))
    (htext : ∀ pos path e,
      Steady table False True (Steady.IsText path) (self.evaluate (.text pos path) e))
    (hinclude : ∀ path ∈ node.paths, ∀ pos e,
      Steady table False True Whatever (Evaluation.includePath self pos path e))
    (hcause : (∃ child ∈ node.children, ∀ e, (self.evaluate child e).Diverges table) ∨
      ∃ path ∈ node.paths, ∀ pos e, (Evaluation.includePath self pos path e).Diverges table)
    (e : ScopeRef) : (Evaluation.evalNode self node e).Diverges table := by
  cases node with
  | number pos value | text pos value =>
    obtain ⟨child, hc, -⟩ | ⟨path, hpath, -⟩ := hcause
    · cases hc
    · cases hpath
  | list pos items =>
    obtain ⟨child, hc, hdiv⟩ | ⟨path, hpath, -⟩ := hcause
    · exact (mapAll (fun child hc => hchildren child hc e) hc (hdiv e)).bind _
    · cases hpath
  | declare pos name value =>
    obtain ⟨child, hc, hdiv⟩ | ⟨path, hpath, -⟩ := hcause
    · rw [List.mem_singleton.mp hc] at hdiv
      exact (hdiv e).bind _
    · cases hpath
  | include_ pos nodes =>
    have hsteady : ∀ node ∈ nodes, ∃ path,
        Steady table False True (Steady.IsText path) (self.evaluate node e) ∧
        Steady table False True Whatever (Evaluation.includePath self pos path e) := by
      intro node hn
      obtain ⟨p, path, rfl, hpath⟩ := Node.exists_path hd hn
      exact ⟨path, htext p path e, hinclude path hpath pos e⟩
    obtain ⟨child, hc, hdiv⟩ | ⟨path, hpath, hdiv⟩ := hcause
    · exact evalInclude pos e hsteady hc (.inl (hdiv e)) .null
    · obtain ⟨p, hn⟩ := Node.exists_node_of_path hpath
      exact evalInclude pos e hsteady hn (.inr ⟨path, htext p path e, hdiv pos e⟩) .null
  | _ => cases hd

theorem evaluate_succ {n : Nat} {node : Node} {e : ScopeRef}
    (h : (Evaluation.evalNode (Evaluation.machine n) node e).Diverges table) :
    ((Evaluation.machine (n + 1)).evaluate node e).Diverges table := by
  intro w hw
  show ∃ w', Evaluation.evalUnlessStopped (Evaluation.machine n) node e w = .exhausted w'
  simp only [Evaluation.evalUnlessStopped, hw.running, Bool.false_eq_true, if_false]
  exact h w hw

end Run.Diverges

namespace Loaded

open Run

/-- A program that includes from the table without a failure. -/
structure Regular (table : Table String) (main : Loaded) : Prop where
  declarative : ∀ t, main.Reaches table t → t.Declarative
  complete : ∀ t, main.Reaches table t → t.Complete table

variable {table : Table String} {main : Loaded}

/-- The program neither jumps nor fails, whatever the fuel. -/
theorem Regular.evaluate (h : main.Regular table) (n : Nat) {s : Loaded}
    (hs : main.Reaches table s) {node : Node} (hn : s.Holds node) (e : ScopeRef) :
    Steady table False True Whatever ((Evaluation.machine n).evaluate node e) := by
  induction n generalizing s node e with
  | zero => exact .exhausted trivial
  | succ n ih =>
    refine Steady.evaluate_succ (Steady.evalNode (h.declarative s hs node hn)
      (fun child hc e => ih hs (hn.child hc) e) (Steady.evaluate_text (.inl trivial))
      (fun path hpath pos e => ?_) e)
    refine Steady.includePath pos path e (.inr ((h.complete s hs).resolves node hn path hpath)) ?_
    intro sources hr source hm scope
    have ht := hs.tail (hn.includes hpath hr hm)
    exact Steady.runSource source.loaded scope (.inr (h.complete _ ht).parses)
      fun root hp statement hst => ih ht ⟨root, hp, statement, hst, .root⟩ scope

theorem Regular.runSource (h : main.Regular table) (n : Nat) {s : Loaded}
    (hs : main.Reaches table s) (e : ScopeRef) :
    Steady table False True Whatever
      (Evaluation.runSource (Evaluation.machine n) s.text e s.name) :=
  Steady.runSource s e (.inr (h.complete s hs).parses) fun root hp statement hst =>
    h.evaluate n hs ⟨root, hp, statement, hst, .root⟩ e

theorem Regular.includePath (h : main.Regular table) (n : Nat) {s : Loaded}
    (hs : main.Reaches table s) {node : Node} (hn : s.Holds node) {path : String}
    (hpath : path ∈ node.paths) (pos : Position) (e : ScopeRef) :
    Steady table False True Whatever
      (Evaluation.includePath (Evaluation.machine n) pos path e) :=
  Steady.includePath pos path e (.inr ((h.complete s hs).resolves node hn path hpath))
    fun _ hr _ hm scope => h.runSource n (hs.tail (hn.includes hpath hr hm)) scope

theorem exists_not_acc {s : Loaded} (h : ¬ Acc (fun t s => s.Includes table t) s) :
    ∃ t, s.Includes table t ∧ ¬ Acc (fun t s => s.Includes table t) t := by
  by_contra hnone
  exact h (.intro s fun t ht => by_contra fun hn => hnone ⟨t, ht, hn⟩)

/-- What cuts off a child of a node or something that it includes cuts off the node, for which there
is a little more fuel. -/
theorem Regular.evaluate_diverges (h : main.Regular table) {n : Nat} {s : Loaded}
    (hs : main.Reaches table s) {node : Node} (hn : s.Holds node)
    (hcause : (∃ child ∈ node.children,
        ∀ e, ((Evaluation.machine n).evaluate child e).Diverges table) ∨
      ∃ path ∈ node.paths,
        ∀ pos e, (Evaluation.includePath (Evaluation.machine n) pos path e).Diverges table)
    (e : ScopeRef) : ((Evaluation.machine (n + 1)).evaluate node e).Diverges table :=
  Diverges.evaluate_succ (Diverges.evalNode (h.declarative s hs node hn)
    (fun _ hc e => h.evaluate n hs (hn.child hc) e) (Steady.evaluate_text (.inl trivial))
    (fun _ hpath pos e => h.includePath n hs hn hpath pos e) hcause e)

/-- A part that is cut off cuts off its statement. -/
theorem Regular.statement_diverges (h : main.Regular table) {n : Nat} {s : Loaded}
    (hs : main.Reaches table s) {root statement node : Node}
    (hp : parseProgram s.text s.name = .ok root) (hst : statement ∈ root.statements)
    (hpart : statement.Part node)
    (hd : ∀ m ≤ n, ∀ e, ((Evaluation.machine m).evaluate node e).Diverges table) :
    ∀ m ≤ n, ∀ e, ((Evaluation.machine m).evaluate statement e).Diverges table := by
  induction hpart with
  | root => exact hd
  | inner hpart hc ih =>
    refine ih fun m hm e => ?_
    cases m with
    | zero => exact fun w _ => ⟨w, rfl⟩
    | succ m =>
      exact h.evaluate_diverges hs ⟨root, hp, statement, hst, hpart⟩
        (.inl ⟨_, hc, fun e => hd m (Nat.le_of_succ_le hm) e⟩) e

/-- A source at the start of an endless chain is cut off, whatever the fuel. -/
theorem Regular.diverges (h : main.Regular table) (n : Nat) {s : Loaded}
    (hs : main.Reaches table s) (hacc : ¬ Acc (fun t s => s.Includes table t) s)
    (e : ScopeRef) :
    (Evaluation.runSource (Evaluation.machine n) s.text e s.name).Diverges table := by
  induction n using Nat.strongRecOn generalizing s e with
  | ind n ih =>
    obtain ⟨_, ⟨node, hn, path, hpath, sources, hr, source, hm, rfl⟩, hnext⟩ := exists_not_acc hacc
    -- The inclusion is cut off by what it includes, with less fuel.
    have hinclusion : ∀ m ≤ n, ∀ e, ((Evaluation.machine m).evaluate node e).Diverges table := by
      intro m hle e
      cases m with
      | zero => exact fun w _ => ⟨w, rfl⟩
      | succ m =>
        refine h.evaluate_diverges hs hn (.inr ⟨path, hpath, fun pos e => ?_⟩) e
        exact Diverges.includePath pos e hr
          (fun _ hm scope => h.runSource m (hs.tail (hn.includes hpath hr hm)) scope) hm
          fun scope => ih m hle (hs.tail (hn.includes hpath hr hm)) hnext scope
    obtain ⟨root, hp, statement, hst, hpart⟩ := hn
    exact Diverges.runSource hp e
      (fun node hnode => h.evaluate n hs ⟨root, hp, node, hnode, .root⟩ e) hst
      (h.statement_diverges hs hp hst hpart hinclusion n (Nat.le_refl n) e)

end Loaded

/-! ### Exactly the programs without a cycle end -/

open Run

/-- With sources that only declare and include, a program ends if it reaches no cycle of inclusions;
and if all that it includes is there and can be parsed, it ends only then. -/
theorem inclusion_terminates_iff_acyclic {table : Table String} {w : World} {source : String}
    {name : Option String} {e : ScopeRef} (hw : w.Serves table)
    (hd : ∀ s, (Loaded.mk name source).Reaches table s → s.Declarative) :
    ((Loaded.mk name source).Acyclic table →
      Evaluation.Terminates (Evaluation.runSource · source e name) w) ∧
    ((∀ s, (Loaded.mk name source).Reaches table s → s.Complete table) →
      (Evaluation.Terminates (Evaluation.runSource · source e name) w ↔
        (Loaded.mk name source).Acyclic table)) := by
  have hends : (Loaded.mk name source).Acyclic table →
      Evaluation.Terminates (Evaluation.runSource · source e name) w := by
    intro h
    obtain ⟨n, hrun⟩ := (Loaded.settles_of_acc h.acc hd).exists
    exact Evaluation.terminates_of_ended (fun hm => Approximates.runSource hm source e name)
      (((hrun e).run w hw).ended (fun _ hj => hj) fun hcut => hcut)
  refine ⟨hends, fun hcomplete => ⟨fun hterminates => ?_, hends⟩⟩
  have hregular : (Loaded.mk name source).Regular table := ⟨hd, hcomplete⟩
  refine Loaded.acyclic_of_acc (by_contra fun hacc => ?_)
  exact Evaluation.not_terminates_of_exhausted (fun n => hregular.diverges n .refl hacc e w hw)
    hterminates

namespace Loaded

/-- The program consists of this statement. -/
def IsSingle (s : Loaded) (statement : Node) : Prop :=
  ∃ pos, parseProgram s.text s.name = .ok (.sequence pos [statement])

theorem IsSingle.part {s : Loaded} {statement node : Node} (hs : s.IsSingle statement)
    (hn : s.Holds node) : statement.Part node := by
  obtain ⟨pos, hp⟩ := hs
  obtain ⟨root, hok, first, hfirst, hpart⟩ := hn
  rw [hp] at hok
  cases hok
  exact List.mem_singleton.mp hfirst ▸ hpart

theorem IsSingle.holds {s : Loaded} {statement : Node} (hs : s.IsSingle statement) :
    s.Holds statement := by
  obtain ⟨pos, hp⟩ := hs
  exact ⟨_, hp, statement, List.mem_singleton_self _, .root⟩

theorem IsSingle.parses {s : Loaded} {statement : Node} (hs : s.IsSingle statement) :
    ∃ root, parseProgram s.text s.name = .ok root := by
  obtain ⟨pos, hp⟩ := hs
  exact ⟨_, hp⟩

/-- What a program that consists of one inclusion is made of. -/
theorem IsSingle.inclusion {s : Loaded} {p q : Position} {path : String}
    (hs : s.IsSingle (.include_ p [.text q path])) {node : Node} (hn : s.Holds node) :
    node.isDeclarative = true ∧ node.paths ⊆ [path] := by
  have hparts : ∀ node, (Node.include_ p [.text q path]).Part node →
      node.isDeclarative = true ∧ node.paths ⊆ [path] := by
    refine Node.forall_part_iff.mpr ⟨⟨rfl, fun _ h => h⟩, ?_⟩
    refine List.forall_mem_singleton.mpr fun node hn => ?_
    rw [hn.eq_of_leaf rfl]
    exact ⟨rfl, List.nil_subset _⟩
  exact hparts node (hs.part hn)

end Loaded

/-- A world whose table holds one source, under the name `a`. -/
def oneSource (text : String) : World :=
  World.initial { standard := false, resolver := .table [("a", text)] }

theorem oneSource_serves (text : String) : (oneSource text).Serves [("a", text)] :=
  ⟨rfl, rfl⟩

theorem resolve_oneSource (text : String) :
    Resolver.resolveTable [("a", text)] "a" = .ok [⟨"a", text⟩] := by
  rfl

theorem Loaded.Includes.eq_oneSource {text : String} {s t : Loaded}
    (h : s.Includes [("a", text)] t) : t = ⟨some "a", text⟩ :=
  List.mem_singleton.mp h.mem_table

theorem Loaded.Reaches.oneSource {text : String} {main s : Loaded}
    (h : main.Reaches [("a", text)] s) : s = main ∨ s = ⟨some "a", text⟩ := by
  rcases Relation.ReflTransGen.cases_tail h with rfl | ⟨t, -, ht⟩
  · exact .inl rfl
  · exact .inr ht.eq_oneSource

theorem single_inclusion (name : Option String) :
    ∃ p q, (Loaded.mk name "include \"a\"").IsSingle (.include_ p [.text q "a"]) :=
  ⟨_, _, _, by cbv⟩

theorem single_text (name : Option String) :
    ∃ p, (Loaded.mk name "\"b\"").IsSingle (.text p "b") :=
  ⟨_, _, by cbv⟩

theorem inclusion_declarative (name : Option String) :
    (Loaded.mk name "include \"a\"").Declarative := by
  obtain ⟨p, q, hsingle⟩ := single_inclusion name
  exact fun node hn => (hsingle.inclusion hn).1

theorem inclusion_complete (name : Option String) (text : String) :
    (Loaded.mk name "include \"a\"").Complete [("a", text)] := by
  obtain ⟨p, q, hsingle⟩ := single_inclusion name
  refine ⟨hsingle.parses, fun node hn path hpath => ?_⟩
  rw [List.mem_singleton.mp ((hsingle.inclusion hn).2 hpath)]
  exact ⟨_, resolve_oneSource text⟩

/-- An inclusion of a source that is only a text. -/
theorem inclusion_terminates_text :
    (∀ s, (Loaded.mk none "include \"a\"").Reaches [("a", "\"b\"")] s →
      s.Declarative ∧ s.Complete [("a", "\"b\"")]) ∧
    (Loaded.mk none "include \"a\"").Acyclic [("a", "\"b\"")] ∧
      Evaluation.Terminates
        (Evaluation.runSource · "include \"a\"" (oneSource "\"b\"").globals none)
        (oneSource "\"b\"") := by
  obtain ⟨p, hsingle⟩ := single_text (some "a")
  have hleaf : ∀ node, (Loaded.mk (some "a") "\"b\"").Holds node → node = .text p "b" :=
    fun node hn => (hsingle.part hn).eq_of_leaf rfl
  have hsources : ∀ s, (Loaded.mk none "include \"a\"").Reaches [("a", "\"b\"")] s →
      s.Declarative ∧ s.Complete [("a", "\"b\"")] := by
    intro s hs
    obtain rfl | rfl := hs.oneSource
    · exact ⟨inclusion_declarative none, inclusion_complete none _⟩
    · refine ⟨fun node hn => ?_, hsingle.parses, fun node hn path hpath => ?_⟩
      · rw [hleaf node hn]
        rfl
      · rw [hleaf node hn] at hpath
        cases hpath
  have hacyclic : (Loaded.mk none "include \"a\"").Acyclic [("a", "\"b\"")] := by
    refine Loaded.acyclic_of_acc (.intro _ fun t ht => ?_)
    rw [ht.eq_oneSource]
    refine .intro _ fun u hu => ?_
    obtain ⟨node, hn, path, hpath, -⟩ := hu
    rw [hleaf node hn] at hpath
    cases hpath
  have hiff := (inclusion_terminates_iff_acyclic (e := (oneSource "\"b\"").globals)
    (oneSource_serves _) fun s hs => (hsources s hs).1).2 fun s hs => (hsources s hs).2
  exact ⟨hsources, hacyclic, hiff.mpr hacyclic⟩

/-- A source that includes itself only declares and includes, but a program that includes it never
ends. -/
theorem inclusion_of_itself_not_terminates :
    (∀ s, (Loaded.mk none "include \"a\"").Reaches [("a", "include \"a\"")] s → s.Declarative) ∧
      ¬ Evaluation.Terminates
        (Evaluation.runSource · "include \"a\"" (oneSource "include \"a\"").globals none)
        (oneSource "include \"a\"") := by
  have hreach : ∀ s, (Loaded.mk none "include \"a\"").Reaches [("a", "include \"a\"")] s →
      ∃ name, s = ⟨name, "include \"a\""⟩ := by
    intro s hs
    obtain rfl | rfl := hs.oneSource
    · exact ⟨none, rfl⟩
    · exact ⟨some "a", rfl⟩
  have hregular : (Loaded.mk none "include \"a\"").Regular [("a", "include \"a\"")] := by
    constructor
    · intro s hs
      obtain ⟨name, rfl⟩ := hreach s hs
      exact inclusion_declarative name
    · intro s hs
      obtain ⟨name, rfl⟩ := hreach s hs
      exact inclusion_complete name _
  have hnext : ∀ name, (Loaded.mk name "include \"a\"").Includes [("a", "include \"a\"")]
      ⟨some "a", "include \"a\""⟩ := by
    intro name
    obtain ⟨p, q, hsingle⟩ := single_inclusion name
    exact ⟨_, hsingle.holds, "a", List.mem_singleton_self _, _, resolve_oneSource _, _,
      List.mem_singleton_self _, rfl⟩
  have hcycle : ¬ Acc (fun t s => s.Includes [("a", "include \"a\"")] t)
      (Loaded.mk none "include \"a\"") :=
    fun hacc => Loaded.acyclic_of_acc hacc _ (.single (hnext none)) (.single (hnext (some "a")))
  refine ⟨hregular.declarative, Evaluation.not_terminates_of_exhausted fun n => ?_⟩
  exact hregular.diverges n .refl hcycle _ _ (oneSource_serves _)

end ScriptEngine
