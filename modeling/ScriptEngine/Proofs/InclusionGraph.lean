import Mathlib
import ScriptEngine.Engine
import ScriptEngine.Proofs.Contracts
import ScriptEngine.Proofs.TreeParts

/-! # The graph of inclusions

Which source of a table includes which, and what it means that no source includes itself, directly
or through others. With sources that only declare and include, a program without such a cycle runs
to an end. -/

namespace ScriptEngine

/-! ### Sources and what they include -/

/-- A text and the name that it is parsed under. -/
structure Loaded where
  name : Option String
  text : String

def IncludedSource.loaded (source : IncludedSource) : Loaded :=
  { name := some source.name, text := source.text }

namespace Node

def text? : Node → Option String
  | .text _ value => some value
  | _ => none

/-- The paths that an inclusion spells out. -/
def paths : Node → List String
  | .include_ _ nodes => nodes.filterMap text?
  | _ => []

/-- A literal, a declaration or an inclusion that spells out its paths. -/
def isDeclarative : Node → Bool
  | .number _ _ | .text _ _ | .list _ _ | .declare _ _ _ => true
  | .include_ _ nodes => nodes.all fun node => node.text?.isSome
  | _ => false

theorem exists_path {pos : Position} {nodes : List Node}
    (hd : (Node.include_ pos nodes).isDeclarative = true) {node : Node} (hn : node ∈ nodes) :
    ∃ p path, node = .text p path ∧ path ∈ (Node.include_ pos nodes).paths := by
  have hsome : node.text?.isSome = true := List.all_eq_true.mp hd node hn
  cases node with
  | text p path => exact ⟨p, path, rfl, List.mem_filterMap.mpr ⟨_, hn, rfl⟩⟩
  | _ => cases hsome

theorem exists_node_of_path {pos : Position} {nodes : List Node} {path : String}
    (h : path ∈ (Node.include_ pos nodes).paths) : ∃ p, Node.text p path ∈ nodes := by
  obtain ⟨node, hn, hpath⟩ := List.mem_filterMap.mp h
  cases node with
  | text p value =>
    cases hpath
    exact ⟨p, hn⟩
  | _ => cases hpath

end Node

namespace Loaded

/-- A node of the program of the source. -/
def Holds (s : Loaded) (node : Node) : Prop :=
  ∃ root, parseProgram s.text s.name = .ok root ∧
    ∃ statement ∈ root.statements, statement.Part node

/-- The first source includes the second one. -/
def Includes (table : Table String) (s t : Loaded) : Prop :=
  ∃ node, s.Holds node ∧ ∃ path ∈ node.paths, ∃ sources,
    Resolver.resolveTable table path = .ok sources ∧ ∃ source ∈ sources, source.loaded = t

/-- A source that the program loads, or the program itself. -/
def Reaches (table : Table String) : Loaded → Loaded → Prop :=
  Relation.ReflTransGen (Includes table)

/-- No source that the program loads includes itself, directly or through others. -/
def Acyclic (table : Table String) (s : Loaded) : Prop :=
  ∀ t, s.Reaches table t → ¬ Relation.TransGen (Includes table) t t

def Declarative (s : Loaded) : Prop :=
  ∀ node, s.Holds node → node.isDeclarative = true

/-- The source is a program, and there is something for each path that it includes. -/
structure Complete (table : Table String) (s : Loaded) : Prop where
  parses : ∃ root, parseProgram s.text s.name = .ok root
  resolves : ∀ node, s.Holds node → ∀ path ∈ node.paths, ∃ sources,
    Resolver.resolveTable table path = .ok sources

/-! ### Finite tables -/

theorem mem_of_get? {table : Table String} {name text : String}
    (h : table.get? name = some text) : (name, text) ∈ table := by
  induction table with
  | nil => cases h
  | cons entry rest ih =>
    obtain ⟨key, value⟩ := entry
    simp only [Table.get?] at h
    split at h
    · rename_i hkey
      cases h
      exact hkey ▸ List.mem_cons_self
    · exact List.mem_cons_of_mem _ (ih h)

theorem mem_of_resolves {table : Table String} {path : String} {sources : List IncludedSource}
    (h : Resolver.resolveTable table path = .ok sources) {source : IncludedSource}
    (hs : source ∈ sources) : (source.name, source.text) ∈ table := by
  unfold Resolver.resolveTable at h
  split at h
  · dsimp only at h
    split at h
    · cases h
    · cases h
      obtain ⟨entry, hentry, rfl⟩ := List.mem_map.mp hs
      exact (List.mem_filter.mp (List.mem_mergeSort.mp hentry)).1
  · split at h
    · rename_i text hget
      cases h
      rw [List.mem_singleton.mp hs]
      exact mem_of_get? hget
    · cases h

theorem Includes.mem_table {table : Table String} {s t : Loaded} (h : s.Includes table t) :
    t ∈ table.map fun entry => ⟨some entry.1, entry.2⟩ := by
  obtain ⟨node, _, path, _, sources, hresolve, source, hsource, rfl⟩ := h
  exact List.mem_map.mpr ⟨_, mem_of_resolves hresolve hsource, rfl⟩

/-- Where there is no cycle there is no endless chain, since all that is included stands in the
table. -/
theorem Acyclic.acc {table : Table String} {s : Loaded} (h : s.Acyclic table) :
    Acc (fun t s => s.Includes table t) s := by
  let targets : List Loaded := table.map fun entry => ⟨some entry.1, entry.2⟩
  let Target := { t : Loaded // t ∈ targets ∧ s.Reaches table t }
  let below (t u : Target) : Prop := Relation.TransGen (Includes table) u.1 t.1
  have hfinite : Finite Target :=
    (targets.finite_toSet.subset fun t ht => ht.1 : { t | t ∈ targets ∧ _ }.Finite).to_subtype
  have htrans : IsTrans Target below := ⟨fun _ _ _ h₁ h₂ => h₂.trans h₁⟩
  have hirrefl : Std.Irrefl below := ⟨fun t => h t.1 t.2.2⟩
  have hwf : WellFounded below := Finite.wellFounded_of_trans_of_irrefl below
  have hacc : ∀ t : Target, Acc (fun t s => s.Includes table t) t.1 := by
    intro t
    induction t using hwf.induction with
    | h t ih =>
      refine .intro _ fun u hu => ?_
      exact ih ⟨u, hu.mem_table, t.2.2.tail hu⟩ (.single hu)
  exact .intro _ fun t ht => hacc ⟨t, ht.mem_table, .single ht⟩

theorem not_cyclic_of_acc {table : Table String} {t : Loaded}
    (h : Acc (fun t s => s.Includes table t) t) : ¬ Relation.TransGen (Includes table) t t := by
  induction h with
  | intro t _ ih =>
    intro hcycle
    obtain ⟨u, hfirst, hback⟩ := Relation.TransGen.head'_iff.mp hcycle
    exact ih u hfirst (Relation.TransGen.tail' hback hfirst)

theorem acyclic_of_acc {table : Table String} {s : Loaded}
    (h : Acc (fun t s => s.Includes table t) s) : s.Acyclic table := by
  intro t hreach
  refine not_cyclic_of_acc ?_
  induction hreach with
  | refl => exact h
  | tail _ hlast ih => exact ih.inv hlast

end Loaded

/-! ### Computations that only declare and include -/

/-- A running world in which sources come from the table. -/
structure World.Serves (table : Table String) (w : World) : Prop where
  resolver : w.resolver = .table table
  running : w.stopped = false

/-- No jump, no failure unless `fails` holds, and no cut unless `cuts` holds. -/
@[reducible] def Contract.serving (table : Table String) (fails cuts : Prop) : Contract where
  world := World.Serves table
  jump _ := False
  failure _ := fails
  cut := cuts

theorem Contract.serving_untraced (table : Table String) (fails cuts : Prop) :
    (serving table fails cuts).Untraced where
  calls _ _ hw := ⟨hw.resolver, hw.running⟩
  failure _ _ _ hd := hd

abbrev Run.Steady {α : Type} (table : Table String) (fails cuts : Prop) (Q : α → Prop)
    (x : Run α) : Prop :=
  x.Meets (.serving table fails cuts) Q

namespace Run.Steady

variable {table : Table String} {fails cuts : Prop} {α β : Type} {Q : α → Prop} {S : β → Prop}

theorem make {f : Heap → α × Heap} (hf : ∀ h, Q (f h).1) :
    Steady table fails cuts Q (make f) :=
  ⟨fun w hw => ⟨⟨hw.resolver, hw.running⟩, hf w.heap⟩⟩

theorem modifyHeap (f : Heap → Heap) : Steady table fails cuts Whatever (modifyHeap f) :=
  ⟨fun _ hw => ⟨⟨hw.resolver, hw.running⟩, trivial⟩⟩

theorem anything {x : Run α} (hx : Steady table fails cuts Q x) :
    Steady table fails cuts Whatever x :=
  hx.weaken (fun _ hj => hj) fun _ _ => trivial

theorem locatedAt (p : Position) {x : Run α} (hx : Steady table fails cuts Q x) :
    Steady table fails cuts Q (locatedAt p x) :=
  Meets.locatedAt (Contract.serving_untraced table fails cuts) p hx

theorem during (entry : TraceEntry) {x : Run α} (hx : Steady table fails cuts Q x) :
    Steady table fails cuts Q (during entry x) :=
  Meets.during (Contract.serving_untraced table fails cuts) entry hx

theorem catchJump {x : Run α} (hx : Steady table fails cuts Q x) :
    Steady table fails cuts (fun result => ∃ a, result = .ok a ∧ Q a) (catchJump x) :=
  Meets.catchJump hx (fun a ha => ⟨a, rfl, ha⟩) fun _ hj => hj.elim

/-- The value of a node that spells out a text. -/
def IsText (s : String) (v : Value) : Prop :=
  ∃ stamp, v = .text stamp s

theorem newText (s : String) : Steady table fails cuts (IsText s) (newText s) :=
  make fun h => ⟨h.stamps, rfl⟩

theorem newNumber (n : Single) : Steady table fails cuts Whatever (newNumber n) :=
  make fun _ => trivial

theorem newList (items : Array Value) :
    Steady table fails cuts Whatever (newList items) :=
  make fun _ => trivial

theorem set (e : ScopeRef) (name : String) (v : Value) :
    Steady table fails cuts Whatever (set e name v) := by
  refine (modifyHeap _).bind fun _ _ => ?_
  refine .bind (Q := Whatever) (.observe fun _ _ => trivial) fun h _ => ?_
  split
  · exact ⟨fun _ hw => ⟨⟨hw.resolver, hw.running⟩, trivial⟩⟩
  · exact .done trivial

/-! ### The rules -/

variable {self : Machine}

theorem runStatements (e : ScopeRef) {statements : List Node}
    (hs : ∀ node ∈ statements, Steady table fails cuts Whatever (self.evaluate node e))
    (last : Value) :
    Steady table fails cuts Whatever (Evaluation.runStatements self e statements last) := by
  induction statements generalizing last with
  | nil => exact .done trivial
  | cons statement more ih =>
    obtain ⟨hfirst, hrest⟩ := List.forall_mem_cons.mp hs
    refine (catchJump hfirst).bind fun result hresult => ?_
    obtain ⟨value, rfl, -⟩ := hresult
    exact ih hrest value

theorem runProgram {root : Node} (e : ScopeRef)
    (hs : ∀ node ∈ root.statements,
      Steady table fails cuts Whatever (self.evaluate node e)) :
    Steady table fails cuts Whatever (Evaluation.runProgram self root e) := by
  cases root with
  | sequence pos statements => exact runStatements e hs .null
  | _ => exact runStatements e hs .null

theorem runSource (s : Loaded) (e : ScopeRef)
    (hparse : fails ∨ ∃ root, parseProgram s.text s.name = .ok root)
    (hs : ∀ root, parseProgram s.text s.name = .ok root → ∀ node ∈ root.statements,
      Steady table fails cuts Whatever (self.evaluate node e)) :
    Steady table fails cuts Whatever
      (Evaluation.runSource self s.text e s.name) := by
  unfold Evaluation.runSource
  cases hp : parseProgram s.text s.name with
  | error d =>
    refine .bind (Q := fun _ => False) (.fail ?_) fun _ h => h.elim
    rcases hparse with h | ⟨root, hroot⟩
    · exact h
    · rw [hp] at hroot
      cases hroot
  | ok root =>
    refine .bind (Q := (· = root)) (.done rfl) fun node hnode => ?_
    subst hnode
    exact runProgram e (hs node hp)

theorem runIncluded (pos : Position) (path : String) (scope : ScopeRef)
    {sources : List IncludedSource}
    (hs : ∀ source ∈ sources, Steady table fails cuts Whatever
      (Evaluation.runSource self source.text scope (some source.name))) :
    Steady table fails cuts Whatever
      (Evaluation.runIncluded self pos path scope sources) := by
  induction sources with
  | nil => exact .done trivial
  | cons source more ih =>
    obtain ⟨hfirst, hrest⟩ := List.forall_mem_cons.mp hs
    refine (modifyHeap _).bind fun _ _ => ?_
    exact .bind (.discard (during _ hfirst)) fun _ _ => ih hrest

theorem resolve (pos : Position) (path : String) (origin : Option String) {w : World}
    (hw : w.Serves table)
    (hfound : fails ∨ ∃ sources, Resolver.resolveTable table path = .ok sources) :
    Steady table fails cuts (fun sources => Resolver.resolveTable table path = .ok sources)
      (Run.locatedAt pos (Run.ofExcept (w.resolver.resolve w.files path origin))) := by
  rw [hw.resolver]
  refine locatedAt pos ?_
  show Steady table fails cuts _ (Run.ofExcept (Resolver.resolveTable table path))
  cases hr : Resolver.resolveTable table path with
  | ok sources => exact .done rfl
  | error d =>
    refine .fail ?_
    rcases hfound with h | ⟨sources, hok⟩
    · exact h
    · rw [hr] at hok
      cases hok

theorem includePath (pos : Position) (path : String) (e : ScopeRef)
    (hfound : fails ∨ ∃ sources, Resolver.resolveTable table path = .ok sources)
    (hs : ∀ sources, Resolver.resolveTable table path = .ok sources → ∀ source ∈ sources, ∀ scope,
      Steady table fails cuts Whatever
        (Evaluation.runSource self source.text scope (some source.name))) :
    Steady table fails cuts Whatever (Evaluation.includePath self pos path e) := by
  refine .bind (Q := World.Serves table) (.observe fun _ hw => hw) fun w hw => ?_
  refine (resolve pos path _ hw hfound).bind fun sources hsources => ?_
  refine .bind (Q := Whatever) (make fun _ => trivial) fun scope _ => ?_
  refine (runIncluded pos path scope fun source hm => hs sources hsources source hm scope).bind
    fun _ _ => ?_
  exact .bind (Q := Whatever) (.observe fun _ _ => trivial) fun target _ =>
    (modifyHeap _).bind fun _ _ => .done trivial

theorem display_text {path : String} {v : Value} (hv : IsText path v) :
    Steady table fails cuts (· = path) (Run.display v) := by
  obtain ⟨stamp, rfl⟩ := hv
  refine .observe fun w _ => ?_
  unfold Heap.display
  cases w.heap.lists.size <;> rfl

theorem evalInclude (pos : Position) (e : ScopeRef) {nodes : List Node}
    (hs : ∀ node ∈ nodes, ∃ path, Steady table fails cuts (IsText path) (self.evaluate node e) ∧
      Steady table fails cuts Whatever (Evaluation.includePath self pos path e))
    (last : Value) :
    Steady table fails cuts Whatever (Evaluation.evalInclude self pos e nodes last) := by
  induction nodes generalizing last with
  | nil => exact .done trivial
  | cons node more ih =>
    obtain ⟨⟨path, hpath, hinclude⟩, hrest⟩ := List.forall_mem_cons.mp hs
    refine hpath.bind fun v hv => (display_text hv).bind fun shown hshown => ?_
    subst hshown
    exact hinclude.bind fun next _ => ih hrest next

/-- Every child of a declarative node is evaluated by itself; what an inclusion loads is run. -/
theorem evalNode {node : Node} (hd : node.isDeclarative = true)
    (hchildren : ∀ child ∈ node.children, ∀ e,
      Steady table fails cuts Whatever (self.evaluate child e))
    (htext : ∀ pos path e,
      Steady table fails cuts (IsText path) (self.evaluate (.text pos path) e))
    (hinclude : ∀ path ∈ node.paths, ∀ pos e,
      Steady table fails cuts Whatever (Evaluation.includePath self pos path e))
    (e : ScopeRef) :
    Steady table fails cuts Whatever (Evaluation.evalNode self node e) := by
  cases node with
  | number pos value => exact newNumber value
  | text pos value => exact (newText value).anything
  | list pos items =>
    exact (Meets.mapAll fun child hc => hchildren child hc e).bind fun _ _ => newList _
  | declare pos name value =>
    refine (hchildren value (List.mem_singleton_self _) e).bind fun v _ => ?_
    exact .bind (Q := Whatever) (.observe fun _ _ => trivial) fun target _ =>
      (set target name v).bind fun _ _ => .done trivial
  | include_ pos nodes =>
    refine evalInclude pos e (fun node hn => ?_) .null
    obtain ⟨p, path, rfl, hpath⟩ := Node.exists_path hd hn
    exact ⟨path, htext p path e, hinclude path hpath pos e⟩
  | _ => cases hd

/-- A program that was not told to stop follows the rules. -/
theorem evaluate_succ {n : Nat} {node : Node} {e : ScopeRef} {Q : Value → Prop}
    (h : Steady table fails cuts Q (Evaluation.evalNode (Evaluation.machine n) node e)) :
    Steady table fails cuts Q ((Evaluation.machine (n + 1)).evaluate node e) := by
  refine ⟨fun w hw => ?_⟩
  show (Evaluation.evalUnlessStopped (Evaluation.machine n) node e w).Meets
    (.serving table fails cuts) Q
  simp only [Evaluation.evalUnlessStopped, hw.running, Bool.false_eq_true, if_false]
  exact h.run w hw

theorem evaluate_text {n : Nat} (hn : cuts ∨ 0 < n) (pos : Position) (path : String)
    (e : ScopeRef) :
    Steady table fails cuts (IsText path) ((Evaluation.machine n).evaluate (.text pos path) e) := by
  cases n with
  | zero => exact .exhausted (hn.resolve_right (Nat.lt_irrefl 0))
  | succ n => exact evaluate_succ (newText path)

end Run.Steady

/-! ### Programs without a cycle -/

namespace Loaded

open Run

theorem Holds.child {s : Loaded} {node child : Node} (h : s.Holds node)
    (hc : child ∈ node.children) : s.Holds child := by
  obtain ⟨root, hp, statement, hs, hpart⟩ := h
  exact ⟨root, hp, statement, hs, .inner hpart hc⟩

theorem Holds.includes {s : Loaded} {table : Table String} {node : Node} (h : s.Holds node)
    {path : String} (hpath : path ∈ node.paths) {sources : List IncludedSource}
    (hr : Resolver.resolveTable table path = .ok sources) {source : IncludedSource}
    (hs : source ∈ sources) : s.Includes table source.loaded :=
  ⟨node, h, path, hpath, sources, hr, source, hs, rfl⟩

/-- For almost every fuel the source runs to an end. -/
def Settles (table : Table String) (s : Loaded) : Prop :=
  ∀ᶠ n in Filter.atTop, ∀ e, Steady table True False Whatever
    (Evaluation.runSource (Evaluation.machine n) s.text e s.name)

theorem eventually_list {α : Type} {as : List α} {p : α → Nat → Prop}
    (h : ∀ a ∈ as, ∀ᶠ n in Filter.atTop, p a n) :
    ∀ᶠ n in Filter.atTop, ∀ a ∈ as, p a n :=
  (Filter.eventually_all_finite as.finite_toSet).mpr h

/-- There is at most one result to wait for. -/
theorem eventually_ok {ε α : Type} {result : Except ε α} {p : α → Nat → Prop}
    (h : ∀ a, result = .ok a → ∀ᶠ n in Filter.atTop, p a n) :
    ∀ᶠ n in Filter.atTop, ∀ a, result = .ok a → p a n := by
  cases result with
  | error e =>
    refine .of_forall fun n a ha => ?_
    cases ha
  | ok b =>
    refine (h b rfl).mono fun n hn a ha => ?_
    cases ha
    exact hn

theorem eventually_succ {p q : Nat → Prop} (h : ∀ᶠ n in Filter.atTop, p n)
    (hq : ∀ n, p n → q (n + 1)) : ∀ᶠ n in Filter.atTop, q n := by
  obtain ⟨N, hN⟩ := Filter.eventually_atTop.mp h
  refine Filter.eventually_atTop.mpr ⟨N + 1, fun n hn => ?_⟩
  obtain ⟨k, rfl⟩ : ∃ k, n = k + 1 := ⟨n - 1, by omega⟩
  exact hq k (hN k (Nat.le_of_succ_le_succ hn))

theorem eventually_includePath {table : Table String} {path : String}
    (h : ∀ sources, Resolver.resolveTable table path = .ok sources → ∀ source ∈ sources,
      source.loaded.Settles table) :
    ∀ᶠ n in Filter.atTop, ∀ pos e, Steady table True False Whatever
      (Evaluation.includePath (Evaluation.machine n) pos path e) := by
  have hfound := eventually_ok fun sources hr => eventually_list (h sources hr)
  refine hfound.mono fun n hn pos e => ?_
  exact Steady.includePath pos path e (.inl trivial) fun sources hr source hm scope =>
    hn sources hr source hm scope

/-- The nodes of a source settle one by one, if all that it includes settles. -/
theorem eventually_evaluate {table : Table String} {s : Loaded} (hd : s.Declarative)
    (ht : ∀ t, s.Includes table t → t.Settles table) (node : Node) (hn : s.Holds node) :
    ∀ᶠ n in Filter.atTop, ∀ e, Steady table True False Whatever
      ((Evaluation.machine n).evaluate node e) := by
  have hchildren : ∀ child ∈ node.children, ∀ᶠ n in Filter.atTop, ∀ e,
      Steady table True False Whatever ((Evaluation.machine n).evaluate child e) :=
    fun child hc => eventually_evaluate hd ht child (hn.child hc)
  have hinclude : ∀ path ∈ node.paths, ∀ᶠ n in Filter.atTop, ∀ pos e,
      Steady table True False Whatever
        (Evaluation.includePath (Evaluation.machine n) pos path e) :=
    fun path hpath => eventually_includePath fun sources hr source hm =>
      ht _ (hn.includes hpath hr hm)
  have hall := ((eventually_list hchildren).and (eventually_list hinclude)).and
    (Filter.eventually_gt_atTop 0)
  refine eventually_succ hall fun n h e => Steady.evaluate_succ ?_
  exact Steady.evalNode (hd node hn) h.1.1 (Steady.evaluate_text (.inr h.2)) h.1.2 e
termination_by sizeOf node
decreasing_by exact Node.sizeOf_child_lt hc

theorem settles_of_acc {table : Table String} {s : Loaded}
    (h : Acc (fun t s => s.Includes table t) s) (hd : ∀ t, s.Reaches table t → t.Declarative) :
    s.Settles table := by
  induction h with
  | intro s _ ih =>
    have ht : ∀ t, s.Includes table t → t.Settles table :=
      fun t ht => ih t ht fun u hu => hd u (hu.head ht)
    have hstatements := eventually_ok fun root hp => eventually_list fun statement hst =>
      eventually_evaluate (hd s .refl) ht statement ⟨root, hp, statement, hst, .root⟩
    refine hstatements.mono fun n hn e => ?_
    exact Steady.runSource s e (.inl trivial) fun root hp statement hst =>
      hn root hp statement hst e

end Loaded

end ScriptEngine
