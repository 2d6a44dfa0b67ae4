import ScriptEngine.Engine
import ScriptEngine.Proofs.HeapShape
import ScriptEngine.Proofs.TreeParts

/-! # Regimes

A regime limits what programs are made of. What a program leaves in the world is made of its parts
and of the functions that the engine supplies, so a world that a regime admits stays admitted. A
function that a regime does not admit may exist, but only under the name that its programs do not
mention. -/

namespace ScriptEngine

/-- Loop control that found no loop. -/
def Fault.isLoopControl : Fault → Bool
  | .breakOutsideLoop | .continueOutsideLoop => true
  | .loopControlLeavesFunction _ | .loopControlLeavesObject _ => true
  | _ => false

inductive Regime where
  /-- Any program. -/
  | free
  /-- No source is loaded by another one, and loop control stays inside the body it stands in. -/
  | tame
  /-- No source is loaded by another one, nothing is repeated by a loop or by the engine, and the
  bodies of definitions are of limited size. -/
  | bounded (size : Nat)

namespace Regime

def isBounded : Regime → Bool
  | bounded _ => true
  | _ => false

/-- The name is not one that programs mention. -/
def hides : Regime → String → Bool
  | free, _ => false
  | tame, name => name == Builtin.interpret.name
  | bounded _, name => name == ListMethod.foreach.name

/-- What the body of a function or of an object definition has to satisfy. -/
def Body : Regime → Node → Prop
  | free, _ => True
  | tame, body => body.KeepsLoopControl
  | bounded size, body => sizeOf body ≤ size

structure Permits (R : Regime) (node : Node) : Prop where
  include_ : R ≠ .free → node.isInclude = false
  loop : R.isBounded = true → node.isLoop = false
  names : ∀ name ∈ node.names, R.hides name = false
  body : ∀ body ∈ node.definition?, R.Body body

/-- A bounded regime permits no loop. -/
theorem Permits.unbounded {R : Regime} {node : Node} (h : R.Permits node)
    (hl : node.isLoop = true) : R.isBounded = false := by
  refine Bool.eq_false_iff.mpr fun hb => ?_
  rw [h.loop hb] at hl
  cases hl

def Tree (R : Regime) (root : Node) : Prop :=
  ∀ node, root.Part node → R.Permits node

theorem Tree.child {R : Regime} {root child : Node} (h : R.Tree root)
    (hc : child ∈ root.children) : R.Tree child :=
  fun node hn => h node (hn.of_child hc)

/-- The parts and the body of a definition that was evaluated. -/
def Definition (R : Regime) (body : Node) : Prop :=
  R.Tree body ∧ R.Body body

theorem Tree.definition {R : Regime} {node body : Node} (h : R.Tree node)
    (hb : body ∈ node.definition?) : R.Definition body :=
  ⟨h.child (Node.definition_child hb), (h node .root).body body hb⟩

/-! ### Values -/

section Values

variable (R : Regime)

def OfBody : ClassBody → Prop
  | .script body => R.Definition body
  | .object => True
  | .file => True

def OfClass : Class → Prop
  | ⟨_, _, _, body, none⟩ => R.OfBody body
  | ⟨_, _, _, body, some parent⟩ => R.OfBody body ∧ OfClass parent
termination_by structural c => c

def OfNative : Native → Prop
  | .builtin b => R.isBounded = false ∧ (b = .interpret → R = .free)
  | .listMethod m _ => m = .foreach → R.isBounded = false
  | .superCall parent child _ => R.OfClass parent ∧ R.OfClass child
  | .host _ _ _ => R = .free
  | .textMethod _ _ => True
  | .fileMethod _ _ => True

def Admits : Value → Prop
  | .function _ f _ => R.Definition f.body
  | .native _ n => R.OfNative n
  | .cls c => R.OfClass c
  | _ => True

def AdmitsAll (vs : List Value) : Prop :=
  ∀ v ∈ vs, R.Admits v

/-- Names that programs may mention are bound to values that the regime admits. -/
def AdmitsEntries (entries : Table Value) : Prop :=
  ∀ entry ∈ entries, R.hides entry.1 = false → R.Admits entry.2

structure AdmitsHeap (h : Heap) : Prop where
  bindings : ∀ e, R.AdmitsEntries (h.scope e).bindings
  items : ∀ l, R.AdmitsAll (h.items l).toList

/-- The world of a run in the regime, where at most `r` further calls can be active at once. -/
structure AdmitsWorld (r : Nat) (w : World) : Prop where
  heap : R.AdmitsHeap w.heap
  tasks : R.AdmitsAll w.tasks
  idle : R.isBounded = true → w.tasks = []
  room : w.maxDepth ≤ w.depth + r

end Values

/-! ### Everything is free -/

theorem ne_tame_of_free {R : Regime} (hR : R = .free) : R ≠ .tame := by
  rintro rfl
  cases hR

theorem tree_free (node : Node) : Regime.free.Tree node := by
  intro part _
  exact ⟨fun h => absurd rfl h, fun h => (by cases h), fun _ _ => rfl, fun _ _ => trivial⟩

theorem definition_free (body : Node) : Regime.free.Definition body :=
  ⟨tree_free body, trivial⟩

theorem ofBody_free (body : ClassBody) : Regime.free.OfBody body := by
  cases body with
  | script body => exact definition_free body
  | object => trivial
  | file => trivial

theorem ofClass_free : ∀ c : Class, Regime.free.OfClass c
  | ⟨_, _, _, body, none⟩ => ofBody_free body
  | ⟨_, _, _, body, some parent⟩ => ⟨ofBody_free body, ofClass_free parent⟩
termination_by structural c => c

theorem admits_free (v : Value) : Regime.free.Admits v := by
  cases v with
  | function stamp f scope => exact definition_free f.body
  | cls c => exact ofClass_free c
  | native stamp n =>
    cases n with
    | builtin b => exact ⟨rfl, fun _ => rfl⟩
    | textMethod m s => trivial
    | listMethod m l => exact fun _ => rfl
    | fileMethod m path => trivial
    | superCall parent child target => exact ⟨ofClass_free parent, ofClass_free child⟩
    | host name params behavior => exact rfl
  | _ => trivial

theorem admitsWorld_free (w : World) : Regime.free.AdmitsWorld w.maxDepth w where
  heap := ⟨fun _ _ _ _ => admits_free _, fun _ _ _ => admits_free _⟩
  tasks _ _ := admits_free _
  idle h := by cases h
  room := Nat.le_add_left _ _

variable {R : Regime}

/-! ### Classes -/

theorem OfClass.body {c : Class} (hc : R.OfClass c) : R.OfBody c.body := by
  obtain ⟨stamp, name, params, body, parent⟩ := c
  cases parent with
  | none => exact hc
  | some parent => exact hc.1

theorem OfClass.parent {c parent : Class} (hc : R.OfClass c) (hp : c.parent = some parent) :
    R.OfClass parent := by
  obtain ⟨stamp, name, params, body, above⟩ := c
  cases hp
  exact hc.2

theorem OfClass.mk {stamp : Nat} {name : String} {params : List String} {body : ClassBody}
    {parent : Option Class} (hb : R.OfBody body) (hp : ∀ c, parent = some c → R.OfClass c) :
    R.OfClass ⟨stamp, name, params, body, parent⟩ := by
  cases parent with
  | none => exact hb
  | some c => exact ⟨hb, hp c rfl⟩

/-! ### Lists of values and tables -/

theorem AdmitsAll.nil : R.AdmitsAll [] :=
  fun _ hv => absurd hv List.not_mem_nil

theorem AdmitsAll.cons {v : Value} {vs : List Value} (hv : R.Admits v) (hvs : R.AdmitsAll vs) :
    R.AdmitsAll (v :: vs) :=
  List.forall_mem_cons.mpr ⟨hv, hvs⟩

theorem AdmitsAll.append {vs us : List Value} (hv : R.AdmitsAll vs) (hu : R.AdmitsAll us) :
    R.AdmitsAll (vs ++ us) :=
  List.forall_mem_append.mpr ⟨hv, hu⟩

theorem AdmitsAll.push {vs : Array Value} {v : Value} (hvs : R.AdmitsAll vs.toList)
    (hv : R.Admits v) : R.AdmitsAll (vs.push v).toList := by
  rw [Array.toList_push]
  exact hvs.append (.cons hv .nil)

theorem AdmitsAll.getD {vs : Array Value} (hvs : R.AdmitsAll vs.toList) (i : Nat) :
    R.Admits (vs.getD i .null) := by
  rw [Array.getD_eq_getD_getElem?]
  cases hi : vs[i]? with
  | none => trivial
  | some v => exact hvs v (Array.mem_toList_iff.mpr (Array.mem_of_getElem? hi))

theorem AdmitsEntries.of_get? {entries : Table Value} (he : R.AdmitsEntries entries)
    {name : String} (hn : R.hides name = false) {v : Value} (hg : entries.get? name = some v) :
    R.Admits v :=
  he (name, v) (Table.mem_of_get? hg) hn

theorem AdmitsEntries.nil : R.AdmitsEntries [] :=
  fun _ hm => absurd hm List.not_mem_nil

theorem AdmitsEntries.insert {entries : Table Value} (he : R.AdmitsEntries entries) {name : String}
    {v : Value} (hv : R.hides name = false → R.Admits v) :
    R.AdmitsEntries (entries.insert name v) := by
  intro entry hm
  rcases Table.mem_insert hm with rfl | hold
  · exact hv
  · exact he entry hold

theorem AdmitsEntries.insertAll {entries more : Table Value} (he : R.AdmitsEntries entries)
    (hm : R.AdmitsEntries more) : R.AdmitsEntries (entries.insertAll more) :=
  fun entry h => (Table.mem_insertAll h).elim (hm entry) (he entry)

theorem AdmitsEntries.erase {entries : Table Value} (he : R.AdmitsEntries entries)
    (name : String) : R.AdmitsEntries (entries.erase name) :=
  fun entry hm => he entry (Table.mem_erase hm)

theorem AdmitsEntries.zip {names : List String} {vs : List Value} (hv : R.AdmitsAll vs) :
    R.AdmitsEntries (names.zip vs) :=
  fun entry hm _ => hv entry.2 (List.of_mem_zip hm).2

theorem AdmitsEntries.addMissing {s : Scope} {entries : Table Value}
    (hs : R.AdmitsEntries s.bindings) (he : R.AdmitsEntries entries) :
    R.AdmitsEntries (entries.foldl
      (fun t e => if t.contains e.1 then t else t.define e.1 e.2) s).bindings :=
  fun entry hm => (Heap.mem_addMissing hm).elim (he entry) (hs entry)

/-! ### Changes of the heap -/

theorem AdmitsHeap.newStamp {h : Heap} (hh : R.AdmitsHeap h) : R.AdmitsHeap h.newStamp.2 :=
  ⟨hh.bindings, hh.items⟩

theorem AdmitsHeap.newScope {h : Heap} (hh : R.AdmitsHeap h) {s : Scope}
    (hs : R.AdmitsEntries s.bindings) : R.AdmitsHeap (h.newScope s).2 := by
  refine ⟨fun e => ?_, hh.items⟩
  rw [Heap.scope_newScope]
  split
  · exact hs
  · exact hh.bindings e

theorem AdmitsHeap.modifyScope {h : Heap} (hh : R.AdmitsHeap h) {e : ScopeRef}
    {f : Scope → Scope} (hf : R.AdmitsEntries (f (h.scope e)).bindings) :
    R.AdmitsHeap (h.modifyScope e f) := by
  refine ⟨fun q => ?_, hh.items⟩
  by_cases hq : q = e
  · subst hq
    by_cases ha : h.Allocated q
    · rw [Heap.scope_modifyScope_self h q f ha]
      exact hf
    · have hna : ¬ (h.modifyScope q f).Allocated q := by
        rw [Heap.Allocated, Heap.size_modifyScope]
        exact ha
      rw [Heap.scope_unallocated _ q hna]
      exact .nil
  · rw [Heap.scope_modifyScope_ne h e q f hq]
    exact hh.bindings q

theorem AdmitsHeap.define {h : Heap} (hh : R.AdmitsHeap h) (e : ScopeRef) {name : String}
    {v : Value} (hv : R.Admits v) : R.AdmitsHeap (h.modifyScope e (·.define name v)) :=
  hh.modifyScope ((hh.bindings e).insert fun _ => hv)

theorem AdmitsHeap.defineAll {h : Heap} (hh : R.AdmitsHeap h) (e : ScopeRef)
    {entries : Table Value} (he : R.AdmitsEntries entries) :
    R.AdmitsHeap (h.modifyScope e (·.defineAll entries)) :=
  hh.modifyScope ((hh.bindings e).insertAll he)

theorem AdmitsHeap.mergeInto {h : Heap} (hh : R.AdmitsHeap h) (target source : ScopeRef) :
    R.AdmitsHeap (h.mergeInto target source) := by
  unfold Heap.mergeInto
  split
  · exact hh
  · exact hh.defineAll target (hh.bindings source)

theorem AdmitsHeap.mergeMissing {h : Heap} (hh : R.AdmitsHeap h) (target source : ScopeRef) :
    R.AdmitsHeap (h.mergeMissing target source) := by
  unfold Heap.mergeMissing
  split
  · exact hh
  · exact hh.modifyScope ((hh.bindings target).addMissing (hh.bindings source))

theorem AdmitsHeap.newList {h : Heap} (hh : R.AdmitsHeap h) {items : Array Value}
    (hi : R.AdmitsAll items.toList) : R.AdmitsHeap (h.newList items).2 := by
  refine ⟨hh.bindings, fun l => ?_⟩
  rw [Heap.items_newList]
  split
  · exact hi
  · exact hh.items l

theorem AdmitsHeap.modifyList {h : Heap} (hh : R.AdmitsHeap h) {l : ListRef}
    {f : Array Value → Array Value} (hf : R.AdmitsAll (f (h.items l)).toList) :
    R.AdmitsHeap (h.modifyList l f) := by
  refine ⟨hh.bindings, fun k v hv => ?_⟩
  rcases Heap.mem_items_modifyList hv with hv | hv
  · exact hh.items k v hv
  · exact hf v hv

/-! ### Worlds -/

theorem AdmitsWorld.withHeap {r : Nat} {w : World} (hw : R.AdmitsWorld r w) {h : Heap}
    (hh : R.AdmitsHeap h) : R.AdmitsWorld r { w with heap := h } :=
  ⟨hh, hw.tasks, hw.idle, hw.room⟩

theorem AdmitsWorld.mono {r s : Nat} {w : World} (hw : R.AdmitsWorld s w) (hs : s ≤ r) :
    R.AdmitsWorld r w :=
  ⟨hw.heap, hw.tasks, hw.idle, Nat.le_trans hw.room (Nat.add_le_add_left hs _)⟩

/-- A call that is admitted leaves room for one call less. -/
theorem AdmitsWorld.enter {r : Nat} {w : World} (hw : R.AdmitsWorld (r + 1) w) :
    R.AdmitsWorld r w.enter := by
  have hroom := hw.room
  refine ⟨hw.heap, hw.tasks, hw.idle, ?_⟩
  simp only [World.enter]
  omega

theorem AdmitsWorld.leave {r : Nat} {w : World} (hw : R.AdmitsWorld r w) :
    R.AdmitsWorld (r + 1) w.leave := by
  have hroom := hw.room
  refine ⟨hw.heap, hw.tasks, hw.idle, ?_⟩
  simp only [World.leave]
  omega

end Regime

end ScriptEngine
