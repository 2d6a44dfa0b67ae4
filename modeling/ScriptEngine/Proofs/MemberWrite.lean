import Mathlib
import ScriptEngine.Engine
import ScriptEngine.Proofs.HeapLaws

/-! # Writes through a member view

An assignment `p.x = v` is evaluated in a view of `p`, which reads `p` before the scopes around it.
The write goes to the first of these scopes that contains `x`, and to `p` if none does. So it lands
in `p` exactly if `p` contains `x` already or nothing around it does. -/

namespace ScriptEngine

/-! ### The scope that a view writes to -/

namespace Heap

/-- The heap with a view of `p` inside `e`, which is the youngest scope. -/
def withView (h : Heap) (p e : ScopeRef) : Heap :=
  (h.newScope (.fresh (h.scope p).name (some e) (some p))).2

/-- The youngest scope of a heap that `withView` made. -/
def viewRef (h : Heap) : ScopeRef :=
  ⟨h.scopes.size⟩

theorem scope_viewRef (h : Heap) (p e : ScopeRef) :
    (h.withView p e).scope h.viewRef = .fresh (h.scope p).name (some e) (some p) := by
  simp [withView, viewRef, scope_newScope]

theorem bindings_withView (h : Heap) (p e q : ScopeRef) :
    ((h.withView p e).scope q).bindings = (h.scope q).bindings := by
  by_cases hq : h.Allocated q
  · rw [withView, scope_newScope_old _ _ _ hq]
  · rw [withView, scope_newScope, scope_unallocated h q hq]
    split <;> rfl

/-- A view is empty, so the search for a name looks in its receiver and then around it. -/
theorem locate_view (h : Heap) (p e : ScopeRef) (x : String) (ho : h.Ordered)
    (he : h.Allocated e) (hp : h.Allocated p) :
    (h.withView p e).locate h.viewRef x =
      if (h.scope p).contains x then some p else h.locate e x := by
  have hreceiver : ((h.withView p e).scope p).contains x = (h.scope p).contains x := by
    rw [withView, scope_newScope_old _ _ _ hp]
  have houter : (h.withView p e).locate e x = h.locate e x :=
    locate_newScope h _ x ho e he
  have hempty : (Scope.fresh (h.scope p).name (some e) (some p)).contains x = false := rfl
  have hyoung : e.index < h.viewRef.index := he
  rw [locate, scope_viewRef, hempty]
  simp only [Scope.fresh, Bool.false_eq_true, if_false, Option.filter_some, hreceiver]
  by_cases hx : (h.scope p).contains x = true
  · simp [hx]
  · simp [hx, hyoung, houter]

theorem owner_view (h : Heap) (p e : ScopeRef) (x : String) (ho : h.Ordered)
    (he : h.Allocated e) (hp : h.Allocated p) :
    (h.withView p e).owner h.viewRef x =
      if (h.scope p).contains x then p else (h.locate e x).getD p := by
  rw [owner, locate_view h p e x ho he hp, scope_viewRef]
  by_cases hx : (h.scope p).contains x = true
  · simp [hx]
  · cases hl : h.locate e x with
    | none => simp [hx, Scope.fresh]
    | some found => simp [hx]

/-- The scope that owns `x` in a view of `p` is `p` exactly if `p` contains `x`, or nothing around
the view does. -/
theorem owner_view_eq_iff (h : Heap) (p e : ScopeRef) (x : String) (ho : h.Ordered)
    (he : h.Allocated e) (hp : h.Allocated p) :
    (h.withView p e).owner h.viewRef x = p ↔
      (h.scope p).contains x = true ∨ h.locate e x = none := by
  rw [owner_view h p e x ho he hp]
  by_cases hx : (h.scope p).contains x = true
  · simp [hx]
  · cases hl : h.locate e x with
    | none => simp
    | some found =>
      have hfound := locate_contains hl
      have hne : found ≠ p := fun hc => hx (hc ▸ hfound)
      simp [hx, hne]

end Heap

/-! ### Evaluating the assignment -/

namespace Evaluation

open Run

/-- The value that a literal gets from the next stamp. -/
def literalValue (stamp : Nat) : Node → Option Value
  | .number _ value => some (.number stamp value)
  | .text _ value => some (.text stamp value)
  | _ => none

theorem evaluate_running (n : Nat) (node : Node) (e : ScopeRef) (w : World)
    (hw : w.stopped = false) :
    (machine (n + 1)).evaluate node e w = evalNode (machine n) node e w := by
  simp [machineWith, evalUnlessStopped, hw]

theorem running_of_done {n : Nat} {node : Node} {e : ScopeRef} {w w' : World} {v : Value}
    (hd : (machine (n + 1)).evaluate node e w = .done v w') : w.stopped = false := by
  cases hw : w.stopped with
  | false => rfl
  | true => simp [machineWith, evalUnlessStopped, hw] at hd

/-- The world after a literal was evaluated. -/
def afterLiteral (w : World) : World :=
  { w with heap := { w.heap with stamps := w.heap.stamps + 1 } }

theorem evaluate_literal (n : Nat) (lit : Node) (e : ScopeRef) (w : World) (v : Value)
    (hw : w.stopped = false) (hlit : literalValue w.heap.stamps lit = some v) :
    (machine (n + 1)).evaluate lit e w = .done v (afterLiteral w) := by
  rw [evaluate_running n lit e w hw]
  cases lit with
  | number pos value =>
    cases hlit
    rfl
  | text pos value =>
    cases hlit
    rfl
  | _ => cases hlit

theorem heap_set (e : ScopeRef) (name : String) (v : Value) (w : World) :
    ∃ w', set e name v w = .done () w' ∧
      w'.heap = w.heap.modifyScope e (·.define name v) := by
  have hdef : set e name v w = reportWrite e name v
      { w with heap := w.heap.modifyScope e (·.define name v) } := rfl
  rw [hdef]
  simp only [reportWrite, Run.heap, bind, andThen]
  split
  · exact ⟨_, rfl, rfl⟩
  · exact ⟨_, rfl, rfl⟩

/-- The value is stored in `p` and nowhere else. -/
def LandsIn (p : ScopeRef) (x : String) (v : Value) (before after : Heap) : Prop :=
  (after.scope p).bindings.get? x = some v ∧
    ∀ q : ScopeRef, q ≠ p → (after.scope q).bindings = (before.scope q).bindings

/-- The view that a segment is evaluated in is made for it. -/
theorem evalSegments_instance (self : Machine) (segment : Node) (p e : ScopeRef) (w : World) :
    evalSegments self [segment] (.instance_ p) e w =
      self.evaluate segment w.heap.viewRef { w with heap := w.heap.withView p e } := by
  have hstep : evalSegments self [segment] (.instance_ p) e w =
      andThen (self.evaluate segment w.heap.viewRef) Run.done
        { w with heap := w.heap.withView p e } := rfl
  rw [hstep]
  simp only [andThen]
  cases self.evaluate segment w.heap.viewRef { w with heap := w.heap.withView p e } <;> rfl

/-- Assigning a literal to a member evaluates to the literal's value and defines the name in the
scope that owns it in the view. -/
theorem evaluate_memberAssign (n : Nat) (w w₁ : World) (e p : ScopeRef) (first lit : Node)
    (x : String) (v : Value) (pos apos : Position)
    (hfirst : (machine (n + 2)).evaluate first e w = .done (.instance_ p) w₁)
    (hrun : w₁.stopped = false) (hlit : literalValue w₁.heap.stamps lit = some v) :
    ∃ w₂, (machine (n + 3)).evaluate (.members pos [first, .assign apos x lit]) e w =
        .done v w₂ ∧
      ∀ q, w₂.heap.scope q = ((w₁.heap.withView p e).modifyScope
        ((w₁.heap.withView p e).owner w₁.heap.viewRef x) (·.define x v)).scope q := by
  let viewed : World := { w₁ with heap := w₁.heap.withView p e }
  have hsegment : evalMembers (machine (n + 2)) [first, .assign apos x lit] e w =
      (machine (n + 2)).evaluate (.assign apos x lit) w₁.heap.viewRef viewed := by
    rw [← evalSegments_instance]
    simp only [evalMembers, bind, andThen, hfirst]
  have hvalue : (machine (n + 1)).evaluate lit w₁.heap.viewRef viewed =
      .done v (afterLiteral viewed) :=
    evaluate_literal n lit _ viewed v hrun hlit
  have hscopes : ∀ q, (afterLiteral viewed).heap.scope q = (w₁.heap.withView p e).scope q :=
    fun _ => rfl
  have howner : (afterLiteral viewed).heap.owner w₁.heap.viewRef x =
      (w₁.heap.withView p e).owner w₁.heap.viewRef x :=
    Heap.owner_congr _ _ x hscopes _
  obtain ⟨w₂, hset, hheap⟩ := heap_set ((w₁.heap.withView p e).owner w₁.heap.viewRef x) x v
    (afterLiteral viewed)
  refine ⟨w₂, ?_, ?_⟩
  · rw [evaluate_running _ _ _ _ (running_of_done hfirst)]
    show evalMembers (machine (n + 2)) [first, .assign apos x lit] e w = .done v w₂
    rw [hsegment, evaluate_running (n + 1) _ _ viewed hrun]
    simp only [evalNode, bind, andThen, hvalue, Run.owner, howner, hset]
    rfl
  · intro q
    rw [hheap]
    rfl

/-- An assignment to a member lands in the receiver exactly if the receiver contains the name
already, or no scope around the access does. -/
theorem memberAssign_landsIn_iff (n : Nat) (w w₁ : World) (e p : ScopeRef) (first lit : Node)
    (x : String) (v : Value) (pos apos : Position)
    (hfirst : (machine (n + 2)).evaluate first e w = .done (.instance_ p) w₁)
    (hrun : w₁.stopped = false) (hlit : literalValue w₁.heap.stamps lit = some v)
    (ho : w₁.heap.Ordered) (he : w₁.heap.Allocated e) (hp : w₁.heap.Allocated p) :
    ∃ w₂, (machine (n + 3)).evaluate (.members pos [first, .assign apos x lit]) e w =
        .done v w₂ ∧
      (LandsIn p x v w₁.heap w₂.heap ↔
        (w₁.heap.scope p).contains x = true ∨ w₁.heap.locate e x = none) := by
  obtain ⟨w₂, heval, hheap⟩ := evaluate_memberAssign n w w₁ e p first lit x v pos apos hfirst
    hrun hlit
  refine ⟨w₂, heval, ?_⟩
  rw [← Heap.owner_view_eq_iff w₁.heap p e x ho he hp]
  have hallocated : (w₁.heap.withView p e).Allocated p := by
    simp only [Heap.Allocated, Heap.withView, Heap.newScope, Array.size_push]
    exact Nat.lt_succ_of_lt hp
  constructor
  · rintro ⟨hstored, -⟩
    by_cases howner : (w₁.heap.withView p e).owner w₁.heap.viewRef x = p
    · exact howner
    · -- Nothing was written to `p`, so it bound the name before and would own it.
      have hother : (w₂.heap.scope p).bindings = (w₁.heap.scope p).bindings := by
        rw [hheap, Heap.scope_modifyScope_ne _ _ _ _ (Ne.symm howner), Heap.bindings_withView]
      have hbound : (w₁.heap.scope p).contains x = true := by
        simp [Scope.contains, Table.contains, ← hother, hstored]
      exact (Heap.owner_view_eq_iff w₁.heap p e x ho he hp).mpr (.inl hbound)
  · intro howner
    rw [howner] at hheap
    refine ⟨?_, ?_⟩
    · rw [hheap, Heap.scope_modifyScope_self _ _ _ hallocated]
      exact Table.get?_insert_self _ _ _
    · intro q hq
      rw [hheap, Heap.scope_modifyScope_ne _ _ _ _ hq, Heap.bindings_withView]

/-! ### Two instances -/

/-- Globals that bind `x` and hold an instance with the given members as `a`. -/
def shadowing (members : Table Value) : World :=
  { World.bare {} with
    heap := {
      scopes := #[
        { Scope.fresh Scope.globalName none none with
          bindings := [("x", .text 0 "outer"), ("a", .instance_ ⟨1⟩)] },
        { Scope.fresh "A" (some ⟨0⟩) none with bindings := members }]
      lists := #[]
      stamps := 2 } }

theorem shadowing_ordered (members : Table Value) : (shadowing members).heap.Ordered := by
  constructor
  · rintro ⟨_ | _ | i⟩ p hp
    · cases hp
    · cases hp
      exact Nat.zero_lt_one
    · cases hp
  · rintro ⟨_ | _ | i⟩ r hr <;> cases hr

/-- With a member `x` in the instance, `a.x = "new"` changes it and leaves the global alone. -/
theorem memberAssign_landsIn_member :
    ∃ w₂, (machine 3).evaluate
        (.members .none [.read .none "a", .assign .none "x" (.text .none "new")]) ⟨0⟩
        (shadowing [("x", .text 1 "own")]) = .done (.text 2 "new") w₂ ∧
      LandsIn ⟨1⟩ "x" (.text 2 "new") (shadowing [("x", .text 1 "own")]).heap w₂.heap := by
  obtain ⟨w₂, heval, hlands⟩ := memberAssign_landsIn_iff 0 (shadowing [("x", .text 1 "own")])
    (shadowing [("x", .text 1 "own")]) ⟨0⟩ ⟨1⟩ (.read .none "a") (.text .none "new") "x"
    (.text 2 "new") .none .none (by cbv) rfl rfl (shadowing_ordered _) (by decide) (by decide)
  exact ⟨w₂, heval, hlands.mpr (.inl rfl)⟩

/-- Without one, the same assignment leaves the instance alone and changes the global. -/
theorem memberAssign_misses_receiver :
    ∃ w₂, (machine 3).evaluate
        (.members .none [.read .none "a", .assign .none "x" (.text .none "new")]) ⟨0⟩
        (shadowing []) = .done (.text 2 "new") w₂ ∧
      (w₂.heap.scope ⟨1⟩).bindings.get? "x" = none ∧
      (w₂.heap.scope ⟨0⟩).bindings.get? "x" = some (.text 2 "new") := by
  refine ⟨_, by cbv, ?_, ?_⟩ <;> cbv

end Evaluation

end ScriptEngine
