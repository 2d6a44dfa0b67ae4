import Mathlib
import ScriptEngine.Proofs.FuelStable
import ScriptEngine.Proofs.RegimeOfMachines

/-! # Recursion ends

Without loops, inclusion and the one method that repeats a call, nothing but calls can go on, and
each call takes one from the number of calls that may still be active. The fuel that a program needs
is bounded by its size for each of them. -/

namespace ScriptEngine

/-- The program repeats nothing by itself: there is no loop and no inclusion in it, and it does not
mention the method that calls a function for each item of a list. -/
def Node.OnlyRecurses (root : Node) : Prop :=
  ∀ node, root.Part node →
    node.isLoop = false ∧ node.isInclude = false ∧ ListMethod.foreach.name ∉ node.names

theorem Node.OnlyRecurses.bounded {root : Node} (h : root.OnlyRecurses) {fuel r : Nat}
    (hf : sizeOf root + r * (sizeOf root + 2) < fuel) :
    (Regime.bounded (sizeOf root)).Program fuel r root where
  tree node hn := {
    include_ := fun _ => (h node hn).2.1
    loop := fun _ => (h node hn).1
    names := fun name hm => beq_false_of_ne fun heq => (h node hn).2.2 (heq ▸ hm)
    body := fun body hb => Node.sizeOf_part_le (.inner hn (Node.definition_child hb)) }
  leaves _ _ hR := by cases hR
  affords := hf

/-- With enough fuel a program of a bounded regime ends. -/
theorem Regime.terminates_of_bounded (size fuel : Nat) {c : Config} {source : String}
    (hroot : ∀ root, parseProgram source c.source = .ok root →
      (Regime.bounded size).Program fuel c.maxDepth root)
    (hfuel : (Regime.bounded size).Affords fuel 1 c.maxDepth) :
    Evaluation.Terminates (Engine.evalSource · source) (World.bare c) := by
  have hmore := fun {m m'} hm => @Engine.evalSource_approximates m m' hm source
  have hmeets := Engine.evalSource_keeps (Regime.admitsWorld_bare c) hroot
    (fun hR => by cases hR) hfuel
  exact Evaluation.terminates_of_ended hmore
    (hmeets.ended (fun _ hj => hj.2) fun hcut => by cases hcut)

/-- Whatever the limit on active calls, a program that only recurses ends with a value or with a
failure. -/
theorem recursion_ends (c : Config) (hc : c.standard = false) (source : String)
    (h : ∀ root, parseProgram source c.source = .ok root → root.OnlyRecurses) :
    Evaluation.Terminates (Engine.evalSource · source) (World.initial c) := by
  have hbare : World.initial c = World.bare c := by simp [World.initial, hc]
  rw [hbare]
  cases hp : parseProgram source c.source with
  | error d =>
    refine Regime.terminates_of_bounded 0 (c.maxDepth * 2 + 2) ?_ ?_
    · intro root hok
      rw [hp] at hok
      cases hok
    · simp only [Regime.Affords]
      omega
  | ok root =>
    have hprogram := (h root hp).bounded (Nat.lt_succ_self (sizeOf root + c.maxDepth * _))
    refine Regime.terminates_of_bounded _ _ (fun root' hok => ?_)
      (hprogram.affords.le root.sizeOf_pos)
    rw [hp] at hok
    cases hok
    exact hprogram

/-- A function that does nothing but call itself. -/
theorem recursion_ends_endless : ∃ root,
    parseProgram "function f(): f()\nf()" none = .ok root ∧ root.OnlyRecurses ∧
      Evaluation.Terminates (Engine.evalSource · "function f(): f()\nf()")
        (World.initial { standard := false }) := by
  obtain ⟨root, hp, hr⟩ : ∃ root, parseProgram "function f(): f()\nf()" none = .ok root ∧
      root.OnlyRecurses := by
    obtain ⟨pos, p₁, p₂, p₃, p₄, p₅, hp⟩ : ∃ pos p₁ p₂ p₃ p₄ p₅,
        parseProgram "function f(): f()\nf()" none = .ok (.sequence pos
          [.function p₁ (some "f") [] false (.call p₂ (.read p₃ "f") []),
            .call p₄ (.read p₅ "f") []]) := ⟨_, _, _, _, _, _, by cbv⟩
    have hcall : ∀ p q, (Node.call p (.read q "f") []).OnlyRecurses := by
      intro p q
      refine Node.forall_part_iff.mpr ⟨by simp [Node.isLoop, Node.isInclude, Node.names], ?_⟩
      refine List.forall_mem_singleton.mpr fun node hn => ?_
      rw [hn.eq_of_leaf rfl]
      exact ⟨rfl, rfl, by simp [Node.names, ListMethod.name]⟩
    refine ⟨_, hp, Node.forall_part_iff.mpr ⟨by simp [Node.isLoop, Node.isInclude, Node.names], ?_⟩⟩
    refine List.forall_mem_cons.mpr ⟨Node.forall_part_iff.mpr ⟨?_, ?_⟩,
      List.forall_mem_singleton.mpr (hcall _ _)⟩
    · exact ⟨rfl, rfl, by simp [Node.names, ListMethod.name]⟩
    · exact List.forall_mem_singleton.mpr (hcall _ _)
  refine ⟨root, hp, hr, recursion_ends _ rfl _ fun root' hok => ?_⟩
  rw [show parseProgram "function f(): f()\nf()" _ = .ok root from hp] at hok
  cases hok
  exact hr

end ScriptEngine
