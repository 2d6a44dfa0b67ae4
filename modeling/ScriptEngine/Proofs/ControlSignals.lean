import Mathlib
import ScriptEngine.Proofs.RegimeOfMachines
import ScriptEngine.Proofs.ShapeOfEvaluation

/-! # Control signals

A jump that leaves the evaluation of a node comes from a break, a continue or a return of that node
which no loop and no definition of the node keeps in. So loop control that always stands in the body
of a loop is never reported as misplaced. -/

namespace ScriptEngine

/-- Every break and continue stands in the body of a loop of its own function or object definition,
and no source is loaded by the program. -/
structure Node.Disciplined (root : Node) : Prop where
  program : root.KeepsLoopControl
  bodies : ∀ node, root.Part node → ∀ body ∈ node.definition?, body.KeepsLoopControl
  includes : ∀ node, root.Part node → node.isInclude = false
  names : ∀ node, root.Part node → Builtin.interpret.name ∉ node.names

theorem Node.Disciplined.tame {root : Node} (h : root.Disciplined) (fuel r : Nat) :
    Regime.tame.Program fuel r root where
  tree node hn := {
    include_ := fun _ => h.includes node hn
    loop := fun hb => by cases hb
    names := fun name hm => beq_false_of_ne fun heq => h.names node hn (heq ▸ hm)
    body := h.bodies node hn }
  leaves k hk _ := by
    cases k with
    | return_ => rfl
    | break_ => exact absurd hk h.program.1
    | continue_ => exact absurd hk h.program.2
  affords := trivial

/-- The worlds that a host gets to by running disciplined programs one after the other, and those in
which such a run is cut off. -/
inductive DisciplinedWorld (c : Config) : World → Prop where
  | start : DisciplinedWorld c (World.initial c)
  | program {w : World} {source : String} {root : Node} (n : Nat) : DisciplinedWorld c w →
      parseProgram source w.source = .ok root → root.Disciplined →
      DisciplinedWorld c (Engine.evalSource (Evaluation.machine n) source w).world

theorem Outcome.Meets.of_world {C : Contract} {α : Type} {Q : α → Prop} {o : Outcome α}
    (h : o.Meets C Q) : C.world o.world := by
  cases o with
  | done | jumped | failed | exhausted => exact h.1

theorem Outcome.Meets.of_diagnostic {C : Contract} {α : Type} {Q : α → Prop} {o : Outcome α}
    (h : o.Meets C Q) {d : Diagnostic} (hd : o.diagnostic? = some d) : C.failure d := by
  cases o with
  | failed d' w =>
    cases hd
    exact h.2
  | done | jumped | exhausted => cases hd

/-- A disciplined program keeps a world that a tame regime admits. -/
theorem evalSource_tame {w : World} {r n : Nat} {source : String} {root : Node}
    (hw : Regime.tame.AdmitsWorld r w) (hp : parseProgram source w.source = .ok root)
    (hd : root.Disciplined) :
    (Engine.evalSource (Evaluation.machine n) source w).Meets
      (Regime.tame.contract r fun _ => False) Regime.tame.Admits := by
  refine Engine.evalSource_keeps hw (fun root' hp' => ?_) (fun _ => ⟨root, hp⟩) trivial
  rw [hp] at hp'
  cases hp'
  exact hd.tame n r

theorem DisciplinedWorld.admitted {c : Config} {w : World} (hw : DisciplinedWorld c w) :
    Regime.tame.AdmitsWorld c.maxDepth w := by
  induction hw with
  | start => exact Regime.admitsWorld_initial rfl c
  | program n _ hp hd ih => exact (evalSource_tame ih hp hd).of_world

/-- A jump out of a node is one that the node exposes. -/
theorem evaluate_jumped_exposes {n : Nat} {node : Node} {e : ScopeRef} {w w' : World} {j : Jump}
    (h : (Evaluation.machine n).evaluate node e w = .jumped j w') : node.Exposes j.kind := by
  have hkeeps : (Evaluation.machine n).Runs .free w.maxDepth (fun k => node.Exposes k) node :=
    (Evaluation.machine_keeps n).1 (Regime.tree_free node) (fun _ hk => hk) trivial
  have hrun := (hkeeps e).run w (Regime.admitsWorld_free w)
  rw [h] at hrun
  exact hrun.2.2

/-- Every jump out of a node is exposed by the node, whatever the world; and where disciplined
programs ran, a disciplined program does not fail for want of a loop. -/
theorem control_signals_sound :
    (∀ n node e w j w', (Evaluation.machine n).evaluate node e w = .jumped j w' →
      node.Exposes j.kind) ∧
    (∀ c w n source root, DisciplinedWorld c w → parseProgram source w.source = .ok root →
      root.Disciplined → ∀ d,
      (Engine.evalSource (Evaluation.machine n) source w).diagnostic? = some d →
      d.fault.isLoopControl = false) := by
  constructor
  · intro n node e w j w' h
    exact evaluate_jumped_exposes h
  · intro c w n source root hw hp hd d h
    exact (evalSource_tame hw.admitted hp hd).of_diagnostic h rfl

/-- A loop with a break as its body, and a name behind it. -/
theorem Node.disciplined_loop {name : String} (hname : Builtin.interpret.name ≠ name)
    (s : String) (pos p₁ p₂ p₃ p₄ : Position) :
    (Node.sequence pos
      [.loop p₁ (.text p₂ s) false (.break_ p₃), .read p₄ name]).Disciplined := by
  -- The loop is open to loop control from its condition only, which is a text.
  have hkeeps : ∀ k, k ≠ .return_ → ¬ (Node.sequence pos
      [.loop p₁ (.text p₂ s) false (.break_ p₃), .read p₄ name]).Exposes k := by
    rintro k hk (⟨⟨⟩⟩ | ⟨hstatement, hin⟩)
    rcases List.mem_pair.mp hstatement with rfl | rfl
    · obtain ⟨⟨⟩⟩ | ⟨hcondition, hin⟩ := hin
      rw [Node.openTo, if_neg hk, List.mem_singleton] at hcondition
      rw [hcondition] at hin
      obtain ⟨⟨⟩⟩ | ⟨⟨⟩, -⟩ := hin
    · obtain ⟨⟨⟩⟩ | ⟨⟨⟩, -⟩ := hin
  have hparts : ∀ node, (Node.sequence pos
      [.loop p₁ (.text p₂ s) false (.break_ p₃), .read p₄ name]).Part node →
        node.isInclude = false ∧ node.definition? = none ∧
          Builtin.interpret.name ∉ node.names := by
    refine Node.forall_part_iff.mpr ⟨⟨rfl, rfl, List.not_mem_nil⟩,
      List.forall_mem_cons.mpr ⟨Node.forall_part_iff.mpr ⟨⟨rfl, rfl, List.not_mem_nil⟩,
        List.forall_mem_cons.mpr ⟨?_, List.forall_mem_singleton.mpr ?_⟩⟩,
        List.forall_mem_singleton.mpr ?_⟩⟩
    · intro node hn
      rw [hn.eq_of_leaf rfl]
      exact ⟨rfl, rfl, List.not_mem_nil⟩
    · intro node hn
      rw [hn.eq_of_leaf rfl]
      exact ⟨rfl, rfl, List.not_mem_nil⟩
    · intro node hn
      rw [hn.eq_of_leaf rfl]
      exact ⟨rfl, rfl, fun hm => hname (List.mem_singleton.mp hm)⟩
  exact {
    program := ⟨hkeeps _ (by decide), hkeeps _ (by decide)⟩
    bodies := fun node hn body hb => by
      rw [(hparts node hn).2.1] at hb
      cases hb
    includes := fun node hn => (hparts node hn).1
    names := fun node hn => (hparts node hn).2.2 }

/-- A break leaves the list that it is an item of. The loop is left by its break, as only what
stands behind it fails. -/
theorem control_signals_sound_loop :
    (∃ w', (Evaluation.machine 2).evaluate (.list ⟨1, 0, 1, none⟩ [.break_ ⟨1, 1, 5, none⟩]) ⟨0⟩
        (World.initial { standard := false }) = .jumped .break_ w' ∧
      (Node.list ⟨1, 0, 1, none⟩ [.break_ ⟨1, 1, 5, none⟩]).Exposes .break_) ∧
    ∃ root d, parseProgram "while 'a': break\nx" none = .ok root ∧ root.Disciplined ∧
      (Engine.evalSource (Evaluation.machine 6) "while 'a': break\nx"
        (World.initial { standard := false })).diagnostic? = some d ∧
      d.position = some ⟨2, 17, 1, none⟩ ∧ d.fault.isLoopControl = false := by
  have hjump : (Evaluation.machine 2).evaluate
      (.list ⟨1, 0, 1, none⟩ [.break_ ⟨1, 1, 5, none⟩]) ⟨0⟩ (World.initial { standard := false }) =
        .jumped .break_ (World.initial { standard := false }) := by rfl
  obtain ⟨pos, p₁, p₂, p₃, p₄, hp⟩ : ∃ pos p₁ p₂ p₃ p₄, parseProgram "while 'a': break\nx" none =
      .ok (.sequence pos [.loop p₁ (.text p₂ "a") false (.break_ p₃), .read p₄ "x"]) :=
    ⟨_, _, _, _, _, by cbv⟩
  have hd := Node.disciplined_loop (show Builtin.interpret.name ≠ "x" by decide) "a" pos p₁ p₂ p₃ p₄
  have hrun : (Engine.evalSource (Evaluation.machine 6) "while 'a': break\nx"
      (World.initial { standard := false })).diagnostic?.map (·.position) =
        some (some ⟨2, 17, 1, none⟩) := by decide +kernel
  obtain ⟨d, hdiagnostic, hposition⟩ := Option.map_eq_some_iff.mp hrun
  have hfault := control_signals_sound.2 _ (World.initial { standard := false }) 6
    "while 'a': break\nx" _ .start hp hd d hdiagnostic
  exact ⟨⟨_, hjump, control_signals_sound.1 _ _ _ _ _ _ hjump⟩, _, d, hp, hd, hdiagnostic,
    hposition, hfault⟩

end ScriptEngine
