import ScriptEngine.Proofs.RegimeOfEvaluation

/-! # Machines in a regime

The cases of a node, put together from the rules, and by induction on the fuel what every machine
does, up to the engine that runs a program and its tasks. -/

namespace ScriptEngine

namespace Run.Keeps

variable {R : Regime} {r : Nat} {J : JumpKind → Prop} {self : Machine}

/-! ### Nodes -/

/-- A node is evaluated by its rule. Every child is evaluated with the jumps of the node, but for
the body of a loop, which may use loop control besides. -/
theorem evalNode (hs : self.Serves R r) (hc : self.Calls R r) {node : Node} (ht : R.Tree node)
    (hJ : ∀ k, node.Exposes k → J k)
    (heval : ∀ child ∈ node.children, ∀ K : JumpKind → Prop, (∀ k, child.Exposes k → K k) →
      self.Runs R r K child) (e : ScopeRef) :
    Keeps R r J R.Admits (Evaluation.evalNode self node e) := by
  have hopen : ∀ child ∈ node.children, (∀ k, child ∈ node.openTo k) → self.Runs R r J child :=
    fun child hc ho => heval child hc J fun k hk => hJ k (.inner (ho k) hk)
  have hbody : ∀ child ∈ node.children, child ∈ node.openTo .return_ →
      self.Runs R r (Uncaught J) child := by
    refine fun child hc ho => heval child hc _ fun k hk hret => ?_
    subst hret
    exact hJ _ (.inner ho hk)
  have hpermits := ht node .root
  cases node with
  | number pos value => exact newNumber value
  | text pos value => exact newText value
  | list pos items =>
    exact (evalAll (fun child hc => hopen child hc fun _ => hc) e).bind fun _ hvs => newList hvs
  | binary pos op left right =>
    have hrun := fun child hc => hopen child hc fun _ => hc
    refine (hrun left (by simp [Node.children]) e).bind fun a ha => ?_
    refine (hrun right (by simp [Node.children]) e).bind fun b hb => ?_
    exact locatedAt pos (binary hc op hb)
  | unary pos op operand =>
    have hrun := hopen operand (List.mem_singleton_self _) fun _ => List.mem_singleton_self _
    exact (hrun e).bind fun a ha => locatedAt pos (unary hc op ha)
  | read pos name => exact evalRead (hpermits.names name (List.mem_singleton_self _)) pos e
  | this pos => exact (storage e).bind fun _ _ => .done trivial
  | declare pos name value =>
    have hrun := hopen value (List.mem_singleton_self _) fun _ => List.mem_singleton_self _
    exact (hrun e).bind fun _ hv => store e name hv
  | assign pos name value =>
    have hrun := hopen value (List.mem_singleton_self _) fun _ => List.mem_singleton_self _
    exact (hrun e).bind fun _ hv => (owner e name).bind fun target _ =>
      (set target name hv).bind fun _ _ => .done hv
  | update pos name op value =>
    have hrun := hopen value (List.mem_singleton_self _) fun _ => List.mem_singleton_self _
    exact evalUpdate hc (hpermits.names name (List.mem_singleton_self _)) op hrun pos e
  | choose pos arms => exact evalArms e arms fun child hc => hopen child hc fun _ => hc
  | count pos name start stop step braced body =>
    have hR := hpermits.unbounded rfl
    have hbound : ∀ child ∈ start :: stop :: step.toList, self.Runs R r J child := by
      intro child hc
      have hmem : child ∈ (Node.count pos name start stop step braced body).children :=
        List.mem_append_left _ hc
      refine hopen child hmem fun k => ?_
      simp only [Node.openTo]
      split
      · exact hmem
      · exact hc
    have hlast : body ∈ (Node.count pos name start stop step braced body).children :=
      List.mem_append_right (start :: stop :: step.toList) (List.mem_singleton_self body)
    exact evalCount hR name (hbound start (by simp)) (hbound stop (by simp))
      (fun child hc => hbound child (by simp [hc])) braced (hbody body hlast hlast) e
  | each pos name items braced body =>
    have hR := hpermits.unbounded rfl
    have hitems : self.Runs R r J items := by
      refine hopen items (by simp [Node.children]) fun k => ?_
      simp only [Node.openTo]
      split <;> simp
    exact evalEach hR name hitems braced
      (hbody body (by simp [Node.children]) (by simp [Node.openTo])) e
  | loop pos condition braced body =>
    have hR := hpermits.unbounded rfl
    have hcondition : self.Runs R r J condition := by
      refine hopen condition (by simp [Node.children]) fun k => ?_
      simp only [Node.openTo]
      split <;> simp
    exact evalWhile hR hcondition braced
      (hbody body (by simp [Node.children]) (by simp [Node.openTo])) e
  | function pos name params braced body =>
    exact evalFunction (f := ⟨name, params, braced, body⟩) (ht.definition rfl) e
  | call pos callee args =>
    have hrun := fun child hc => hopen child hc fun _ => hc
    exact evalCall hs (hrun callee List.mem_cons_self)
      (fun child hc => hrun child (List.mem_cons_of_mem _ hc)) pos e
  | sequence pos statements =>
    exact (evalSequence e fun child hc => hopen child hc fun _ => hc).bind fun _ _ =>
      (storage e).bind fun _ _ => .done trivial
  | members pos segments => exact evalMembers (fun child hc => hopen child hc fun _ => hc) e
  | object pos name params parent body =>
    refine evalObject name params (fun p hp => ?_) (ht.definition rfl) pos e
    refine hpermits.names p ?_
    simp [Node.names, hp]
  | create pos name args =>
    exact evalCreate hs (hpermits.names name (List.mem_singleton_self _))
      (fun child hc => hopen child hc fun _ => hc) pos e
  | return_ pos value =>
    have hret : J .return_ := hJ _ (.here rfl)
    cases value with
    | none => exact jump (j := .return_ .null) trivial hret
    | some value =>
      have hrun := hopen value (List.mem_singleton_self _) fun _ => List.mem_singleton_self _
      exact (hrun e).bind fun v hv => jump (j := .return_ v) hv hret
  | continue_ pos => exact jump (j := .continue_) trivial (hJ _ (.here rfl))
  | break_ pos => exact jump (j := .break_) trivial (hJ _ (.here rfl))
  | include_ pos paths =>
    have hR : R = .free := Classical.byContradiction fun hne => by cases hpermits.include_ hne
    have hnull : R.Admits .null := trivial
    exact evalInclude hR hs pos e (fun child hc => hopen child hc fun _ => hc) hnull

theorem evalUnlessStopped {node : Node} {e : ScopeRef}
    (hn : Keeps R r J R.Admits (Evaluation.evalNode self node e)) :
    Keeps R r J R.Admits (Evaluation.evalUnlessStopped self node e) := by
  refine ⟨fun w hw => ?_⟩
  unfold Evaluation.evalUnlessStopped
  split
  · exact ⟨hw, fun _ => rfl⟩
  · exact hn.run w hw

end Run.Keeps

/-! ### Machines -/

/-- The fuel suffices for something of the given size with room for `r` further calls. Only a
bounded regime has to care. -/
def Regime.Affords : Regime → Nat → Nat → Nat → Prop
  | .bounded size, fuel, work, r => work + r * (size + 2) < fuel
  | _, _, _, _ => True

namespace Regime

variable {R : Regime}

theorem Affords.succ {fuel work r : Nat} (h : R.Affords (fuel + 1) (work + 1) r) :
    R.Affords fuel work r := by
  cases R with
  | free => trivial
  | tame => trivial
  | bounded size =>
    simp only [Affords] at h ⊢
    omega

theorem Affords.le {fuel work less r : Nat} (h : R.Affords fuel work r) (hl : less ≤ work) :
    R.Affords fuel less r := by
  cases R with
  | free => trivial
  | tame => trivial
  | bounded size =>
    simp only [Affords] at h ⊢
    omega

/-- The fuel for a call pays for what it runs with less room. -/
theorem Affords.frame {fuel r s work : Nat} (h : R.Affords (fuel + 1) 0 r) (hs : s < r)
    (hw : ∀ size, R = .bounded size → work ≤ size) : R.Affords fuel work s := by
  cases R with
  | free => trivial
  | tame => trivial
  | bounded size =>
    simp only [Affords] at h ⊢
    have hsize := hw size rfl
    have hframe : (s + 1) * (size + 2) ≤ r * (size + 2) := Nat.mul_le_mul_right _ hs
    rw [Nat.succ_mul] at hframe
    omega

theorem isBounded_of_no_fuel {work r : Nat} (h : R.Affords 0 work r) : R.isBounded = false := by
  cases R with
  | free => rfl
  | tame => rfl
  | bounded size => exact absurd h (Nat.not_lt_zero _)

/-- Loop control does not leave the body of a definition in a tame regime. -/
theorem Definition.leaves {body : Node} (hb : R.Definition body) {k : JumpKind}
    (hk : body.Exposes k) : R.leaves k := by
  rintro rfl
  cases k with
  | return_ => rfl
  | break_ => exact absurd hk hb.2.1
  | continue_ => exact absurd hk hb.2.2

end Regime

open Run

theorem Node.sizeOf_pos (node : Node) : 0 < sizeOf node := by
  cases node <;> simp +arith

/-- A host without callbacks of its own only fails. -/
theorem Evaluation.machine_host_keeps {R : Regime} (hR : R = .free) {r : Nat}
    {J : JumpKind → Prop} (n : Nat) (key : String) (args : List Value) (e : ScopeRef) :
    Run.Keeps R r J R.Admits ((machine n).host key args e) := by
  cases n with
  | zero => exact .exhausted (hR ▸ rfl)
  | succ n => exact .fail fun h => absurd h (Regime.ne_tame_of_free hR)

/-- Every machine stays in the regime, as far as its fuel suffices. -/
theorem Evaluation.machine_keeps {R : Regime} (n : Nat) :
    (∀ {r : Nat} {J : JumpKind → Prop} {node : Node}, R.Tree node → (∀ k, node.Exposes k → J k) →
      R.Affords n (sizeOf node) r → (machine n).Runs R r J node) ∧
    ∀ {r : Nat}, R.Affords n 0 r → (machine n).Calls R r := by
  induction n with
  | zero =>
    exact ⟨fun _ _ h _ => .exhausted (Regime.isBounded_of_no_fuel h),
      fun h _ _ _ _ _ _ => .exhausted (Regime.isBounded_of_no_fuel h)⟩
  | succ n ih =>
    obtain ⟨hrun, hcall⟩ := ih
    have hserves : ∀ {r : Nat}, R.Affords (n + 1) 0 r → (machine n).Serves R r := by
      intro r h
      refine ⟨fun s hs body hb => ?_, fun s hs => ?_, fun hR s node => ?_,
        fun hR s J key args e => machine_host_keeps hR n key args e⟩
      · refine hrun hb.1 (fun k hk => hb.leaves hk) (h.frame hs fun size hR => ?_)
        subst hR
        exact hb.2
      · exact hcall (h.frame hs fun _ _ => Nat.zero_le _)
      · subst hR
        exact hrun (Regime.tree_free node) (fun _ _ => trivial) trivial
    constructor
    · intro r J node ht hJ h e
      have hpos := node.sizeOf_pos
      have hcalls := hcall (r := r) (Regime.Affords.succ (h.le hpos))
      have hserve := hserves (h.le (Nat.zero_le _))
      refine Keeps.evalUnlessStopped (Keeps.evalNode hserve hcalls ht hJ ?_ e)
      intro child hc K hK
      exact hrun (ht.child hc) hK (Regime.Affords.succ (h.le (Node.sizeOf_child_lt hc)))
    · intro r h J callee args e hc ha
      exact Keeps.callValue (hserves h) hc ha e

/-! ### The engine -/

theorem Run.Meets.unlessStopped {C : Contract} {α : Type} {Q : α → Prop} {fallback : α}
    (hf : Q fallback) {x : Run α} (hx : Meets C Q x) :
    Meets C Q (Engine.unlessStopped fallback x) := by
  refine ⟨fun w hw => ?_⟩
  have hrun := hx.run w hw
  unfold Engine.unlessStopped
  generalize x w = o at hrun
  cases o with
  | failed d w₁ =>
    dsimp only
    split
    · exact ⟨hrun.1, hf⟩
    · exact hrun
  | done | jumped | exhausted => exact hrun

namespace Run.Keeps

variable {R : Regime} {r : Nat} {J : JumpKind → Prop} {α : Type} {Q : α → Prop}
  {self : Machine}

/-- A bounded regime has no tasks, so it needs one round to see that. -/
theorem runTasks (hc : self.Calls R r) {rounds : Nat} (hr : R.isBounded = true → 0 < rounds) :
    Keeps R r J Whatever (Engine.runTasks self rounds) := by
  induction rounds with
  | zero => exact .exhausted (Bool.eq_false_iff.mpr fun h => absurd (hr h) (Nat.lt_irrefl 0))
  | succ rounds ih =>
    refine nextTask.bind fun next hnext => ?_
    split
    · exact .done trivial
    · rename_i task
      obtain ⟨htask, hR⟩ := hnext task rfl
      refine world.bind fun w _ => .bind (.discard (.onFailure (R.contract_untraced r J)
        (·.fault_withTrace _) (hc J task [] w.globals htask .nil))) fun _ _ => ih fun h => ?_
      rw [hR] at h
      cases h

end Run.Keeps

theorem Regime.rounds_pos {R : Regime} {n r : Nat} (h : R.Affords n 1 r)
    (hR : R.isBounded = true) : 0 < (Evaluation.machine n).rounds := by
  cases R with
  | free => cases hR
  | tame => cases hR
  | bounded size =>
    simp only [Regime.Affords] at h
    obtain ⟨m, rfl⟩ : ∃ m, n = m + 2 := ⟨n - 2, by omega⟩
    exact Nat.succ_pos m

/-- A program of the regime that runs with enough fuel. -/
structure Regime.Program (R : Regime) (fuel r : Nat) (root : Node) : Prop where
  tree : R.Tree root
  leaves : ∀ k, root.Exposes k → R.leaves k
  affords : R.Affords fuel (sizeOf root) r

theorem Regime.Program.statement {R : Regime} {fuel r : Nat} {root node : Node}
    (h : R.Program fuel r root) (hn : node ∈ root.statements) : R.Program fuel r node := by
  cases root with
  | sequence pos statements =>
    exact ⟨h.tree.child hn, fun k hk => h.leaves k (.inner hn hk),
      h.affords.le (Nat.le_of_lt (Node.sizeOf_child_lt hn))⟩
  | _ => exact List.mem_singleton.mp hn ▸ h

/-- A source whose tree is a program of the regime keeps the world in it. -/
theorem Engine.evalSource_keeps {R : Regime} {n r : Nat} {source : String} {w : World}
    (hw : R.AdmitsWorld r w)
    (hroot : ∀ root, parseProgram source w.source = .ok root → R.Program n r root)
    (hfail : R = .tame → ∃ root, parseProgram source w.source = .ok root)
    (hn : R.Affords n 1 r) :
    (Engine.evalSource (Evaluation.machine n) source w).Meets (R.contract r fun _ => False)
      R.Admits := by
  have hcalls : (Evaluation.machine n).Calls R r :=
    (Evaluation.machine_keeps n).2 (hn.le (Nat.zero_le 1))
  have hrounds := Regime.rounds_pos hn
  have hsource : Keeps R r (fun _ => False) R.Admits
      (Evaluation.runSource (Evaluation.machine n) source w.globals w.source) := by
    unfold Evaluation.runSource
    cases hp : parseProgram source w.source with
    | error d =>
      refine Meets.bind (Q := fun _ => False) (Meets.fail fun hR => ?_) fun _ h => h.elim
      obtain ⟨root, hok⟩ := hfail hR
      rw [hp] at hok
      cases hok
    | ok root =>
      have hprogram := hroot root hp
      refine (Meets.done (Q := (· = root)) rfl).bind fun node hnode => ?_
      subst hnode
      refine Keeps.runProgram node w.globals fun s hs => ?_
      have hstatement := hprogram.statement hs
      exact (Evaluation.machine_keeps n).1 hstatement.tree hstatement.leaves hstatement.affords
  have hrun : Keeps R r (fun _ => False) R.Admits (Engine.unlessStopped .null
      (Evaluation.runSource (Evaluation.machine n) source w.globals w.source >>= fun value =>
        Engine.runTasks (Evaluation.machine n) (Evaluation.machine n).rounds >>= fun _ =>
          pure value)) :=
    Meets.unlessStopped trivial (hsource.bind fun _ hv =>
      (Keeps.runTasks hcalls hrounds).bind fun _ _ => Meets.done hv)
  exact hrun.run { w with stopped := false, calls := [] } ⟨hw.heap, hw.tasks, hw.idle, hw.room⟩

/-! ### Worlds to start from -/

namespace Regime

variable {R : Regime}

theorem admitsHeap_empty : R.AdmitsHeap Heap.empty :=
  ⟨fun _ => .nil, fun _ => .nil⟩

theorem admitsWorld_bare (c : Config) : R.AdmitsWorld c.maxDepth (World.bare c) where
  heap := admitsHeap_empty.newScope .nil
  tasks := .nil
  idle _ := rfl
  room := Nat.le_add_left _ _

/-- The builtin that runs sources is bound to the name that a tame regime hides. -/
theorem ofNative_builtin (hR : R.isBounded = false) {bs : List Builtin} {n : Native}
    (hn : n ∈ bs.map Native.builtin) (hname : R.hides n.name = false) : R.OfNative n := by
  obtain ⟨b, _, rfl⟩ := List.mem_map.mp hn
  refine ⟨hR, ?_⟩
  rintro rfl
  cases R with
  | free => rfl
  | tame => cases hname
  | bounded size => cases hR

theorem standardBindings_keeps (hR : R.isBounded = false) (r : Nat) (J : JumpKind → Prop) :
    Keeps R r J R.AdmitsEntries Builtins.standardBindings := by
  have hobject : R.OfBody .object := trivial
  have hfile : R.OfBody .file := trivial
  have hnone : ∀ c, none = some c → R.OfClass c := fun c hc => by cases hc
  refine (Keeps.bound fun n hn => ofNative_builtin hR hn).bind fun core hcore => ?_
  refine (Keeps.newClass hobject hnone).bind fun object hobject => ?_
  refine (Keeps.newNumber _).bind fun pi hpi => (Keeps.newNumber _).bind fun phi hphi => ?_
  refine (Keeps.bound fun n hn => ofNative_builtin hR hn).bind fun math hmath => ?_
  refine (Keeps.newClass hfile hnone).bind fun file hfile => ?_
  refine (Keeps.bound fun n hn => ofNative_builtin hR hn).bind fun scanner hscanner => ?_
  refine Meets.done fun entry hm hname => ?_
  simp only [List.mem_append, List.mem_cons, List.not_mem_nil, or_false] at hm
  obtain (((hm | rfl | rfl | rfl) | hm) | rfl) | hm := hm
  · exact hcore entry hm hname
  · exact hobject
  · exact hpi
  · exact hphi
  · exact hmath entry hm hname
  · exact hfile
  · exact hscanner entry hm hname

theorem admitsWorld_install (hR : R.isBounded = false) {r : Nat} {w : World}
    (hw : R.AdmitsWorld r w) : R.AdmitsWorld r w.install := by
  have hkeeps := standardBindings_keeps hR r (fun _ => False)
  unfold World.install
  generalize Builtins.standardBindings = x at hkeeps ⊢
  have hrun := hkeeps.run w hw
  cases hx : x w with
  | done entries w₁ =>
    rw [hx] at hrun
    exact hrun.1.withHeap (hrun.1.heap.defineAll _ hrun.2)
  | jumped j w₁ => exact hw
  | failed d w₁ => exact hw
  | exhausted w₁ => exact hw

theorem admitsWorld_initial (hR : R.isBounded = false) (c : Config) :
    R.AdmitsWorld c.maxDepth (World.initial c) := by
  unfold World.initial
  split
  · exact admitsWorld_install hR (admitsWorld_bare c)
  · exact admitsWorld_bare c

end Regime

end ScriptEngine
