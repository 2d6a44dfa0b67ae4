import ScriptEngine.World

/-! # Contracts of computations

A contract says which worlds a computation runs between, with which jumps and failures it may end,
and whether it may be cut off. What is known of a result stands beside the contract, so that it can
be handed to the computation that follows. -/

namespace ScriptEngine

/-- The world that a computation ends in, or in which it was cut off. -/
def Outcome.world {α : Type} : Outcome α → World
  | .done _ w => w
  | .jumped _ w => w
  | .failed _ w => w
  | .exhausted w => w

/-- What a computation that failed reports. -/
def Outcome.diagnostic? {α : Type} : Outcome α → Option Diagnostic
  | .failed d _ => some d
  | _ => none

theorem Outcome.failed_of_diagnostic {α : Type} {o : Outcome α} {d : Diagnostic}
    (h : o.diagnostic? = some d) : ∃ w, o = .failed d w := by
  cases o with
  | failed d' w =>
    cases h
    exact ⟨w, rfl⟩
  | done | jumped | exhausted => cases h

structure Contract where
  world : World → Prop
  jump : Jump → Prop
  failure : Diagnostic → Prop
  cut : Prop

def Outcome.Meets {α : Type} (C : Contract) (Q : α → Prop) : Outcome α → Prop
  | .done a w => C.world w ∧ Q a
  | .jumped j w => C.world w ∧ C.jump j
  | .failed d w => C.world w ∧ C.failure d
  | .exhausted w => C.world w ∧ C.cut

/-- The text of the value that a computation ends with. -/
def Outcome.shown? : Outcome Value → Option String
  | .done v w => some (w.heap.display v)
  | .jumped _ _ => none
  | .failed _ _ => none
  | .exhausted _ => none

theorem Outcome.done_of_shown {o : Outcome Value} {s : String} (h : shown? o = some s) :
    ∃ v w, o = .done v w ∧ w.heap.display v = s := by
  cases o with
  | done v w => exact ⟨v, w, rfl, Option.some.inj h⟩
  | jumped | failed | exhausted => cases h

/-- Without jumps and without a cut there is a result or a failure. -/
theorem Outcome.Meets.ended {α : Type} {C : Contract} {Q : α → Prop} {o : Outcome α}
    (h : o.Meets C Q) (hj : ∀ j, ¬ C.jump j) (hc : ¬ C.cut) :
    (∃ a w, o = .done a w) ∨ ∃ d w, o = .failed d w := by
  cases o with
  | done a w => exact .inl ⟨a, w, rfl⟩
  | failed d w => exact .inr ⟨d, w, rfl⟩
  | jumped j w => exact absurd h.2 (hj j)
  | exhausted w => exact absurd h.2 hc

/-- From every world of the contract the computation gets to an outcome of the contract, with a
result as `Q` says. -/
structure Run.Meets {α : Type} (C : Contract) (Q : α → Prop) (x : Run α) : Prop where
  run : ∀ w, C.world w → (x w).Meets C Q

/-- Of this result nothing is known. -/
abbrev Whatever {α : Type} (_ : α) : Prop :=
  True

/-- The contract looks neither at the active calls nor at the way of a failure through them. -/
structure Contract.Untraced (C : Contract) : Prop where
  calls : ∀ w calls, C.world w → C.world { w with calls := calls }
  failure : ∀ d d', d'.fault = d.fault → C.failure d → C.failure d'

theorem Diagnostic.fault_withTrace (d : Diagnostic) (entry : TraceEntry) :
    (d.withTrace entry).fault = d.fault := by
  unfold Diagnostic.withTrace
  split <;> rfl

namespace Run.Meets

variable {C : Contract} {α β : Type} {Q : α → Prop} {S : β → Prop}

/-! ### Primitive computations -/

theorem done {a : α} (ha : Q a) : Meets C Q (Run.done a) :=
  ⟨fun _ hw => ⟨hw, ha⟩⟩

theorem observe {f : World → α} (hf : ∀ w, C.world w → Q (f w)) :
    Meets C Q fun w => .done (f w) w :=
  ⟨fun w hw => ⟨hw, hf w hw⟩⟩

theorem jump {j : Jump} (hj : C.jump j) : Meets C Q (jump j) :=
  ⟨fun _ hw => ⟨hw, hj⟩⟩

theorem fail {d : Diagnostic} (hd : C.failure d) : Meets C Q (fail d) :=
  ⟨fun _ hw => ⟨hw, hd⟩⟩

theorem exhausted (hc : C.cut) : Meets C Q exhausted :=
  ⟨fun _ hw => ⟨hw, hc⟩⟩

/-! ### Composition -/

theorem bind {x : Run α} {f : α → Run β} (hx : Meets C Q x) (hf : ∀ a, Q a → Meets C S (f a)) :
    Meets C S (x >>= f) := by
  refine ⟨fun w hw => ?_⟩
  have hfirst := hx.run w hw
  show (andThen x f w).Meets C S
  simp only [andThen]
  generalize x w = o at hfirst
  cases o with
  | done a w₁ => exact (hf a hfirst.2).run w₁ hfirst.1
  | jumped | failed | exhausted => exact hfirst

theorem discard {x : Run α} (hx : Meets C Q x) : Meets C Whatever (discard x) :=
  hx.bind fun _ _ => done trivial

theorem mapAll {f : α → Run β} {as : List α} (hf : ∀ a ∈ as, Meets C S (f a)) :
    Meets C (fun bs => ∀ b ∈ bs, S b) (mapAll f as) := by
  induction as with
  | nil => exact done fun _ hb => absurd hb List.not_mem_nil
  | cons a as ih =>
    obtain ⟨hfirst, hrest⟩ := List.forall_mem_cons.mp hf
    exact hfirst.bind fun b hb => (ih hrest).bind fun bs hbs =>
      done (List.forall_mem_cons.mpr ⟨hb, hbs⟩)

/-- More results and more jumps are as good. -/
theorem weaken {P : α → Prop} {K : Jump → Prop} {x : Run α} (hx : Meets C Q x)
    (hj : ∀ j, C.jump j → K j) (hq : ∀ a, Q a → P a) : Meets { C with jump := K } P x := by
  refine ⟨fun w hw => ?_⟩
  have hrun := hx.run w hw
  generalize x w = o at hrun
  cases o with
  | done a w₁ => exact ⟨hrun.1, hq a hrun.2⟩
  | jumped j w₁ => exact ⟨hrun.1, hj j hrun.2⟩
  | failed | exhausted => exact hrun

/-- What a computation jumps to is a result for the one that catches it. -/
theorem catchJump {K : Jump → Prop} {P : Except Jump α → Prop} {x : Run α}
    (hx : Meets { C with jump := K } Q x) (ha : ∀ a, Q a → P (.ok a))
    (hj : ∀ j, K j → P (.error j)) : Meets C P (catchJump x) := by
  refine ⟨fun w hw => ?_⟩
  have hrun := hx.run w hw
  simp only [Run.catchJump]
  generalize x w = o at hrun
  cases o with
  | done a w₁ => exact ⟨hrun.1, ha a hrun.2⟩
  | jumped j w₁ => exact ⟨hrun.1, hj j hrun.2⟩
  | failed | exhausted => exact hrun

/-! ### Failures on their way -/

theorem onFailure (hC : C.Untraced) {f : Diagnostic → Diagnostic}
    (hf : ∀ d, (f d).fault = d.fault) {x : Run α} (hx : Meets C Q x) :
    Meets C Q (onFailure f x) := by
  refine ⟨fun w hw => ?_⟩
  have hrun := hx.run w hw
  simp only [Run.onFailure]
  generalize x w = o at hrun
  cases o with
  | failed d w₁ => exact ⟨hrun.1, hC.failure d _ (hf d) hrun.2⟩
  | done | jumped | exhausted => exact hrun

theorem locatedAt (hC : C.Untraced) (p : Position) {x : Run α} (hx : Meets C Q x) :
    Meets C Q (locatedAt p x) :=
  onFailure (f := (·.orPosition p)) hC (fun _ => rfl) hx

theorem during (hC : C.Untraced) (entry : TraceEntry) {x : Run α} (hx : Meets C Q x) :
    Meets C Q (during entry x) := by
  refine ⟨fun w hw => ?_⟩
  have hrun := hx.run { w with calls := entry :: w.calls } (hC.calls w _ hw)
  simp only [Run.during]
  generalize x { w with calls := entry :: w.calls } = o at hrun
  cases o with
  | done | jumped => exact ⟨hC.calls _ _ hrun.1, hrun.2⟩
  | failed d w₁ => exact ⟨hrun.1, hC.failure d _ (d.fault_withTrace entry) hrun.2⟩
  | exhausted => exact hrun

end Run.Meets

end ScriptEngine
