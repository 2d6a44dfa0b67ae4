import ScriptEngine.Proofs.ClosedProperties
import ScriptEngine.Proofs.EqualRuns

/-! # Call depth

Calls are counted while they are active. However a computation ends, it leaves the count as it
found it, and the count never passes the limit of the world, also in a computation that is cut off
before it ends. -/

namespace ScriptEngine

/-! ### What a computation may do to the count -/

/-- The limit stays. The mark of the most calls that were active at once only rises, and not
beyond the limit. -/
structure WithinLimit (w w' : World) : Prop where
  limit : w'.maxDepth = w.maxDepth
  rises : w.deepest ≤ w'.deepest
  peak : w'.deepest ≤ max w.deepest w.maxDepth

/-- A computation that ended has restored the count; one that was cut off is within the limit. -/
def DepthKept {α : Type} (w : World) : Outcome α → Prop
  | .done _ w' => w'.depth = w.depth ∧ WithinLimit w w'
  | .jumped _ w' => w'.depth = w.depth ∧ WithinLimit w w'
  | .failed _ w' => w'.depth = w.depth ∧ WithinLimit w w'
  | .exhausted w' => w'.depth ≤ w.maxDepth ∧ WithinLimit w w'

/-- Started within the limit, the computation keeps the count. -/
def KeepsDepth (α : Type) (x : Run α) : Prop :=
  ∀ w : World, w.depth ≤ w.maxDepth → DepthKept w (x w)

namespace WithinLimit

theorem refl (w : World) : WithinLimit w w :=
  ⟨rfl, Nat.le_refl _, Nat.le_max_left _ _⟩

theorem trans {w₁ w₂ w₃ : World} (h₁ : WithinLimit w₁ w₂) (h₂ : WithinLimit w₂ w₃) :
    WithinLimit w₁ w₃ := by
  have hlimit := h₁.limit
  have hpeak₁ := h₁.peak
  have hpeak₂ := h₂.peak
  refine ⟨h₂.limit.trans h₁.limit, Nat.le_trans h₁.rises h₂.rises, ?_⟩
  omega

/-- A frame that was admitted stays within the limit. -/
theorem enter {w w' : World} (hroom : w.depth < w.maxDepth) (h : WithinLimit w.enter w') :
    WithinLimit w w' := by
  have hrises := h.rises
  have hpeak := h.peak
  have henter : w.enter.deepest = max w.deepest (w.depth + 1) := rfl
  have hlimit : w.enter.maxDepth = w.maxDepth := rfl
  refine ⟨h.limit, ?_, ?_⟩
  · omega
  · omega

end WithinLimit

/-- What is kept from a world that an earlier step led to is kept from the world before it. -/
theorem DepthKept.after {α : Type} {w w₁ : World} (hdepth : w₁.depth = w.depth)
    (hwithin : WithinLimit w w₁) {o : Outcome α} (ho : DepthKept w₁ o) : DepthKept w o := by
  cases o with
  | done a w₂ => exact ⟨ho.1.trans hdepth, hwithin.trans ho.2⟩
  | jumped j w₂ => exact ⟨ho.1.trans hdepth, hwithin.trans ho.2⟩
  | failed d w₂ => exact ⟨ho.1.trans hdepth, hwithin.trans ho.2⟩
  | exhausted w₂ => exact ⟨hwithin.limit ▸ ho.1, hwithin.trans ho.2⟩

/-! ### Every computation keeps the count -/

namespace KeepsDepth

open Run

variable {α β : Type}

theorem of_unchanged {x : Run α}
    (hx : ∀ w, ∃ a w', x w = .done a w' ∧
      w'.depth = w.depth ∧ w'.maxDepth = w.maxDepth ∧ w'.deepest = w.deepest) :
    KeepsDepth α x := by
  intro w _
  obtain ⟨a, w', hrun, hdepth, hlimit, hpeak⟩ := hx w
  rw [hrun]
  refine ⟨hdepth, hlimit, ?_, ?_⟩
  · exact Nat.le_of_eq hpeak.symm
  · rw [hpeak]
    exact Nat.le_max_left _ _

theorem bind {x : Run α} {f : α → Run β} (hx : KeepsDepth α x)
    (hf : ∀ a, KeepsDepth β (f a)) : KeepsDepth β (x >>= f) := by
  intro w hw
  have hfirst := hx w hw
  show DepthKept w (andThen x f w)
  simp only [andThen]
  cases hr : x w with
  | done a w₁ =>
    rw [hr] at hfirst
    obtain ⟨hdepth, hwithin⟩ := hfirst
    have hroom : w₁.depth ≤ w₁.maxDepth := by
      rw [hdepth, hwithin.limit]
      exact hw
    exact (hf a w₁ hroom).after hdepth hwithin
  | jumped j w₁ =>
    rw [hr] at hfirst
    exact hfirst
  | failed d w₁ =>
    rw [hr] at hfirst
    exact hfirst
  | exhausted w₁ =>
    rw [hr] at hfirst
    exact hfirst

theorem onFailure (f : Diagnostic → Diagnostic) {x : Run α} (hx : KeepsDepth α x) :
    KeepsDepth α (onFailure f x) := by
  intro w hw
  have hrun := hx w hw
  simp only [Run.onFailure]
  cases hr : x w <;> rw [hr] at hrun <;> exact hrun

theorem catchJump {x : Run α} (hx : KeepsDepth α x) :
    KeepsDepth (Except Jump α) (catchJump x) := by
  intro w hw
  have hrun := hx w hw
  simp only [Run.catchJump]
  cases hr : x w <;> rw [hr] at hrun <;> exact hrun

theorem during (entry : TraceEntry) {x : Run α} (hx : KeepsDepth α x) :
    KeepsDepth α (during entry x) := by
  intro w hw
  have hrun := hx { w with calls := entry :: w.calls } hw
  simp only [Run.during]
  cases hr : x { w with calls := entry :: w.calls } <;> rw [hr] at hrun <;>
    exact ⟨hrun.1, hrun.2.limit, hrun.2.rises, hrun.2.peak⟩

/-- A frame is entered only with room for it and left however its body ends. -/
theorem withFrame {x : Run α} (hx : KeepsDepth α x) : KeepsDepth α (withFrame x) := by
  intro w hw
  simp only [Run.withFrame]
  by_cases hfull : w.maxDepth ≤ w.depth
  · rw [if_pos hfull]
    exact ⟨rfl, .refl w⟩
  · rw [if_neg hfull]
    have hroom : w.depth < w.maxDepth := Nat.lt_of_not_le hfull
    have hrun := hx w.enter hroom
    have hleave : ∀ w' : World, w'.depth = w.enter.depth ∧ WithinLimit w.enter w' →
        w'.leave.depth = w.depth ∧ WithinLimit w w'.leave := by
      intro w' hk
      have hwithin := WithinLimit.enter hroom hk.2
      refine ⟨?_, hwithin.limit, hwithin.rises, hwithin.peak⟩
      show w'.depth - 1 = w.depth
      rw [hk.1]
      exact Nat.add_sub_cancel _ _
    cases hr : x w.enter with
    | done a w' =>
      rw [hr] at hrun
      exact hleave w' hrun
    | jumped j w' =>
      rw [hr] at hrun
      exact hleave w' hrun
    | failed d w' =>
      rw [hr] at hrun
      exact hleave w' hrun
    | exhausted w' =>
      rw [hr] at hrun
      exact ⟨hrun.1, WithinLimit.enter hroom hrun.2⟩

theorem closed : Closed KeepsDepth where
  done a := of_unchanged fun w => ⟨a, w, rfl, rfl, rfl, rfl⟩
  bind := bind
  observe f := of_unchanged fun w => ⟨f w, w, rfl, rfl, rfl, rfl⟩
  make f := of_unchanged fun w => ⟨_, _, rfl, rfl, rfl, rfl⟩
  outside f g hg := of_unchanged fun w => ⟨f w, g w, rfl, by rw [hg w], by rw [hg w], by rw [hg w]⟩
  noteRead _ := of_unchanged fun _ => ⟨_, _, rfl, rfl, rfl, rfl⟩
  noteWrote _ _ _ _ := of_unchanged fun _ => ⟨_, _, rfl, rfl, rfl, rfl⟩
  spawn _ := of_unchanged fun _ => ⟨_, _, rfl, rfl, rfl, rfl⟩
  jump _ := fun w _ => ⟨rfl, .refl w⟩
  fail _ := fun w _ => ⟨rfl, .refl w⟩
  exhausted := fun w hw => ⟨hw, .refl w⟩
  onFailure := onFailure
  catchJump := catchJump
  withFrame := withFrame
  during := during

end KeepsDepth

/-! ### Calls are counted -/

/-- Where the computation ends with a value, more calls were active on the way than before. -/
def CountsCall {α : Type} (x : Run α) : Prop :=
  ∀ w : World, w.depth ≤ w.maxDepth → ∀ a w', x w = .done a w' → w.depth < w'.deepest

namespace CountsCall

variable {α β : Type} {x : Run α} {f : α → Run β}

theorem withFrame (hx : KeepsDepth α x) : CountsCall (Run.withFrame x) := by
  intro w hw a w' hrun
  simp only [Run.withFrame] at hrun
  split at hrun
  · cases hrun
  · rename_i hroom
    have hbody := hx w.enter (Nat.lt_of_not_le hroom)
    have henter : w.enter.deepest = max w.deepest (w.depth + 1) := rfl
    generalize x w.enter = o at hrun hbody
    cases o <;> cases hrun
    have hrises := hbody.2.rises
    rw [henter] at hrises
    exact Nat.lt_of_lt_of_le (Nat.lt_succ_self _) (Nat.le_trans (Nat.le_max_right _ _) hrises)

theorem after (hx : KeepsDepth α x) (hf : ∀ a, CountsCall (f a)) : CountsCall (x >>= f) := by
  intro w hw b w' hrun
  have hfirst := hx w hw
  change Run.andThen x f w = .done b w' at hrun
  simp only [Run.andThen] at hrun
  generalize x w = o at hrun hfirst
  cases o with
  | done a w₁ =>
    obtain ⟨hdepth, hwithin⟩ := hfirst
    have hroom : w₁.depth ≤ w₁.maxDepth := by
      rw [hdepth, hwithin.limit]
      exact hw
    exact hdepth ▸ hf a w₁ hroom b w' hrun
  | _ => cases hrun

theorem before (hx : CountsCall x) (hkeeps : KeepsDepth α x) (hf : ∀ a, KeepsDepth β (f a)) :
    CountsCall (x >>= f) := by
  intro w hw b w' hrun
  have hcounts := hx w hw
  have hfirst := hkeeps w hw
  change Run.andThen x f w = .done b w' at hrun
  simp only [Run.andThen] at hrun
  generalize x w = o at hrun hcounts hfirst
  cases o with
  | done a w₁ =>
    obtain ⟨hdepth, hwithin⟩ := hfirst
    have hroom : w₁.depth ≤ w₁.maxDepth := by
      rw [hdepth, hwithin.limit]
      exact hw
    have hlater := hf a w₁ hroom
    change f a w₁ = .done b w' at hrun
    rw [hrun] at hlater
    exact Nat.lt_of_lt_of_le (hcounts a w₁ rfl) hlater.2.rises
  | _ => cases hrun

section Calls

open KeepsDepth

variable {m : Machine} (hm : m.Has KeepsDepth)
include hm

theorem instantiate (c : Class) (args : List Value) (e : ScopeRef) :
    CountsCall (Evaluation.instantiate m c args e) := by
  obtain ⟨stamp, name, params, body, parent⟩ := c
  cases parent with
  | none =>
    exact after (closed.checkArity _ _ args) fun _ => withFrame <|
      bind (closed.openInstance _ args e) fun scope =>
        bind (closed.runBody hm _ args scope) fun _ => closed.done _
  | some parent =>
    exact after (closed.checkArity _ _ args) fun _ => withFrame <|
      bind (closed.openInstance _ args e) fun scope =>
        bind (closed.runBody hm _ args scope) fun _ =>
          bind (closed.implicitParent (fun args e => closed.instantiate hm parent args e) _ parent
            args scope) fun _ => closed.done _

theorem callFunction (f : Lambda) (closure : ScopeRef) (args : List Value) :
    CountsCall (Evaluation.callFunction m f closure args) := by
  refine after (closed.checkArity _ _ args) fun _ => after (closed.newScope _) fun scope => ?_
  have hbody := KeepsDepth.catchJump (hm.evaluate f.body scope)
  refine before (withFrame hbody) (KeepsDepth.withFrame hbody) fun result => ?_
  split
  · exact closed.done _
  · exact closed.done _
  · exact closed.raise _
  · exact closed.raise _

theorem callValue {callee : Value} (hcallee : callee.isCallable = true) (args : List Value)
    (e : ScopeRef) : CountsCall (Evaluation.callValue m callee args e) := by
  cases callee with
  | function stamp f closure => exact callFunction hm f closure args
  | native stamp n =>
    exact after (closed.checkArity _ _ args) fun _ => after (closed.newScope _) fun scope =>
      withFrame (closed.runNative hm n args scope)
  | cls c =>
    exact before (instantiate hm c args e) (closed.instantiate hm c args e) fun _ => closed.done _
  | _ => cases hcallee

end Calls

end CountsCall

/-! ### The count of active calls -/

/-- Evaluating a node, calling a value, building an instance and running a source restore the
number of active calls however they end, and never pass the limit on the way, if the callbacks of
the host change it only through the machine. -/
theorem depth_balanced (callbacks : Callbacks) (hcallbacks : callbacks.Keep KeepsDepth) (n : Nat)
    (w : World) (hw : w.depth ≤ w.maxDepth) :
    (∀ node e, DepthKept w ((Evaluation.machineWith callbacks n).evaluate node e w)) ∧
    (∀ callee args e, DepthKept w
      (Evaluation.callValue (Evaluation.machineWith callbacks n) callee args e w)) ∧
    (∀ c args e, DepthKept w
      (Evaluation.instantiate (Evaluation.machineWith callbacks n) c args e w)) ∧
    (∀ source e name, DepthKept w
      (Evaluation.runSource (Evaluation.machineWith callbacks n) source e name w)) := by
  have hmachine := KeepsDepth.closed.machineWith hcallbacks n
  refine ⟨?_, ?_, ?_, ?_⟩
  · intro node e
    exact hmachine.evaluate node e w hw
  · intro callee args e
    exact KeepsDepth.closed.callValue hmachine callee args e w hw
  · intro c args e
    exact KeepsDepth.closed.instantiate hmachine c args e w hw
  · intro source e name
    exact KeepsDepth.closed.runSource hmachine source e name w hw

theorem Callbacks.keepDepth_twice : Callbacks.twice.Keep KeepsDepth := fun _ hself _ _ _ =>
  KeepsDepth.bind (KeepsDepth.closed.discard (hself.call _ _ _)) fun _ => hself.call _ _ _

/-- Three calls are active when a fourth one is refused: that of `f`, that of the host, and that of
`f` by the host. -/
theorem depth_balanced_at_limit :
    let w : World := { World.answering "h" ["f"] with maxDepth := 3 }
    let o := Evaluation.runSource (Evaluation.machineWith .twice 12) "function f(): h(f)\nf()" ⟨0⟩
      none w
    w.depth ≤ w.maxDepth ∧ DepthKept w o ∧ o.diagnostic?.any (·.fault = .tooDeep 3) = true ∧
      o.world.depth = 0 ∧ o.world.deepest = 3 := by
  refine ⟨by decide, (depth_balanced .twice Callbacks.keepDepth_twice 12 _ (by decide)).2.2.2 _ _ _,
    ?_, ?_, ?_⟩ <;> decide +kernel

/-- What is called or built runs in a frame of its own. It does not depend on what the machine does
where no more calls are active than before, or more than may be, and where it ends with a value its
frame was counted. -/
theorem bodies_run_in_frames (callbacks : Callbacks) (hcallbacks : callbacks.Keep KeepsDepth)
    (hexact : callbacks.Lockstep .exact) (n : Nat) (w : World) (hw : w.depth ≤ w.maxDepth)
    {other : Machine} (hother : other.AgreesWhere
      (fun v => w.depth < v.depth ∧ v.depth ≤ w.maxDepth) (Evaluation.machineWith callbacks n)) :
    (∀ callee args e, Evaluation.callValue other callee args e w =
      Evaluation.callValue (Evaluation.machineWith callbacks n) callee args e w) ∧
    (∀ c args e, Evaluation.instantiate other c args e w =
      Evaluation.instantiate (Evaluation.machineWith callbacks n) c args e w) ∧
    (∀ callee args e v w', callee.isCallable = true →
      Evaluation.callValue other callee args e w = .done v w' → w.depth < w'.deepest) ∧
    (∀ c args e scope w', Evaluation.instantiate other c args e w = .done scope w' →
      w.depth < w'.deepest) := by
  have hinside : (Evaluation.machineWith callbacks n).LockstepInside .exact w.frame other :=
    fun d hlower hupper => hother.lockstep hexact fun v hv => by
      have hdepth : v.depth = d := congrArg Frame.depth hv
      exact ⟨hdepth ▸ hlower, hdepth ▸ hupper⟩
  have hcall : ∀ callee args e, Evaluation.callValue other callee args e w =
      Evaluation.callValue (Evaluation.machineWith callbacks n) callee args e w := by
    intro callee args e
    have hcall : Run.Lockstep .exact w.frame w.heap.extent _ _ _ := .callValue hinside
      (callee.alike_exact _) (forall₂_of_refl (Value.alike_exact _) args) e
    exact hcall.eq_of_exact fun _ _ _ hv => hv.eq
  have hcreate : ∀ c args e, Evaluation.instantiate other c args e w =
      Evaluation.instantiate (Evaluation.machineWith callbacks n) c args e w := by
    intro c args e
    have hcreate : Run.Lockstep .exact w.frame w.heap.extent _ _ _ := .instantiate hinside
      (.refl Likeness.exact_keepsIdentities _ c) (forall₂_of_refl (Value.alike_exact _) args) e
    exact hcreate.eq_of_exact fun _ _ _ hscope => hscope
  have hmachine := KeepsDepth.closed.machineWith hcallbacks n
  refine ⟨hcall, hcreate, ?_, ?_⟩
  · intro callee args e v w' hcallee hrun
    exact CountsCall.callValue hmachine hcallee args e w hw v w' (hcall callee args e ▸ hrun)
  · intro c args e scope w' hrun
    exact CountsCall.instantiate hmachine c args e w hw scope w' (hcreate c args e ▸ hrun)

end ScriptEngine
