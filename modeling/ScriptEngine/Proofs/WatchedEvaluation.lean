import ScriptEngine.Proofs.DiscreetRuns
import ScriptEngine.Proofs.TreeParts

/-! # Evaluation under a watch

The rules of evaluation are discreet up to the five that write a name, which do so at their very
end. So a machine that is cut off behind evaluations follows one that is not: both do the same until
the notification that is waited for, and there the value that it carries has just been stored. -/

namespace ScriptEngine

/-- The run was cut off at the notification that was waited for. -/
def Watch.CutOff (W : Watch) {α : Type} (o : Outcome α) : Prop :=
  ∃ w, o = .exhausted w ∧ ∃ x ∈ W.setter, x.Heard W.globals w

/-- The second computation does the same as the first one, which then ends in the worlds `E`, or it
is cut off at the notification. -/
structure Run.Follows {α : Type} (W : Watch) (E : World → Prop) (Q : α → Prop) (x x' : Run α) :
    Prop where
  run : ∀ w, W.Open w → (x' w = x w ∧ (x w).Meets (W.contract E) Q) ∨ W.CutOff (x' w)

/-- The second machine follows the first one in all that a rule refers to. -/
structure Machine.Follows (W : Watch) (m m' : Machine) : Prop where
  rounds : m'.rounds = m.rounds
  evaluate : ∀ node e, Run.Follows W W.Open (Value.Apart W.globals) (m.evaluate node e)
    (m'.evaluate node e)
  call : ∀ callee args e, callee.Apart W.globals → ValuesApart W.globals args →
    Run.Follows W W.Open (Value.Apart W.globals) (m.call callee args e) (m'.call callee args e)
  host : ∀ key args e, ValuesApart W.globals args →
    Run.Follows W W.Open (Value.Apart W.globals) (m.host key args e) (m'.host key args e)

namespace Run.Follows

variable {W : Watch} {E : World → Prop} {α β : Type} {Q : α → Prop} {S : β → Prop}

/-! ### Composition -/

theorem same {x : Run α} (hx : Discreet W Q x) : Follows W W.Open Q x x :=
  ⟨fun w hw => .inl ⟨rfl, hx.run w hw⟩⟩

theorem exhausted : Follows W W.Open Q Run.exhausted Run.exhausted :=
  same (Meets.exhausted trivial)

/-- More worlds and more results are as good. -/
theorem weaken {D : World → Prop} {P : α → Prop} {x x' : Run α} (hx : Follows W D Q x x')
    (hE : ∀ w, D w → E w) (hq : ∀ a, Q a → P a) : Follows W E P x x' := by
  refine ⟨fun w hw => (hx.run w hw).imp_left fun ⟨heq, hmeets⟩ => ⟨heq, ?_⟩⟩
  generalize x w = o at hmeets
  cases o with
  | done a w₁ => exact ⟨hE w₁ hmeets.1, hq a hmeets.2⟩
  | jumped j w₁ => exact ⟨hE w₁ hmeets.1, hmeets.2⟩
  | failed d w₁ => exact ⟨hE w₁ hmeets.1, trivial⟩
  | exhausted w₁ => exact ⟨hE w₁ hmeets.1, trivial⟩

theorem ignore {x x' : Run α} (hx : Follows W E Q x x') : Follows W E Whatever x x' :=
  hx.weaken (fun _ h => h) fun _ _ => trivial

theorem stored {x x' : Run α} (hx : Follows W W.Open Q x x') : Follows W W.Stored Q x x' :=
  hx.weaken (fun _ h => h.stored) fun _ h => h

theorem bindTo (hE : ∀ w, W.Open w → E w) {x x' : Run α} {f f' : α → Run β}
    (hx : Follows W W.Open Q x x') (hf : ∀ a, Q a → Follows W E S (f a) (f' a)) :
    Follows W E S (x >>= f) (x' >>= f') := by
  refine ⟨fun w hw => ?_⟩
  show (andThen x' f' w = andThen x f w ∧ (andThen x f w).Meets (W.contract E) S) ∨
    W.CutOff (andThen x' f' w)
  simp only [andThen]
  rcases hx.run w hw with ⟨heq, hmeets⟩ | ⟨v, hcut, hheard⟩
  · rw [heq]
    generalize x w = o at hmeets
    cases o with
    | done a w₁ => exact (hf a hmeets.2).run w₁ hmeets.1
    | jumped j w₁ => exact .inl ⟨rfl, hE w₁ hmeets.1, hmeets.2⟩
    | failed d w₁ => exact .inl ⟨rfl, hE w₁ hmeets.1, trivial⟩
    | exhausted w₁ => exact .inl ⟨rfl, hE w₁ hmeets.1, trivial⟩
  · rw [hcut]
    exact .inr ⟨v, rfl, hheard⟩

theorem bind {x x' : Run α} {f f' : α → Run β} (hx : Follows W W.Open Q x x')
    (hf : ∀ a, Q a → Follows W W.Open S (f a) (f' a)) :
    Follows W W.Open S (x >>= f) (x' >>= f') :=
  bindTo (fun _ h => h) hx hf

theorem after {x : Run α} {f f' : α → Run β} (hx : Discreet W Q x)
    (hf : ∀ a, Q a → Follows W W.Open S (f a) (f' a)) :
    Follows W W.Open S (x >>= f) (x >>= f') :=
  bind (same hx) hf

theorem before {x x' : Run α} {f : α → Run β} (hx : Follows W W.Open Q x x')
    (hf : ∀ a, Q a → Discreet W S (f a)) : Follows W W.Open S (x >>= f) (x' >>= f) :=
  bind hx fun a ha => same (hf a ha)

theorem discard {x x' : Run α} (hx : Follows W W.Open Q x x') :
    Follows W W.Open Whatever (discard x) (discard x') :=
  before hx fun _ _ => .done trivial

theorem mapAll {f f' : α → Run β} (hf : ∀ a, Follows W W.Open S (f a) (f' a)) (as : List α) :
    Follows W W.Open (fun bs => ∀ b ∈ bs, S b) (mapAll f as) (mapAll f' as) := by
  induction as with
  | nil => exact same (.done fun _ hb => absurd hb List.not_mem_nil)
  | cons a as ih =>
    exact bind (hf a) fun b hb => before ih fun bs hbs =>
      .done (List.forall_mem_cons.mpr ⟨hb, hbs⟩)

theorem around {x x' : Run α} (hx : Follows W W.Open Q x x') (F : Run α → Run β)
    (enter : World → World) (hF : ∀ y w, F y w = F (fun _ => y (enter w)) w)
    (hcut : ∀ v w, F (fun _ => .exhausted v) w = .exhausted v)
    (henter : ∀ w, W.Open w → W.Open (enter w))
    (hmeets : ∀ y, Discreet W Q y → Discreet W S (F y)) :
    Follows W W.Open S (F x) (F x') := by
  refine ⟨fun w hw => ?_⟩
  rw [hF x', hF x]
  rcases hx.run (enter w) (henter w hw) with ⟨heq, ho⟩ | ⟨v, hrun, hheard⟩
  · rw [heq]
    exact .inl ⟨rfl, (hmeets _ ⟨fun _ _ => ho⟩).run w hw⟩
  · rw [hrun]
    exact .inr ⟨v, hcut v w, hheard⟩

theorem onFailure {f : Diagnostic → Diagnostic} (hf : ∀ d, (f d).fault = d.fault)
    {x x' : Run α} (hx : Follows W W.Open Q x x') :
    Follows W W.Open Q (onFailure f x) (onFailure f x') :=
  hx.around _ id (fun _ _ => rfl) (fun _ _ => rfl) (fun _ hw => hw) fun _ hy =>
    Meets.onFailure W.contract_untraced hf hy

theorem locatedAt (p : Position) {x x' : Run α} (hx : Follows W W.Open Q x x') :
    Follows W W.Open Q (locatedAt p x) (locatedAt p x') :=
  hx.around _ id (fun _ _ => rfl) (fun _ _ => rfl) (fun _ hw => hw) fun _ hy => .locatedAt p hy

/-- A result or the jump that was caught instead. -/
def CaughtApart (g : ScopeRef) : Except Jump Value → Prop
  | .ok v => v.Apart g
  | .error j => j.Apart g

theorem catchJump {x x' : Run Value} (hx : Follows W W.Open (Value.Apart W.globals) x x') :
    Follows W W.Open (CaughtApart W.globals) (catchJump x) (catchJump x') :=
  hx.around _ id (fun _ _ => rfl) (fun _ _ => rfl) (fun _ hw => hw) fun _ hy =>
    Meets.catchJump hy (fun _ hv => hv) fun _ hj => hj

theorem during (entry : TraceEntry) {x x' : Run α} (hx : Follows W W.Open Q x x') :
    Follows W W.Open Q (during entry x) (during entry x') :=
  hx.around _ (fun w => { w with calls := entry :: w.calls }) (fun _ _ => rfl) (fun _ _ => rfl)
    (fun _ hw => hw.congr rfl rfl rfl rfl) fun _ hy => Meets.during W.contract_untraced entry hy

theorem withFrame {x x' : Run α} (hx : Follows W W.Open Q x x') :
    Follows W W.Open Q (withFrame x) (withFrame x') := by
  refine ⟨fun w hw => ?_⟩
  simp only [Run.withFrame]
  split
  · exact .inl ⟨rfl, hw, trivial⟩
  · rcases hx.run w.enter (hw.congr rfl rfl rfl rfl) with ⟨heq, hmeets⟩ | ⟨v, hcut, hheard⟩
    · rw [heq]
      refine .inl ⟨rfl, ?_⟩
      generalize x w.enter = o at hmeets
      cases o with
      | done | jumped | failed => exact ⟨hmeets.1.congr rfl rfl rfl rfl, hmeets.2⟩
      | exhausted => exact hmeets
    · rw [hcut]
      exact .inr ⟨v, rfl, hheard⟩

/-! ### Writing a name -/

theorem set (e : ScopeRef) (name : String) {v : Value} (hv : v.Apart W.globals) :
    Follows W W.Stored (Value.Apart W.globals) (Run.set e name v >>= fun _ => pure v)
      (Run.set e name v >>= fun _ => pure v) := by
  refine ⟨fun w hw => .inl ⟨rfl, ?_⟩⟩
  show Outcome.Meets _ _ (andThen (Run.set e name v) (fun _ => Run.done v) w)
  simp only [andThen, Run.set_eq]
  exact ⟨hw.write e name hv, hv⟩

theorem store (e : ScopeRef) (name : String) {v : Value} (hv : v.Apart W.globals) :
    Follows W W.Stored (Value.Apart W.globals)
      (Run.storage e >>= fun target => Run.set target name v >>= fun _ => pure v)
      (Run.storage e >>= fun target => Run.set target name v >>= fun _ => pure v) :=
  bindTo (fun _ h => h.stored) (same (.storage e)) fun target _ => set target name hv

variable {m m' : Machine}

/-! ### Operators and methods -/

theorem overload_apart {h : Heap} (hh : h.Apart W.globals) {e : ScopeRef} {op : Arithmetic}
    {method : Value} (hm : Operators.overload? h e op = some method) : method.Apart W.globals :=
  (hh.bindings e).of_get? (Option.filter_eq_some_iff.mp hm).1

theorem arithmetic (hm : m.Follows W m') (op : Arithmetic) (a : Value) {b : Value}
    (hb : b.Apart W.globals) :
    Follows W W.Open (Value.Apart W.globals) (Operators.arithmetic m op a b)
      (Operators.arithmetic m' op a b) := by
  unfold Operators.arithmetic
  split
  · exact same (.numberWith op _ _ b)
  · exact same (.numberWith op _ _ b)
  · exact same (.listWith op _ hb)
  · refine after .heap fun h hh => ?_
    split
    · rename_i hmethod
      exact hm.call _ _ _ (overload_apart hh hmethod) (.cons hb .nil)
    · exact same (.concatenated _ _)
    · exact same (.illegal _)
  · split
    · exact same (.concatenated _ _)
    · exact same (.illegal _)

theorem binary (hm : m.Follows W m') (op : BinaryOp) (a : Value) {b : Value}
    (hb : b.Apart W.globals) :
    Follows W W.Open (Value.Apart W.globals) (Operators.binary m op a b)
      (Operators.binary m' op a b) := by
  unfold Operators.binary
  split
  · exact arithmetic hm _ a hb
  all_goals
    exact same (Discreet.heap.bind fun _ _ => (Discreet.ofFault _).bind fun _ _ =>
      Discreet.newBool _)

theorem unary (hm : m.Follows W m') (op : UnaryOp) {a : Value} (ha : a.Apart W.globals) :
    Follows W W.Open (Value.Apart W.globals) (Operators.unary m op a)
      (Operators.unary m' op a) := by
  unfold Operators.unary
  split
  · exact same (.done ha)
  · refine after .heap fun h _ => ?_
    split
    · exact after (.newNumber _) fun _ hn => arithmetic hm _ a hn
    · exact same (.illegal a)
  · exact same ((Discreet.isTruthy a).bind fun _ _ => Discreet.newBool _)

theorem mapItems {call call' : Value → Run Value}
    (hc : ∀ v, v.Apart W.globals →
      Follows W W.Open (Value.Apart W.globals) (call v) (call' v))
    (l : ListRef) (rounds i : Nat) {results : Array Value}
    (hr : ValuesApart W.globals results.toList) :
    Follows W W.Open (fun vs => ValuesApart W.globals vs.toList)
      (Methods.mapItems call l rounds i results) (Methods.mapItems call' l rounds i results) := by
  induction rounds generalizing i results with
  | zero => exact exhausted
  | succ rounds ih =>
    refine after .heap fun h hh => ?_
    split
    · exact same (.done hr)
    · rename_i item hi
      have hitem := hh.items l item (Array.mem_toList_iff.mpr (Array.mem_of_getElem? hi))
      exact bind (hc item hitem) fun v hv => ih (i + 1) (hr.push hv)

theorem listMethod (hm : m.Follows W m') (method : ListMethod) (l : ListRef) {args : List Value}
    (ha : ValuesApart W.globals args) (scope : ScopeRef) :
    Follows W W.Open (Value.Apart W.globals) (Methods.listMethod m method l args scope)
      (Methods.listMethod m' method l args scope) := by
  unfold Methods.listMethod
  split
  · have hv := ha _ List.mem_cons_self
    refine same ((Discreet.modifyList l hv fun items a hm => ?_).bind fun _ _ => .done hv)
    rw [Array.toList_push] at hm
    exact (List.mem_append.mp hm).imp_right List.mem_singleton.mp
  · refine same ((Discreet.indexArg _ _).bind fun _ _ => Discreet.heap.bind fun h hh => ?_)
    exact (Discreet.checkedIndex _ _).bind fun i _ => .done (ValuesApart.getD (hh.items l) i)
  · have hv := ha _ (List.mem_cons_of_mem _ List.mem_cons_self)
    refine same ((Discreet.indexArg _ _).bind fun _ _ => Discreet.heap.bind fun _ _ =>
      (Discreet.checkedIndex _ _).bind fun i _ => ?_)
    refine (Discreet.modifyList l hv fun items a hm => ?_).bind fun _ _ => .done hv
    rw [Array.toList_setIfInBounds] at hm
    exact List.mem_or_eq_of_mem_set hm
  · have hv := ha _ (List.mem_cons_of_mem _ List.mem_cons_self)
    refine same ((Discreet.indexArg _ _).bind fun _ _ => Discreet.heap.bind fun _ _ =>
      (Discreet.checkedIndex _ _).bind fun i _ => ?_)
    refine (Discreet.modifyList l hv fun items a hm => ?_).bind fun _ _ => .done hv
    by_cases hle : i ≤ items.size
    · rw [Array.insertIdxIfInBounds, dif_pos hle, Array.toList_insertIdx] at hm
      exact ((List.mem_insertIdx (by simpa using hle)).mp hm).symm
    · rw [Array.insertIdxIfInBounds, dif_neg hle] at hm
      exact .inl hm
  · refine same ((Discreet.indexArg _ _).bind fun _ _ => Discreet.heap.bind fun h hh => ?_)
    refine (Discreet.checkedIndex _ _).bind fun i _ => ?_
    refine (Discreet.removeItems l fun items a hm => ?_).bind fun _ _ =>
      .done (ValuesApart.getD (hh.items l) i)
    rw [Array.toList_eraseIdxIfInBounds] at hm
    exact List.mem_of_mem_eraseIdx hm
  · refine same (Discreet.heap.bind fun h hh => ?_)
    split
    · exact Discreet.raise _
    · rename_i last hlast
      refine (Discreet.removeItems l fun items a hm => ?_).bind fun _ _ => .done ?_
      · rw [Array.toList_pop] at hm
        exact List.dropLast_subset _ hm
      · exact hh.items l last (Array.mem_toList_iff.mpr (Array.mem_of_back? hlast))
  · exact same (Discreet.heap.bind fun _ _ => Discreet.newText _)
  · refine same (Discreet.heap.bind fun h _ => ?_)
    split
    · exact Discreet.newNumber _
    · exact Discreet.newNumber _
  · refine same ((Discreet.removeItems l fun _ a hm => ?_).bind fun _ _ => .done trivial)
    cases hm
  · have hf := ha _ List.mem_cons_self
    split
    · rw [hm.rounds]
      refine before (mapItems (fun v hv => ?_) l _ 0 .nil) fun _ hvs => .newList hvs
      exact hm.call _ _ scope hf (.cons hv .nil)
    · exact same ((Discreet.display _).bind fun _ _ => Discreet.raise _)
  · exact same (Discreet.heap.bind fun _ _ => Discreet.newNumber _)
  · exact same (.done trivial)

/-! ### Programs -/

theorem runStatements (hm : m.Follows W m') (e : ScopeRef) (statements : List Node)
    {last : Value} (hl : last.Apart W.globals) :
    Follows W W.Open (Value.Apart W.globals) (Evaluation.runStatements m e statements last)
      (Evaluation.runStatements m' e statements last) := by
  induction statements generalizing last with
  | nil => exact same (.done hl)
  | cons statement more ih =>
    refine bind (catchJump (hm.evaluate statement e)) fun result hresult => ?_
    split
    · exact ih hresult
    · exact same (.done hresult)
    · exact same (.fail _)
    · exact same (.fail _)

theorem runProgram (hm : m.Follows W m') (root : Node) (e : ScopeRef) :
    Follows W W.Open (Value.Apart W.globals) (Evaluation.runProgram m root e)
      (Evaluation.runProgram m' root e) := by
  have hnull : Value.null.Apart W.globals := trivial
  cases root with
  | sequence pos statements => exact runStatements hm e statements hnull
  | _ => exact runStatements hm e _ hnull

theorem runSource (hm : m.Follows W m') (source : String) (e : ScopeRef)
    (name : Option String) :
    Follows W W.Open (Value.Apart W.globals) (Evaluation.runSource m source e name)
      (Evaluation.runSource m' source e name) :=
  after (.ofExcept _) fun root _ => runProgram hm root e

/-! ### Instances -/

theorem runBody (hm : m.Follows W m') (c : Class) (args : List Value) {scope : ScopeRef}
    (hs : W.Unwatched scope) :
    Follows W W.Open Whatever (Evaluation.runBody m c args scope)
      (Evaluation.runBody m' c args scope) := by
  unfold Evaluation.runBody
  split
  · exact same (.done trivial)
  · refine same ((Discreet.display _).bind fun path _ =>
      (Discreet.boundMethods _ fun _ _ => ?_).bind fun _ he => Discreet.defineAll hs he)
    trivial
  · refine before (catchJump (hm.evaluate _ scope)) fun result _ => ?_
    split
    · exact .done trivial
    · exact .done trivial
    · exact .raise _
    · exact .raise _

theorem implicitParent {build build' : List Value → ScopeRef → Run ScopeRef}
    (hb : ∀ args e, ValuesApart W.globals args →
      Follows W W.Open (· ≠ W.globals) (build args e) (build' args e))
    (c parent : Class) {args : List Value} (ha : ValuesApart W.globals args) {scope : ScopeRef}
    (hs : W.Unwatched scope) :
    Follows W W.Open Whatever (Evaluation.implicitParent build c parent args scope)
      (Evaluation.implicitParent build' c parent args scope) := by
  refine after .heap fun h _ => ?_
  split
  · split
    · exact before (hb args scope ha) fun parentScope _ =>
        (Discreet.mergeMissing hs parentScope).bind fun _ _ => Discreet.adopt c hs parentScope
    · exact same (.remove _ _)
  · exact same (.done trivial)

/-- The instance is a scope of its own, and so are those of the ancestors. -/
theorem instantiate (hm : m.Follows W m') (c : Class) {args : List Value}
    (ha : ValuesApart W.globals args) (e : ScopeRef) :
    Follows W W.Open (· ≠ W.globals) (Evaluation.instantiate m c args e)
      (Evaluation.instantiate m' c args e) := by
  obtain ⟨stamp, name, params, body, parent⟩ := c
  cases parent with
  | none =>
    refine after (.checkArity _ _ args) fun _ _ => withFrame ?_
    refine after (.openInstance _ ha e) fun scope hscope => ?_
    exact before (runBody hm _ args (Watch.unwatched_of_ne hscope)) fun _ _ => .done hscope
  | some parent =>
    refine after (.checkArity _ _ args) fun _ _ => withFrame ?_
    refine after (.openInstance _ ha e) fun scope hscope => ?_
    have hfree := Watch.unwatched_of_ne hscope
    refine bind (runBody hm _ args hfree) fun _ _ =>
      before (Q := Whatever) ?_ fun _ _ => .done hscope
    exact implicitParent (fun args e ha => instantiate hm parent ha e) _ parent ha hfree
termination_by structural c

theorem buildParent (hm : m.Follows W m') (parent child : Class) {target : ScopeRef}
    (ht : target ≠ W.globals) {args : List Value} (ha : ValuesApart W.globals args) :
    Follows W W.Open (Value.Apart W.globals) (Evaluation.buildParent m parent child target args)
      (Evaluation.buildParent m' parent child target args) := by
  have hfree := Watch.unwatched_of_ne ht
  refine after .isFreed fun freed _ => ?_
  split
  · exact same (.raise _)
  · exact before (instantiate hm parent ha target) fun parentScope _ =>
      (Discreet.mergeInto hfree parentScope).bind fun _ _ =>
        (Discreet.adopt child hfree parentScope).bind fun _ _ => .done trivial

/-! ### Inclusion -/

theorem runIncluded (hm : m.Follows W m') (pos : Position) (path : String) (scope : ScopeRef)
    (sources : List IncludedSource) :
    Follows W W.Open Whatever (Evaluation.runIncluded m pos path scope sources)
      (Evaluation.runIncluded m' pos path scope sources) := by
  induction sources with
  | nil => exact same (.done trivial)
  | cons source more ih =>
    exact after (.setOrigin scope (some source.name)) fun _ _ =>
      bind (discard (during _ (runSource hm source.text scope _))) fun _ _ => ih

/-- The bindings of a source are copied into the scope that includes it without telling anybody. -/
theorem includePath (hW : W.setter = none) (hm : m.Follows W m') (pos : Position) (path : String)
    (e : ScopeRef) :
    Follows W W.Open (Value.Apart W.globals) (Evaluation.includePath m pos path e)
      (Evaluation.includePath m' pos path e) := by
  refine after .world fun w _ => after (.locatedAt pos (.ofExcept _)) fun sources _ => ?_
  refine after (.newScope .nil) fun scope _ => before (runIncluded hm pos path scope sources) ?_
  exact fun _ _ => (Discreet.storage e).bind fun target _ =>
    (Discreet.mergeInto (Watch.unwatched_of_none hW target) scope).bind fun _ _ => .done trivial

/-! ### Calls -/

theorem builtin (hm : m.Follows W m') (b : Builtin) {args : List Value}
    (ha : ValuesApart W.globals args) (scope : ScopeRef) :
    Follows W W.Open (Value.Apart W.globals) (Builtins.run m b args scope)
      (Builtins.run m' b args scope) := by
  unfold Builtins.run
  split
  · exact same ((Discreet.display _).bind fun _ _ => (Discreet.print _).bind fun _ _ =>
      .done trivial)
  · exact same ((Discreet.numberArg _ _).bind fun _ _ =>
      .bind (Discreet.modify fun _ => ⟨rfl, rfl, rfl, rfl⟩) fun _ _ => .done trivial)
  · exact after (.programText _) fun code _ => after .heap fun h _ => runSource hm code _ _
  · exact same (Discreet.heap.bind fun _ _ => (Discreet.remove _ _).bind fun _ _ =>
      .done trivial)
  · have hv := ha _ List.mem_cons_self
    split
    · exact same ((Discreet.spawn hv).bind fun _ _ => .done trivial)
    · exact same ((Discreet.spawn hv).bind fun _ _ => .done trivial)
    · exact same ((Discreet.display _).bind fun _ _ => Discreet.raise _)
  · exact same ((Discreet.draw _).bind fun _ _ => Discreet.newNumber _)
  · exact same ((Discreet.numberArg _ _).bind fun _ _ => (Discreet.numberArg _ _).bind fun _ _ =>
      (Discreet.randomBetween _ _).bind fun _ _ => Discreet.newNumber _)
  · exact same (Discreet.readLine.bind fun _ _ => Discreet.newText _)
  · refine same (Discreet.readLine.bind fun line _ => ?_)
    dsimp only
    split
    · exact Discreet.newNumber _
    · exact Discreet.raise _
  · refine same (Meets.bind (Meets.mapAll fun v _ => Discreet.numberArg _ v) fun xs _ => ?_)
    split
    · exact (Discreet.ofFault _).bind fun _ _ => Discreet.newNumber _
    · exact .done trivial

theorem instantiateValue (hm : m.Follows W m') (v : Value) {args : List Value}
    (ha : ValuesApart W.globals args) (e : ScopeRef) :
    Follows W W.Open Whatever (Builtins.instantiateValue m v args e)
      (Builtins.instantiateValue m' v args e) := by
  unfold Builtins.instantiateValue
  split
  · exact (instantiate hm _ ha e).ignore
  · exact same ((Discreet.display _).bind fun _ _ => Discreet.raise _)

theorem runHost (hm : m.Follows W m') (behavior : HostBehavior) {args : List Value}
    (ha : ValuesApart W.globals args) (scope : ScopeRef) :
    Follows W W.Open (Value.Apart W.globals) (Builtins.runHost m behavior args scope)
      (Builtins.runHost m' behavior args scope) := by
  have hfirst : (args.headD .null).Apart W.globals := by
    cases args with
    | nil => trivial
    | cons v vs => exact ha v List.mem_cons_self
  have hrest : ValuesApart W.globals args.tail := fun v hv => ha v (List.mem_of_mem_tail hv)
  unfold Builtins.runHost
  dsimp only
  split
  · exact same (.newList ha)
  · exact same (.done hfirst)
  · exact same (.done trivial)
  · exact same (.newNumber _)
  · exact same (.bind (Discreet.modify fun _ => ⟨rfl, rfl, rfl, rfl⟩) fun _ _ => .done trivial)
  · exact same (.fail _)
  · exact same (.newText _)
  · exact same ((Discreet.spawn hfirst).bind fun _ _ => Discreet.world.bind fun _ _ =>
      Discreet.newNumber _)
  · exact hm.call _ _ scope hfirst hrest
  · exact before (instantiateValue hm _ hrest scope) fun _ _ => .done trivial
  · exact same (Discreet.heap.bind fun _ _ => Discreet.newTexts _)
  · refine same (Discreet.heap.bind fun h _ => ?_)
    split
    · exact Discreet.newText _
    · exact .done trivial
  · exact hm.host _ args scope ha

theorem callFunction (hm : m.Follows W m') (f : Lambda) (closure : ScopeRef) {args : List Value}
    (ha : ValuesApart W.globals args) :
    Follows W W.Open (Value.Apart W.globals) (Evaluation.callFunction m f closure args)
      (Evaluation.callFunction m' f closure args) := by
  refine after (.checkArity _ _ args) fun _ _ => after (.newFrame _ _ _ ha) fun scope _ => ?_
  refine before (withFrame (catchJump (hm.evaluate f.body scope))) fun result hresult => ?_
  split
  · refine .done ?_
    split
    · trivial
    · exact hresult
  · exact .done hresult
  · exact .raise _
  · exact .raise _

theorem runNative (hm : m.Follows W m') {n : Native} {stamp : Nat}
    (hn : (Value.native stamp n).Apart W.globals) {args : List Value}
    (ha : ValuesApart W.globals args) (scope : ScopeRef) :
    Follows W W.Open (Value.Apart W.globals) (Evaluation.runNative m n args scope)
      (Evaluation.runNative m' n args scope) := by
  cases n with
  | builtin b => exact builtin hm b ha scope
  | textMethod method receiver => exact same (.textMethod method receiver args)
  | listMethod method receiver => exact listMethod hm method receiver ha scope
  | fileMethod method path => exact same (.fileMethod method path args)
  | superCall parent child target => exact buildParent hm parent child hn ha
  | host name params behavior => exact runHost hm behavior ha scope

theorem callValue (hm : m.Follows W m') {callee : Value} (hc : callee.Apart W.globals)
    {args : List Value} (ha : ValuesApart W.globals args) (e : ScopeRef) :
    Follows W W.Open (Value.Apart W.globals) (Evaluation.callValue m callee args e)
      (Evaluation.callValue m' callee args e) := by
  unfold Evaluation.callValue
  split
  · exact callFunction hm _ _ ha
  · exact after (.checkArity _ _ args) fun _ _ => after (.newFrame _ _ _ ha) fun scope _ =>
      withFrame (runNative hm hc ha scope)
  · exact before (instantiate hm _ ha e) fun _ _ => .done trivial
  · exact same (.done hc)

/-! ### Loops -/

def OfRound (g : ScopeRef) : Evaluation.Round → Prop
  | .value v => v.Apart g
  | .skipped => True
  | .last => True

theorem runRound {body body' : Run Value}
    (hb : Follows W W.Open (Value.Apart W.globals) body body') :
    Follows W W.Open (OfRound W.globals) (Evaluation.runRound body)
      (Evaluation.runRound body') := by
  refine before (catchJump hb) fun result hresult => ?_
  split
  · exact .done hresult
  · exact .done trivial
  · exact .done trivial
  · exact Meets.jump hresult

theorem countRounds {body body' : Single → Run Value}
    (hb : ∀ i, Follows W W.Open (Value.Apart W.globals) (body i) (body' i))
    (r : Evaluation.Range) (rounds : Nat) (i : Single) {results : Array Value}
    (hr : ValuesApart W.globals results.toList) :
    Follows W W.Open (fun vs => ValuesApart W.globals vs.toList)
      (Evaluation.countRounds body r rounds i results)
      (Evaluation.countRounds body' r rounds i results) := by
  induction rounds generalizing i results with
  | zero => exact exhausted
  | succ rounds ih =>
    unfold Evaluation.countRounds
    split
    · refine bind (runRound (hb i)) fun round hround => ?_
      cases round with
      | value v => exact ih _ (hr.push hround)
      | skipped => exact ih _ hr
      | last => exact same (.done hr)
    · exact same (.done hr)

theorem eachRounds {body body' : Value → Run Value}
    (hb : ∀ v, v.Apart W.globals →
      Follows W W.Open (Value.Apart W.globals) (body v) (body' v))
    (l : ListRef) (rounds i : Nat) {results : Array Value}
    (hr : ValuesApart W.globals results.toList) :
    Follows W W.Open (fun vs => ValuesApart W.globals vs.toList)
      (Evaluation.eachRounds body l rounds i results)
      (Evaluation.eachRounds body' l rounds i results) := by
  induction rounds generalizing i results with
  | zero => exact exhausted
  | succ rounds ih =>
    refine after .heap fun h hh => ?_
    split
    · exact same (.done hr)
    · rename_i item hi
      have hitem := hh.items l item (Array.mem_toList_iff.mpr (Array.mem_of_getElem? hi))
      refine bind (runRound (hb item hitem)) fun round hround => ?_
      cases round with
      | value v => exact ih _ (hr.push hround)
      | skipped => exact ih _ hr
      | last => exact same (.done hr)

theorem whileRounds {condition condition' body body' : Run Value}
    (hc : Follows W W.Open (Value.Apart W.globals) condition condition')
    (hb : Follows W W.Open (Value.Apart W.globals) body body') (rounds : Nat)
    {results : Array Value} (hr : ValuesApart W.globals results.toList) :
    Follows W W.Open (fun vs => ValuesApart W.globals vs.toList)
      (Evaluation.whileRounds condition body rounds results)
      (Evaluation.whileRounds condition' body' rounds results) := by
  induction rounds generalizing results with
  | zero => exact exhausted
  | succ rounds ih =>
    refine bind hc fun value _ => after (.isTruthy value) fun truthy _ => ?_
    split
    · refine bind (runRound hb) fun round hround => ?_
      cases round with
      | value v => exact ih (hr.push hround)
      | skipped => exact ih hr
      | last => exact same (.done hr)
    · exact same (.done hr)

theorem loopBound (hm : m.Follows W m') (what : String) (node : Node) (e : ScopeRef) :
    Follows W W.Open Whatever (Evaluation.loopBound m what node e)
      (Evaluation.loopBound m' what node e) := by
  refine before (hm.evaluate node e) fun value _ => ?_
  split
  · exact .done trivial
  · exact (Discreet.display value).bind fun _ _ => Discreet.fail _

theorem loopStep (hm : m.Follows W m') (start stop : Single) (step : Option Node)
    (e : ScopeRef) :
    Follows W W.Open Whatever (Evaluation.loopStep m start stop step e)
      (Evaluation.loopStep m' start stop step e) := by
  cases step with
  | none => exact same (.done trivial)
  | some node => exact loopBound hm _ node e

theorem evalCount (hm : m.Follows W m') (name : String) (start stop : Node)
    (step : Option Node) (braced : Bool) (body : Node) (e : ScopeRef) :
    Follows W W.Open (Value.Apart W.globals)
      (Evaluation.evalCount m name start stop step braced body e)
      (Evaluation.evalCount m' name start stop step braced body e) := by
  refine bind (loopBound hm _ start e) fun first _ => bind (loopBound hm _ stop e) fun last _ =>
    bind (loopStep hm first last step e) fun by_ _ => ?_
  split
  · exact same (.fail _)
  · refine after (.innerScope e) fun scope hscope => ?_
    rw [hm.rounds]
    refine before (countRounds (fun i => ?_) _ _ _ .nil) fun _ hr => .loopResult braced hr
    exact after (.newNumber i) fun _ hv =>
      after (.define (Watch.unwatched_of_ne hscope) name hv) fun _ _ => hm.evaluate body scope

theorem evalEach (hm : m.Follows W m') (name : String) (items : Node) (braced : Bool)
    (body : Node) (e : ScopeRef) :
    Follows W W.Open (Value.Apart W.globals) (Evaluation.evalEach m name items braced body e)
      (Evaluation.evalEach m' name items braced body e) := by
  refine bind (hm.evaluate items e) fun value _ => ?_
  cases value with
  | list l =>
    refine after (.innerScope e) fun scope hscope => ?_
    rw [hm.rounds]
    refine before (eachRounds (fun v hv => ?_) _ _ _ .nil) fun _ hr => .loopResult braced hr
    exact after (.define (Watch.unwatched_of_ne hscope) name hv) fun _ _ =>
      hm.evaluate body scope
  | _ => exact same ((Discreet.display _).bind fun _ _ => Discreet.fail _)

theorem evalWhile (hm : m.Follows W m') (condition : Node) (braced : Bool) (body : Node)
    (e : ScopeRef) :
    Follows W W.Open (Value.Apart W.globals) (Evaluation.evalWhile m condition braced body e)
      (Evaluation.evalWhile m' condition braced body e) := by
  refine after (.innerScope e) fun scope _ => ?_
  rw [hm.rounds]
  exact before (whileRounds (hm.evaluate condition e) (hm.evaluate body scope) _ .nil)
    fun _ hr => .loopResult braced hr

/-! ### Choices -/

theorem evalBranch (hm : m.Follows W m') (braced : Bool) (body : Node) (e : ScopeRef) :
    Follows W W.Open (Value.Apart W.globals) (Evaluation.evalBranch m braced body e)
      (Evaluation.evalBranch m' braced body e) := by
  refine after (.innerScope e) fun scope _ => before (hm.evaluate body scope) fun v hv =>
    .done ?_
  split
  · trivial
  · exact hv

theorem evalArms (hm : m.Follows W m') (e : ScopeRef) (arms : Arms) :
    Follows W W.Open (Value.Apart W.globals) (Evaluation.evalArms m e arms)
      (Evaluation.evalArms m' e arms) := by
  cases arms with
  | done => exact same (.done trivial)
  | otherwise braced body => exact evalBranch hm braced body e
  | arm condition braced body more =>
    refine bind (hm.evaluate condition e) fun value _ => after (.isTruthy value) fun _ _ => ?_
    split
    · exact evalBranch hm braced body e
    · exact evalArms hm e more

/-! ### Names and definitions -/

theorem evalUpdate (hm : m.Follows W m') (name : String) (op : Arithmetic) (value : Node)
    (pos : Position) (e : ScopeRef) :
    Follows W W.Stored (Value.Apart W.globals) (Evaluation.evalUpdate m name op value pos e)
      (Evaluation.evalUpdate m' name op value pos e) := by
  have hopen : ∀ w, W.Open w → W.Stored w := fun _ h => h.stored
  refine bindTo hopen (hm.evaluate value e) fun operand hoperand =>
    bindTo hopen (same (.owner e name)) fun target _ =>
      bindTo hopen (same (.get target name)) fun current _ => ?_
  exact bindTo hopen (locatedAt pos (arithmetic hm op _ hoperand)) fun result hresult =>
    set target name hresult

theorem evalAll (hm : m.Follows W m') (nodes : List Node) (e : ScopeRef) :
    Follows W W.Open (ValuesApart W.globals) (Evaluation.evalAll m nodes e)
      (Evaluation.evalAll m' nodes e) :=
  mapAll (fun node => hm.evaluate node e) nodes

theorem evalFunction (f : Lambda) (e : ScopeRef) :
    Follows W W.Stored (Value.Apart W.globals) (Evaluation.evalFunction f e)
      (Evaluation.evalFunction f e) := by
  refine bindTo (fun _ h => h.stored) (same (.newFunction f e)) fun value hv => ?_
  split
  · exact store e _ hv
  · exact stored (same (.done hv))

theorem evalObject (name : String) (params : List String) (parent : Option String) (body : Node)
    (pos : Position) (e : ScopeRef) :
    Follows W W.Stored (Value.Apart W.globals)
      (Evaluation.evalObject name params parent body pos e)
      (Evaluation.evalObject name params parent body pos e) := by
  have hdefine : ∀ c : Option Class, Follows W W.Stored (Value.Apart W.globals)
      (Run.newClass name params (.script body) c >>= fun value =>
        Run.storage e >>= fun target => Run.set target name value >>= fun _ => pure value)
      (Run.newClass name params (.script body) c >>= fun value =>
        Run.storage e >>= fun target => Run.set target name value >>= fun _ => pure value) :=
    fun c => bindTo (fun _ h => h.stored) (same (.newClass name params _ c)) fun _ hv =>
      store e name hv
  unfold Evaluation.evalObject
  split
  · exact bindTo (fun _ h => h.stored) (same (.lookupClass _ pos e)) fun c _ =>
      hdefine (some c)
  · exact hdefine none

/-! ### Calls and accesses -/

theorem evalCall (hm : m.Follows W m') (callee : Node) (args : List Node) (pos : Position)
    (e : ScopeRef) :
    Follows W W.Open (Value.Apart W.globals) (Evaluation.evalCall m callee args pos e)
      (Evaluation.evalCall m' callee args pos e) := by
  refine bind (hm.evaluate callee e) fun f hf => ?_
  split
  · exact bind (evalAll hm args e) fun values hvalues =>
      during _ (locatedAt pos (callValue hm hf hvalues e))
  · exact same (.done hf)

theorem evalCreate (hm : m.Follows W m') (name : String) (args : List Node) (pos : Position)
    (e : ScopeRef) :
    Follows W W.Open (Value.Apart W.globals) (Evaluation.evalCreate m name args pos e)
      (Evaluation.evalCreate m' name args pos e) := by
  refine after (.lookupClass name pos e) fun c _ => bind (evalAll hm args e) ?_
  exact fun values hvalues => during _ (locatedAt pos
    (before (instantiate hm c hvalues e) fun _ _ => .done trivial))

theorem evalSegments (hm : m.Follows W m') (segments : List Node) {value : Value}
    (hv : value.Apart W.globals) (e : ScopeRef) :
    Follows W W.Open (Value.Apart W.globals) (Evaluation.evalSegments m segments value e)
      (Evaluation.evalSegments m' segments value e) := by
  induction segments generalizing value e with
  | nil => exact same (.done hv)
  | cons segment more ih =>
    exact after (.memberScope value) fun members _ => after (.memberView members e) fun view _ =>
      bind (hm.evaluate segment view) fun _ hnext => ih hnext view

theorem evalMembers (hm : m.Follows W m') (segments : List Node) (e : ScopeRef) :
    Follows W W.Open (Value.Apart W.globals) (Evaluation.evalMembers m segments e)
      (Evaluation.evalMembers m' segments e) := by
  cases segments with
  | nil => exact same (.done trivial)
  | cons first more =>
    exact bind (hm.evaluate first e) fun _ hv => evalSegments hm more hv e

theorem evalInclude (hW : W.setter = none) (hm : m.Follows W m') (pos : Position) (e : ScopeRef)
    (paths : List Node) {last : Value} (hl : last.Apart W.globals) :
    Follows W W.Open (Value.Apart W.globals) (Evaluation.evalInclude m pos e paths last)
      (Evaluation.evalInclude m' pos e paths last) := by
  induction paths generalizing last with
  | nil => exact same (.done hl)
  | cons node more ih =>
    exact bind (hm.evaluate node e) fun value _ => after (.display value) fun path _ =>
      bind (includePath hW hm pos path e) fun _ hnext => ih hnext

theorem evalSequence (hm : m.Follows W m') (e : ScopeRef) (statements : List Node) :
    Follows W W.Open Whatever (Evaluation.evalSequence m e statements)
      (Evaluation.evalSequence m' e statements) := by
  induction statements with
  | nil => exact same (.done trivial)
  | cons statement more ih => exact bind (discard (hm.evaluate statement e)) fun _ _ => ih

/-! ### Nodes -/

/-- A rule that writes a name may have come to the notification when it ends; for all others the
setter is still waiting. -/
theorem evalNode (hm : m.Follows W m') (node : Node)
    (hi : node.isInclude = true → W.setter = none) (e : ScopeRef) :
    Follows W W.Stored (Value.Apart W.globals) (Evaluation.evalNode m node e)
      (Evaluation.evalNode m' node e) := by
  have hopen : ∀ w, W.Open w → W.Stored w := fun _ h => h.stored
  cases node with
  | number pos value => exact stored (same (.newNumber value))
  | text pos value => exact stored (same (.newText value))
  | list pos items => exact stored (before (evalAll hm items e) fun _ hvs => .newList hvs)
  | binary pos op left right =>
    exact stored (bind (hm.evaluate left e) fun a _ => bind (hm.evaluate right e) fun b hb =>
      locatedAt pos (binary hm op a hb))
  | unary pos op operand =>
    exact stored (bind (hm.evaluate operand e) fun a ha => locatedAt pos (unary hm op ha))
  | read pos name => exact stored (same (.evalRead name pos e))
  | this pos => exact stored (same ((Discreet.storage e).bind fun _ _ => .done trivial))
  | declare pos name value =>
    exact bindTo hopen (hm.evaluate value e) fun _ hv => store e name hv
  | assign pos name value =>
    exact bindTo hopen (hm.evaluate value e) fun _ hv =>
      bindTo hopen (same (.owner e name)) fun target _ => set target name hv
  | update pos name op value => exact evalUpdate hm name op value pos e
  | choose pos arms => exact stored (evalArms hm e arms)
  | count pos name start stop step braced body =>
    exact stored (evalCount hm name start stop step braced body e)
  | each pos name items braced body => exact stored (evalEach hm name items braced body e)
  | loop pos condition braced body => exact stored (evalWhile hm condition braced body e)
  | function pos name params braced body => exact evalFunction ⟨name, params, braced, body⟩ e
  | call pos callee args => exact stored (evalCall hm callee args pos e)
  | sequence pos statements =>
    exact stored (before (evalSequence hm e statements) fun _ _ =>
      (Discreet.storage e).bind fun _ _ => .done trivial)
  | members pos segments => exact stored (evalMembers hm segments e)
  | object pos name params parent body => exact evalObject name params parent body pos e
  | create pos name args => exact stored (evalCreate hm name args pos e)
  | return_ pos value =>
    cases value with
    | none => exact stored (same (Meets.jump (j := .return_ .null) trivial))
    | some value =>
      exact stored (before (hm.evaluate value e) fun v hv => Meets.jump (j := .return_ v) hv)
  | continue_ pos => exact stored (same (Meets.jump (j := .continue_) trivial))
  | break_ pos => exact stored (same (Meets.jump (j := .break_) trivial))
  | include_ pos paths =>
    have hnull : Value.null.Apart W.globals := trivial
    exact stored (evalInclude (hi rfl) hm pos e paths hnull)

/-- A program that was told to stop does not come to its includes. -/
theorem evalUnlessStopped (hm : m.Follows W m') (node : Node) (e : ScopeRef) {w : World}
    (hw : W.Open w) (hi : node.isInclude = true → w.stopped = false → W.setter = none) :
    (Evaluation.evalUnlessStopped m' node e w = Evaluation.evalUnlessStopped m node e w ∧
      (Evaluation.evalUnlessStopped m node e w).Meets (W.contract W.Stored)
        (Value.Apart W.globals)) ∨
    W.CutOff (Evaluation.evalUnlessStopped m' node e w) := by
  simp only [Evaluation.evalUnlessStopped]
  split
  · exact .inl ⟨rfl, hw.stored, trivial⟩
  · rename_i hstopped
    exact (evalNode hm node (fun h => hi h (Bool.eq_false_iff.mpr hstopped)) e).run w hw

end Run.Follows

end ScriptEngine
