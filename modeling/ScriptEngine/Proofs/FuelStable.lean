import ScriptEngine.Engine

/-! # Fuel only cuts off

A machine with more fuel does what one with less does, unless that one was cut off. So the outcomes
of a program with more and more fuel do not change any more once it ends by itself. -/

namespace ScriptEngine

/-- The second computation does the same, unless the first one is cut off. -/
def Run.Approximates {α : Type} (x y : Run α) : Prop :=
  ∀ w, (∃ w', x w = .exhausted w') ∨ y w = x w

structure Machine.Approximates (m m' : Machine) : Prop where
  rounds : m.rounds ≤ m'.rounds
  evaluate : ∀ node e, (m.evaluate node e).Approximates (m'.evaluate node e)
  call : ∀ callee args e, (m.call callee args e).Approximates (m'.call callee args e)
  host : ∀ key args e, (m.host key args e).Approximates (m'.host key args e)

namespace Run.Approximates

variable {α β : Type}

/-! ### Composition -/

theorem refl (x : Run α) : x.Approximates x :=
  fun _ => .inr rfl

theorem exhausted (y : Run α) : Run.exhausted.Approximates y :=
  fun w => .inl ⟨w, rfl⟩

theorem bind {x x' : Run α} {f f' : α → Run β} (hx : x.Approximates x')
    (hf : ∀ a, (f a).Approximates (f' a)) : (x >>= f).Approximates (x' >>= f') := by
  intro w
  show (∃ w', andThen x f w = .exhausted w') ∨ andThen x' f' w = andThen x f w
  simp only [andThen]
  rcases hx w with ⟨w₁, hcut⟩ | heq
  · rw [hcut]
    exact .inl ⟨w₁, rfl⟩
  · rw [heq]
    cases x w with
    | done a w₁ => exact hf a w₁
    | jumped j w₁ => exact .inr rfl
    | failed d w₁ => exact .inr rfl
    | exhausted w₁ => exact .inr rfl

theorem after (x : Run α) {f f' : α → Run β} (hf : ∀ a, (f a).Approximates (f' a)) :
    (x >>= f).Approximates (x >>= f') :=
  bind (refl x) hf

theorem before {x x' : Run α} (hx : x.Approximates x') (f : α → Run β) :
    (x >>= f).Approximates (x' >>= f) :=
  bind hx fun a => refl (f a)

theorem around {x x' : Run α} (hx : x.Approximates x') (F : Run α → Run β)
    (enter : World → World) (hF : ∀ y w, F y w = F (fun _ => y (enter w)) w)
    (hcut : ∀ v w, F (fun _ => .exhausted v) w = .exhausted v) : (F x).Approximates (F x') := by
  intro w
  rw [hF x, hF x']
  rcases hx (enter w) with ⟨v, hrun⟩ | heq
  · rw [hrun]
    exact .inl ⟨v, hcut v w⟩
  · rw [heq]
    exact .inr rfl

theorem onFailure (f : Diagnostic → Diagnostic) {x x' : Run α} (hx : x.Approximates x') :
    (onFailure f x).Approximates (onFailure f x') :=
  hx.around _ id (fun _ _ => rfl) fun _ _ => rfl

theorem locatedAt (p : Position) {x x' : Run α} (hx : x.Approximates x') :
    (locatedAt p x).Approximates (locatedAt p x') :=
  hx.onFailure _

theorem catchJump {x x' : Run α} (hx : x.Approximates x') :
    (catchJump x).Approximates (catchJump x') :=
  hx.around _ id (fun _ _ => rfl) fun _ _ => rfl

theorem during (entry : TraceEntry) {x x' : Run α} (hx : x.Approximates x') :
    (during entry x).Approximates (during entry x') :=
  hx.around _ (fun w => { w with calls := entry :: w.calls }) (fun _ _ => rfl) fun _ _ => rfl

theorem withFrame {x x' : Run α} (hx : x.Approximates x') :
    (withFrame x).Approximates (withFrame x') := by
  intro w
  simp only [Run.withFrame]
  split
  · exact .inr rfl
  · rcases hx w.enter with ⟨w₁, hcut⟩ | heq
    · rw [hcut]
      exact .inl ⟨w₁, rfl⟩
    · rw [heq]
      exact .inr rfl

theorem mapAll {f f' : α → Run β} (hf : ∀ a, (f a).Approximates (f' a)) (as : List α) :
    (mapAll f as).Approximates (mapAll f' as) := by
  induction as with
  | nil => exact refl _
  | cons a as ih => exact bind (hf a) fun _ => before ih _

variable {m m' : Machine}

/-! ### Operators and methods -/

theorem arithmetic (hm : m.Approximates m') (op : Arithmetic) (a b : Value) :
    (Operators.arithmetic m op a b).Approximates (Operators.arithmetic m' op a b) := by
  cases a with
  | instance_ e =>
    refine after _ fun h => ?_
    cases Operators.overload? h e op with
    | none => cases op <;> exact refl _
    | some method => exact hm.call method [b] e
  | _ => exact refl _

theorem binary (hm : m.Approximates m') (op : BinaryOp) (a b : Value) :
    (Operators.binary m op a b).Approximates (Operators.binary m' op a b) := by
  cases op with
  | arithmetic op => exact arithmetic hm op a b
  | _ => exact refl _

theorem unary (hm : m.Approximates m') (op : UnaryOp) (a : Value) :
    (Operators.unary m op a).Approximates (Operators.unary m' op a) := by
  cases op with
  | negate =>
    refine after _ fun h => ?_
    split
    · exact after _ fun _ => arithmetic hm _ a _
    · exact refl _
  | _ => exact refl _

theorem mapItems {call call' : Value → Run Value} (hc : ∀ v, (call v).Approximates (call' v))
    (l : ListRef) {rounds rounds' : Nat} (hr : rounds ≤ rounds') (i : Nat)
    (results : Array Value) :
    (Methods.mapItems call l rounds i results).Approximates
      (Methods.mapItems call' l rounds' i results) := by
  induction rounds generalizing rounds' i results with
  | zero => exact exhausted _
  | succ rounds ih =>
    obtain ⟨more, rfl⟩ : ∃ more, rounds' = more + 1 := ⟨rounds' - 1, by omega⟩
    refine after _ fun h => ?_
    split
    · exact refl _
    · exact bind (hc _) fun _ => ih (Nat.le_of_succ_le_succ hr) _ _

theorem listMethod (hm : m.Approximates m') (method : ListMethod) (l : ListRef)
    (args : List Value) (scope : ScopeRef) :
    (Methods.listMethod m method l args scope).Approximates
      (Methods.listMethod m' method l args scope) := by
  unfold Methods.listMethod
  split
  case h_10 function =>
    split
    · exact before (mapItems (fun item => hm.call function [item] scope) l hm.rounds 0 #[]) _
    · exact refl _
  all_goals exact refl _

/-! ### Programs and instances -/

theorem runStatements (hm : m.Approximates m') (e : ScopeRef) (statements : List Node)
    (last : Value) :
    (Evaluation.runStatements m e statements last).Approximates
      (Evaluation.runStatements m' e statements last) := by
  induction statements generalizing last with
  | nil => exact refl _
  | cons statement more ih =>
    refine bind (catchJump (hm.evaluate statement e)) fun result => ?_
    split
    · exact ih _
    · exact refl _
    · exact refl _
    · exact refl _

theorem runProgram (hm : m.Approximates m') (root : Node) (e : ScopeRef) :
    (Evaluation.runProgram m root e).Approximates (Evaluation.runProgram m' root e) := by
  cases root with
  | sequence pos statements => exact runStatements hm e statements .null
  | _ => exact runStatements hm e _ .null

theorem runSource (hm : m.Approximates m') (source : String) (e : ScopeRef)
    (name : Option String) :
    (Evaluation.runSource m source e name).Approximates
      (Evaluation.runSource m' source e name) :=
  after _ fun root => runProgram hm root e

theorem runBody (hm : m.Approximates m') (c : Class) (args : List Value) (scope : ScopeRef) :
    (Evaluation.runBody m c args scope).Approximates
      (Evaluation.runBody m' c args scope) := by
  unfold Evaluation.runBody
  split
  · exact refl _
  · exact refl _
  · exact before (catchJump (hm.evaluate _ scope)) _

theorem implicitParent {build build' : List Value → ScopeRef → Run ScopeRef}
    (hb : ∀ args e, (build args e).Approximates (build' args e)) (c parent : Class)
    (args : List Value) (scope : ScopeRef) :
    (Evaluation.implicitParent build c parent args scope).Approximates
      (Evaluation.implicitParent build' c parent args scope) := by
  refine after _ fun h => ?_
  split
  · split
    · exact before (hb args scope) _
    · exact refl _
  · exact refl _

theorem instantiate (hm : m.Approximates m') (c : Class) (args : List Value) (e : ScopeRef) :
    (Evaluation.instantiate m c args e).Approximates
      (Evaluation.instantiate m' c args e) := by
  obtain ⟨stamp, name, params, body, parent⟩ := c
  cases parent with
  | none =>
    exact after _ fun _ => withFrame (after _ fun scope => before (runBody hm _ args scope) _)
  | some parent =>
    refine after _ fun _ => withFrame (after _ fun scope => ?_)
    refine bind (runBody hm _ args scope) fun _ => before ?_ _
    exact implicitParent (fun args e => instantiate hm parent args e) _ parent args scope
termination_by structural c

theorem buildParent (hm : m.Approximates m') (parent child : Class) (target : ScopeRef)
    (args : List Value) :
    (Evaluation.buildParent m parent child target args).Approximates
      (Evaluation.buildParent m' parent child target args) := by
  refine after _ fun freed => ?_
  split
  · exact refl _
  · exact before (instantiate hm parent args target) _

theorem runIncluded (hm : m.Approximates m') (pos : Position) (path : String) (scope : ScopeRef)
    (sources : List IncludedSource) :
    (Evaluation.runIncluded m pos path scope sources).Approximates
      (Evaluation.runIncluded m' pos path scope sources) := by
  induction sources with
  | nil => exact refl _
  | cons source more ih =>
    refine after _ fun _ => bind (before (during _ ?_) _) fun _ => ih
    exact runSource hm source.text scope (some source.name)

theorem includePath (hm : m.Approximates m') (pos : Position) (path : String) (e : ScopeRef) :
    (Evaluation.includePath m pos path e).Approximates
      (Evaluation.includePath m' pos path e) :=
  after _ fun _ => after _ fun sources => after _ fun scope =>
    before (runIncluded hm pos path scope sources) _

/-! ### Calls -/

theorem builtin (hm : m.Approximates m') (b : Builtin) (args : List Value) (scope : ScopeRef) :
    (Builtins.run m b args scope).Approximates (Builtins.run m' b args scope) := by
  unfold Builtins.run
  split
  case h_3 v => exact after _ fun code => after _ fun h => runSource hm code _ _
  all_goals exact refl _

theorem runHost (hm : m.Approximates m') (behavior : HostBehavior) (args : List Value)
    (scope : ScopeRef) :
    (Builtins.runHost m behavior args scope).Approximates
      (Builtins.runHost m' behavior args scope) := by
  cases behavior with
  | call => exact hm.call _ _ scope
  | instantiate =>
    refine before ?_ _
    show (Builtins.instantiateValue m (args.headD .null) args.tail scope).Approximates
      (Builtins.instantiateValue m' (args.headD .null) args.tail scope)
    cases args.headD .null with
    | cls c => exact instantiate hm c args.tail scope
    | _ => exact refl _
  | callback key => exact hm.host key args scope
  | _ => exact refl _

theorem callFunction (hm : m.Approximates m') (f : Lambda) (closure : ScopeRef)
    (args : List Value) :
    (Evaluation.callFunction m f closure args).Approximates
      (Evaluation.callFunction m' f closure args) :=
  after _ fun _ => after _ fun scope => before (withFrame (catchJump (hm.evaluate f.body scope))) _

theorem runNative (hm : m.Approximates m') (n : Native) (args : List Value) (scope : ScopeRef) :
    (Evaluation.runNative m n args scope).Approximates
      (Evaluation.runNative m' n args scope) := by
  cases n with
  | builtin b => exact builtin hm b args scope
  | textMethod method receiver => exact refl _
  | listMethod method receiver => exact listMethod hm method receiver args scope
  | fileMethod method path => exact refl _
  | superCall parent child target => exact buildParent hm parent child target args
  | host name params behavior => exact runHost hm behavior args scope

theorem callValue (hm : m.Approximates m') (callee : Value) (args : List Value) (e : ScopeRef) :
    (Evaluation.callValue m callee args e).Approximates
      (Evaluation.callValue m' callee args e) := by
  cases callee with
  | function stamp f closure => exact callFunction hm f closure args
  | native stamp n =>
    exact after _ fun _ => after _ fun scope => withFrame (runNative hm n args scope)
  | cls c => exact before (instantiate hm c args e) _
  | _ => exact refl _

/-! ### Loops -/

theorem runRound {body body' : Run Value} (hb : body.Approximates body') :
    (Evaluation.runRound body).Approximates (Evaluation.runRound body') :=
  before (catchJump hb) _

theorem countRounds {body body' : Single → Run Value}
    (hb : ∀ i, (body i).Approximates (body' i)) (r : Evaluation.Range) {rounds rounds' : Nat}
    (hr : rounds ≤ rounds') (i : Single) (results : Array Value) :
    (Evaluation.countRounds body r rounds i results).Approximates
      (Evaluation.countRounds body' r rounds' i results) := by
  induction rounds generalizing rounds' i results with
  | zero => exact exhausted _
  | succ rounds ih =>
    obtain ⟨more, rfl⟩ : ∃ more, rounds' = more + 1 := ⟨rounds' - 1, by omega⟩
    have hle := Nat.le_of_succ_le_succ hr
    unfold Evaluation.countRounds
    split
    · refine bind (runRound (hb i)) fun round => ?_
      cases round with
      | value v => exact ih hle _ _
      | skipped => exact ih hle _ _
      | last => exact refl _
    · exact refl _

theorem eachRounds {body body' : Value → Run Value}
    (hb : ∀ v, (body v).Approximates (body' v)) (l : ListRef) {rounds rounds' : Nat}
    (hr : rounds ≤ rounds') (i : Nat) (results : Array Value) :
    (Evaluation.eachRounds body l rounds i results).Approximates
      (Evaluation.eachRounds body' l rounds' i results) := by
  induction rounds generalizing rounds' i results with
  | zero => exact exhausted _
  | succ rounds ih =>
    obtain ⟨more, rfl⟩ : ∃ more, rounds' = more + 1 := ⟨rounds' - 1, by omega⟩
    have hle := Nat.le_of_succ_le_succ hr
    refine after _ fun h => ?_
    split
    · exact refl _
    · refine bind (runRound (hb _)) fun round => ?_
      cases round with
      | value v => exact ih hle _ _
      | skipped => exact ih hle _ _
      | last => exact refl _

theorem whileRounds {condition condition' body body' : Run Value}
    (hc : condition.Approximates condition') (hb : body.Approximates body')
    {rounds rounds' : Nat} (hr : rounds ≤ rounds') (results : Array Value) :
    (Evaluation.whileRounds condition body rounds results).Approximates
      (Evaluation.whileRounds condition' body' rounds' results) := by
  induction rounds generalizing rounds' results with
  | zero => exact exhausted _
  | succ rounds ih =>
    obtain ⟨more, rfl⟩ : ∃ more, rounds' = more + 1 := ⟨rounds' - 1, by omega⟩
    have hle := Nat.le_of_succ_le_succ hr
    refine bind hc fun value => after _ fun truthy => ?_
    split
    · refine bind (runRound hb) fun round => ?_
      cases round with
      | value v => exact ih hle _
      | skipped => exact ih hle _
      | last => exact refl _
    · exact refl _

theorem loopBound (hm : m.Approximates m') (what : String) (node : Node) (e : ScopeRef) :
    (Evaluation.loopBound m what node e).Approximates
      (Evaluation.loopBound m' what node e) :=
  before (hm.evaluate node e) _

theorem loopStep (hm : m.Approximates m') (start stop : Single) (step : Option Node)
    (e : ScopeRef) :
    (Evaluation.loopStep m start stop step e).Approximates
      (Evaluation.loopStep m' start stop step e) := by
  cases step with
  | none => exact refl _
  | some node => exact loopBound hm _ node e

theorem evalCount (hm : m.Approximates m') (name : String) (start stop : Node)
    (step : Option Node) (braced : Bool) (body : Node) (e : ScopeRef) :
    (Evaluation.evalCount m name start stop step braced body e).Approximates
      (Evaluation.evalCount m' name start stop step braced body e) := by
  refine bind (loopBound hm _ start e) fun first => bind (loopBound hm _ stop e) fun last =>
    bind (loopStep hm first last step e) fun by_ => ?_
  split
  · exact refl _
  · refine after _ fun scope => before (countRounds (fun i => ?_) _ hm.rounds _ _) _
    exact after _ fun _ => after _ fun _ => hm.evaluate body scope

theorem evalEach (hm : m.Approximates m') (name : String) (items : Node) (braced : Bool)
    (body : Node) (e : ScopeRef) :
    (Evaluation.evalEach m name items braced body e).Approximates
      (Evaluation.evalEach m' name items braced body e) := by
  refine bind (hm.evaluate items e) fun value => ?_
  cases value with
  | list l =>
    refine after _ fun scope => before (eachRounds (fun v => ?_) l hm.rounds _ _) _
    exact after _ fun _ => hm.evaluate body scope
  | _ => exact refl _

theorem evalWhile (hm : m.Approximates m') (condition : Node) (braced : Bool) (body : Node)
    (e : ScopeRef) :
    (Evaluation.evalWhile m condition braced body e).Approximates
      (Evaluation.evalWhile m' condition braced body e) :=
  after _ fun scope => before
    (whileRounds (hm.evaluate condition e) (hm.evaluate body scope) hm.rounds _) _

/-! ### Nodes -/

theorem evalBranch (hm : m.Approximates m') (braced : Bool) (body : Node) (e : ScopeRef) :
    (Evaluation.evalBranch m braced body e).Approximates
      (Evaluation.evalBranch m' braced body e) :=
  after _ fun scope => before (hm.evaluate body scope) _

theorem evalArms (hm : m.Approximates m') (e : ScopeRef) (arms : Arms) :
    (Evaluation.evalArms m e arms).Approximates (Evaluation.evalArms m' e arms) := by
  cases arms with
  | done => exact refl _
  | otherwise braced body => exact evalBranch hm braced body e
  | arm condition braced body more =>
    refine bind (hm.evaluate condition e) fun value => after _ fun truthy => ?_
    split
    · exact evalBranch hm braced body e
    · exact evalArms hm e more

theorem evalUpdate (hm : m.Approximates m') (name : String) (op : Arithmetic) (value : Node)
    (pos : Position) (e : ScopeRef) :
    (Evaluation.evalUpdate m name op value pos e).Approximates
      (Evaluation.evalUpdate m' name op value pos e) :=
  bind (hm.evaluate value e) fun _ => after _ fun _ => after _ fun _ =>
    before (locatedAt pos (arithmetic hm op _ _)) _

theorem evalAll (hm : m.Approximates m') (nodes : List Node) (e : ScopeRef) :
    (Evaluation.evalAll m nodes e).Approximates (Evaluation.evalAll m' nodes e) :=
  mapAll (fun node => hm.evaluate node e) nodes

theorem evalCall (hm : m.Approximates m') (callee : Node) (args : List Node) (pos : Position)
    (e : ScopeRef) :
    (Evaluation.evalCall m callee args pos e).Approximates
      (Evaluation.evalCall m' callee args pos e) := by
  refine bind (hm.evaluate callee e) fun f => ?_
  split
  · exact bind (evalAll hm args e) fun values =>
      during _ (locatedAt pos (callValue hm f values e))
  · exact refl _

theorem evalCreate (hm : m.Approximates m') (name : String) (args : List Node) (pos : Position)
    (e : ScopeRef) :
    (Evaluation.evalCreate m name args pos e).Approximates
      (Evaluation.evalCreate m' name args pos e) :=
  after _ fun c => bind (evalAll hm args e) fun values =>
    during _ (locatedAt pos (before (instantiate hm c values e) _))

theorem evalSegments (hm : m.Approximates m') (segments : List Node) (value : Value)
    (e : ScopeRef) :
    (Evaluation.evalSegments m segments value e).Approximates
      (Evaluation.evalSegments m' segments value e) := by
  induction segments generalizing value e with
  | nil => exact refl _
  | cons segment more ih =>
    exact after _ fun _ => after _ fun view => bind (hm.evaluate segment view) fun next =>
      ih next view

theorem evalMembers (hm : m.Approximates m') (segments : List Node) (e : ScopeRef) :
    (Evaluation.evalMembers m segments e).Approximates
      (Evaluation.evalMembers m' segments e) := by
  cases segments with
  | nil => exact refl _
  | cons first more => exact bind (hm.evaluate first e) fun value => evalSegments hm more value e

theorem evalInclude (hm : m.Approximates m') (pos : Position) (e : ScopeRef) (paths : List Node)
    (last : Value) :
    (Evaluation.evalInclude m pos e paths last).Approximates
      (Evaluation.evalInclude m' pos e paths last) := by
  induction paths generalizing last with
  | nil => exact refl _
  | cons node more ih =>
    exact bind (hm.evaluate node e) fun value => after _ fun path =>
      bind (includePath hm pos path e) fun next => ih next

theorem evalSequence (hm : m.Approximates m') (e : ScopeRef) (statements : List Node) :
    (Evaluation.evalSequence m e statements).Approximates
      (Evaluation.evalSequence m' e statements) := by
  induction statements with
  | nil => exact refl _
  | cons statement more ih =>
    exact bind (before (hm.evaluate statement e) _) fun _ => ih

theorem evalNode (hm : m.Approximates m') (node : Node) (e : ScopeRef) :
    (Evaluation.evalNode m node e).Approximates (Evaluation.evalNode m' node e) := by
  cases node with
  | list pos items => exact before (evalAll hm items e) _
  | binary pos op left right =>
    exact bind (hm.evaluate left e) fun a => bind (hm.evaluate right e) fun b =>
      locatedAt pos (binary hm op a b)
  | unary pos op operand =>
    exact bind (hm.evaluate operand e) fun a => locatedAt pos (unary hm op a)
  | declare pos name value => exact before (hm.evaluate value e) _
  | assign pos name value => exact before (hm.evaluate value e) _
  | update pos name op value => exact evalUpdate hm name op value pos e
  | choose pos arms => exact evalArms hm e arms
  | count pos name start stop step braced body =>
    exact evalCount hm name start stop step braced body e
  | each pos name items braced body => exact evalEach hm name items braced body e
  | loop pos condition braced body => exact evalWhile hm condition braced body e
  | call pos callee args => exact evalCall hm callee args pos e
  | sequence pos statements => exact before (evalSequence hm e statements) _
  | members pos segments => exact evalMembers hm segments e
  | create pos name args => exact evalCreate hm name args pos e
  | return_ pos value =>
    cases value with
    | none => exact refl _
    | some value => exact before (hm.evaluate value e) _
  | include_ pos paths => exact evalInclude hm pos e paths .null
  | _ => exact refl _

theorem evalUnlessStopped (hm : m.Approximates m') (node : Node) (e : ScopeRef) :
    (Evaluation.evalUnlessStopped m node e).Approximates
      (Evaluation.evalUnlessStopped m' node e) := by
  intro w
  unfold Evaluation.evalUnlessStopped
  split
  · exact .inr rfl
  · exact evalNode hm node e w

end Run.Approximates

/-! ### Machines and programs -/

open Run

theorem Evaluation.machine_approximates {n n' : Nat} (h : n ≤ n') :
    (machine n).Approximates (machine n') := by
  induction n generalizing n' with
  | zero =>
    exact ⟨Nat.zero_le _, fun _ _ => .exhausted _, fun _ _ _ => .exhausted _,
      fun _ _ _ => .exhausted _⟩
  | succ n ih =>
    obtain ⟨more, rfl⟩ : ∃ more, n' = more + 1 := ⟨n' - 1, by omega⟩
    have hm := ih (Nat.le_of_succ_le_succ h)
    exact ⟨Nat.le_of_succ_le_succ h, fun node e => Approximates.evalUnlessStopped hm node e,
      fun callee args e => Approximates.callValue hm callee args e, fun _ _ _ => .refl _⟩

namespace Engine

theorem unlessStopped_approximates {α : Type} (fallback : α) {x x' : Run α}
    (hx : x.Approximates x') :
    (unlessStopped fallback x).Approximates (unlessStopped fallback x') :=
  hx.around _ id (fun _ _ => rfl) fun _ _ => rfl

theorem runTasks_approximates {m m' : Machine} (hm : m.Approximates m') {rounds rounds' : Nat}
    (hr : rounds ≤ rounds') : (runTasks m rounds).Approximates (runTasks m' rounds') := by
  induction rounds generalizing rounds' with
  | zero => exact .exhausted _
  | succ rounds ih =>
    obtain ⟨more, rfl⟩ : ∃ more, rounds' = more + 1 := ⟨rounds' - 1, by omega⟩
    refine .after _ fun next => ?_
    cases next with
    | none => exact .refl _
    | some task =>
      exact .after _ fun w => .bind (.before (.onFailure _ (hm.call task [] w.globals)) _)
        fun _ => ih (Nat.le_of_succ_le_succ hr)

theorem evalSource_approximates {m m' : Machine} (hm : m.Approximates m') (source : String) :
    (evalSource m source).Approximates (evalSource m' source) := by
  refine .after _ fun _ => unlessStopped_approximates _ (.after _ fun w => ?_)
  exact .bind (Approximates.runSource hm source _ _) fun _ =>
    .before (runTasks_approximates hm hm.rounds) _

theorem runIn_approximates {m m' : Machine} (hm : m.Approximates m') (source : String)
    (e : ScopeRef) (name : Option String) :
    (runIn m source e name).Approximates (runIn m' source e name) := by
  refine .after _ fun _ => ?_
  have hrun := unlessStopped_approximates () (.bind
    (.before (Approximates.runSource hm source e name) fun _ => Run.done ())
    fun _ => runTasks_approximates hm hm.rounds)
  cases name with
  | none => exact hrun
  | some path => exact .after _ fun _ => hrun

theorem evaluateIn_approximates {m m' : Machine} (hm : m.Approximates m') (source : String)
    (e : ScopeRef) (name : Option String) :
    (evaluateIn m source e name).Approximates (evaluateIn m' source e name) :=
  .after _ fun root => .catchJump (hm.evaluate root e)

end Engine

/-! ### Termination -/

namespace Evaluation

variable {α : Type} {x : Machine → Run α} {w : World}

/-- With enough fuel the computation ends with a result or with a failure, and more fuel does not
change it any more. -/
def Terminates (x : Machine → Run α) (w : World) : Prop :=
  ∃ o, (∃ fuel, ∀ n, fuel ≤ n → x (machine n) w = o) ∧
    ((∃ a w', o = .done a w') ∨ ∃ d w', o = .failed d w')

theorem terminates_of_ended
    (hx : ∀ {m m' : Machine}, m.Approximates m' → (x m).Approximates (x m')) {n : Nat}
    (h : (∃ a w', x (machine n) w = .done a w') ∨ ∃ d w', x (machine n) w = .failed d w') :
    Terminates x w := by
  refine ⟨x (machine n) w, ⟨n, fun n' hle => ?_⟩, h⟩
  rcases hx (machine_approximates hle) w with ⟨w', hcut⟩ | heq
  · rw [hcut] at h
    obtain ⟨a, w, ⟨⟩⟩ | ⟨d, w, ⟨⟩⟩ := h
  · exact heq

theorem not_terminates_of_exhausted (h : ∀ n, ∃ w', x (machine n) w = .exhausted w') :
    ¬ Terminates x w := by
  rintro ⟨o, ⟨fuel, hends⟩, ho⟩
  obtain ⟨w', hcut⟩ := h fuel
  rw [← hends fuel (Nat.le_refl _), hcut] at ho
  obtain ⟨a, w, ⟨⟩⟩ | ⟨d, w, ⟨⟩⟩ := ho

end Evaluation

end ScriptEngine
