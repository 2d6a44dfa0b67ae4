import ScriptEngine.Engine
import ScriptEngine.Proofs.Contracts
import ScriptEngine.Proofs.ParserSteps

/-! # Errors have places

Most faults arise without a place, deep inside an operator, a method or a function of the host. Each
way from there to a program leads through a node that gives its own place to an error that has none,
so only a stop gets out of the evaluation of a node without a place. -/

namespace ScriptEngine

/-! ### Errors of sources that are no programs -/

/-- Where the rule fails it says at which place. -/
def FailsSomewhere (α : Type) (p : Parse α) : Prop :=
  ∀ s d r, p s = .error d r → ∃ fault pos, d = .located fault pos

namespace FailsSomewhere

open Parse

variable {α β : Type}

theorem bind {p : Parse α} {f : α → Parse β} (hp : FailsSomewhere α p)
    (hf : ∀ a, FailsSomewhere β (f a)) : FailsSomewhere β (p >>= f) := by
  intro s d r h
  rw [bind_apply] at h
  cases hfirst : p s with
  | ok a r₁ =>
    rw [hfirst] at h
    exact hf a r₁ d r h
  | error d₁ r₁ =>
    rw [hfirst] at h
    cases h
    exact hp s d r hfirst

theorem accept (kind : TokenKind) : FailsSomewhere Bool (accept kind) := by
  intro s d r h
  simp only [Parse.accept] at h
  split at h <;> cases h

theorem expect (kind : TokenKind) (what : String) : FailsSomewhere Token (expect kind what) := by
  intro s d r h
  simp only [Parse.expect] at h
  split at h
  · cases h
  · cases h
    exact ⟨_, _, rfl⟩

theorem attempt {p : Parse α} (hp : FailsSomewhere α p) :
    FailsSomewhere (Option α) (attempt p) := by
  intro s d r h
  simp only [Parse.attempt] at h
  cases hrun : p s with
  | ok a r₁ =>
    rw [hrun] at h
    cases h
  | error d₁ r₁ =>
    rw [hrun] at h
    dsimp only at h
    split at h
    · cases h
    · cases h
      exact hp s d r hrun

theorem beyond (next : TokenKind → Option (Parse α)) (a : α)
    (hnext : ∀ kind p, next kind = some p → FailsSomewhere α p) :
    FailsSomewhere α (beyond next a) := by
  intro s d r h
  simp only [Parse.beyond] at h
  split at h
  · rename_i p hp
    exact hnext _ p hp _ d r h
  · cases h

theorem numeralRule : FailsSomewhere Node Grammar.numeral := by
  refine bind (fun _ _ _ h => by cases h) fun token s d r h => ?_
  cases hvalue : Number.ofText? (f := Format.single) token.lexeme with
  | some value =>
    rw [hvalue] at h
    cases h
  | none =>
    rw [hvalue] at h
    cases h
    exact ⟨_, _, rfl⟩

theorem numeral {rule : Token → Parse Node}
    (hnumeral : ∀ token, token.kind.isNumeral = true → rule token = Grammar.numeral)
    (hrule : ∀ token, token.kind.isNumeral = false → FailsSomewhere Node (rule token)) :
    FailsSomewhere Node (Parse.peek >>= rule) := by
  refine bind (fun _ _ _ h => by cases h) fun token => ?_
  cases hkind : token.kind.isNumeral with
  | true =>
    rw [hnumeral token hkind]
    exact numeralRule
  | false => exact hrule token hkind

theorem closed : ParseClosed FailsSomewhere where
  done _ := fun _ _ _ h => by cases h
  bind := bind
  peek := fun _ _ _ h => by cases h
  advance := fun _ _ _ h => by cases h
  remaining := fun _ _ _ h => by cases h
  skipNewlines := fun _ _ _ h => by cases h
  expected _ := fun _ _ _ h => by
    cases h
    exact ⟨_, _, rfl⟩
  unexpected := fun _ _ _ h => by
    cases h
    exact ⟨_, _, rfl⟩
  numeral := numeral
  accept := accept
  expect := expect
  attempt := attempt
  beyond := beyond

end FailsSomewhere

theorem Lexer.lexFrom_failure {source : Option String} {n offset line : Nat} {cs : List Char}
    {d : Diagnostic} (h : (lexFrom source n offset line cs).failure = some d) :
    ∃ fault pos, d = .located fault pos := by
  induction n generalizing offset line cs with
  | zero => cases h
  | succ n ih =>
    simp only [lexFrom] at h
    split at h
    · cases h
    · split at h
      · cases h
        exact ⟨_, _, rfl⟩
      · exact ih h

/-- What is wrong with a source is wrong at a place of it. -/
theorem parseProgram_error {source : String} {name : Option String} {d : Diagnostic}
    (h : parseProgram source name = .error d) : ∃ fault pos, d = .located fault pos := by
  simp only [parseProgram, parseSource] at h
  split at h
  · rename_i d' hfailure
    cases h
    exact Lexer.lexFrom_failure hfailure
  · simp only [parseTokens] at h
    split at h
    · cases h
    · rename_i d' rest hrun
      cases h
      exact FailsSomewhere.closed.program (FailsSomewhere.closed.rules _) _ _ _ hrun

/-! ### Computations whose failures have places -/

/-- Any run, as long as only a stop fails without a place. -/
@[reducible] def Contract.placed : Contract where
  world _ := True
  jump _ := True
  failure d := d.isStop = false → d.position.isSome = true
  cut := True

abbrev Run.Placed {α : Type} (x : Run α) : Prop :=
  x.Meets .placed Whatever

namespace Run.Placed

variable {α β : Type}

/-! ### Composition -/

theorem done (a : α) : Placed (Run.done a) :=
  Meets.done trivial

theorem bind {x : Run α} {f : α → Run β} (hx : Placed x) (hf : ∀ a, Placed (f a)) :
    Placed (x >>= f) :=
  Meets.bind hx fun a _ => hf a

theorem observe (f : World → α) : Placed fun w => .done (f w) w :=
  Meets.observe fun _ _ => trivial

theorem make (f : Heap → α × Heap) : Placed (Run.make f) :=
  ⟨fun _ _ => ⟨trivial, trivial⟩⟩

theorem modify (f : World → World) : Placed (Run.modify f) :=
  ⟨fun _ _ => ⟨trivial, trivial⟩⟩

theorem jump (j : Jump) : Placed (Run.jump (α := α) j) :=
  Meets.jump trivial

theorem exhausted : Placed (Run.exhausted (α := α)) :=
  Meets.exhausted trivial

theorem failAt (fault : Fault) (pos : Position) :
    Placed (Run.fail (α := α) (.located fault pos)) :=
  Meets.fail fun _ => rfl

theorem mapAll {f : α → Run β} (hf : ∀ a, Placed (f a)) (as : List α) :
    Placed (Run.mapAll f as) := by
  induction as with
  | nil => exact done []
  | cons a as ih => exact bind (hf a) fun _ => bind ih fun _ => done _

theorem catchJump {x : Run α} (hx : Placed x) : Placed (Run.catchJump x) :=
  Meets.catchJump hx (fun _ _ => trivial) fun _ _ => trivial

/-- Wherever the failure comes from, it gets a place. -/
theorem locatedAt (pos : Position) (x : Run α) : Placed (Run.locatedAt pos x) := by
  refine ⟨fun w _ => ?_⟩
  simp only [Run.locatedAt, Run.onFailure]
  cases x w with
  | failed d w' => exact ⟨trivial, fun _ => rfl⟩
  | done | jumped | exhausted => exact ⟨trivial, trivial⟩

theorem during (entry : TraceEntry) {x : Run α} (hx : Placed x) :
    Placed (Run.during entry x) := by
  refine ⟨fun w _ => ?_⟩
  have hrun := hx.run { w with calls := entry :: w.calls } trivial
  simp only [Run.during]
  generalize x { w with calls := entry :: w.calls } = o at hrun
  cases o with
  | failed d w' =>
    refine ⟨trivial, fun hstop => ?_⟩
    have hkind : (d.withTrace entry).isStop = d.isStop := by
      simp only [Diagnostic.isStop, Diagnostic.kind, d.fault_withTrace entry]
    have hplace : (d.withTrace entry).position = d.position := by
      simp only [Diagnostic.withTrace]
      split <;> rfl
    rw [hplace]
    exact hrun.2 (hkind ▸ hstop)
  | done | jumped | exhausted => exact ⟨trivial, trivial⟩

/-! ### Scopes and values -/

theorem newNumber (n : Single) : Placed (Run.newNumber n) :=
  make _

theorem newText (s : String) : Placed (Run.newText s) :=
  make _

mutual

theorem fromHost : ∀ v : HostValue, Placed (Run.fromHost v)
  | .null => done _
  | .bool _ => newNumber _
  | .number _ => newNumber _
  | .text s => newText s
  | .list items => bind (fromHosts items) fun _ => make _

theorem fromHosts : ∀ vs : List HostValue, Placed (Run.fromHosts vs)
  | [] => done _
  | v :: vs => bind (fromHost v) fun _ => bind (fromHosts vs) fun _ => done _

end

theorem get (e : ScopeRef) (name : String) : Placed (Run.get e name) := by
  have hcell : Placed (readCell name) :=
    bind (modify _) fun _ => bind (observe _) fun _ => fromHost _
  have hlocal : ∀ found, Placed (getLocal found name) := by
    intro found
    refine bind (observe _) fun h => ?_
    dsimp only
    split
    · exact bind hcell fun _ => done _
    · exact done _
  refine bind (observe _) fun h => ?_
  split
  · exact hlocal _
  · exact done _

theorem set (e : ScopeRef) (name : String) (value : Value) : Placed (Run.set e name value) := by
  refine bind (modify _) fun _ => bind (observe _) fun h => ?_
  split
  · exact modify _
  · exact done _

theorem innerScope (e : ScopeRef) : Placed (Run.innerScope e) :=
  bind (observe _) fun _ => make _

theorem memberScope (value : Value) : Placed (Methods.memberScope value) := by
  have hmethods : ∀ name methods, Placed (Methods.methodScope name methods) := fun _ methods =>
    bind (mapAll (fun _ => bind (make _) fun _ => done _) methods) fun _ => make _
  unfold Methods.memberScope
  split
  · exact done _
  · exact bind (hmethods _ _) fun _ => bind (make _) fun _ => bind (modify _) fun _ => done _
  · exact hmethods _ _
  · exact make _

theorem lookupClass (name : String) (pos : Position) (e : ScopeRef) :
    Placed (Evaluation.lookupClass name pos e) := by
  refine bind (get e name) fun found => ?_
  split
  · exact done _
  · exact failAt _ pos
  · exact failAt _ pos
  · exact failAt _ pos

/-! ### Programs and inclusion -/

variable {self : Machine}

theorem runStatements (hs : ∀ node e, Placed (self.evaluate node e)) (e : ScopeRef)
    (statements : List Node) (last : Value) :
    Placed (Evaluation.runStatements self e statements last) := by
  induction statements generalizing last with
  | nil => exact done last
  | cons statement more ih =>
    refine bind (catchJump (hs statement e)) fun result => ?_
    split
    · exact ih _
    · exact done _
    · exact failAt _ _
    · exact failAt _ _

theorem runProgram (hs : ∀ node e, Placed (self.evaluate node e)) (root : Node) (e : ScopeRef) :
    Placed (Evaluation.runProgram self root e) := by
  unfold Evaluation.runProgram
  split
  · exact runStatements hs e _ _
  · exact runStatements hs e _ _

theorem runSource (hs : ∀ node e, Placed (self.evaluate node e)) (source : String)
    (e : ScopeRef) (name : Option String) :
    Placed (Evaluation.runSource self source e name) := by
  refine bind ?_ fun root => runProgram hs root e
  cases hparse : parseProgram source name with
  | ok root => exact done root
  | error d =>
    obtain ⟨fault, pos, rfl⟩ := parseProgram_error hparse
    exact failAt fault pos

theorem includePath (hs : ∀ node e, Placed (self.evaluate node e)) (pos : Position)
    (path : String) (e : ScopeRef) : Placed (Evaluation.includePath self pos path e) := by
  have hsources : ∀ scope sources, Placed (Evaluation.runIncluded self pos path scope sources) := by
    intro scope sources
    induction sources with
    | nil => exact done _
    | cons source more ih =>
      refine bind (modify _) fun _ => bind ?_ fun _ => ih
      exact bind (during _ (runSource hs source.text scope (some source.name))) fun _ => done _
  exact bind (observe _) fun _ => bind (locatedAt pos _) fun sources => bind (make _) fun scope =>
    bind (hsources scope sources) fun _ => bind (observe _) fun _ => bind (modify _) fun _ => done _

/-! ### Loops and choices -/

theorem loopResult (braced : Bool) (results : Array Value) :
    Placed (Evaluation.loopResult braced results) := by
  unfold Evaluation.loopResult
  split
  · exact done _
  · exact make _

theorem runRound {body : Run Value} (hb : Placed body) : Placed (Evaluation.runRound body) := by
  refine bind (catchJump hb) fun result => ?_
  split
  · exact done _
  · exact done _
  · exact done _
  · exact jump _

theorem loopBound (hs : ∀ node e, Placed (self.evaluate node e)) (what : String) (node : Node)
    (e : ScopeRef) : Placed (Evaluation.loopBound self what node e) := by
  refine bind (hs node e) fun value => ?_
  split
  · exact done _
  · exact bind (observe _) fun _ => failAt _ _

theorem evalCount (hs : ∀ node e, Placed (self.evaluate node e)) (name : String)
    (start stop : Node) (step : Option Node) (braced : Bool) (body : Node) (e : ScopeRef) :
    Placed (Evaluation.evalCount self name start stop step braced body e) := by
  have hstep : ∀ first last, Placed (Evaluation.loopStep self first last step e) := by
    intro first last
    cases step with
    | none => exact done _
    | some node => exact loopBound hs _ node e
  have hrounds : ∀ (round : Single → Run Value) r rounds i results, (∀ i, Placed (round i)) →
      Placed (Evaluation.countRounds round r rounds i results) := by
    intro round r rounds i results hround
    induction rounds generalizing i results with
    | zero => exact exhausted
    | succ rounds ih =>
      unfold Evaluation.countRounds
      split
      · refine bind (runRound (hround i)) fun result => ?_
        split
        · exact ih _ _
        · exact ih _ _
        · exact done _
      · exact done _
  refine bind (loopBound hs _ start e) fun first => bind (loopBound hs _ stop e) fun last =>
    bind (hstep first last) fun by_ => ?_
  split
  · exact failAt _ _
  · refine bind (innerScope e) fun scope => bind (hrounds _ _ _ _ _ fun i => ?_) fun _ =>
      loopResult braced _
    exact bind (make _) fun _ => bind (modify _) fun _ => hs body scope

theorem evalEach (hs : ∀ node e, Placed (self.evaluate node e)) (name : String) (items : Node)
    (braced : Bool) (body : Node) (e : ScopeRef) :
    Placed (Evaluation.evalEach self name items braced body e) := by
  have hrounds : ∀ (round : Value → Run Value) l rounds i results, (∀ v, Placed (round v)) →
      Placed (Evaluation.eachRounds round l rounds i results) := by
    intro round l rounds i results hround
    induction rounds generalizing i results with
    | zero => exact exhausted
    | succ rounds ih =>
      refine bind (observe _) fun h => ?_
      split
      · exact done _
      · refine bind (runRound (hround _)) fun result => ?_
        split
        · exact ih _ _
        · exact ih _ _
        · exact done _
  refine bind (hs items e) fun value => ?_
  split
  · refine bind (innerScope e) fun scope => bind (hrounds _ _ _ _ _ fun v => ?_) fun _ =>
      loopResult braced _
    exact bind (modify _) fun _ => hs body scope
  · exact bind (observe _) fun _ => failAt _ _

theorem evalWhile (hs : ∀ node e, Placed (self.evaluate node e)) (condition : Node)
    (braced : Bool) (body : Node) (e : ScopeRef) :
    Placed (Evaluation.evalWhile self condition braced body e) := by
  have hrounds : ∀ scope rounds results, Placed (Evaluation.whileRounds
      (self.evaluate condition e) (self.evaluate body scope) rounds results) := by
    intro scope rounds results
    induction rounds generalizing results with
    | zero => exact exhausted
    | succ rounds ih =>
      refine bind (hs condition e) fun value => bind (observe _) fun truthy => ?_
      split
      · refine bind (runRound (hs body scope)) fun result => ?_
        split
        · exact ih _
        · exact ih _
        · exact done _
      · exact done _
  exact bind (innerScope e) fun scope => bind (hrounds scope _ _) fun _ => loopResult braced _

theorem evalBranch (hs : ∀ node e, Placed (self.evaluate node e)) (braced : Bool) (body : Node)
    (e : ScopeRef) : Placed (Evaluation.evalBranch self braced body e) :=
  bind (innerScope e) fun scope => bind (hs body scope) fun _ => done _

theorem evalArms (hs : ∀ node e, Placed (self.evaluate node e)) (e : ScopeRef) (arms : Arms) :
    Placed (Evaluation.evalArms self e arms) := by
  cases arms with
  | done => exact done _
  | otherwise braced body => exact evalBranch hs braced body e
  | arm condition braced body more =>
    refine bind (hs condition e) fun value => bind (observe _) fun truthy => ?_
    split
    · exact evalBranch hs braced body e
    · exact evalArms hs e more

/-! ### Nodes -/

theorem evalAll (hs : ∀ node e, Placed (self.evaluate node e)) (nodes : List Node)
    (e : ScopeRef) : Placed (Evaluation.evalAll self nodes e) :=
  mapAll (fun node => hs node e) nodes

theorem evalObject (name : String) (params : List String) (parent : Option String) (body : Node)
    (pos : Position) (e : ScopeRef) :
    Placed (Evaluation.evalObject name params parent body pos e) := by
  have hdefine : ∀ c : Option Class, Placed (newClass name params (.script body) c >>=
      fun value => Run.storage e >>= fun target => Run.set target name value >>= fun _ =>
        pure value) :=
    fun _ => bind (make _) fun value => bind (observe _) fun target =>
      bind (set target name value) fun _ => done _
  unfold Evaluation.evalObject
  split
  · exact bind (lookupClass _ pos e) fun c => hdefine (some c)
  · exact hdefine none

theorem evalSegments (hs : ∀ node e, Placed (self.evaluate node e)) (segments : List Node)
    (value : Value) (e : ScopeRef) :
    Placed (Evaluation.evalSegments self segments value e) := by
  induction segments generalizing value e with
  | nil => exact done value
  | cons segment more ih =>
    have hview : ∀ members, Placed (memberView members e) := fun _ =>
      bind (observe _) fun _ => make _
    exact bind (memberScope value) fun members => bind (hview members) fun view =>
      bind (hs segment view) fun next => ih next view

theorem evalInclude (hs : ∀ node e, Placed (self.evaluate node e)) (pos : Position)
    (e : ScopeRef) (paths : List Node) (last : Value) :
    Placed (Evaluation.evalInclude self pos e paths last) := by
  induction paths generalizing last with
  | nil => exact done last
  | cons node more ih =>
    exact bind (hs node e) fun value => bind (observe _) fun path =>
      bind (includePath hs pos path e) fun next => ih next

theorem evalSequence (hs : ∀ node e, Placed (self.evaluate node e)) (e : ScopeRef)
    (statements : List Node) : Placed (Evaluation.evalSequence self e statements) := by
  induction statements with
  | nil => exact done _
  | cons statement more ih =>
    exact bind (bind (hs statement e) fun _ => done _) fun _ => ih

/-- Operators, calls and constructions get the place of their node, whatever they do: nothing is
asked of what the machine calls. -/
theorem evalNode (hs : ∀ node e, Placed (self.evaluate node e)) (node : Node) (e : ScopeRef) :
    Placed (Evaluation.evalNode self node e) := by
  cases node with
  | number pos value => exact newNumber value
  | text pos value => exact newText value
  | list pos items => exact bind (evalAll hs items e) fun _ => make _
  | binary pos op left right =>
    exact bind (hs left e) fun _ => bind (hs right e) fun _ => locatedAt pos _
  | unary pos op operand => exact bind (hs operand e) fun _ => locatedAt pos _
  | read pos name =>
    refine bind (get e name) fun found => ?_
    split
    · exact failAt _ pos
    · exact failAt _ pos
    · exact done _
  | this pos => exact bind (observe _) fun _ => done _
  | declare pos name value =>
    exact bind (hs value e) fun v => bind (observe _) fun target =>
      bind (set target name v) fun _ => done _
  | assign pos name value =>
    exact bind (hs value e) fun v => bind (observe _) fun target =>
      bind (set target name v) fun _ => done _
  | update pos name op value =>
    exact bind (hs value e) fun _ => bind (observe _) fun target => bind (get target name)
      fun _ => bind (locatedAt pos _) fun result => bind (set target name result) fun _ => done _
  | choose pos arms => exact evalArms hs e arms
  | count pos name start stop step braced body =>
    exact evalCount hs name start stop step braced body e
  | each pos name items braced body => exact evalEach hs name items braced body e
  | loop pos condition braced body => exact evalWhile hs condition braced body e
  | function pos name params braced body =>
    refine bind (make _) fun value => ?_
    split
    · exact bind (observe _) fun target => bind (set target _ value) fun _ => done _
    · exact done _
  | call pos callee args =>
    refine bind (hs callee e) fun f => ?_
    split
    · exact bind (evalAll hs args e) fun _ => during _ (locatedAt pos _)
    · exact done _
  | sequence pos statements =>
    exact bind (evalSequence hs e statements) fun _ => bind (observe _) fun _ => done _
  | members pos segments =>
    cases segments with
    | nil => exact done _
    | cons first more => exact bind (hs first e) fun value => evalSegments hs more value e
  | object pos name params parent body => exact evalObject name params parent body pos e
  | create pos name args =>
    exact bind (lookupClass name pos e) fun _ => bind (evalAll hs args e) fun _ =>
      during _ (locatedAt pos _)
  | return_ pos value =>
    cases value with
    | none => exact jump _
    | some value => exact bind (hs value e) fun _ => jump _
  | continue_ pos => exact jump _
  | break_ pos => exact jump _
  | include_ pos paths => exact evalInclude hs pos e paths _

/-- The one failure without a place is that of a program that was told to stop. -/
theorem machineWith (callbacks : Callbacks) (n : Nat) (node : Node) (e : ScopeRef) :
    Placed ((Evaluation.machineWith callbacks n).evaluate node e) := by
  induction n generalizing node e with
  | zero => exact exhausted
  | succ n ih =>
    refine ⟨fun w _ => ?_⟩
    simp only [Evaluation.machineWith, Evaluation.evalUnlessStopped]
    split
    · exact ⟨trivial, fun hstop => by cases hstop⟩
    · exact (evalNode ih node e).run w trivial

end Run.Placed

/-- Whatever the functions of the host do, callbacks included, a program that does not end with a
stop and fails says where. -/
theorem runSource_failed_located (callbacks : Callbacks) (n : Nat) (source : String) (e : ScopeRef)
    (name : Option String) (w w' : World) (d : Diagnostic)
    (hrun : Evaluation.runSource (Evaluation.machineWith callbacks n) source e name w = .failed d w')
    (hkind : d.kind ≠ .stop) : d.position.isSome = true := by
  have hplaced :=
    (Run.Placed.runSource (Run.Placed.machineWith callbacks n) source e name).run w trivial
  rw [hrun] at hplaced
  have hstop : d.isStop = false := by
    simp only [Diagnostic.isStop, beq_eq_false_iff_ne, ne_eq, hkind, not_false_eq_true]
  exact hplaced.2 hstop

/-- A host whose callbacks print their name and fail with an error without a place. -/
def Callbacks.broken : Callbacks :=
  fun key _ _ _ => do
    Run.print key
    Run.raise (.custom .runtime "broken")

/-- A world whose only global is a function that the host answers with a callback of its name. -/
def World.answering (name : String) (params : List String) : World :=
  let w := World.bare {}
  let f := Value.native 0 (.host name params (.callback name))
  { w with heap := w.heap.modifyScope w.globals (·.define name f) }

theorem runSource_failed_located_host :
    ∃ d w', Evaluation.runSource (Evaluation.machineWith .broken 4) "f()" ⟨0⟩ none
        (.answering "f" []) = .failed d w' ∧ d.kind ≠ .stop ∧ d.position.isSome = true := by
  have hfails : (Evaluation.runSource (Evaluation.machineWith .broken 4) "f()" ⟨0⟩ none
      (.answering "f" [])).diagnostic?.any (fun d => decide (d.kind ≠ .stop)) = true := by decide +kernel
  obtain ⟨d, hd, hkind⟩ := (Option.any_eq_true _ _).mp hfails
  obtain ⟨w', hrun⟩ := Outcome.failed_of_diagnostic hd
  have hkind : d.kind ≠ .stop := of_decide_eq_true hkind
  exact ⟨d, w', hrun, hkind,
    runSource_failed_located .broken 4 "f()" ⟨0⟩ none _ w' d hrun hkind⟩

end ScriptEngine
