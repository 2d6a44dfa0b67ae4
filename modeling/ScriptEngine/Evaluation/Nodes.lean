import ScriptEngine.Evaluation.Calls

/-! # Evaluation of nodes

Each kind of node has its rule. The rules refer to one another through a `Machine`, and
`machineWith` ties the knot: a machine with `n + 1` units of fuel evaluates by the rules with the
machine that has `n`. -/

namespace ScriptEngine

namespace Evaluation

open Run

/-! ### Loops -/

/-- The results of a loop: a list, or null for a braced body. -/
def loopResult (braced : Bool) (results : Array Value) : Run Value :=
  if braced then Run.done .null else newList results

/-- How one round of a loop ends, if the loop does not return. -/
inductive Round where
  | value (value : Value)
  | skipped
  | last

def runRound (body : Run Value) : Run Round := do
  match ← body.catchJump with
  | .ok value => return .value value
  | .error .continue_ => return .skipped
  | .error .break_ => return .last
  | .error j => jump j

/-- The bounds of a counting loop. -/
structure Range where
  stop : Single
  step : Single

/-- The counter has not reached the end, in the direction of the step. -/
def Range.admits (r : Range) (i : Single) : Bool :=
  if (Number.zero false).le r.step then i.lt r.stop else r.stop.lt i

def countRounds (body : Single → Run Value) (r : Range) :
    Nat → Single → Array Value → Run (Array Value)
  | 0, _, _ => exhausted
  | rounds + 1, i, results =>
    if r.admits i then do
      match ← runRound (body i) with
      | .value v => countRounds body r rounds (i.add r.step) (results.push v)
      | .skipped => countRounds body r rounds (i.add r.step) results
      | .last => return results
    else Run.done results

/-- Goes through a list, also through the items that are added meanwhile. -/
def eachRounds (body : Value → Run Value) (l : ListRef) :
    Nat → Nat → Array Value → Run (Array Value)
  | 0, _, _ => exhausted
  | rounds + 1, i, results => do
    match ((← heap).items l)[i]? with
    | none => return results
    | some item =>
      match ← runRound (body item) with
      | .value v => eachRounds body l rounds (i + 1) (results.push v)
      | .skipped => eachRounds body l rounds (i + 1) results
      | .last => return results

def whileRounds (condition body : Run Value) : Nat → Array Value → Run (Array Value)
  | 0, _ => exhausted
  | rounds + 1, results => do
    if ← isTruthy (← condition) then
      match ← runRound body with
      | .value v => whileRounds condition body rounds (results.push v)
      | .skipped => whileRounds condition body rounds results
      | .last => return results
    else return results

/-- A bound of a counting loop, which must be a number. -/
def loopBound (self : Machine) (what : String) (node : Node) (e : ScopeRef) : Run Single := do
  let value ← self.evaluate node e
  match value.number? with
  | some n => return n
  | none => fail (.located (.boundNotANumber what (← display value)) node.pos)

/-- The step of a counting loop; without one it goes by one toward the end. -/
def loopStep (self : Machine) (start stop : Single) (step : Option Node) (e : ScopeRef) :
    Run Single :=
  match step with
  | some node => loopBound self "step" node e
  | none => Run.done (if start.lt stop then .ofNat 1 else .ofInt (-1))

def evalCount (self : Machine) (name : String) (start stop : Node) (step : Option Node)
    (braced : Bool) (body : Node) (e : ScopeRef) : Run Value := do
  let first ← loopBound self "start" start e
  let last ← loopBound self "end" stop e
  let by_ ← loopStep self first last step e
  if by_.isZero then fail (.located .zeroStep (step.getD start).pos)
  else
    let scope ← innerScope e
    let round (i : Single) : Run Value := do
      define scope name (← newNumber i)
      self.evaluate body scope
    loopResult braced (← countRounds round { stop := last, step := by_ } self.rounds first #[])

def evalEach (self : Machine) (name : String) (items : Node) (braced : Bool) (body : Node)
    (e : ScopeRef) : Run Value := do
  let value ← self.evaluate items e
  match value with
  | .list l =>
    let scope ← innerScope e
    let round (item : Value) : Run Value := do
      define scope name item
      self.evaluate body scope
    loopResult braced (← eachRounds round l self.rounds 0 #[])
  | value => fail (.located (.notAList (← display value)) items.pos)

def evalWhile (self : Machine) (condition : Node) (braced : Bool) (body : Node) (e : ScopeRef) :
    Run Value := do
  let scope ← innerScope e
  loopResult braced
    (← whileRounds (self.evaluate condition e) (self.evaluate body scope) self.rounds #[])

/-! ### Choices -/

def evalBranch (self : Machine) (braced : Bool) (body : Node) (e : ScopeRef) : Run Value := do
  let scope ← innerScope e
  let value ← self.evaluate body scope
  return if braced then .null else value

def evalArms (self : Machine) (e : ScopeRef) : Arms → Run Value
  | .done => Run.done .null
  | .otherwise braced body => evalBranch self braced body e
  | .arm condition braced body more => do
    if ← isTruthy (← self.evaluate condition e) then evalBranch self braced body e
    else evalArms self e more
termination_by structural arms => arms

/-! ### Names -/

/-- A name must be bound to something other than null. -/
def evalRead (name : String) (pos : Position) (e : ScopeRef) : Run Value := do
  match ← get e name with
  | none | some .null => fail (.located (.undefined name) pos)
  | some value => return value

def evalUpdate (self : Machine) (name : String) (op : Arithmetic) (value : Node) (pos : Position)
    (e : ScopeRef) : Run Value := do
  let operand ← self.evaluate value e
  let target ← owner e name
  let current := (← get target name).getD .null
  let result ← locatedAt pos (Operators.arithmetic self op current operand)
  set target name result
  return result

/-- The object definition that a name is bound to. -/
def lookupClass (name : String) (pos : Position) (e : ScopeRef) : Run Class := do
  match ← get e name with
  | some (.cls c) => return c
  | none | some .null => fail (.located (.undefined name) pos)
  | some _ => fail (.located (.notAnObject name) pos)

/-- Evaluates nodes in order. -/
def evalAll (self : Machine) (nodes : List Node) (e : ScopeRef) : Run (List Value) :=
  mapAll (fun n => self.evaluate n e) nodes

/-! ### Definitions and calls -/

def evalFunction (f : Lambda) (e : ScopeRef) : Run Value := do
  let value ← newFunction f e
  if let some name := f.name then set (← storage e) name value
  return value

def evalObject (name : String) (params : List String) (parent : Option String) (body : Node)
    (pos : Position) (e : ScopeRef) : Run Value := do
  let parentClass ← match parent with
    | some p => do pure (some (← lookupClass p pos e))
    | none => pure none
  let value ← newClass name params (.script body) parentClass
  set (← storage e) name value
  return value

/-- A call. What cannot be called is its own result, and its arguments are not evaluated. -/
def evalCall (self : Machine) (callee : Node) (args : List Node) (pos : Position) (e : ScopeRef) :
    Run Value := do
  let f ← self.evaluate callee e
  if f.isCallable then
    let values ← evalAll self args e
    during ⟨callee.label, some pos⟩ (locatedAt pos (callValue self f values e))
  else return f

def evalCreate (self : Machine) (name : String) (args : List Node) (pos : Position)
    (e : ScopeRef) : Run Value := do
  let c ← lookupClass name pos e
  let values ← evalAll self args e
  during ⟨name, some pos⟩ (locatedAt pos do
    return .instance_ (← instantiate self c values e))

/-- The segments behind the first one, each in a view of the members of the value before it. -/
def evalSegments (self : Machine) : List Node → Value → ScopeRef → Run Value
  | [], value, _ => Run.done value
  | segment :: more, value, e => do
    let view ← memberView (← Methods.memberScope value) e
    evalSegments self more (← self.evaluate segment view) view

def evalMembers (self : Machine) (segments : List Node) (e : ScopeRef) : Run Value := do
  match segments with
  | [] => return .null
  | first :: more => evalSegments self more (← self.evaluate first e) e

/-- Includes paths in order; the result is the scope of the last one. -/
def evalInclude (self : Machine) (pos : Position) (e : ScopeRef) : List Node → Value → Run Value
  | [], last => Run.done last
  | node :: more, _ => do
    let path ← display (← self.evaluate node e)
    evalInclude self pos e more (← includePath self pos path e)

/-- Runs statements for their effects. -/
def evalSequence (self : Machine) (e : ScopeRef) : List Node → Run Unit
  | [] => Run.done ()
  | statement :: more => do
    discard (self.evaluate statement e)
    evalSequence self e more

/-! ### Nodes -/

def evalNode (self : Machine) (node : Node) (e : ScopeRef) : Run Value :=
  match node with
  | .number _ value => newNumber value
  | .text _ value => newText value
  | .list _ items => do newList (← evalAll self items e).toArray
  | .binary pos op left right => do
    let a ← self.evaluate left e
    let b ← self.evaluate right e
    locatedAt pos (Operators.binary self op a b)
  | .unary pos op operand => do
    let a ← self.evaluate operand e
    locatedAt pos (Operators.unary self op a)
  | .read pos name => evalRead name pos e
  | .this _ => do return .instance_ (← storage e)
  | .declare _ name value => do
    let v ← self.evaluate value e
    set (← storage e) name v
    return v
  | .assign _ name value => do
    let v ← self.evaluate value e
    set (← owner e name) name v
    return v
  | .update pos name op value => evalUpdate self name op value pos e
  | .choose _ arms => evalArms self e arms
  | .count _ name start stop step braced body =>
    evalCount self name start stop step braced body e
  | .each _ name items braced body => evalEach self name items braced body e
  | .loop _ condition braced body => evalWhile self condition braced body e
  | .function _ name params braced body =>
    evalFunction { name := name, params := params, braced := braced, body := body } e
  | .call pos callee args => evalCall self callee args pos e
  | .sequence _ statements => do
    evalSequence self e statements
    return .instance_ (← storage e)
  | .members _ segments => evalMembers self segments e
  | .object pos name params parent body => evalObject name params parent body pos e
  | .create pos name args => evalCreate self name args pos e
  | .return_ _ none => jump (.return_ .null)
  | .return_ _ (some value) => do jump (.return_ (← self.evaluate value e))
  | .continue_ _ => jump .continue_
  | .break_ _ => jump .break_
  | .include_ pos paths => evalInclude self pos e paths .null

/-- Evaluates a node unless the program was told to stop. -/
def evalUnlessStopped (self : Machine) (node : Node) (e : ScopeRef) : Run Value :=
  fun w => if w.stopped then .failed (.of .stopped) w else evalNode self node e w

/-! ### Tying the knot -/

/-- A machine without fuel. -/
def idle : Machine where
  rounds := 0
  evaluate := fun _ _ => exhausted
  call := fun _ _ _ => exhausted
  host := fun _ _ _ => exhausted

/-- The machine with `n` units of fuel for a host with callbacks. -/
def machineWith (callbacks : Callbacks) : Nat → Machine
  | 0 => idle
  | n + 1 => {
    rounds := n
    evaluate := fun node e w => evalUnlessStopped (machineWith callbacks n) node e w
    call := fun callee args e w => callValue (machineWith callbacks n) callee args e w
    host := fun key args e w => callbacks key (machineWith callbacks n) args e w }

/-- The machine with `n` units of fuel for a host without callbacks of its own. -/
abbrev machine (n : Nat) : Machine :=
  machineWith .none n

end Evaluation

end ScriptEngine
