import ScriptEngine.Engine

/-! # Sessions

A host works with one world step by step: it runs programs, calls values and looks after scopes
that it has given names to. A step that fails keeps what it changed before, and the session goes
on. -/

namespace ScriptEngine

/-- A value that the host hands in. -/
inductive Operand where
  | host (value : HostValue)
  /-- The result of a program. -/
  | source (code : String)
  /-- What a name is bound to. -/
  | name (name : String)

/-- How a scope that gets a name comes about. -/
inductive NewScope where
  | detached (name : String)
  | named (name : String)
  | inner
  | view (receiver : String)
  | ofInstance (value : Operand)

/-- What a host can ask for in a scope. -/
inductive Step where
  | eval (source : String)
  | run (source : String) (name : Option String)
  | execute (source : String) (name : Option String)
  | evaluate (source : String) (name : Option String)
  | runTasks
  | countTasks
  | spawn (task : Operand)
  | stop
  | reset
  | askStopped
  | native (name : String) (params : List String) (behavior : HostBehavior)
  | call (callee : Operand) (args : List Operand)
  | instantiate (cls : Operand) (args : List Operand)
  | binary (op : BinaryOp) (left right : Operand)
  | update (op : Arithmetic) (left right : Operand)
  | unary (op : UnaryOp) (value : Operand)
  | equals (left right : Operand)
  | inspect (value : Operand)
  | members (value : Operand)
  | create (id : String) (what : NewScope)
  | parent
  | owner (name : String)
  | storage
  | root
  | define (name : String) (value : Operand)
  | set (name : String) (value : Operand)
  | get (name : String)
  | getOwn (name : String)
  | remove (name : String)
  | contains (name : String)
  | mergeInto (from_ : String)
  | mergeMissing (from_ : String)
  | setOrigin (path : String)
  | origin
  | dump
  | track (name : String) (value : HostValue) (watch : Bool)
  | setCell (name : String) (value : HostValue)
  | watch (name : String)

/-- What the host learns from a step; values and scopes are to be read in the world after it. -/
inductive Report where
  | done
  | ran
  | value (value : Value)
  | found (value : Option Value)
  | ended (how : Except Jump Value)
  | pending (count : Nat)
  | stopped (stopped : Bool)
  | equality (equal : Except Fault Bool) (same : Bool)
  | inspected (value : Value)
  | members (scope : ScopeRef)
  | scope (scope : Option ScopeRef)
  | parent (scope : Option ScopeRef)
  | contained (contained : Bool)
  | origin (path : Option String)
  | contents (scope : ScopeRef)
  /-- An operand names nothing. -/
  | unbound
  | failed (diagnostic : Diagnostic)
  /-- The step names a scope that there is not, or used up its fuel. -/
  | unanswered

/-- A world and the names that the host gave to scopes, oldest first. -/
structure Session where
  world : World
  scopes : List (String × ScopeRef)
  /-- The texts of the bindings that the globals started with. -/
  standard : Table String

namespace Session

open Run

/-- The name of the globals. -/
def globalsId : String := "g"

def start (c : Config) : Session :=
  let w := World.initial c
  { world := w
    scopes := [(globalsId, w.globals)]
    standard := (w.heap.scope w.globals).bindings.map fun e => (e.1, w.heap.display e.2) }

/-! ### Names of scopes -/

def lookup (scopes : List (String × ScopeRef)) (id : String) : Option ScopeRef :=
  (scopes.find? (·.1 = id)).map (·.2)

/-- The oldest name of a scope. -/
def idOf (s : Session) (e : ScopeRef) : Option String :=
  (s.scopes.find? (·.2 = e)).map (·.1)

/-- Gives a name to a scope, as the newest one. -/
def name (s : Session) (id : String) (e : ScopeRef) : Session :=
  { s with scopes := s.scopes.filter (·.1 ≠ id) ++ [(id, e)] }

/-! ### Operands -/

def operand (self : Machine) (e : ScopeRef) : Operand → Run (Option Value)
  | .host v => do return some (← fromHost v)
  | .source code => do return some (← Evaluation.runSource self code e none)
  | .name name => Run.get e name

/-- Goes on with the value of an operand, if it has one. -/
def withOperand (self : Machine) (e : ScopeRef) (o : Operand) (next : Value → Run Report) :
    Run Report := do
  match ← operand self e o with
  | some v => next v
  | none => return .unbound

def withOperands (self : Machine) (e : ScopeRef) :
    List Operand → (List Value → Run Report) → Run Report
  | [], next => next []
  | o :: more, next =>
    withOperand self e o fun v => withOperands self e more fun vs => next (v :: vs)

/-! ### Steps -/

/-- Makes or finds a scope that is to get a name. -/
def makeScope (self : Machine) (scopes : List (String × ScopeRef)) (e : ScopeRef) :
    NewScope → Run Report
  | .detached name => do return .scope (some (← newScope (.fresh name none none)))
  | .named name => do return .scope (some (← newScope (.fresh name (some e) none)))
  | .inner => do return .scope (some (← innerScope e))
  | .view receiver =>
    match lookup scopes receiver with
    | some r => do return .scope (some (← memberView r e))
    | none => Run.done .unanswered
  | .ofInstance o => withOperand self e o fun v => return .scope v.instance?

/-- Binds a name to a host variable, which it is read from now on. -/
def track (e : ScopeRef) (name : String) (value : HostValue) (watch : Bool) : Run Unit := do
  modify fun w => { w with cells := w.cells.insert name value }
  Run.define e name (← readCell name)
  modifyHeap (·.modifyScope e fun s =>
    let s := s.track name
    if watch then s.watch name else s.unwatch name)

def reportStopped : Run Report := do
  return .stopped (← Run.world).stopped

def reportPending : Run Report := do
  return .pending (← Run.world).tasks.length

/-- Does what a step asks for in the scope `e`. -/
def perform (self : Machine) (scopes : List (String × ScopeRef)) (e : ScopeRef) :
    Step → Run Report
  | .eval source => do return .value (← Engine.evalSource self source)
  | .run source name => do
    Engine.runIn self source e name
    return .ran
  | .execute source name => do return .value (← Evaluation.runSource self source e name)
  | .evaluate source name => do return .ended (← Engine.evaluateIn self source e name)
  | .runTasks => do
    Engine.runTasks self self.rounds
    reportPending
  | .countTasks => reportPending
  | .spawn task => withOperand self e task fun v => do
    Run.spawn v
    reportPending
  | .stop => do
    modify fun w => { w with stopped := true }
    reportStopped
  | .reset => do
    modify fun w => { w with stopped := false }
    reportStopped
  | .askStopped => reportStopped
  | .native name params behavior => do
    Run.define e name (← newNative (.host name params behavior))
    return .done
  | .call callee args => withOperand self e callee fun f => withOperands self e args fun vs => do
    return .value (← self.call f vs e)
  | .instantiate cls args => withOperand self e cls fun c => withOperands self e args fun vs => do
    return .value (.instance_ (← Builtins.instantiateValue self c vs e))
  | .binary op left right => withOperand self e left fun a => withOperand self e right fun b => do
    return .value (← Operators.binary self op a b)
  | .update op left right => withOperand self e left fun a => withOperand self e right fun b => do
    return .value (← Operators.arithmetic self op a b)
  | .unary op value => withOperand self e value fun a => do
    return .value (← Operators.unary self op a)
  | .equals left right => withOperand self e left fun a => withOperand self e right fun b => do
    return .equality (Operators.equals (← heap) a b) (a.same b)
  | .inspect value => withOperand self e value fun v => return .inspected v
  | .members value => withOperand self e value fun v => do
    return .members (← Methods.memberScope v)
  | .create _ what => makeScope self scopes e what
  | .parent => do return .parent ((← heap).scope e).parent
  | .owner name => do return .scope (some (← Run.owner e name))
  | .storage => do return .scope (some (← Run.storage e))
  | .root => do return .scope (some ((← heap).root e))
  | .define name value => withOperand self e value fun v => do
    Run.define e name v
    return .done
  | .set name value => withOperand self e value fun v => do
    Run.set e name v
    return .done
  | .get name => do return .found (← Run.get e name)
  | .getOwn name => do return .found (((← heap).scope e).bindings.get? name)
  | .remove name => do
    let old := ((← heap).scope e).bindings.get? name
    Run.remove e name
    return .found old
  | .contains name => do return .contained (((← heap).scope e).contains name)
  | .mergeInto from_ =>
    match lookup scopes from_ with
    | some source => do
      modifyHeap (·.mergeInto e source)
      return .done
    | none => Run.done .unanswered
  | .mergeMissing from_ =>
    match lookup scopes from_ with
    | some source => do
      modifyHeap (·.mergeMissing e source)
      return .done
    | none => Run.done .unanswered
  | .setOrigin path => do
    modifyHeap (·.modifyScope e fun s => { s with origin := some path })
    return .done
  | .origin => do return .origin ((← heap).origin e)
  | .dump => Run.done (.contents e)
  | .track name value watch => do
    track e name value watch
    return .done
  | .setCell name value => do
    modify fun w => { w with cells := w.cells.insert name value }
    return .done
  | .watch name => do
    modifyHeap (·.modifyScope e (·.watch name))
    return .done

/-- Keeps the name of a scope that a step made. -/
def record (s : Session) (step : Step) (report : Report) : Session :=
  match step, report with
  | .create id _, .scope (some e) => s.name id e
  | _, _ => s

/-- Takes one step in the scope of the given name. Output and journal afterwards are those of the
step alone. -/
def step (self : Machine) (s : Session) (id : String) (step : Step) : Report × Session :=
  match lookup s.scopes id with
  | none => (.unanswered, s)
  | some e =>
    match perform self s.scopes e step { s.world with output := "", journal := [], calls := [] } with
    | .done report w => (report, { s with world := w }.record step report)
    | .failed d w => (.failed d, { s with world := w })
    | .jumped _ w => (.unanswered, { s with world := w })
    | .exhausted _ => (.unanswered, s)

/-- The bindings of a scope; of the globals only those that show another text than at the start. -/
def contents (s : Session) (e : ScopeRef) : Table Value :=
  let h := s.world.heap
  let bindings := (h.scope e).bindings
  if e = s.world.globals then
    bindings.filter fun b => s.standard.get? b.1 ≠ some (h.display b.2)
  else bindings

end Session

end ScriptEngine
