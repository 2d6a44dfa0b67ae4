import ScriptEngine.Evaluation.Methods
import ScriptEngine.Tree.Parser

/-! # Programs, instances and inclusion

Running source text, building instances of object definitions, and including other sources. -/

namespace ScriptEngine

namespace Evaluation

open Run

/-! ### Programs -/

/-- Runs statements one after the other; the result is that of the last one, or of a return. -/
def runStatements (self : Machine) (e : ScopeRef) : List Node → Value → Run Value
  | [], last => Run.done last
  | statement :: more, _ => do
    match ← (self.evaluate statement e).catchJump with
    | .ok value => runStatements self e more value
    | .error (.return_ value) => return value
    | .error .break_ => fail (.located .breakOutsideLoop statement.pos)
    | .error .continue_ => fail (.located .continueOutsideLoop statement.pos)

def runProgram (self : Machine) (root : Node) (e : ScopeRef) : Run Value :=
  match root with
  | .sequence _ statements => runStatements self e statements .null
  | statement => runStatements self e [statement] .null

/-- Parses and runs a source in a scope. -/
def runSource (self : Machine) (source : String) (e : ScopeRef) (name : Option String) :
    Run Value := do
  runProgram self (← ofExcept (parseProgram source name)) e

/-! ### Instances -/

def checkArity (name : String) (params : List String) (args : List Value) : Run Unit :=
  if params.length = args.length then Run.done () else raise (.wrongArity name)

/-- What an instance starts with: its definition, the constructor of its parent and the
arguments. -/
def openInstance (c : Class) (args : List Value) (e : ScopeRef) : Run ScopeRef := do
  let scope ← newScope (.fresh c.name (some e) none)
  define scope "type" (.cls c)
  if let some parent := c.parent then
    define scope "super" (← newNative (.superCall parent c scope))
  modifyHeap (·.modifyScope scope (·.defineAll (c.params.zip args)))
  return scope

/-- Runs the body of an object definition in a new instance. -/
def runBody (self : Machine) (c : Class) (args : List Value) (scope : ScopeRef) : Run Unit := do
  match c.body with
  | .object => return ()
  | .file =>
    let path ← display (args.headD .null)
    let methods ← Methods.bound (FileMethod.all.map (.fileMethod · path))
    modifyHeap (·.modifyScope scope (·.defineAll methods))
  | .script body =>
    match ← (self.evaluate body scope).catchJump with
    | .ok _ | .error (.return_ _) => return ()
    | .error .break_ | .error .continue_ => raise (.loopControlLeavesObject c.name)

/-- The instance is complete except for its parent. -/
def awaitsParent (h : Heap) (scope : ScopeRef) : Bool :=
  match (h.scope scope).bindings.get? "super" with
  | some (.native _ _) => true
  | _ => false

/-- Records the instance of the parent in an instance. -/
def adopt (c : Class) (scope parentScope : ScopeRef) : Run Unit := do
  define scope "type" (.cls c)
  define scope "super" (.instance_ parentScope)

/-- Builds the parent with the same arguments if the body did not do so and it takes as many;
members that the instance has already are kept. -/
def implicitParent (build : List Value → ScopeRef → Run ScopeRef) (c parent : Class)
    (args : List Value) (scope : ScopeRef) : Run Unit := do
  if awaitsParent (← heap) scope then
    if parent.params.length = args.length then
      let parentScope ← build args scope
      modifyHeap (·.mergeMissing scope parentScope)
      adopt c scope parentScope
    else remove scope "super"

/-- Builds an instance in a scope inside `e`. -/
def instantiate (self : Machine) : Class → List Value → ScopeRef → Run ScopeRef
  | ⟨stamp, name, params, body, none⟩, args, e => do
    let c : Class := ⟨stamp, name, params, body, none⟩
    checkArity name params args
    withFrame do
      let scope ← openInstance c args e
      runBody self c args scope
      return scope
  | ⟨stamp, name, params, body, some parent⟩, args, e => do
    let c : Class := ⟨stamp, name, params, body, some parent⟩
    checkArity name params args
    withFrame do
      let scope ← openInstance c args e
      runBody self c args scope
      implicitParent (fun args scope => instantiate self parent args scope) c parent args scope
      return scope
termination_by structural c => c

/-- Builds the parent of an instance under construction and copies its members over. A `super` that
was kept does not keep its instance. -/
def buildParent (self : Machine) (parent child : Class) (target : ScopeRef) (args : List Value) :
    Run Value := do
  if ← isFreed then raise .superOutsideConstructor
  else
    let parentScope ← instantiate self parent args target
    modifyHeap (·.mergeInto target parentScope)
    adopt child target parentScope
    return .null

/-! ### Inclusion -/

/-- Runs the sources of one include path in its scope. -/
def runIncluded (self : Machine) (pos : Position) (path : String) (scope : ScopeRef) :
    List IncludedSource → Run Unit
  | [] => Run.done ()
  | source :: more => do
    modifyHeap (·.modifyScope scope fun s => { s with origin := some source.name })
    discard (during ⟨"include " ++ path, some pos⟩
      (runSource self source.text scope (some source.name)))
    runIncluded self pos path scope more

/-- Includes the sources that a path names; their bindings are copied into the scope. -/
def includePath (self : Machine) (pos : Position) (path : String) (e : ScopeRef) : Run Value := do
  let w ← world
  let sources ← locatedAt pos (ofExcept (w.resolver.resolve w.files path (w.heap.origin e)))
  let scope ← newScope (.fresh path (some e) none)
  runIncluded self pos path scope sources
  let target ← storage e
  modifyHeap (·.mergeInto target scope)
  return .instance_ scope

end Evaluation

end ScriptEngine
