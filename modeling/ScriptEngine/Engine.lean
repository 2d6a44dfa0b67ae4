import ScriptEngine.Evaluation.Nodes

/-! # The engine

How a host starts a world, runs programs in it and lets the tasks finish that they queued. -/

namespace ScriptEngine

/-- What a host decides before a program runs. -/
structure Config where
  /-- The name of the main source. -/
  source : Option String := none
  maxDepth : Nat := 200
  /-- The globals start with the standard bindings. -/
  standard : Bool := true
  resolver : Resolver := .files none
  files : FileTree := .empty
  input : List UInt8 := []
  freed : Nat → Bool := fun _ => false

namespace World

/-- A world with globals that hold nothing. -/
def bare (c : Config) : World :=
  { heap := (Heap.empty.newScope
      { Scope.fresh Scope.globalName none none with origin := c.source }).2
    globals := ⟨0⟩
    source := c.source
    maxDepth := c.maxDepth
    depth := 0
    deepest := 0
    calls := []
    tasks := []
    stopped := false
    resolver := c.resolver
    files := c.files
    input := c.input
    output := ""
    cells := []
    journal := []
    seed := 0
    freed := c.freed
    waited := 0 }

/-- Makes the standard bindings in the globals. -/
def install (w : World) : World :=
  match Builtins.standardBindings w with
  | .done entries w => { w with heap := w.heap.modifyScope w.globals (·.defineAll entries) }
  | _ => w

/-- The world that a host starts with. -/
def initial (c : Config) : World :=
  if c.standard then (bare c).install else bare c

end World

namespace Engine

open Run Evaluation

/-- Fuel that no run in practice uses up. -/
def fuel : Nat := 0x1000000000000000

/-- The machine that hosts run programs with. -/
def machine : Machine := Evaluation.machine fuel

/-- The result of a run, where `fallback` stands for that of a run that was told to stop. -/
def unlessStopped {α : Type} (fallback : α) (x : Run α) : Run α :=
  fun w =>
    match x w with
    | .failed d w => if d.isStop then .done fallback w else .failed d w
    | o => o

/-- Starts afresh after whatever ended the run before. -/
def reset : Run Unit :=
  modify fun w => { w with stopped := false, calls := [] }

/-- Calls queued tasks from the globals, in order, also those that are queued meanwhile. A failure
leaves the later tasks in the queue. -/
def runTasks (self : Machine) : Nat → Run Unit
  | 0 => exhausted
  | rounds + 1 => do
    match ← nextTask with
    | none => return ()
    | some task =>
      let w ← world
      discard ((self.call task [] w.globals).onFailure
        (·.withTrace ⟨w.heap.label task, none⟩))
      runTasks self rounds

/-- Runs a main program and then the tasks; the result is that of the program. -/
def evalSource (self : Machine) (source : String) : Run Value := do
  reset
  unlessStopped .null do
    let w ← world
    let value ← runSource self source w.globals w.source
    runTasks self self.rounds
    return value

/-- Runs a program in a scope, which takes the given name as its origin, and then the tasks. -/
def runIn (self : Machine) (source : String) (e : ScopeRef) (name : Option String) :
    Run Unit := do
  reset
  if name.isSome then modifyHeap (·.modifyScope e fun s => { s with origin := name })
  unlessStopped () do
    discard (runSource self source e name)
    runTasks self self.rounds

/-- Evaluates the tree of a source as one node; the result may be a jump. -/
def evaluateIn (self : Machine) (source : String) (e : ScopeRef) (name : Option String) :
    Run (Except Jump Value) := do
  let root ← ofExcept (parseProgram source name)
  (self.evaluate root e).catchJump

end Engine

end ScriptEngine
