import ScriptEngine.Heap
import ScriptEngine.Inclusion
import ScriptEngine.Value.Display

/-! # The world of a running program

Everything that a run can read or change, and the ways in which a run can end. A run that fails
keeps what it changed before. -/

namespace ScriptEngine

/-- Something that the host can observe. -/
inductive Event where
  /-- A tracked name was read from the host. -/
  | read (name : String)
  /-- A watched name of a scope was written; `shown` is the text of the value at that moment. -/
  | wrote (scope : ScopeRef) (name : String) (value : Value) (shown : String)
  /-- A task was put at the end of the queue. -/
  | queued (task : Value)
  /-- A task was taken from the front of the queue. -/
  | started (task : Value)

structure World where
  heap : Heap
  globals : ScopeRef
  /-- The name of the main source. -/
  source : Option String
  /-- Calls that may be active at once. -/
  maxDepth : Nat
  /-- Calls that are active now. -/
  depth : Nat
  /-- The most calls that were active at once. -/
  deepest : Nat
  /-- Calls, instantiations and inclusions under way, innermost first. A failure leaves them as
  they stood when it arose. -/
  calls : List TraceEntry
  tasks : List Value
  stopped : Bool
  resolver : Resolver
  files : FileTree
  /-- Input bytes that are not read yet. -/
  input : List UInt8
  output : String
  /-- Host variables that tracked names are read from. -/
  cells : Table HostValue
  journal : List Event
  /-- State of the random numbers. -/
  seed : Nat
  /-- For each call of a `super` to come, whether its instance is freed by then. The world does not
  count references; who runs a program decides. -/
  freed : Nat → Bool
  /-- Milliseconds that the program asked to wait. -/
  waited : Nat

/-- One call deeper. -/
def World.enter (w : World) : World :=
  { w with depth := w.depth + 1, deepest := Nat.max w.deepest (w.depth + 1) }

/-- One call less deep. -/
def World.leave (w : World) : World :=
  { w with depth := w.depth - 1 }

/-- A way to leave an expression other than with its value. -/
inductive Jump where
  | return_ (value : Value)
  | break_
  | continue_

/-- How a run ends: with a result, with a jump to an enclosing construct, with an error, or because
its fuel was used up; the world is then that of the moment at which the run was cut off. -/
inductive Outcome (α : Type) where
  | done (value : α) (world : World)
  | jumped (jump : Jump) (world : World)
  | failed (diagnostic : Diagnostic) (world : World)
  | exhausted (world : World)

/-- A computation in the world. -/
def Run (α : Type) : Type :=
  World → Outcome α

namespace Run

variable {α β : Type}

@[inline] def done (a : α) : Run α :=
  fun w => .done a w

@[inline] def andThen (x : Run α) (f : α → Run β) : Run β :=
  fun w =>
    match x w with
    | .done a w => f a w
    | .jumped j w => .jumped j w
    | .failed d w => .failed d w
    | .exhausted w => .exhausted w

instance : Monad Run where
  pure := done
  bind := andThen

/-- Runs `f` for each element in order and collects the results. -/
def mapAll (f : α → Run β) : List α → Run (List β)
  | [] => done []
  | a :: as => do
    let b ← f a
    let bs ← mapAll f as
    return b :: bs

@[inline] def world : Run World :=
  fun w => .done w w

@[inline] def modify (f : World → World) : Run Unit :=
  fun w => .done () (f w)

def heap : Run Heap :=
  fun w => .done w.heap w

@[inline] def modifyHeap (f : Heap → Heap) : Run Unit :=
  modify fun w => { w with heap := f w.heap }

/-- Runs a change of the heap that makes something. -/
@[inline] def make (f : Heap → α × Heap) : Run α :=
  fun w =>
    let (a, h) := f w.heap
    .done a { w with heap := h }

def jump (j : Jump) : Run α :=
  fun w => .jumped j w

def fail (d : Diagnostic) : Run α :=
  fun w => .failed d w

def raise (fault : Fault) : Run α :=
  fail (.of fault)

def exhausted : Run α :=
  fun w => .exhausted w

def ofExcept : Except Diagnostic α → Run α
  | .ok a => done a
  | .error d => fail d

/-- Changes the diagnostic of a failure. -/
def onFailure (f : Diagnostic → Diagnostic) (x : Run α) : Run α :=
  fun w =>
    match x w with
    | .failed d w => .failed (f d) w
    | o => o

/-- Failures without a place are at `p`. -/
def locatedAt (p : Position) (x : Run α) : Run α :=
  x.onFailure (·.orPosition p)

/-- The result or the jump that the computation ends with. -/
def catchJump (x : Run α) : Run (Except Jump α) :=
  fun w =>
    match x w with
    | .done a w => .done (.ok a) w
    | .jumped j w => .done (.error j) w
    | .failed d w => .failed d w
    | .exhausted w => .exhausted w

/-! ### Calls -/

/-- Runs the body of a call, unless too many calls are active already. -/
def withFrame (x : Run α) : Run α :=
  fun w =>
    if w.maxDepth ≤ w.depth then .failed (.of (.tooDeep w.maxDepth)) w
    else
      match x w.enter with
      | .done a w => .done a w.leave
      | .jumped j w => .jumped j w.leave
      | .failed d w => .failed d w.leave
      | .exhausted w => .exhausted w

/-- Runs an invocation that a failure is traced through. -/
def during (entry : TraceEntry) (x : Run α) : Run α :=
  fun w =>
    match x { w with calls := entry :: w.calls } with
    | .done a w' => .done a { w' with calls := w.calls }
    | .jumped j w' => .jumped j { w' with calls := w.calls }
    | .failed d w' => .failed (d.withTrace entry) w'
    | .exhausted w' => .exhausted w'

/-! ### Making values -/

def newNumber (n : Single) : Run Value :=
  make fun h => let (stamp, h) := h.newStamp; (.number stamp n, h)

def newBool (b : Bool) : Run Value :=
  newNumber (.ofBool b)

def newText (s : String) : Run Value :=
  make fun h => let (stamp, h) := h.newStamp; (.text stamp s, h)

def newList (items : Array Value) : Run Value :=
  make fun h => let (l, h) := h.newList items; (.list l, h)

def newFunction (lambda : Lambda) (e : ScopeRef) : Run Value :=
  make fun h => let (stamp, h) := h.newStamp; (.function stamp lambda e, h)

def newNative (n : Native) : Run Value :=
  make fun h => let (stamp, h) := h.newStamp; (.native stamp n, h)

def newClass (name : String) (params : List String) (body : ClassBody)
    (parent : Option Class) : Run Value :=
  make fun h =>
    let (stamp, h) := h.newStamp
    (.cls { stamp := stamp, name := name, params := params, body := body, parent := parent }, h)

def newScope (s : Scope) : Run ScopeRef :=
  make fun h => h.newScope s

def newTexts (texts : List String) : Run Value := do
  newList (← mapAll newText texts).toArray

mutual

/-- A host value as a value of the language. -/
def fromHost : HostValue → Run Value
  | .null => done .null
  | .bool b => newBool b
  | .number n => newNumber n.convert
  | .text s => newText s
  | .list items => andThen (fromHosts items) fun values => newList values.toArray
termination_by structural v => v

def fromHosts : List HostValue → Run (List Value)
  | [] => done []
  | v :: vs => andThen (fromHost v) fun a => andThen (fromHosts vs) fun rest => done (a :: rest)
termination_by structural vs => vs

end

/-! ### Text of values -/

def display (v : Value) : Run String :=
  fun w => .done (w.heap.display v) w

def isTruthy (v : Value) : Run Bool :=
  fun w => .done (w.heap.isTruthy v) w

/-! ### Scopes -/

def note (event : Event) : Run Unit :=
  modify fun w => { w with journal := event :: w.journal }

def define (e : ScopeRef) (name : String) (value : Value) : Run Unit :=
  modifyHeap (·.modifyScope e (·.define name value))

def remove (e : ScopeRef) (name : String) : Run Unit :=
  modifyHeap (·.modifyScope e (·.remove name))

/-- Reports a write if the name is watched. -/
def reportWrite (e : ScopeRef) (name : String) (value : Value) : Run Unit := do
  let h ← heap
  if (h.scope e).watched.contains name then note (.wrote e name value (h.display value))

/-- Binds in the scope and reports the write. -/
def set (e : ScopeRef) (name : String) (value : Value) : Run Unit := do
  define e name value
  reportWrite e name value

/-- The value of the host variable of that name. -/
def readCell (name : String) : Run Value := do
  note (.read name)
  fromHost (((← world).cells.get? name).getD .null)

/-- Reads a name in the scope itself. -/
def getLocal (e : ScopeRef) (name : String) : Run (Option Value) := do
  let s := (← heap).scope e
  if s.tracked.contains name then return some (← readCell name)
  else return s.bindings.get? name

/-- Reads a name through the view, its receiver and the chain of parents. -/
def get (e : ScopeRef) (name : String) : Run (Option Value) := do
  match (← heap).locate e name with
  | some found => getLocal found name
  | none => return none

def storage (e : ScopeRef) : Run ScopeRef :=
  fun w => .done (w.heap.storage e) w

def owner (e : ScopeRef) (name : String) : Run ScopeRef :=
  fun w => .done (w.heap.owner e name) w

/-- A scope inside `e` with the same name. -/
def innerScope (e : ScopeRef) : Run ScopeRef := do
  newScope (.fresh ((← heap).scope e).name (some e) none)

/-- A view of `receiver` with `outer` around it. -/
def memberView (receiver outer : ScopeRef) : Run ScopeRef := do
  newScope (.fresh ((← heap).scope receiver).name (some outer) (some receiver))

/-! ### Streams -/

def print (s : String) : Run Unit :=
  modify fun w => { w with output := w.output ++ s }

/-! ### Tasks -/

def spawn (task : Value) : Run Unit := do
  note (.queued task)
  modify fun w => { w with tasks := w.tasks ++ [task] }

/-- Takes the first task from the queue. -/
def nextTask : Run (Option Value) := do
  match (← world).tasks with
  | [] => return none
  | task :: rest =>
    note (.started task)
    modify fun w => { w with tasks := rest }
    return some task

/-! ### Random numbers -/

/-- A number below `bound`. -/
def draw (bound : Nat) : Run Nat :=
  fun w =>
    let seed := (w.seed * 6364136223846793005 + 1442695040888963407) % 0x10000000000000000
    let next := (seed * 6364136223846793005 + 1442695040888963407) % 0x10000000000000000
    .done ((seed / 0x100000000 * 0x100000000 + next / 0x100000000) % bound) { w with seed := next }

/-! ### Lifetimes -/

/-- Whether the instance is freed that the `super` belongs to that is called now. -/
def isFreed : Run Bool :=
  fun w => .done (w.freed 0) { w with freed := fun n => w.freed (n + 1) }

end Run

end ScriptEngine
