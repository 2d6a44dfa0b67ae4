import ScriptEngine.Evaluation.Programs
import ScriptEngine.Number.Trigonometry

/-! # Functions that are not written in the language

The builtins that every program starts with, and the functions of the host. Each runs in a scope of
its own inside the scope that it was called from. -/

namespace ScriptEngine

namespace Builtins

open Run

/-! ### Numbers -/

/-- The ratio of a circle's circumference to its diameter. -/
def pi : Single := .ofRatio false 3141592653589793 1000000000000000

/-- The golden ratio. -/
def phi : Single := .ofRatio false 1618034 1000000

def radiansPerDegree : Single := pi.div (.ofNat 180)

def degreesPerRadian : Single := .ofRatio false 5729578 100000

/-- The value as a number, in a call of `function`; null is zero. -/
def numberArg (function : String) (v : Value) : Run Single := do
  match v.number? with
  | some n => return n
  | none => raise (.illegalArgument (← display v) function)

/-- The functions of numbers alone; none if they are not of this kind or not applied to as many
numbers. -/
def compute : Builtin → List Single → Option (Except Fault Single)
  | .sin, [x] => some (.ok x.sine)
  | .cos, [x] => some (.ok x.cosine)
  | .signum, [x] => some (.ok x.sign)
  | .abs, [x] => some (.ok x.abs)
  | .floor, [x] => some (.ok x.floor)
  | .ceil, [x] => some (.ok x.ceil)
  | .sqrt, [x] => some (.ok x.sqrt)
  | .toRadians, [x] => some (.ok (x.mul radiansPerDegree))
  | .toDegrees, [x] => some (.ok (x.mul degreesPerRadian))
  | .min, [x, y] => some (.ok (x.min y))
  | .max, [x, y] => some (.ok (x.max y))
  | .clamp, [x, low, high] => some (.ok (low.max (high.min x)))
  | .modulo, [x, y] => some (if y.isZero then .error .divisionByZero else .ok (x.rem y))
  | .distance, [x1, y1, x2, y2] =>
    let dx := x1.sub x2
    let dy := y1.sub y2
    some (.ok ((dx.mul dx).add (dy.mul dy)).sqrt)
  | _, _ => none

/-- A whole number of steps from `low` that stays within `high`; zero if `high` is below `low`. -/
def randomBetween (low high : Single) : Run Single := do
  let bound := high.sub low
  if bound.lt (.zero false) then return .zero false
  else
    let offset ← draw ((bound.toWord 64).toNat + 1)
    return low.add (.ofNat offset)

/-! ### Input -/

/-- Prompts for a line of input, without its line ending. -/
def readLine : Run String := do
  print "> "
  let (line, rest) := Text.takeLine (← world).input
  modify fun w => { w with input := rest }
  match Text.decode? line with
  | some text => return String.ofList (Text.trimEnd (fun c => c == '\n' || c == '\r') text.toList)
  | none => raise (.unreadableInput FileError.notText.message)

/-! ### Builtins -/

/-- The scope that a function was called from. -/
def caller (h : Heap) (scope : ScopeRef) : ScopeRef :=
  (h.scope scope).parent.getD scope

/-- The program text that a value stands for. -/
def programText (v : Value) : Run String := do
  let h ← heap
  match v with
  | .text _ code => return code
  | .list l => return Text.joinStrings "\n" ((h.items l).toList.map h.display)
  | v => raise (.illegalArgument (h.display v) Builtin.interpret.name)

def run (self : Machine) (b : Builtin) (args : List Value) (scope : ScopeRef) : Run Value := do
  match b, args with
  | .print, [v] =>
    print ((← display v) ++ "\n")
    return .null
  | .wait, [v] =>
    let time ← numberArg "wait" v
    modify fun w => { w with waited := w.waited + (time.toWord 65).toNat }
    return .null
  | .interpret, [v] =>
    let code ← programText v
    let h ← heap
    let target := caller h scope
    Evaluation.runSource self code target (h.origin target)
  | .dAlloc, [v] =>
    let h ← heap
    let name := h.display v
    remove (h.owner (caller h scope) name) name
    return .null
  | .async, [v] =>
    match v with
    | .function _ _ _ | .native _ _ =>
      spawn v
      return .null
    | v => raise (.illegalArgument (← display v) "async")
  | .random, _ => newNumber (.ofRatio false (← draw 0x1000000) 0x1000000)
  | .randomBetween, [low, high] =>
    let low ← numberArg "randomBetween" low
    let high ← numberArg "randomBetween" high
    newNumber (← randomBetween low high)
  | .readString, _ => newText (← readLine)
  | .readNumber, _ =>
    let text := Text.trim (← readLine)
    match Number.ofText? text with
    | some n => newNumber n
    | none => raise (.notANumber text)
  | b, args =>
    match compute b (← mapAll (numberArg b.name) args) with
    | some result => newNumber (← Operators.ofFault result)
    | none => return .null

/-! ### Functions of the host -/

/-- Builds an instance of a value, which must be an object definition. -/
def instantiateValue (self : Machine) (v : Value) (args : List Value) (e : ScopeRef) :
    Run ScopeRef := do
  match v with
  | .cls c => Evaluation.instantiate self c args e
  | v => raise (.notAnObject (← display v))

/-- The names of a scope and of its parent, then its bindings. -/
def describeScope (h : Heap) (scope : ScopeRef) : List String :=
  let s := h.scope scope
  s.name :: ((s.parent.map fun p => (h.scope p).name).getD "") ::
    s.bindings.map fun e => e.1 ++ "=" ++ h.display e.2

def runHost (self : Machine) (behavior : HostBehavior) (args : List Value) (scope : ScopeRef) :
    Run Value := do
  let first := args.headD .null
  match behavior with
  | .echo => newList args.toArray
  | .first => return first
  | .null => return .null
  | .sum =>
    newNumber (args.foldl (fun total v => total.add (v.number?.getD (.zero false))) (.zero false))
  | .stop =>
    modify fun w => { w with stopped := true }
    return .null
  | .fail d => fail d
  | .type => newText first.typeName
  | .spawn =>
    spawn first
    newNumber (.ofNat (← world).tasks.length)
  | .call => self.call first args.tail scope
  | .instantiate => return .instance_ (← instantiateValue self first args.tail scope)
  | .scope => newTexts (describeScope (← heap) scope)
  | .origin =>
    match (← heap).origin scope with
    | some path => newText path
    | none => return .null
  | .callback key => self.host key args scope

/-! ### Standard bindings -/

/-- The bindings that every program starts with, in order. -/
def standardBindings : Run (List (String × Value)) := do
  let core ← Methods.bound ([.print, .wait, .interpret, .dAlloc, .async].map .builtin)
  let object ← newClass "Object" [] .object none
  let pi ← newNumber pi
  let phi ← newNumber phi
  let math ← Methods.bound ([.sin, .cos, .signum, .abs, .floor, .ceil, .sqrt, .toRadians,
    .toDegrees, .min, .max, .clamp, .modulo, .distance, .random, .randomBetween].map .builtin)
  let file ← newClass "File" ["path"] .file none
  let scanner ← Methods.bound ([.readString, .readNumber].map .builtin)
  return core ++ [("Object", object), ("PI", pi), ("PHI", phi)] ++ math ++ [("File", file)] ++
    scanner

end Builtins

end ScriptEngine
