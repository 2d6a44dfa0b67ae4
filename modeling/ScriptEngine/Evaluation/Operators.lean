import ScriptEngine.World

/-! # Operators

The kind of the left operand decides what an operator does. Instances overload the arithmetic
operators with members of fixed names. -/

namespace ScriptEngine

/-- What evaluation refers back to, for one unit of fuel less: evaluating a node in a scope,
calling a value, the callbacks of the host, and how often a loop may go round. -/
structure Machine where
  rounds : Nat
  evaluate : Node → ScopeRef → Run Value
  call : Value → List Value → ScopeRef → Run Value
  host : String → List Value → ScopeRef → Run Value

/-- What a host does under each key, with the machine that it may evaluate and call with. -/
def Callbacks : Type :=
  String → Machine → List Value → ScopeRef → Run Value

/-- A host without callbacks of its own. -/
def Callbacks.none : Callbacks :=
  fun key _ _ _ => Run.raise (.illegalArgument key "native")

namespace Operators

open Run

def overloadName : Arithmetic → String
  | .add => "add_"
  | .sub => "sub_"
  | .mul => "mult_"
  | .div => "div_"

/-! ### Comparison -/

/-- Loose equality: numbers within the tolerance, texts by content, all else by identity. A number
on the left can only be compared with a number. -/
def equals (h : Heap) (a b : Value) : Except Fault Bool :=
  match a.number?, b.number? with
  | some x, some y => .ok ((x.sub y).abs.lt tolerance)
  | some _, none => .error (.illegalOperation (h.display b))
  | none, _ =>
    match a, b with
    | .text _ s, .text _ t => .ok (s == t)
    | _, _ => .ok (a.same b)

/-- Both operands as numbers. -/
def numbers (h : Heap) (a b : Value) : Except Fault (Single × Single) :=
  match a.number?, b.number? with
  | none, _ => .error (.illegalOperation (h.display a))
  | some _, none => .error (.illegalOperation (h.display b))
  | some x, some y => .ok (x, y)

def holds (x : Single) : Bool :=
  tolerance.le x.abs

/-- The relation of two numbers that a comparing or logical operator tests. -/
def relation : BinaryOp → Single → Single → Bool
  | .less, x, y => x.lt y
  | .lessEqual, x, y => x.le y
  | .greater, x, y => y.lt x
  | .greaterEqual, x, y => y.le x
  | .and_, x, y => holds x && holds y
  | .or_, x, y => holds x || holds y
  | _, _, _ => false

def ofFault {α : Type} : Except Fault α → Run α
  | .ok a => Run.done a
  | .error fault => raise fault

/-! ### Arithmetic -/

def numberArithmetic : Arithmetic → Single → Single → Except Fault Single
  | .add, x, y => .ok (x.add y)
  | .sub, x, y => .ok (x.sub y)
  | .mul, x, y => .ok (x.mul y)
  | .div, x, y => if y.isZero then .error .divisionByZero else .ok (x.div y)

def illegal {α : Type} (operand : Value) : Run α := do
  raise (.illegalOperation (← display operand))

/-- The texts of both operands, one behind the other. -/
def concatenated (a b : Value) : Run Value := do
  newText ((← display a) ++ (← display b))

def numberWith (op : Arithmetic) (x : Single) (a b : Value) : Run Value :=
  match b.number?, b, op with
  | some y, _, _ => do newNumber (← ofFault (numberArithmetic op x y))
  | none, .text _ _, .add => concatenated a b
  | none, _, _ => illegal b

def listWith (op : Arithmetic) (l : ListRef) (b : Value) : Run Value := do
  let items := (← heap).items l
  match op, b with
  | .add, .list other => newList (items ++ (← heap).items other)
  | .add, _ | .mul, _ => newList (items.push b)
  | _, _ => illegal b

/-- The member of an instance that overloads the operator, if it can be called. -/
def overload? (h : Heap) (e : ScopeRef) (op : Arithmetic) : Option Value :=
  ((h.scope e).bindings.get? (overloadName op)).filter (·.isCallable)

def arithmetic (self : Machine) (op : Arithmetic) (a b : Value) : Run Value := do
  match a with
  | .null => numberWith op (.zero false) a b
  | .number _ x => numberWith op x a b
  | .list l => listWith op l b
  | .instance_ e =>
    match overload? (← heap) e op, op with
    | some method, _ => self.call method [b] e
    | none, .add => concatenated a b
    | none, _ => illegal b
  | _ =>
    match op with
    | .add => concatenated a b
    | _ => illegal b

/-! ### All operators -/

def binary (self : Machine) (op : BinaryOp) (a b : Value) : Run Value := do
  match op with
  | .arithmetic op => arithmetic self op a b
  | .equal => newBool (← ofFault (equals (← heap) a b))
  | .notEqual => newBool (!(← ofFault (equals (← heap) a b)))
  | op =>
    let (x, y) ← ofFault (numbers (← heap) a b)
    newBool (relation op x y)

/-- Negation multiplies by minus one, which only numbers, lists and instances that overload
multiplication accept. -/
def isNegatable (h : Heap) : Value → Bool
  | .null | .number _ _ | .list _ => true
  | .instance_ e => (overload? h e .mul).isSome
  | _ => false

def unary (self : Machine) (op : UnaryOp) (a : Value) : Run Value := do
  match op with
  | .plus => return a
  | .negate =>
    if isNegatable (← heap) a then arithmetic self .mul a (← newNumber (.ofInt (-1)))
    else illegal a
  | .not_ => newBool (!(← isTruthy a))

end Operators

end ScriptEngine
