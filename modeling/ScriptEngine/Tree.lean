import ScriptEngine.Diagnostic
import ScriptEngine.Number

/-! # Syntax trees

A program is a tree of nodes, each with the place of the token that introduced it. `Node.erase`
forgets the places, so two trees are equal up to positions if they erase to the same tree. -/

namespace ScriptEngine

inductive Arithmetic where
  | add | sub | mul | div
  deriving DecidableEq, Repr

def Arithmetic.symbol : Arithmetic → String
  | add => "+"
  | sub => "-"
  | mul => "*"
  | div => "/"

inductive BinaryOp where
  | arithmetic (op : Arithmetic)
  | equal | notEqual | less | lessEqual | greater | greaterEqual
  | and_ | or_
  deriving DecidableEq, Repr

def BinaryOp.symbol : BinaryOp → String
  | arithmetic op => op.symbol
  | equal => "=="
  | notEqual => "!="
  | less => "<"
  | lessEqual => "<="
  | greater => ">"
  | greaterEqual => ">="
  | and_ => "and"
  | or_ => "or"

inductive UnaryOp where
  | plus | negate | not_
  deriving DecidableEq, Repr

mutual

/-- An expression or a statement. The body of a branch, a loop or a function is braced or inline;
a braced one yields null. -/
inductive Node where
  | number (pos : Position) (value : Single)
  | text (pos : Position) (value : String)
  | list (pos : Position) (items : List Node)
  | binary (pos : Position) (op : BinaryOp) (left right : Node)
  | unary (pos : Position) (op : UnaryOp) (operand : Node)
  | read (pos : Position) (name : String)
  | this (pos : Position)
  | declare (pos : Position) (name : String) (value : Node)
  | assign (pos : Position) (name : String) (value : Node)
  | update (pos : Position) (name : String) (op : Arithmetic) (value : Node)
  | choose (pos : Position) (arms : Arms)
  | count (pos : Position) (name : String) (start stop : Node) (step : Option Node)
      (braced : Bool) (body : Node)
  | each (pos : Position) (name : String) (items : Node) (braced : Bool) (body : Node)
  | loop (pos : Position) (condition : Node) (braced : Bool) (body : Node)
  | function (pos : Position) (name : Option String) (params : List String)
      (braced : Bool) (body : Node)
  | call (pos : Position) (callee : Node) (args : List Node)
  | sequence (pos : Position) (statements : List Node)
  | members (pos : Position) (segments : List Node)
  | object (pos : Position) (name : String) (params : List String) (parent : Option String)
      (body : Node)
  | create (pos : Position) (name : String) (args : List Node)
  | return_ (pos : Position) (value : Option Node)
  | continue_ (pos : Position)
  | break_ (pos : Position)
  | include_ (pos : Position) (paths : List Node)

/-- The arms of a choice in order: conditions with their bodies, then perhaps a body for the case
that none of them holds. -/
inductive Arms where
  | done
  | otherwise (braced : Bool) (body : Node)
  | arm (condition : Node) (braced : Bool) (body : Node) (more : Arms)

end

instance : Inhabited Node := ⟨.this .none⟩

namespace Node

def pos : Node → Position
  | number p _ | text p _ | list p _ | binary p _ _ _ | unary p _ _ | read p _ | this p
  | declare p _ _ | assign p _ _ | update p _ _ _ | choose p _ | count p _ _ _ _ _ _
  | each p _ _ _ _ | loop p _ _ _ | function p _ _ _ _ | call p _ _ | sequence p _
  | members p _ | object p _ _ _ _ | create p _ _ | return_ p _ | continue_ p | break_ p
  | include_ p _ => p

end Node

mutual

/-- The name under which a call of this node appears in a trace. -/
def Node.label : Node → String
  | .read _ name => name
  | .this _ => "this"
  | .function _ name _ _ _ => name.getD "<anonymous>"
  | .members _ segments => lastLabel segments
  | .call _ callee _ => callee.label
  | _ => "<expression>"
termination_by structural n => n

def lastLabel : List Node → String
  | [] => "<member>"
  | [n] => n.label
  | _ :: n :: ns => lastLabel (n :: ns)
termination_by structural ns => ns

end

mutual

/-- The tree with every position forgotten. -/
def Node.erase : Node → Node
  | .number _ value => .number .none value
  | .text _ value => .text .none value
  | .list _ items => .list .none (eraseAll items)
  | .binary _ op left right => .binary .none op left.erase right.erase
  | .unary _ op operand => .unary .none op operand.erase
  | .read _ name => .read .none name
  | .this _ => .this .none
  | .declare _ name value => .declare .none name value.erase
  | .assign _ name value => .assign .none name value.erase
  | .update _ name op value => .update .none name op value.erase
  | .choose _ arms => .choose .none arms.erase
  | .count _ name start stop step braced body =>
    .count .none name start.erase stop.erase (eraseSome step) braced body.erase
  | .each _ name items braced body => .each .none name items.erase braced body.erase
  | .loop _ condition braced body => .loop .none condition.erase braced body.erase
  | .function _ name params braced body => .function .none name params braced body.erase
  | .call _ callee args => .call .none callee.erase (eraseAll args)
  | .sequence _ statements => .sequence .none (eraseAll statements)
  | .members _ segments => .members .none (eraseAll segments)
  | .object _ name params parent body => .object .none name params parent body.erase
  | .create _ name args => .create .none name (eraseAll args)
  | .return_ _ value => .return_ .none (eraseSome value)
  | .continue_ _ => .continue_ .none
  | .break_ _ => .break_ .none
  | .include_ _ paths => .include_ .none (eraseAll paths)
termination_by structural n => n

def Arms.erase : Arms → Arms
  | .done => .done
  | .otherwise braced body => .otherwise braced body.erase
  | .arm condition braced body more => .arm condition.erase braced body.erase more.erase
termination_by structural arms => arms

def eraseAll : List Node → List Node
  | [] => []
  | n :: ns => n.erase :: eraseAll ns
termination_by structural ns => ns

def eraseSome : Option Node → Option Node
  | none => none
  | some n => some n.erase
termination_by structural n => n

end

end ScriptEngine
