import ScriptEngine.Number.Decimal
import ScriptEngine.Text.Search
import ScriptEngine.Tree

/-! # Canonical source text

Printing writes a tree as source text. Operators are always in parentheses; a construct that would
swallow what follows it is put in parentheses where something follows. -/

namespace ScriptEngine

namespace Printer

/-! ### Pieces of text -/

def newline (indent : Nat) : String :=
  "\n" ++ String.join (List.replicate indent "    ")

def parenthesized (wrap : Bool) (text : String) : String :=
  if wrap then "(" ++ text ++ ")" else text

def commaSeparated (texts : List String) : String :=
  Text.joinStrings ", " texts

def escape (c : Char) : List Char :=
  if c = '\n' then ['\\', 'n']
  else if c = '\t' then ['\\', 't']
  else if c = '\\' then ['\\', '\\']
  else if c = '"' then ['\\', '"']
  else [c]

def textLiteral (s : String) : String :=
  String.ofList ('"' :: s.toList.flatMap escape ++ ['"'])

def parameters (params : List String) : String :=
  "(" ++ commaSeparated params ++ ")"

/-- Statements on lines of their own between braces. -/
def braces (indent : Nat) (statements : List String) : String :=
  "\x7b" ++ String.join (statements.map (newline (indent + 1) ++ ·)) ++ newline indent ++ "\x7d"

/-! ### Where parentheses are needed -/

/-- The last arm of the choice has a condition, so a following arm would attach to it. -/
def isOpenArms : Arms → Bool
  | .done => true
  | .otherwise _ _ => false
  | .arm _ _ _ more => isOpenArms more

def isOpenChoice : Node → Bool
  | .choose _ arms => isOpenArms arms
  | _ => false

/-- Would swallow an operator that follows. -/
def isGreedy : Node → Bool
  | .choose _ _ | .count _ _ _ _ _ _ _ | .each _ _ _ _ _ | .loop _ _ _ _ | .function _ _ _ _ _
  | .object _ _ _ _ _ | .declare _ _ _ | .assign _ _ _ | .update _ _ _ _ | .include_ _ _ => true
  | _ => false

/-- Can be called as it stands. -/
def isBareCallee : Node → Bool
  | .read _ _ | .this _ | .text _ _ | .list _ _ => true
  | _ => false

def isNumber : Node → Bool
  | .number _ _ => true
  | _ => false

/-- A body in braces, where `print` prints that same body at an indentation. The literal zero is
what an empty pair of braces parses to. -/
def block (body : Node) (print : Nat → String) (indent : Nat) : String :=
  match body with
  | .sequence _ _ => print indent
  | .number _ value => braces indent (if value.isZero then [] else [print (indent + 1)])
  | _ => braces indent [print (indent + 1)]

/-- The body of a branch, a loop or a function with what stands before it. -/
def bodyText (braced : Bool) (body : Node) (print : Nat → String) (indent : Nat) : String :=
  if braced then " " ++ block body print indent
  else ": " ++ parenthesized (isOpenChoice body) (print indent)

end Printer

open Printer

mutual

def Node.print (indent : Nat) : Node → String
  | .number _ value => value.text
  | .text _ value => textLiteral value
  | .list _ items => "[" ++ commaSeparated (printAll indent items) ++ "]"
  | .binary _ op left right =>
    "(" ++ parenthesized (isGreedy left) (left.print indent) ++ " " ++ op.symbol ++ " " ++
      parenthesized (isGreedy right) (right.print indent) ++ ")"
  | .unary _ op operand =>
    (match op with
      | .plus => "(+"
      | .negate => "(-"
      | .not_ => "(not ") ++
      parenthesized (isGreedy operand) (operand.print indent) ++ ")"
  | .read _ name => name
  | .this _ => "this"
  | .declare _ name value =>
    "var " ++ name ++ " = " ++ parenthesized (isOpenChoice value) (value.print indent)
  | .assign _ name value =>
    name ++ " = " ++ parenthesized (isOpenChoice value) (value.print indent)
  | .update _ name op value =>
    name ++ " " ++ op.symbol ++ "= " ++ parenthesized (isOpenChoice value) (value.print indent)
  | .choose _ arms => arms.print indent "if "
  | .count _ name start stop step braced body =>
    "for " ++ name ++ " = " ++ start.print indent ++ " to " ++ stop.print indent ++
      printSome indent " by " step ++ bodyText braced body (fun i => body.print i) indent
  | .each _ name items braced body =>
    "for " ++ name ++ " in " ++ items.print indent ++
      bodyText braced body (fun i => body.print i) indent
  | .loop _ condition braced body =>
    "while " ++ condition.print indent ++ bodyText braced body (fun i => body.print i) indent
  | .function _ name params braced body =>
    "function" ++ (match name with
      | some n => " " ++ n
      | none => "") ++ parameters params ++ bodyText braced body (fun i => body.print i) indent
  | .call _ callee args =>
    parenthesized (!isBareCallee callee) (callee.print indent) ++ "(" ++
      commaSeparated (printAll indent args) ++ ")"
  | .sequence _ statements => braces indent (printAll (indent + 1) statements)
  | .members _ segments => Text.joinStrings "." (printSegments indent segments)
  | .object _ name params parent body =>
    "object " ++ name ++ parameters params ++ (match parent with
      | some p => " extends " ++ p
      | none => "") ++ " " ++ block body (fun i => body.print i) indent
  | .create _ name args =>
    "new " ++ name ++ "(" ++ commaSeparated (printAll indent args) ++ ")"
  | .return_ _ value => "return" ++ printReturned indent value
  | .continue_ _ => "continue"
  | .break_ _ => "break"
  | .include_ _ paths => "include " ++ commaSeparated (printAll indent paths)
termination_by structural n => n

def Arms.print (indent : Nat) (word : String) : Arms → String
  | .done => ""
  | .otherwise braced body => " else" ++ bodyText braced body (fun i => body.print i) indent
  | .arm condition braced body more =>
    word ++ condition.print indent ++ bodyText braced body (fun i => body.print i) indent ++
      more.print indent " elseif "
termination_by structural arms => arms

def printAll (indent : Nat) : List Node → List String
  | [] => []
  | n :: ns => n.print indent :: printAll indent ns
termination_by structural ns => ns

def printSegments (indent : Nat) : List Node → List String
  | [] => []
  | n :: ns => parenthesized (isNumber n) (n.print indent) :: printSegments indent ns
termination_by structural ns => ns

def printSome (indent : Nat) (word : String) : Option Node → String
  | none => ""
  | some n => word ++ n.print indent
termination_by structural n => n

def printReturned (indent : Nat) : Option Node → String
  | none => ""
  | some n => " " ++ parenthesized (isOpenChoice n) (n.print indent)
termination_by structural n => n

end

/-- The canonical source of a program; the statements of the root are lines of their own. -/
def Node.toSource : Node → String
  | .sequence _ statements => Text.joinStrings "\n" (printAll 0 statements)
  | n => n.print 0

end ScriptEngine
