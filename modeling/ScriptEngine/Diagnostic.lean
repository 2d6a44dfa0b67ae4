/-! # Diagnostics

A diagnostic says what went wrong, where, and through which calls. The cause is data; its kind and
its wording are read off it. -/

namespace ScriptEngine

/-- A place in a named or unnamed source; offset and length count bytes. -/
structure Position where
  line : Nat
  offset : Nat
  length : Nat
  source : Option String
  deriving DecidableEq, Repr, Inhabited

namespace Position

/-- The start of no source at all. -/
def none : Position :=
  { line := 0, offset := 0, length := 0, source := .none }

def render (p : Position) : String :=
  "line " ++ toString p.line ++ "(" ++ p.source.getD "<input>" ++ ")"

end Position

inductive DiagnosticKind where
  | illegalCharacter
  | expectedCharacter
  | grammar
  | runtime
  | nullPointer
  | illegalArgument
  | fileNotFound
  | stop
  deriving DecidableEq, Repr

namespace DiagnosticKind

def label : DiagnosticKind → String
  | illegalCharacter => "Illegal Character Error"
  | expectedCharacter => "Expected Character Error"
  | grammar => "Syntax Error"
  | runtime => "Runtime Error"
  | nullPointer => "Null Pointer"
  | illegalArgument => "Illegal Argument"
  | fileNotFound => "File Not Found"
  | stop => "Stop"

/-- Raised by a running program. -/
def isRuntime : DiagnosticKind → Bool
  | runtime | nullPointer | illegalArgument => true
  | _ => false

end DiagnosticKind

/-- Why lexing, parsing or running failed. -/
inductive Fault where
  | illegalCharacter (char : Char)
  | missingHexDigit
  | unexpected (found : String)
  | expected (what : String)
  | invalidNumber (lexeme : String)
  | illegalOperation (operand : String)
  | divisionByZero
  | indexOutOfBounds (index : Int)
  | emptyPop
  | notAList (value : String)
  | notAnObject (name : String)
  | notANumber (text : String)
  | boundNotANumber (bound value : String)
  | zeroStep
  | wrongArity (callee : String)
  | tooDeep (limit : Nat)
  | breakOutsideLoop
  | continueOutsideLoop
  | loopControlLeavesFunction (name : String)
  | loopControlLeavesObject (name : String)
  | superOutsideConstructor
  | unreadableInput (reason : String)
  | undefined (name : String)
  | illegalArgument (argument function : String)
  | fileNotFound (path : String)
  | stopped
  | custom (kind : DiagnosticKind) (message : String)
  deriving DecidableEq, Repr

namespace Fault

def kind : Fault → DiagnosticKind
  | illegalCharacter _ => .illegalCharacter
  | missingHexDigit => .expectedCharacter
  | unexpected _ | expected _ | invalidNumber _ => .grammar
  | undefined _ => .nullPointer
  | illegalArgument _ _ => .illegalArgument
  | fileNotFound _ => .fileNotFound
  | stopped => .stop
  | custom kind _ => kind
  | _ => .runtime

def message : Fault → String
  | illegalCharacter c => "Illegal character '" ++ String.singleton c ++ "'"
  | missingHexDigit => "Expected hexadecimal digit after '0x'"
  | unexpected found => "Unexpected " ++ found
  | expected what => "Expected " ++ what
  | invalidNumber lexeme => "Invalid number '" ++ lexeme ++ "'"
  | illegalOperation operand => "Illegal operation with " ++ operand
  | divisionByZero => "Division by zero"
  | indexOutOfBounds index => "Index out of bounds " ++ toString index ++ "."
  | emptyPop => "Cannot pop from an empty list."
  | notAList value => "'" ++ value ++ "' is not a list."
  | notAnObject name => name ++ " is not an object."
  | notANumber text => "'" ++ text ++ "' is not a number."
  | boundNotANumber bound value =>
    "For loop " ++ bound ++ " must be a number, found '" ++ value ++ "'."
  | zeroStep => "For loop step cannot be zero."
  | wrongArity callee => "Incorrect number of argument have been passed in " ++ callee
  | tooDeep limit => "Maximum call depth of " ++ toString limit ++ " exceeded"
  | breakOutsideLoop => "\x60break\x60 outside loop"
  | continueOutsideLoop => "\x60continue\x60 outside loop"
  | loopControlLeavesFunction name => "loop control cannot leave function " ++ name
  | loopControlLeavesObject name => "loop control cannot leave object " ++ name
  | superOutsideConstructor => "super called outside of its constructor"
  | unreadableInput reason => "failed to read input: " ++ reason
  | undefined name => name ++ " is not defined"
  | illegalArgument argument function =>
    argument ++ " is not allowed in the function '" ++ function ++ "'"
  | fileNotFound path => "File " ++ path ++ " not found."
  | stopped => ""
  | custom _ message => message

end Fault

/-- A call, an instantiation or an inclusion that an error passed through. -/
structure TraceEntry where
  label : String
  position : Option Position
  deriving DecidableEq, Repr

/-- The cause of an error, the place nearest to it and the calls around it, innermost first. -/
structure Diagnostic where
  fault : Fault
  position : Option Position
  trace : List TraceEntry
  deriving DecidableEq, Repr

namespace Diagnostic

/-- An error without a place. -/
def of (fault : Fault) : Diagnostic :=
  { fault := fault, position := none, trace := [] }

/-- An error at a place. -/
def located (fault : Fault) (position : Position) : Diagnostic :=
  { fault := fault, position := some position, trace := [] }

def kind (d : Diagnostic) : DiagnosticKind :=
  d.fault.kind

def message (d : Diagnostic) : String :=
  d.fault.message

def isStop (d : Diagnostic) : Bool :=
  d.kind == .stop

def withPosition (d : Diagnostic) (p : Position) : Diagnostic :=
  { d with position := some p }

/-- Takes the place only if none is known yet. -/
def orPosition (d : Diagnostic) (p : Position) : Diagnostic :=
  { d with position := some (d.position.getD p) }

/-- Adds the next outer call; a stop keeps no trace. -/
def withTrace (d : Diagnostic) (entry : TraceEntry) : Diagnostic :=
  if d.isStop then d else { d with trace := d.trace ++ [entry] }

def renderPlace : Option Position → String
  | some p => " at " ++ p.render
  | none => ""

/-- One line for the error and one for each call around it; a stop is silent. -/
def render (d : Diagnostic) : String :=
  if d.isStop then ""
  else
    d.kind.label ++ " : " ++ d.message ++ renderPlace d.position ++
      String.join (d.trace.map fun e => "\n     " ++ e.label ++ renderPlace e.position)

end Diagnostic

end ScriptEngine
