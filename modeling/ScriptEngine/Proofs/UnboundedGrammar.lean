import ScriptEngine.Tree.Parser

/-! # The grammar without bounds

The rules of the grammar as plain recursion on a cursor that moves over all tokens: a rule calls any
other rule, a loop goes on for as long as its condition holds, and nothing is passed along to cut
them off. A rule that would never end has the result `none`. The cursor does not move past an end of
code; it moves back at one place, where a choice looks for a further arm behind line breaks. -/

namespace ScriptEngine

/-! ### Tokens and cursor -/

/-- A list of tokens that ends with an end of code; there may be others before it. -/
structure Tape where
  tokens : List Token
  ended : tokens.getLast?.map Token.kind = some .endOfCode

/-- Where the parser is, and how far it has come. -/
structure Cursor where
  current : Nat
  furthest : Nat

/-- A computation on the cursor, which it keeps also when it fails. -/
abbrev Walk := ExceptT Diagnostic (StateT Cursor Option)

namespace Tape

theorem tokens_ne_nil (tape : Tape) : tape.tokens ≠ [] := by
  intro h
  have hended := tape.ended
  simp [h] at hended

/-- An end of code is added behind the last token unless it is one. -/
def ofTokens (tokens : List Token) : Tape :=
  if h : tokens.getLast?.map Token.kind = some .endOfCode then ⟨tokens, h⟩
  else
    { tokens := tokens ++
        [⟨.endOfCode, "", (tokens.getLast?.map (·.position)).getD .none⟩]
      ended := by simp }

/-- The token at a place, and the last one behind the end. What an end of code was written as
does not matter. -/
def read (tape : Tape) (i : Nat) : Token :=
  let t := tape.tokens.get ⟨min i (tape.tokens.length - 1), by
    have := List.length_pos_iff.mpr tape.tokens_ne_nil
    omega⟩
  if t.kind = .endOfCode then { t with lexeme := "" } else t

end Tape

def Cursor.start : Cursor :=
  { current := 0, furthest := 0 }

def Cursor.next (c : Cursor) : Cursor :=
  { current := c.current + 1, furthest := max c.furthest (c.current + 1) }

namespace Tape

def peek (tape : Tape) : Walk Token := do
  return tape.read (← get).current

/-- Takes the next token; an end of code stays where it is. -/
def advance (tape : Tape) : Walk Token := do
  let token ← peek tape
  if token.kind = .endOfCode then return token
  else
    modify Cursor.next
    return token

def fail {α : Type} (tape : Tape) (fault : Fault) : Walk α := do
  throw (.located fault (← peek tape).position)

def unexpected {α : Type} (tape : Tape) : Walk α := do
  let token ← peek tape
  throw (.located (.unexpected token.render) token.position)

def check (tape : Tape) (kind : TokenKind) : Walk Bool := do
  return (← peek tape).kind == kind

def accept (tape : Tape) (kind : TokenKind) : Walk Bool := do
  if ← check tape kind then
    discard (advance tape)
    return true
  else return false

def expect (tape : Tape) (kind : TokenKind) (what : String) : Walk Token := do
  if ← check tape kind then advance tape
  else fail tape (.expected what)

def skipNewlines (tape : Tape) : Walk Unit := do
  if ← accept tape .newline then tape |>.skipNewlines
  else return ()
partial_fixpoint

/-- How a rule ended that counts as a miss if it failed where it began. -/
def orMiss {α : Type} (start : Cursor) :
    Except Diagnostic α × Cursor → Except Diagnostic (Option α) × Cursor
  | (.ok a, c) => (.ok (some a), c)
  | (.error d, c) => if c.current = start.current then (.ok none, c) else (.error d, c)

/-! ### Rules that call no other -/

def parametersRest (tape : Tape) : Walk (List String) := do
  let name ← expect tape .identifier "identifier"
  skipNewlines tape
  if ← accept tape .comma then
    skipNewlines tape
    return name.lexeme :: (← tape |>.parametersRest)
  else
    discard (expect tape .rParen "',' or ')'")
    return [name.lexeme]
partial_fixpoint

def parameters (tape : Tape) : Walk (List String) := do
  discard (expect tape .lParen "'('")
  skipNewlines tape
  if ← accept tape .rParen then return []
  parametersRest tape

def functionName (tape : Tape) : Walk (Option String) := do
  if ← check tape .identifier then
    let name ← advance tape
    skipNewlines tape
    return some name.lexeme
  else return none

def parentName (tape : Tape) : Walk (Option String) := do
  if ← accept tape (.keyword .extends_) then
    skipNewlines tape
    let parent ← expect tape .identifier "identifier"
    skipNewlines tape
    return some parent.lexeme
  else return none

def numeral (tape : Tape) : Walk Node := do
  let token ← advance tape
  match Number.ofText? token.lexeme with
  | some value => return .number token.position value
  | none => throw (.located (.invalidNumber token.lexeme) token.position)

/-! ### Rules that call one another -/

/-- The chains of operators that are grouped to the left, tightest first. -/
inductive Chain where
  | term | sum | comparison | logic

def Chain.op? : Chain → TokenKind → Option BinaryOp
  | .term => Grammar.factorOp?
  | .sum => Grammar.termOp?
  | .comparison => Grammar.comparisonOp?
  | .logic => Grammar.logicOp?

/-- The rules that a body or a return is parsed with. -/
inductive Inner where
  | expression | statement | call

mutual

def block (tape : Tape) : Walk Node := do
  discard (expect tape .lBrace "'\x7b'")
  let body ← tape |>.statements
  skipNewlines tape
  discard (expect tape .rBrace "'\x7d'")
  return body
partial_fixpoint

def inner (tape : Tape) (rule : Inner) : Walk Node :=
  match rule with
  | .expression => tape |>.expression
  | .statement => tape |>.statement
  | .call => tape |>.call
partial_fixpoint

def attempt (tape : Tape) (rule : Inner) : Walk (Option Node) :=
  fun c => orMiss c <$> (tape |>.inner rule).run.run c
partial_fixpoint

def bracedOr (tape : Tape) (rule : Inner) : Walk (Bool × Node) := do
  if ← check tape .lBrace then return (true, ← tape |>.block)
  else return (false, ← tape |>.inner rule)
partial_fixpoint

def branch (tape : Tape) : Walk (Bool × Node) := do
  skipNewlines tape
  tape |>.bracedOr .statement
partial_fixpoint

def loopBody (tape : Tape) (rule : Inner) : Walk (Bool × Node) := do
  skipNewlines tape
  discard (accept tape .colon)
  skipNewlines tape
  tape |>.bracedOr rule
partial_fixpoint

def arm (tape : Tape) : Walk (Node × Bool × Node) := do
  skipNewlines tape
  let condition ← tape |>.expression
  discard (accept tape .colon)
  let (braced, body) ← tape |>.branch
  return (condition, braced, body)
partial_fixpoint

/-- Without a further arm the cursor goes back to where the last one ended. -/
def armsRest (tape : Tape) : Walk Arms := do
  let checkpoint := (← get).current
  skipNewlines tape
  if ← accept tape (.keyword .elseif_) then
    let (condition, braced, body) ← tape |>.arm
    return .arm condition braced body (← tape |>.armsRest)
  else if ← accept tape (.keyword .else_) then
    discard (accept tape .colon)
    let (braced, body) ← tape |>.branch
    return .otherwise braced body
  else
    modify fun c => { c with current := checkpoint }
    return .done
partial_fixpoint

def choice (tape : Tape) : Walk Node := do
  let token ← advance tape
  let (condition, braced, body) ← tape |>.arm
  let more ← tape |>.armsRest
  return .choose token.position (.arm condition braced body more)
partial_fixpoint

def forLoop (tape : Tape) : Walk Node := do
  let token ← advance tape
  skipNewlines tape
  let name ← expect tape .identifier "identifier"
  skipNewlines tape
  if ← accept tape (.keyword .in_) then
    let items ← tape |>.expression
    let (braced, body) ← tape |>.loopBody .expression
    return .each token.position name.lexeme items braced body
  else
    discard (expect tape .equals "'='")
    skipNewlines tape
    let start ← tape |>.expression
    skipNewlines tape
    discard (expect tape (.keyword .to_) "'to'")
    skipNewlines tape
    let stop ← tape |>.expression
    skipNewlines tape
    let step ← if ← accept tape (.keyword .by_) then some <$> (tape |>.expression) else pure none
    let (braced, body) ← tape |>.loopBody .expression
    return .count token.position name.lexeme start stop step braced body
partial_fixpoint

def whileLoop (tape : Tape) : Walk Node := do
  let token ← advance tape
  skipNewlines tape
  let condition ← tape |>.expression
  let (braced, body) ← tape |>.loopBody .statement
  return .loop token.position condition braced body
partial_fixpoint

/-- Expressions with commas between them up to a closing token. -/
def itemsRest (tape : Tape) (close : TokenKind) (what : String) : Walk (List Node) := do
  let item ← tape |>.expression
  skipNewlines tape
  if ← accept tape .comma then
    skipNewlines tape
    return item :: (← tape |>.itemsRest close what)
  else
    discard (expect tape close what)
    return [item]
partial_fixpoint

def items (tape : Tape) (close : TokenKind) (what : String) : Walk (List Node) := do
  skipNewlines tape
  if ← accept tape close then return []
  tape |>.itemsRest close what
partial_fixpoint

def arguments (tape : Tape) : Walk (List Node) := do
  discard (expect tape .lParen "'('")
  tape |>.items .rParen "')'"
partial_fixpoint

def function (tape : Tape) : Walk Node := do
  let token ← advance tape
  skipNewlines tape
  let name ← functionName tape
  if !(← check tape .lParen) then
    fail tape (.expected (if name.isSome then "'('" else "'(' or identifier"))
  else
    let params ← parameters tape
    skipNewlines tape
    if ← accept tape .colon then
      skipNewlines tape
      let body ← tape |>.statement
      return .function token.position name params false body
    else
      let body ← tape |>.block
      return .function token.position name params true body
partial_fixpoint

def object (tape : Tape) : Walk Node := do
  let token ← advance tape
  skipNewlines tape
  let name ← expect tape .identifier "identifier for the object."
  skipNewlines tape
  let params ← parameters tape
  skipNewlines tape
  let parent ← parentName tape
  let body ← tape |>.block
  return .object token.position name.lexeme params parent body
partial_fixpoint

def creation (tape : Tape) : Walk Node := do
  let token ← advance tape
  skipNewlines tape
  let name ← expect tape .identifier "identifier"
  skipNewlines tape
  let args ← tape |>.arguments
  return .create token.position name.lexeme args
partial_fixpoint

def pathsRest (tape : Tape) : Walk (List Node) := do
  if ← accept tape .comma then
    skipNewlines tape
    let path ← tape |>.expression
    return path :: (← tape |>.pathsRest)
  else return []
partial_fixpoint

def inclusion (tape : Tape) : Walk Node := do
  let token ← advance tape
  skipNewlines tape
  let path ← tape |>.expression
  let more ← tape |>.pathsRest
  return .include_ token.position (path :: more)
partial_fixpoint

def list (tape : Tape) : Walk Node := do
  let token ← advance tape
  let elements ← tape |>.items .rSquare "']'"
  return .list token.position elements
partial_fixpoint

def parens (tape : Tape) : Walk Node := do
  discard (advance tape)
  skipNewlines tape
  let inside ← tape |>.expression
  skipNewlines tape
  discard (expect tape .rParen "')'")
  return inside
partial_fixpoint

def named (tape : Tape) : Walk Node := do
  let token ← advance tape
  let next ← peek tape
  match next.kind with
  | .equals =>
    discard (advance tape)
    skipNewlines tape
    let value ← tape |>.expression
    return .assign token.position token.lexeme value
  | .plusPlus =>
    discard (advance tape)
    return .update token.position token.lexeme .add (.number next.position (.ofNat 1))
  | .minusMinus =>
    discard (advance tape)
    return .update token.position token.lexeme .sub (.number next.position (.ofNat 1))
  | kind =>
    match Grammar.updateOp? kind with
    | some op =>
      discard (advance tape)
      skipNewlines tape
      let value ← tape |>.expression
      return .update token.position token.lexeme op value
    | none => return .read token.position token.lexeme
partial_fixpoint

def signed (tape : Tape) (op : UnaryOp) : Walk Node := do
  let token ← advance tape
  skipNewlines tape
  let operand ← tape |>.access
  return .unary token.position op operand
partial_fixpoint

def factor (tape : Tape) : Walk Node := do
  skipNewlines tape
  let token ← peek tape
  match token.kind with
  | .int | .float => numeral tape
  | .text => do discard (advance tape); return .text token.position token.lexeme
  | .identifier => tape |>.named
  | .lSquare => tape |>.list
  | .plus => tape |>.signed .plus
  | .minus => tape |>.signed .negate
  | .keyword .true_ => do discard (advance tape); return .number token.position (.ofNat 1)
  | .keyword .false_ | .keyword .null_ => do
    discard (advance tape)
    return .number token.position (.zero false)
  | .keyword .if_ => tape |>.choice
  | .keyword .for_ => tape |>.forLoop
  | .keyword .while_ => tape |>.whileLoop
  | .keyword .function_ => tape |>.function
  | .keyword .object_ => tape |>.object
  | .keyword .new_ => tape |>.creation
  | .keyword .this_ => do discard (advance tape); return .this token.position
  | .keyword .include_ => tape |>.inclusion
  | .lParen => tape |>.parens
  | .lBrace => tape |>.block
  | _ => unexpected tape
partial_fixpoint

def call (tape : Tape) : Walk Node := do
  let callee ← tape |>.factor
  if ← check tape .lParen then
    let args ← tape |>.arguments
    return .call callee.pos callee args
  else return callee
partial_fixpoint

def segmentsRest (tape : Tape) : Walk (List Node) := do
  if ← accept tape .point then
    skipNewlines tape
    let (_, segment) ← tape |>.bracedOr .call
    return segment :: (← tape |>.segmentsRest)
  else return []
partial_fixpoint

def access (tape : Tape) : Walk Node := do
  let first ← tape |>.call
  match ← tape |>.segmentsRest with
  | [] => return first
  | more => return .members first.pos (first :: more)
partial_fixpoint

def operand (tape : Tape) (kind : Chain) : Walk Node :=
  match kind with
  | .term => tape |>.access
  | .sum => tape |>.chain .term
  | .comparison => tape |>.chain .sum
  | .logic => tape |>.negation
partial_fixpoint

def chainRest (tape : Tape) (kind : Chain) (left : Node) : Walk Node := do
  let token ← peek tape
  match kind.op? token.kind with
  | none => return left
  | some op =>
    discard (advance tape)
    skipNewlines tape
    let right ← tape |>.operand kind
    tape |>.chainRest kind (.binary token.position op left right)
partial_fixpoint

def chain (tape : Tape) (kind : Chain) : Walk Node := do
  let left ← tape |>.operand kind
  tape |>.chainRest kind left
partial_fixpoint

def negation (tape : Tape) : Walk Node := do
  if ← check tape (.keyword .not_) then
    let token ← advance tape
    skipNewlines tape
    let operand ← tape |>.negation
    return .unary token.position .not_ operand
  else tape |>.chain .comparison
partial_fixpoint

def declaration (tape : Tape) : Walk Node := do
  let token ← advance tape
  skipNewlines tape
  let name ← expect tape .identifier "identifier for the variable"
  skipNewlines tape
  discard (expect tape .equals "'='")
  skipNewlines tape
  let value ← tape |>.expression
  return .declare token.position name.lexeme value
partial_fixpoint

def expression (tape : Tape) : Walk Node := do
  if ← check tape (.keyword .var_) then tape |>.declaration
  else tape |>.chain .logic
partial_fixpoint

def statement (tape : Tape) : Walk Node := do
  let token ← peek tape
  match token.kind with
  | .keyword .return_ =>
    discard (advance tape)
    skipNewlines tape
    return .return_ token.position (← tape |>.attempt .expression)
  | .keyword .continue_ => do discard (advance tape); return .continue_ token.position
  | .keyword .break_ => do discard (advance tape); return .break_ token.position
  | _ => tape |>.expression
partial_fixpoint

def statementsRest (tape : Tape) : Walk (List Node) := do
  if ← accept tape .newline then
    skipNewlines tape
    match ← tape |>.attempt .statement with
    | none => return []
    | some next => return next :: (← tape |>.statementsRest)
  else return []
partial_fixpoint

def statements (tape : Tape) : Walk Node := do
  skipNewlines tape
  let token ← peek tape
  if token.kind == .rBrace then return .number token.position (.zero false)
  else
    let first ← tape |>.statement
    let more ← tape |>.statementsRest
    return .sequence token.position (first :: more)
partial_fixpoint

end

def program (tape : Tape) : Walk Node := do
  skipNewlines tape
  let token ← peek tape
  if token.kind == .endOfCode then return .sequence token.position []
  else
    let root ← statements tape
    skipNewlines tape
    if ← check tape .endOfCode then return root else unexpected tape

end Tape

end ScriptEngine
