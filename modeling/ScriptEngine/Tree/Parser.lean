import ScriptEngine.Number.Decimal
import ScriptEngine.Token.Lexer
import ScriptEngine.Tree

/-! # Parsing

Each rule of the grammar is a function from the tokens ahead to a reply. A reply keeps the tokens
that are left also when the rule failed, so that a failure that consumed nothing can count as a
miss. The rules refer to one another through `Rules`, which are only used on shorter input; the
knot is tied in `rules` by a bound on the tokens ahead. -/

namespace ScriptEngine

/-- The tokens ahead, none of them the end of code, and the place where the code ends. -/
structure Stream where
  ahead : List Token
  finish : Position

namespace Stream

/-- The next token, or the end of code. -/
def peek (s : Stream) : Token :=
  s.ahead.headD ⟨.endOfCode, "", s.finish⟩

def advance (s : Stream) : Stream :=
  { s with ahead := s.ahead.tail }

def skipNewlines (s : Stream) : Stream :=
  { s with ahead := s.ahead.dropWhile (·.kind == .newline) }

/-- The stream of a token list, which ends at its first end of code. Without one it ends at the
last token. -/
def ofTokens (tokens : List Token) : Stream :=
  { ahead := tokens.takeWhile (·.kind != .endOfCode)
    finish :=
      match tokens.find? (·.kind == .endOfCode) with
      | some t => t.position
      | none => (tokens.getLast?.map (·.position)).getD .none }

end Stream

inductive Reply (α : Type) where
  | ok (value : α) (rest : Stream)
  | error (diagnostic : Diagnostic) (rest : Stream)

def Parse (α : Type) : Type :=
  Stream → Reply α

namespace Parse

variable {α β : Type}

@[inline] def done (a : α) : Parse α :=
  fun s => .ok a s

@[inline] def andThen (p : Parse α) (f : α → Parse β) : Parse β :=
  fun s =>
    match p s with
    | .ok a rest => f a rest
    | .error d rest => .error d rest

instance : Monad Parse where
  pure := done
  bind := andThen

/-! ### Tokens -/

def peek : Parse Token :=
  fun s => .ok s.peek s

def advance : Parse Token :=
  fun s => .ok s.peek s.advance

/-- How many tokens are ahead. -/
def remaining : Parse Nat :=
  fun s => .ok s.ahead.length s

def skipNewlines : Parse Unit :=
  fun s => .ok () s.skipNewlines

/-- Fails at the next token. -/
def fail (fault : Fault) : Parse α :=
  fun s => .error (.located fault s.peek.position) s

/-- Fails because the next token starts nothing. -/
def unexpected : Parse α :=
  fun s => .error (.located (.unexpected s.peek.render) s.peek.position) s

/-- The next token is of this kind. -/
def check (kind : TokenKind) : Parse Bool :=
  fun s => .ok (s.peek.kind == kind) s

/-- Takes the next token if it is of this kind. -/
def accept (kind : TokenKind) : Parse Bool :=
  fun s => if s.peek.kind == kind then .ok true s.advance else .ok false s

/-- Takes the next token, which must be of this kind. -/
def expect (kind : TokenKind) (what : String) : Parse Token :=
  fun s => if s.peek.kind == kind then .ok s.peek s.advance else fail (.expected what) s

/-- Runs a rule; a failure that consumed nothing is a miss. -/
def attempt (p : Parse α) : Parse (Option α) :=
  fun s =>
    match p s with
    | .ok a rest => .ok (some a) rest
    | .error d rest =>
      if rest.ahead.length = s.ahead.length then .ok none s else .error d rest

/-- Items with commas between them up to a closing token, with at most `n` tokens ahead. -/
def separated (item : Parse α) (close : TokenKind) (what : String) : Nat → Parse (List α)
  | 0 => do
    let x ← item
    return [x]
  | n + 1 => do
    let x ← item
    skipNewlines
    if ← accept .comma then
      skipNewlines
      return x :: (← separated item close what n)
    else
      discard (expect close what)
      return [x]

/-- A list of items in brackets, the opening one of which is taken already. -/
def enclosed (item : Parse α) (close : TokenKind) (what : String) : Parse (List α) := do
  skipNewlines
  if ← accept close then return []
  separated item close what (← remaining)

end Parse

/-- The rules that the grammar refers back to, for input with fewer tokens. -/
structure Rules where
  expression : Parse Node
  negation : Parse Node
  access : Parse Node
  statement : Parse Node
  statements : Parse Node

namespace Grammar

open Parse

/-! ### Operators -/

/-- The rest of a chain of operators of one tier, grouped to the left. -/
def chainRest (operand : Parse Node) (op? : TokenKind → Option BinaryOp) :
    Nat → Node → Parse Node
  | 0, left => return left
  | n + 1, left => do
    let token ← peek
    match op? token.kind with
    | none => return left
    | some op =>
      discard advance
      skipNewlines
      let right ← operand
      chainRest operand op? n (.binary token.position op left right)

def chain (operand : Parse Node) (op? : TokenKind → Option BinaryOp) : Parse Node := do
  let left ← operand
  chainRest operand op? (← remaining) left

def factorOp? : TokenKind → Option BinaryOp
  | .mult => some (.arithmetic .mul)
  | .div => some (.arithmetic .div)
  | _ => none

def termOp? : TokenKind → Option BinaryOp
  | .plus => some (.arithmetic .add)
  | .minus => some (.arithmetic .sub)
  | _ => none

def comparisonOp? : TokenKind → Option BinaryOp
  | .doubleEquals => some .equal
  | .notEquals => some .notEqual
  | .less => some .less
  | .lessEquals => some .lessEqual
  | .greater => some .greater
  | .greaterEquals => some .greaterEqual
  | _ => none

def logicOp? : TokenKind → Option BinaryOp
  | .keyword .and_ => some .and_
  | .keyword .or_ => some .or_
  | _ => none

def updateOp? : TokenKind → Option Arithmetic
  | .plusEqual => some .add
  | .minusEqual => some .sub
  | .multEqual => some .mul
  | .divEqual => some .div
  | _ => none

/-! ### Bodies -/

variable (self : Rules)

def block : Parse Node := do
  discard (expect .lBrace "'\x7b'")
  let body ← self.statements
  skipNewlines
  discard (expect .rBrace "'\x7d'")
  return body

/-- A block, or else an inline body, and whether it was a block. -/
def bracedOr (inline_ : Parse Node) : Parse (Bool × Node) := do
  if ← check .lBrace then return (true, ← block self)
  else return (false, ← inline_)

def branch : Parse (Bool × Node) := do
  skipNewlines
  bracedOr self self.statement

def loopBody (inline_ : Parse Node) : Parse (Bool × Node) := do
  skipNewlines
  discard (accept .colon)
  skipNewlines
  bracedOr self inline_

/-! ### Expressions that start with a keyword or a bracket -/

def arm : Parse (Node × Bool × Node) := do
  skipNewlines
  let condition ← self.expression
  discard (accept .colon)
  let (braced, body) ← branch self
  return (condition, braced, body)

/-- The arms behind the first one. Line breaks before an arm belong to it; without an arm they are
left alone. -/
def armsRest : Nat → Parse Arms
  | 0 => return .done
  | n + 1 => fun s =>
    let next := s.skipNewlines
    match next.peek.kind with
    | .keyword .elseif_ =>
      (do
        let (condition, braced, body) ← arm self
        return .arm condition braced body (← armsRest n) : Parse Arms) next.advance
    | .keyword .else_ =>
      (do
        discard (accept .colon)
        let (braced, body) ← branch self
        return .otherwise braced body : Parse Arms) next.advance
    | _ => .ok .done s

def choice : Parse Node := do
  let token ← advance
  let (condition, braced, body) ← arm self
  let more ← armsRest self (← remaining)
  return .choose token.position (.arm condition braced body more)

def forLoop : Parse Node := do
  let token ← advance
  skipNewlines
  let name ← expect .identifier "identifier"
  skipNewlines
  if ← accept (.keyword .in_) then
    let items ← self.expression
    let (braced, body) ← loopBody self self.expression
    return .each token.position name.lexeme items braced body
  else
    discard (expect .equals "'='")
    skipNewlines
    let start ← self.expression
    skipNewlines
    discard (expect (.keyword .to_) "'to'")
    skipNewlines
    let stop ← self.expression
    skipNewlines
    let step ← if ← accept (.keyword .by_) then some <$> self.expression else pure none
    let (braced, body) ← loopBody self self.expression
    return .count token.position name.lexeme start stop step braced body

def whileLoop : Parse Node := do
  let token ← advance
  skipNewlines
  let condition ← self.expression
  let (braced, body) ← loopBody self self.statement
  return .loop token.position condition braced body

def parameters : Parse (List String) := do
  discard (expect .lParen "'('")
  enclosed (Token.lexeme <$> expect .identifier "identifier") .rParen "',' or ')'"

def arguments : Parse (List Node) := do
  discard (expect .lParen "'('")
  enclosed self.expression .rParen "')'"

def functionName : Parse (Option String) := do
  if ← check .identifier then
    let name ← advance
    skipNewlines
    return some name.lexeme
  else return none

def function : Parse Node := do
  let token ← advance
  skipNewlines
  let name ← functionName
  if !(← check .lParen) then
    fail (.expected (if name.isSome then "'('" else "'(' or identifier"))
  else
    let params ← parameters
    skipNewlines
    if ← accept .colon then
      skipNewlines
      let body ← self.statement
      return .function token.position name params false body
    else
      let body ← block self
      return .function token.position name params true body

def parentName : Parse (Option String) := do
  if ← accept (.keyword .extends_) then
    skipNewlines
    let parent ← expect .identifier "identifier"
    skipNewlines
    return some parent.lexeme
  else return none

def object : Parse Node := do
  let token ← advance
  skipNewlines
  let name ← expect .identifier "identifier for the object."
  skipNewlines
  let params ← parameters
  skipNewlines
  let parent ← parentName
  let body ← block self
  return .object token.position name.lexeme params parent body

def creation : Parse Node := do
  let token ← advance
  skipNewlines
  let name ← expect .identifier "identifier"
  skipNewlines
  let args ← arguments self
  return .create token.position name.lexeme args

def pathsRest : Nat → Parse (List Node)
  | 0 => return []
  | n + 1 => do
    if ← accept .comma then
      skipNewlines
      let path ← self.expression
      return path :: (← pathsRest n)
    else return []

def inclusion : Parse Node := do
  let token ← advance
  skipNewlines
  let path ← self.expression
  let more ← pathsRest self (← remaining)
  return .include_ token.position (path :: more)

def list : Parse Node := do
  let token ← advance
  let items ← enclosed self.expression .rSquare "']'"
  return .list token.position items

def parens : Parse Node := do
  discard advance
  skipNewlines
  let inner ← self.expression
  skipNewlines
  discard (expect .rParen "')'")
  return inner

/-! ### Names -/

/-- A name, or an assignment to it if the operator behind it says so. -/
def named : Parse Node := do
  let token ← advance
  let next ← peek
  match next.kind with
  | .equals =>
    discard advance
    skipNewlines
    let value ← self.expression
    return .assign token.position token.lexeme value
  | .plusPlus =>
    discard advance
    return .update token.position token.lexeme .add (.number next.position (.ofNat 1))
  | .minusMinus =>
    discard advance
    return .update token.position token.lexeme .sub (.number next.position (.ofNat 1))
  | kind =>
    match updateOp? kind with
    | some op =>
      discard advance
      skipNewlines
      let value ← self.expression
      return .update token.position token.lexeme op value
    | none => return .read token.position token.lexeme

def numeral : Parse Node := do
  let token ← advance
  match Number.ofText? token.lexeme with
  | some value => return .number token.position value
  | none => fun s => .error (.located (.invalidNumber token.lexeme) token.position) s

def signed (op : UnaryOp) : Parse Node := do
  let token ← advance
  skipNewlines
  let operand ← self.access
  return .unary token.position op operand

/-! ### Tiers -/

def factor : Parse Node := do
  skipNewlines
  let token ← peek
  match token.kind with
  | .int | .float => numeral
  | .text => do discard advance; return .text token.position token.lexeme
  | .identifier => named self
  | .lSquare => list self
  | .plus => signed self .plus
  | .minus => signed self .negate
  | .keyword .true_ => do discard advance; return .number token.position (.ofNat 1)
  | .keyword .false_ | .keyword .null_ => do
    discard advance
    return .number token.position (.zero false)
  | .keyword .if_ => choice self
  | .keyword .for_ => forLoop self
  | .keyword .while_ => whileLoop self
  | .keyword .function_ => function self
  | .keyword .object_ => object self
  | .keyword .new_ => creation self
  | .keyword .this_ => do discard advance; return .this token.position
  | .keyword .include_ => inclusion self
  | .lParen => parens self
  | .lBrace => block self
  | _ => unexpected

def call : Parse Node := do
  let callee ← factor self
  if ← check .lParen then
    let args ← arguments self
    return .call callee.pos callee args
  else return callee

/-- The segments behind the first one. -/
def segmentsRest : Nat → Parse (List Node)
  | 0 => return []
  | n + 1 => do
    if ← accept .point then
      skipNewlines
      let (_, segment) ← bracedOr self (call self)
      return segment :: (← segmentsRest n)
    else return []

def access : Parse Node := do
  let first ← call self
  match ← segmentsRest self (← remaining) with
  | [] => return first
  | more => return .members first.pos (first :: more)

def term : Parse Node :=
  chain (access self) factorOp?

def sum : Parse Node :=
  chain (term self) termOp?

def comparison : Parse Node :=
  chain (sum self) comparisonOp?

def negation : Parse Node := do
  if ← check (.keyword .not_) then
    let token ← advance
    skipNewlines
    let operand ← self.negation
    return .unary token.position .not_ operand
  else comparison self

def declaration : Parse Node := do
  let token ← advance
  skipNewlines
  let name ← expect .identifier "identifier for the variable"
  skipNewlines
  discard (expect .equals "'='")
  skipNewlines
  let value ← self.expression
  return .declare token.position name.lexeme value

def expression : Parse Node := do
  if ← check (.keyword .var_) then declaration self
  else chain (negation self) logicOp?

/-! ### Statements -/

def statement : Parse Node := do
  let token ← peek
  match token.kind with
  | .keyword .return_ =>
    discard advance
    skipNewlines
    return .return_ token.position (← attempt self.expression)
  | .keyword .continue_ => do discard advance; return .continue_ token.position
  | .keyword .break_ => do discard advance; return .break_ token.position
  | _ => expression self

/-- The statements behind the first one. Each follows a line break; a line break that nothing
follows is consumed. -/
def statementsRest : Nat → Parse (List Node)
  | 0 => return []
  | n + 1 => do
    if ← check .newline then
      skipNewlines
      match ← attempt (statement self) with
      | none => return []
      | some next => return next :: (← statementsRest n)
    else return []

/-- The inside of a block; nothing at all is the literal zero. -/
def statements : Parse Node := do
  skipNewlines
  let token ← peek
  if token.kind == .rBrace then return .number token.position (.zero false)
  else
    let first ← statement self
    let more ← statementsRest self (← remaining)
    return .sequence token.position (first :: more)

def program : Parse Node := do
  skipNewlines
  let token ← peek
  if token.kind == .endOfCode then return .sequence token.position []
  else
    let root ← statements self
    skipNewlines
    if ← check .endOfCode then return root else unexpected

/-! ### Tying the knot -/

/-- The rules when nothing is ahead. -/
def stuck : Rules where
  expression := unexpected
  negation := unexpected
  access := unexpected
  statement := unexpected
  statements := unexpected

/-- The rules for at most `n` tokens ahead. -/
def rules : Nat → Rules
  | 0 => stuck
  | n + 1 => {
    expression := fun s => expression (rules n) s
    negation := fun s => negation (rules n) s
    access := fun s => access (rules n) s
    statement := fun s => statement (rules n) s
    statements := fun s => statements (rules n) s }

end Grammar

/-- What parsing gave, and how many tokens it passed over. -/
structure ParseOutcome where
  result : Except Diagnostic Node
  consumed : Nat

def parseTokens (tokens : List Token) : ParseOutcome :=
  let s := Stream.ofTokens tokens
  match Grammar.program (Grammar.rules s.ahead.length) s with
  | .ok root rest => { result := .ok root, consumed := s.ahead.length - rest.ahead.length }
  | .error d rest => { result := .error d, consumed := s.ahead.length - rest.ahead.length }

/-- Lexes and parses a source. A source that cannot be lexed consumes no tokens. -/
def parseSource (source : String) (name : Option String) : ParseOutcome :=
  let lexed := tokenize source name
  match lexed.failure with
  | some d => { result := .error d, consumed := 0 }
  | none => parseTokens lexed.tokens

def parseProgram (source : String) (name : Option String) : Except Diagnostic Node :=
  (parseSource source name).result

end ScriptEngine
