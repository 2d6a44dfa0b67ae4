import ScriptEngine.Tree.Parser
import ScriptEngine.Tree.Printer

/-! # The tokens of canonical source text

What the canonical text of a tree is made of, without the blanks between its tokens and without
their places. -/

namespace ScriptEngine

/-! ### Tokens with a fixed spelling -/

/-- The text of a token that is always written the same way. -/
def TokenKind.spelling : TokenKind → String
  | .int | .float | .text | .identifier | .endOfCode => ""
  | .keyword k => k.word
  | .plus => "+"
  | .minus => "-"
  | .mult => "*"
  | .div => "/"
  | .plusPlus => "++"
  | .minusMinus => "--"
  | .plusEqual => "+="
  | .minusEqual => "-="
  | .multEqual => "*="
  | .divEqual => "/="
  | .equals => "="
  | .doubleEquals => "=="
  | .notEquals => "!="
  | .less => "<"
  | .greater => ">"
  | .lessEquals => "<="
  | .greaterEquals => ">="
  | .lParen => "("
  | .rParen => ")"
  | .lSquare => "["
  | .rSquare => "]"
  | .lBrace => "\x7b"
  | .rBrace => "\x7d"
  | .colon => ":"
  | .comma => ","
  | .point => "."
  | .newline => "\n"

/-- The token of a fixed spelling, at no place. -/
def TokenKind.token (kind : TokenKind) : Token :=
  ⟨kind, kind.spelling, .none⟩

def nameToken (name : String) : Token :=
  ⟨.identifier, name, .none⟩

def Arithmetic.kind : Arithmetic → TokenKind
  | .add => .plus
  | .sub => .minus
  | .mul => .mult
  | .div => .div

/-- The operator that updates a name. -/
def Arithmetic.updateKind : Arithmetic → TokenKind
  | .add => .plusEqual
  | .sub => .minusEqual
  | .mul => .multEqual
  | .div => .divEqual

def BinaryOp.kind : BinaryOp → TokenKind
  | .arithmetic op => op.kind
  | .equal => .doubleEquals
  | .notEqual => .notEquals
  | .less => .less
  | .lessEqual => .lessEquals
  | .greater => .greater
  | .greaterEqual => .greaterEquals
  | .and_ => .keyword .and_
  | .or_ => .keyword .or_

def UnaryOp.kind : UnaryOp → TokenKind
  | .plus => .plus
  | .negate => .minus
  | .not_ => .keyword .not_

/-! ### Tokens of a tree -/

namespace Canonical

open Printer

/-- The token of a magnitude. -/
def magnitudeToken (m : Magnitude Format.single) : Token :=
  let digits := (Decimal.shortest m).layout
  ⟨if digits.contains '.' then .float else .int, String.ofList digits, .none⟩

/-- A number below zero has its sign as a token of its own, and the names of what is not finite are
those of variables. -/
def numberTokens : Single → List Token
  | .nan => [nameToken "NaN"]
  | .infinite false => [nameToken "inf"]
  | .infinite true => [TokenKind.minus.token, nameToken "inf"]
  | .finite false m => [magnitudeToken m]
  | .finite true m => [TokenKind.minus.token, magnitudeToken m]

def wrapped (wrap : Bool) (tokens : List Token) : List Token :=
  if wrap then TokenKind.lParen.token :: tokens ++ [TokenKind.rParen.token] else tokens

def parameterTokens : List String → List Token
  | [] => []
  | [name] => [nameToken name]
  | name :: names => nameToken name :: TokenKind.comma.token :: parameterTokens names

/-- A body in braces, where `tokens` are those of the body. -/
def blockTokens (body : Node) (tokens : List Token) : List Token :=
  match body with
  | .sequence _ _ => tokens
  | .number _ value =>
    if value.isZero then
      [TokenKind.lBrace.token, TokenKind.newline.token, TokenKind.rBrace.token]
    else
      TokenKind.lBrace.token :: TokenKind.newline.token :: tokens ++
        [TokenKind.newline.token, TokenKind.rBrace.token]
  | _ =>
    TokenKind.lBrace.token :: TokenKind.newline.token :: tokens ++
      [TokenKind.newline.token, TokenKind.rBrace.token]

/-- The body of a branch, a loop or a function with what stands before it. -/
def bodyTokens (braced : Bool) (body : Node) (tokens : List Token) : List Token :=
  if braced then blockTokens body tokens
  else TokenKind.colon.token :: wrapped (isOpenChoice body) tokens

end Canonical

open Canonical Printer

mutual

def Node.tokens : Node → List Token
  | .number _ value => numberTokens value
  | .text _ value => [⟨.text, value, .none⟩]
  | .list _ items =>
    TokenKind.lSquare.token :: itemTokens items ++ [TokenKind.rSquare.token]
  | .binary _ op left right =>
    TokenKind.lParen.token :: wrapped (isGreedy left) left.tokens ++
      op.kind.token :: wrapped (isGreedy right) right.tokens ++ [TokenKind.rParen.token]
  | .unary _ op operand =>
    TokenKind.lParen.token :: op.kind.token :: wrapped (isGreedy operand) operand.tokens ++
      [TokenKind.rParen.token]
  | .read _ name => [nameToken name]
  | .this _ => [(TokenKind.keyword .this_).token]
  | .declare _ name value =>
    (TokenKind.keyword .var_).token :: nameToken name :: TokenKind.equals.token ::
      wrapped (isOpenChoice value) value.tokens
  | .assign _ name value =>
    nameToken name :: TokenKind.equals.token :: wrapped (isOpenChoice value) value.tokens
  | .update _ name op value =>
    nameToken name :: op.updateKind.token :: wrapped (isOpenChoice value) value.tokens
  | .choose _ arms => arms.tokens .if_
  | .count _ name start stop step braced body =>
    (TokenKind.keyword .for_).token :: nameToken name :: TokenKind.equals.token :: start.tokens ++
      (TokenKind.keyword .to_).token :: stop.tokens ++ stepTokens step ++
      bodyTokens braced body body.tokens
  | .each _ name items braced body =>
    (TokenKind.keyword .for_).token :: nameToken name :: (TokenKind.keyword .in_).token ::
      items.tokens ++ bodyTokens braced body body.tokens
  | .loop _ condition braced body =>
    (TokenKind.keyword .while_).token :: condition.tokens ++ bodyTokens braced body body.tokens
  | .function _ name params braced body =>
    (TokenKind.keyword .function_).token :: (name.map nameToken).toList ++
      TokenKind.lParen.token :: parameterTokens params ++ TokenKind.rParen.token ::
      bodyTokens braced body body.tokens
  | .call _ callee args =>
    wrapped (!isBareCallee callee) callee.tokens ++
      TokenKind.lParen.token :: itemTokens args ++ [TokenKind.rParen.token]
  | .sequence _ statements =>
    TokenKind.lBrace.token :: lineTokens statements ++
      [TokenKind.newline.token, TokenKind.rBrace.token]
  | .members _ segments => segmentTokens segments
  | .object _ name params parent body =>
    (TokenKind.keyword .object_).token :: nameToken name :: TokenKind.lParen.token ::
      parameterTokens params ++ TokenKind.rParen.token ::
      (match parent with
        | some p => [(TokenKind.keyword .extends_).token, nameToken p]
        | none => []) ++ blockTokens body body.tokens
  | .create _ name args =>
    (TokenKind.keyword .new_).token :: nameToken name :: TokenKind.lParen.token ::
      itemTokens args ++ [TokenKind.rParen.token]
  | .return_ _ value => (TokenKind.keyword .return_).token :: returnedTokens value
  | .continue_ _ => [(TokenKind.keyword .continue_).token]
  | .break_ _ => [(TokenKind.keyword .break_).token]
  | .include_ _ paths => (TokenKind.keyword .include_).token :: itemTokens paths
termination_by structural n => n

def Arms.tokens (word : Keyword) : Arms → List Token
  | .done => []
  | .otherwise braced body =>
    (TokenKind.keyword .else_).token :: bodyTokens braced body body.tokens
  | .arm condition braced body more =>
    (TokenKind.keyword word).token :: condition.tokens ++ bodyTokens braced body body.tokens ++
      more.tokens .elseif_
termination_by structural arms => arms

/-- Nodes with commas between them. -/
def itemTokens : List Node → List Token
  | [] => []
  | n :: ns => n.tokens ++ moreItemTokens ns
termination_by structural ns => ns

def moreItemTokens : List Node → List Token
  | [] => []
  | n :: ns => TokenKind.comma.token :: n.tokens ++ moreItemTokens ns
termination_by structural ns => ns

/-- Nodes with points between them. -/
def segmentTokens : List Node → List Token
  | [] => []
  | n :: ns => wrapped (isNumber n) n.tokens ++ moreSegmentTokens ns
termination_by structural ns => ns

def moreSegmentTokens : List Node → List Token
  | [] => []
  | n :: ns => TokenKind.point.token :: wrapped (isNumber n) n.tokens ++ moreSegmentTokens ns
termination_by structural ns => ns

/-- Nodes on lines of their own. -/
def lineTokens : List Node → List Token
  | [] => []
  | n :: ns => TokenKind.newline.token :: n.tokens ++ lineTokens ns
termination_by structural ns => ns

def stepTokens : Option Node → List Token
  | none => []
  | some n => (TokenKind.keyword .by_).token :: n.tokens
termination_by structural n => n

def returnedTokens : Option Node → List Token
  | none => []
  | some n => wrapped (isOpenChoice n) n.tokens
termination_by structural n => n

end

/-- The tokens of a program; the statements of the root are lines of their own. -/
def Node.programTokens : Node → List Token
  | .sequence _ [] => []
  | .sequence _ (n :: ns) => n.tokens ++ lineTokens ns
  | n => n.tokens

end ScriptEngine
