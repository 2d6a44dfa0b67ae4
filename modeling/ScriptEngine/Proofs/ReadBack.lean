import ScriptEngine.Proofs.CanonicalTokens
import ScriptEngine.Proofs.ParserSteps

/-! # Which trees read back

Canonical text reads back as the tree that it was printed from if nothing in it is swallowed by the
construct before it. Whether that happens is decided by walking down the tree with what follows
each node and how tightly the rule binds that the node is parsed by. -/

namespace ScriptEngine

open Canonical Printer

/-! ### Tiers and what follows -/

/-- The rules of the grammar that nodes are parsed by, from the tightest to the loosest. -/
inductive Tier where
  | call | access | term | sum | comparison | negation | expression | statement
  deriving DecidableEq, Repr

namespace Tier

open Grammar

/-- The rule goes on behind a complete node with such a token. -/
def takes : Tier → TokenKind → Bool
  | call, _ => false
  | access, k => k == .point
  | term, k => k == .point || (factorOp? k).isSome
  | sum, k => k == .point || (factorOp? k).isSome || (termOp? k).isSome
  | comparison, k | negation, k =>
    k == .point || (factorOp? k).isSome || (termOp? k).isSome || (comparisonOp? k).isSome
  | expression, k | statement, k =>
    k == .point || (factorOp? k).isSome || (termOp? k).isSome || (comparisonOp? k).isSome ||
      (logicOp? k).isSome

/-- The rule accepts a declaration. -/
def declares : Tier → Bool
  | expression | statement => true
  | _ => false

end Tier

/-- The tier that the operands of an operator are parsed by. -/
def BinaryOp.operand : BinaryOp → Tier
  | .arithmetic .mul | .arithmetic .div => .access
  | .arithmetic .add | .arithmetic .sub => .term
  | .and_ | .or_ => .negation
  | _ => .sum

def UnaryOp.operand : UnaryOp → Tier
  | .not_ => .negation
  | _ => .access

/-- What stands behind a node: the next token, and the next one that is not a line break. -/
structure Follow where
  next : TokenKind
  beyond : TokenKind
  deriving DecidableEq, Repr

namespace Follow

/-- A token that is not a line break. -/
def token (kind : TokenKind) : Follow :=
  ⟨kind, kind⟩

/-- A line break and then such a token. -/
def line (kind : TokenKind) : Follow :=
  ⟨.newline, kind⟩

end Follow

/-- The kind of the first token of a list. -/
def firstKind (tokens : List Token) : TokenKind :=
  (tokens.head?.map Token.kind).getD .endOfCode

/-! ### The end of a node -/

mutual

/-- The last token of the node is a `return` without a value. -/
def Node.endsBare : Node → Bool
  | .declare _ _ value | .assign _ _ value | .update _ _ _ value =>
    !isOpenChoice value && value.endsBare
  | .choose _ arms => arms.endsBare
  | .count _ _ _ _ _ braced body | .each _ _ _ braced body | .loop _ _ braced body
  | .function _ _ _ braced body => !braced && !isOpenChoice body && body.endsBare
  | .members _ segments => lastEndsBare segments
  | .return_ _ value => returnEndsBare value
  | .include_ _ paths => lastEndsBare paths
  | _ => false
termination_by structural n => n

def Arms.endsBare : Arms → Bool
  | .done => false
  | .otherwise braced body => !braced && !isOpenChoice body && body.endsBare
  | .arm _ braced body .done => !braced && !isOpenChoice body && body.endsBare
  | .arm _ _ _ more => more.endsBare
termination_by structural arms => arms

def lastEndsBare : List Node → Bool
  | [] => false
  | [n] => n.endsBare
  | _ :: n :: ns => lastEndsBare (n :: ns)
termination_by structural ns => ns

def returnEndsBare : Option Node → Bool
  | none => true
  | some n => !isOpenChoice n && n.endsBare
termination_by structural n => n

end

/-! ### Reading back -/

/-- A finite number that is not below zero. -/
def Number.isPlain {f : Format} : Number f → Bool
  | .finite false _ => true
  | _ => false

/-- Where the arms stop, an arm that follows would be taken. -/
def Follow.endsArms (f : Follow) : Bool :=
  f.beyond != .keyword .elseif_ && f.beyond != .keyword .else_

def Arms.follow (f : Follow) : Arms → Follow
  | .done => f
  | .otherwise _ _ => .token (.keyword .else_)
  | .arm _ _ _ _ => .token (.keyword .elseif_)

/-- The first token of a body with what stands before it. -/
def bodyStart (braced : Bool) : TokenKind :=
  if braced then .lBrace else .colon

/-- A node in perhaps unneeded parentheses, where `reads` tells whether it reads back itself. -/
def wrappedReads (wrap : Bool) (t : Tier) (f : Follow) (reads : Tier → Follow → Bool) : Bool :=
  if wrap then reads .expression (.token .rParen) && !t.takes f.next else reads t f

/-- A body in braces or inline. An inline body must not look like one in braces. -/
def bodyReads (braced : Bool) (body : Node) (t : Tier) (f : Follow)
    (reads : Tier → Follow → Bool) : Bool :=
  if braced then reads .call (.token .rBrace)
  else firstKind body.tokens != .lBrace && wrappedReads (isOpenChoice body) t f reads

mutual

/-- Parsed by the tier `t` in front of `f`, the canonical text of the node gives the node again. -/
def Node.reads (t : Tier) (f : Follow) : Node → Bool
  | .number _ value => value.isPlain && !t.takes f.next
  | .text _ _ | .read _ _ | .this _ => !t.takes f.next
  | .list _ items => itemsRead .rSquare items && !t.takes f.next
  | .binary _ op left right =>
    wrappedReads (isGreedy left) op.operand (.token op.kind) (fun t f => left.reads t f) &&
      wrappedReads (isGreedy right) op.operand (.token .rParen) (fun t f => right.reads t f) &&
      !t.takes f.next
  | .unary _ op operand =>
    wrappedReads (isGreedy operand) op.operand (.token .rParen) (fun t f => operand.reads t f) &&
      !t.takes f.next
  | .declare _ _ value =>
    t.declares && wrappedReads (isOpenChoice value) .expression f (fun t f => value.reads t f)
  | .assign _ _ value | .update _ _ _ value =>
    wrappedReads (isOpenChoice value) .expression f (fun t f => value.reads t f) &&
      !t.takes f.next
  | .choose _ arms => arms.reads f && !t.takes f.next
  | .count _ _ start stop step braced body =>
    start.reads .expression (.token (.keyword .to_)) &&
      stop.reads .expression
        (.token (if step.isSome then .keyword .by_ else bodyStart braced)) &&
      stepReads (bodyStart braced) step &&
      bodyReads braced body .expression f (fun t f => body.reads t f) && !t.takes f.next
  | .each _ _ items braced body =>
    items.reads .expression (.token (bodyStart braced)) &&
      bodyReads braced body .expression f (fun t f => body.reads t f) && !t.takes f.next
  | .loop _ condition braced body =>
    condition.reads .expression (.token (bodyStart braced)) &&
      bodyReads braced body .statement f (fun t f => body.reads t f) && !t.takes f.next
  | .function _ _ _ braced body =>
    (if braced then body.reads .call (.token .rBrace)
      else wrappedReads (isOpenChoice body) .statement f (fun t f => body.reads t f)) &&
      !t.takes f.next
  | .call _ callee args =>
    callee.reads (if isBareCallee callee then .call else .expression) (.token .rParen) &&
      itemsRead .rParen args && !t.takes f.next
  | .sequence _ statements => linesRead (.line .rBrace) statements && !t.takes f.next
  | .members _ segments => t != .call && segmentsRead f segments && !t.takes f.next
  | .object _ _ _ _ body => body.reads .call (.token .rBrace) && !t.takes f.next
  | .create _ _ args => itemsRead .rParen args && !t.takes f.next
  | .return_ _ value => returnReads f value
  | .continue_ _ | .break_ _ => true
  | .include_ _ paths => pathsRead f paths && !t.takes f.next
termination_by structural n => n

def Arms.reads (f : Follow) : Arms → Bool
  | .done => f.endsArms
  | .otherwise braced body => bodyReads braced body .statement f (fun t f => body.reads t f)
  | .arm condition braced body more =>
    condition.reads .expression (.token (bodyStart braced)) &&
      bodyReads braced body .statement (more.follow f) (fun t f => body.reads t f) && more.reads f
termination_by structural arms => arms

/-- Items up to a closing bracket. -/
def itemsRead (close : TokenKind) : List Node → Bool
  | [] => true
  | [n] => n.reads .expression (.token close)
  | n :: m :: ns => n.reads .expression (.token .comma) && itemsRead close (m :: ns)
termination_by structural ns => ns

/-- Paths of an inclusion, which a comma behind the last one would continue. -/
def pathsRead (f : Follow) : List Node → Bool
  | [] => true
  | [n] => n.reads .expression f && f.next != .comma
  | n :: m :: ns => n.reads .expression (.token .comma) && pathsRead f (m :: ns)
termination_by structural ns => ns

def segmentsRead (f : Follow) : List Node → Bool
  | [] => true
  | [n] => wrappedReads (isNumber n) .call f (fun t f => n.reads t f)
  | n :: m :: ns =>
    wrappedReads (isNumber n) .call (.token .point) (fun t f => n.reads t f) &&
      segmentsRead f (m :: ns)
termination_by structural ns => ns

/-- Statements on lines of their own; the line break behind a bare `return` is lost. -/
def linesRead (f : Follow) : List Node → Bool
  | [] => true
  | [n] => n.reads .statement f
  | n :: m :: ns =>
    n.reads .statement (.line (firstKind m.tokens)) && !n.endsBare && linesRead f (m :: ns)
termination_by structural ns => ns

def stepReads (start : TokenKind) : Option Node → Bool
  | none => true
  | some n => n.reads .expression (.token start)
termination_by structural n => n

def returnReads (f : Follow) : Option Node → Bool
  | none => !f.beyond.starts
  | some n => wrappedReads (isOpenChoice n) .expression f (fun t f => n.reads t f)
termination_by structural n => n

end

/-- The canonical text of the program reads back as the program. -/
def Node.readsBack : Node → Bool
  | .sequence _ statements => linesRead (.token .endOfCode) statements
  | _ => false

end ScriptEngine
