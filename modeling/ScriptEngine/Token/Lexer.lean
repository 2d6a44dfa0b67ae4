import ScriptEngine.Path
import ScriptEngine.Text.Letters
import ScriptEngine.Token

/-! # Lexing

Source text becomes a list of tokens with their spans in bytes. Spaces, tabs, comments and the
carriage return of a line ending separate tokens; line feeds and semicolons are tokens. Lexing
stops at the first character that starts no token and keeps the tokens before it. -/

namespace ScriptEngine

namespace Lexer

/-- The size of a text in bytes. -/
def byteSize : List Char → Nat
  | [] => 0
  | c :: cs => c.utf8Size + byteSize cs

/-! ### Between tokens -/

/-- The text up to the end of the line, and the rest. -/
def restOfLine (cs : List Char) : List Char × List Char :=
  cs.span (· ≠ '\n')

/-- The characters that separate tokens at the front of the text, and the rest. -/
def blanks : List Char → List Char × List Char
  | [] => ([], [])
  | c :: cs =>
    if c = ' ' ∨ c = '\t' ∨ (c = '\r' ∧ cs.head? = some '\n') then
      let (skipped, rest) := blanks cs
      (c :: skipped, rest)
    else if c = '#' ∨ c = '@' then restOfLine (c :: cs)
    else ([], c :: cs)

/-! ### Single tokens -/

/-- A recognised token: its kind and lexeme, the characters it spans and those behind it. -/
structure Lexeme where
  kind : TokenKind
  text : String
  span : List Char
  rest : List Char

/-- The outcome at the start of a token: a lexeme, or a fault over some characters. -/
inductive Scan where
  | lexeme (lexeme : Lexeme)
  | fault (fault : Fault) (span : List Char)

/-- A token whose lexeme is the text that it spans. -/
def Scan.plain (kind : TokenKind) (span rest : List Char) : Scan :=
  .lexeme { kind := kind, text := String.ofList span, span := span, rest := rest }

def isNameStart (c : Char) : Bool :=
  Text.isLetter c || c == '_'

def isNamePart (c : Char) : Bool :=
  Text.isLetterOrDigit c || c == '_' || c == '$'

/-- An identifier or a keyword. -/
def scanName (c : Char) (cs : List Char) : Scan :=
  let (body, rest) := cs.span isNamePart
  let name := String.ofList (c :: body)
  let kind := match Keyword.ofWord? name with
    | some k => .keyword k
    | none => .identifier
  .plain kind (c :: body) rest

/-- Digits with at most one point among them, unless one was `seen`; and the rest. -/
def numberBody (seen : Bool) : List Char → List Char × List Char
  | [] => ([], [])
  | c :: cs =>
    if Text.isAsciiDigit c then
      let (body, rest) := numberBody seen cs
      (c :: body, rest)
    else if c = '.' ∧ seen = false then
      let (body, rest) := numberBody true cs
      (c :: body, rest)
    else ([], c :: cs)

def hexDigit? (c : Char) : Option Nat :=
  if '0' ≤ c ∧ c ≤ '9' then some (c.toNat - '0'.toNat)
  else if 'a' ≤ c ∧ c ≤ 'f' then some (c.toNat - 'a'.toNat + 10)
  else if 'A' ≤ c ∧ c ≤ 'F' then some (c.toNat - 'A'.toNat + 10)
  else none

/-- At most `n` hexadecimal digits, and the rest. -/
def hexBody : Nat → List Char → List Char × List Char
  | n + 1, c :: cs =>
    if (hexDigit? c).isSome then
      let (body, rest) := hexBody n cs
      (c :: body, rest)
    else ([], c :: cs)
  | _, cs => ([], cs)

/-- Hexadecimal digits read as a signed word of 32 bits. -/
def hexValue (ds : List Char) : Int :=
  let n : Nat := ds.foldl (fun value d => 16 * value + (hexDigit? d).getD 0) 0
  if n < 0x80000000 then n else n - 0x100000000

/-- What follows `0x`. -/
def scanHex (cs : List Char) : Scan :=
  let (digits, rest) := hexBody 8 cs
  let span := '0' :: 'x' :: digits
  if digits.isEmpty then .fault .missingHexDigit span
  else .lexeme { kind := .int, text := toString (hexValue digits), span := span, rest := rest }

def scanNumber (c : Char) (cs : List Char) : Scan :=
  match c, cs with
  | '0', 'x' :: more => scanHex more
  | c, cs =>
    let (body, rest) := numberBody false cs
    .plain (if body.contains '.' then .float else .int) (c :: body) rest

/-- The character that a backslash before `c` stands for. -/
def unescape (c : Char) : Char :=
  if c = 'n' then '\n' else if c = 't' then '\t' else c

/-- The value of a string literal, the characters it spans behind the opening quote, and the rest.
A string that is not closed ends with its line. -/
def stringBody (quote : Char) : List Char → List Char × List Char × List Char
  | [] => ([], [], [])
  | c :: cs =>
    if c = '\n' then ([], [], c :: cs)
    else if c = '\\' then
      match cs with
      | [] => ([], [c], [])
      | d :: more =>
        let (value, span, rest) := stringBody quote more
        (unescape d :: value, c :: d :: span, rest)
    else if c = quote then ([], [c], cs)
    else
      let (value, span, rest) := stringBody quote cs
      (c :: value, c :: span, rest)

def scanString (quote : Char) (cs : List Char) : Scan :=
  let (value, span, rest) := stringBody quote cs
  .lexeme { kind := .text, text := String.ofList value, span := quote :: span, rest := rest }

/-- An operator of two characters if one of the pairs fits, else of one. -/
def scanOperator (single : TokenKind) (pairs : List (Char × TokenKind)) (c : Char)
    (cs : List Char) : Scan :=
  match cs with
  | d :: rest =>
    match pairs.lookup d with
    | some kind => .plain kind [c, d] rest
    | none => .plain single [c] cs
  | [] => .plain single [c] cs

/-- The token that starts with `c`, followed by `cs`. -/
def scan (c : Char) (cs : List Char) : Scan :=
  if isNameStart c then scanName c cs
  else if Text.isAsciiDigit c then scanNumber c cs
  else
    match c with
    | '\n' | ';' => .plain .newline [c] cs
    | '"' | '\'' => scanString c cs
    | '(' => .plain .lParen [c] cs
    | ')' => .plain .rParen [c] cs
    | '\x7b' => .plain .lBrace [c] cs
    | '\x7d' => .plain .rBrace [c] cs
    | '[' => .plain .lSquare [c] cs
    | ']' => .plain .rSquare [c] cs
    | ',' => .plain .comma [c] cs
    | ':' => .plain .colon [c] cs
    | '.' => .plain .point [c] cs
    | '+' => scanOperator .plus [('+', .plusPlus), ('=', .plusEqual)] c cs
    | '-' => scanOperator .minus [('-', .minusMinus), ('=', .minusEqual)] c cs
    | '*' => scanOperator .mult [('=', .multEqual)] c cs
    | '/' => scanOperator .div [('=', .divEqual)] c cs
    | '=' => scanOperator .equals [('=', .doubleEquals)] c cs
    | '<' => scanOperator .less [('=', .lessEquals)] c cs
    | '>' => scanOperator .greater [('=', .greaterEquals)] c cs
    | '!' => scanOperator (.keyword .not_) [('=', .notEquals)] c cs
    | '&' => .plain (.keyword .and_) [c] cs
    | '|' => .plain (.keyword .or_) [c] cs
    | c => .fault (.illegalCharacter c) [c]

end Lexer

/-- The tokens of a source, and the failure that ended them early. -/
structure Lexed where
  tokens : List Token
  failure : Option Diagnostic

namespace Lexer

/-- The tokens of a text of at most `n` characters that starts at `offset` in `line`. -/
def lexFrom (source : Option String) : Nat → Nat → Nat → List Char → Lexed
  | 0, offset, line, _ =>
    { tokens := [⟨.endOfCode, "", ⟨line, offset, 0, source⟩⟩], failure := none }
  | n + 1, offset, line, cs =>
    let (skipped, ahead) := blanks cs
    let start := offset + byteSize skipped
    match ahead with
    | [] => { tokens := [⟨.endOfCode, "", ⟨line, start, 0, source⟩⟩], failure := none }
    | c :: more =>
      match scan c more with
      | .fault fault span =>
        { tokens := [], failure := some (.located fault ⟨line, start, byteSize span, source⟩) }
      | .lexeme l =>
        let size := byteSize l.span
        let token : Token := ⟨l.kind, l.text, ⟨line, start, size, source⟩⟩
        let next := lexFrom source n (start + size) (if c = '\n' then line + 1 else line) l.rest
        { next with tokens := token :: next.tokens }

end Lexer

/-- The tokens of a source. Of the source's name only the last part is kept. -/
def tokenize (source : String) (name : Option String) : Lexed :=
  let cs := source.toList
  Lexer.lexFrom (name.map fun n => (Path.fileName? n).getD n) cs.length 0 1 cs

end ScriptEngine
