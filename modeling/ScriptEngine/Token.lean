import ScriptEngine.Diagnostic

/-! # Tokens -/

namespace ScriptEngine

inductive Keyword where
  | var_ | and_ | or_ | not_ | true_ | false_ | null_ | if_ | elseif_ | else_ | for_ | in_ | to_
  | by_ | while_ | function_ | return_ | continue_ | break_ | new_ | object_ | extends_ | this_
  | include_
  deriving DecidableEq, Repr

namespace Keyword

def all : List Keyword :=
  [var_, and_, or_, not_, true_, false_, null_, if_, elseif_, else_, for_, in_, to_, by_, while_,
    function_, return_, continue_, break_, new_, object_, extends_, this_, include_]

def word : Keyword → String
  | var_ => "var"
  | and_ => "and"
  | or_ => "or"
  | not_ => "not"
  | true_ => "true"
  | false_ => "false"
  | null_ => "null"
  | if_ => "if"
  | elseif_ => "elseif"
  | else_ => "else"
  | for_ => "for"
  | in_ => "in"
  | to_ => "to"
  | by_ => "by"
  | while_ => "while"
  | function_ => "function"
  | return_ => "return"
  | continue_ => "continue"
  | break_ => "break"
  | new_ => "new"
  | object_ => "object"
  | extends_ => "extends"
  | this_ => "this"
  | include_ => "include"

def ofWord? (word : String) : Option Keyword :=
  all.find? (·.word == word)

end Keyword

inductive TokenKind where
  | int | float | text | identifier
  | keyword (keyword : Keyword)
  | plus | minus | mult | div
  | plusPlus | minusMinus
  | plusEqual | minusEqual | multEqual | divEqual
  | equals | doubleEquals | notEquals | less | greater | lessEquals | greaterEquals
  | lParen | rParen | lSquare | rSquare | lBrace | rBrace
  | colon | comma | point
  | newline
  | endOfCode
  deriving DecidableEq, Repr

/-- A token; its lexeme is the source text, or the decoded value of a string or hexadecimal
literal. -/
structure Token where
  kind : TokenKind
  lexeme : String
  position : Position
  deriving DecidableEq, Repr

namespace Token

/-- How messages name the token. -/
def render (t : Token) : String :=
  match t.kind with
  | .newline => "newline"
  | .endOfCode => "end of code"
  | .text => "\"" ++ t.lexeme ++ "\""
  | .keyword k => "'" ++ k.word ++ "'"
  | _ => "'" ++ t.lexeme ++ "'"

end Token

end ScriptEngine
