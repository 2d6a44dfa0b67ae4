import ScriptEngine.Text.Search

/-! # Paths

A path is text whose parts are separated by slashes. Empty parts and parts that are a single dot
name nothing, except that a dot at the very start of a relative path is a part of its own. -/

namespace ScriptEngine.Path

def isAbsolute (path : String) : Bool :=
  path.toList.head? == some '/'

/-- All parts, also those that name nothing. -/
def parts (path : String) : List String :=
  (Text.split ['/'] path.toList).map String.ofList

/-- The part names nothing. -/
def isIdle (part : String) : Bool :=
  part == "" || part == "."

/-- Without the parts at the end that name nothing. -/
def trimParts (ps : List String) : List String :=
  (ps.reverse.dropWhile isIdle).reverse

def joinParts (ps : List String) : String :=
  Text.joinStrings "/" ps

/-- The text in front of the parts of a path that can be taken away, and those parts. -/
def body (path : String) : String × List String :=
  match parts path with
  | "" :: rest => if isAbsolute path then ("/", rest) else ("", [])
  | "." :: rest => (".", rest)
  | ps => ("", ps)

/-- The path without its last part; none for a path without parts and for the root. -/
def parent? (path : String) : Option String :=
  let (head, rest) := body path
  match trimParts rest with
  | [] => if head = "." then some "" else none
  | ps =>
    let front := trimParts ps.dropLast
    if head = "." then some (joinParts ("." :: front)) else some (head ++ joinParts front)

/-- The last part of the path, if it is a name. -/
def fileName? (path : String) : Option String :=
  match (trimParts (body path).2).getLast? with
  | some name => if name = ".." then none else some name
  | none => none

/-- `path` seen from the directory `base`. -/
def join (base path : String) : String :=
  if isAbsolute path then path
  else if base = "" ∨ base.toList.getLast? = some '/' then base ++ path
  else base ++ "/" ++ path

end ScriptEngine.Path
