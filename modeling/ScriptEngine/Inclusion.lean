import ScriptEngine.Diagnostic
import ScriptEngine.Files

/-! # Inclusion

A resolver finds the sources that an include expression names: in a table of sources, or in files
seen from the including file. A path that ends in a slash names several sources, in order. -/

namespace ScriptEngine

/-- A source with the path that names it. -/
structure IncludedSource where
  name : String
  text : String

inductive Resolver where
  | table (sources : Table String)
  | files (base : Option String)

namespace Resolver

/-- The path of a file seen from the file that includes it, or else from the base directory. -/
def target (base : Option String) (path : String) (origin : Option String) : String :=
  let directory := ((origin.bind Path.parent?).or base).getD ""
  Path.join directory path

def endsIn (path : String) (c : Char) : Bool :=
  path.toList.getLast? == some c

def notFound {α : Type} (path : String) : Except Diagnostic α :=
  .error (.of (.fileNotFound path))

def resolveTable (sources : Table String) (path : String) :
    Except Diagnostic (List IncludedSource) :=
  if endsIn path '/' then
    let found := sources.filter fun s => path.toList.isPrefixOf s.1.toList
    if found.isEmpty then notFound path
    else
      .ok ((found.mergeSort fun a b => a.1 ≤ b.1).map fun s => { name := s.1, text := s.2 })
  else
    match sources.get? path with
    | some text => .ok [{ name := path, text := text }]
    | none => notFound path

def readSource (tree : FileTree) (file requested : String) : Except Diagnostic IncludedSource :=
  match tree.readText file with
  | .ok text => .ok { name := file, text := text }
  | .error _ => notFound requested

def readSources (tree : FileTree) (directory requested : String) :
    List String → Except Diagnostic (List IncludedSource)
  | [] => .ok []
  | name :: more =>
    match readSource tree (Path.join directory name) requested with
    | .error d => .error d
    | .ok source =>
      match readSources tree directory requested more with
      | .error d => .error d
      | .ok sources => .ok (source :: sources)

def resolveFiles (tree : FileTree) (base : Option String) (path : String)
    (origin : Option String) : Except Diagnostic (List IncludedSource) :=
  let file := target base path origin
  if endsIn path '/' || endsIn path '\\' then
    match tree.fileNames file with
    | .ok names => readSources tree file path names
    | .error _ => notFound path
  else
    match readSource tree file path with
    | .ok source => .ok [source]
    | .error d => .error d

def resolve (r : Resolver) (tree : FileTree) (path : String) (origin : Option String) :
    Except Diagnostic (List IncludedSource) :=
  match r with
  | table sources => resolveTable sources path
  | files base => resolveFiles tree base path origin

end Resolver

end ScriptEngine
