import ScriptEngine.Path
import ScriptEngine.Table
import ScriptEngine.Text.Bytes

/-! # Files

A tree of files and directories, kept flat: each entry stands under its location, the list of names
that leads to it from the root. Paths are followed name by name from the root or from the working
directory; every place that a path passes through must be a directory. -/

namespace ScriptEngine

/-- The names that lead from the root to a place. -/
abbrev Location := List String

inductive FileContent where
  | file (bytes : ByteArray)
  | directory

/-- Why a file operation failed. -/
inductive FileError where
  | notFound
  | notADirectory
  | isADirectory
  | alreadyExists
  | nameTooLong
  | invalidName
  | notText
  deriving DecidableEq, Repr

/-- The words of the operating system for the failure. -/
def FileError.message : FileError → String
  | notFound => "No such file or directory (os error 2)"
  | notADirectory => "Not a directory (os error 20)"
  | isADirectory => "Is a directory (os error 21)"
  | alreadyExists => "File exists (os error 17)"
  | nameTooLong => "File name too long (os error 36)"
  | invalidName => "file name contained an unexpected NUL byte"
  | notText => "stream did not contain valid UTF-8"

structure FileTree where
  entries : List (Location × FileContent)
  working : Location

namespace FileTree

/-- A tree that holds only its working directory. -/
def empty : FileTree :=
  { entries := [(["work"], .directory)], working := ["work"] }

/-! ### Entries -/

/-- What stands at a place; the root is a directory. -/
def content? (t : FileTree) (at_ : Location) : Option FileContent :=
  if at_.isEmpty then some .directory else (t.entries.find? (·.1 = at_)).map (·.2)

/-- Puts something at a place, over what stood there. -/
def put (t : FileTree) (at_ : Location) (content : FileContent) : FileTree :=
  { t with entries := (at_, content) :: t.entries.filter (·.1 ≠ at_) }

/-- One step from a place, which must be a directory. -/
def enter (t : FileTree) (from_ : Location) (part : String) : Except FileError Location :=
  match t.content? from_ with
  | none => .error .notFound
  | some (.file _) => .error .notADirectory
  | some .directory =>
    if Path.isIdle part then .ok from_
    else if part = ".." then .ok from_.dropLast
    else if 255 < part.utf8ByteSize then .error .nameTooLong
    else .ok (from_ ++ [part])

/-- Follows the parts of a path. -/
def follow (t : FileTree) : Location → List String → Except FileError Location
  | place, [] => .ok place
  | place, part :: more =>
    match t.enter place part with
    | .ok next => t.follow next more
    | .error e => .error e

/-- Where the path starts, and its parts. -/
def start (t : FileTree) (path : String) : Except FileError (Location × List String) :=
  if path.toList.contains '\x00' then .error .invalidName
  else if path = "" then .error .notFound
  else if 4095 < path.utf8ByteSize then .error .nameTooLong
  else .ok (if Path.isAbsolute path then [] else t.working, Path.parts path)

/-- The place that a path leads to, whether or not something stands there. -/
def locate (t : FileTree) (path : String) : Except FileError Location :=
  match t.start path with
  | .ok (place, parts) => t.follow place parts
  | .error e => .error e

def find (t : FileTree) (path : String) : Except FileError FileContent :=
  match t.locate path with
  | .ok place =>
    match t.content? place with
    | some content => .ok content
    | none => .error .notFound
  | .error e => .error e

/-- The place for a new entry: its directory must be there, and the path must end in a name. -/
def locateNew (t : FileTree) (place : Location) (parts : List String) :
    Except FileError Location :=
  match parts.getLast? with
  | none => .error .alreadyExists
  | some name =>
    match t.follow place parts.dropLast with
    | .error e => .error e
    | .ok directory =>
      match t.enter directory name with
      | .error e => .error e
      | .ok target =>
        if name = "" then .error .isADirectory
        else if name = "." ∨ name = ".." then .error .alreadyExists
        else .ok target

/-! ### Operations on paths -/

def exists_ (t : FileTree) (path : String) : Bool :=
  (t.find path).toOption.isSome

def isDirectory (t : FileTree) (path : String) : Bool :=
  match t.find path with
  | .ok .directory => true
  | _ => false

/-- The bytes of a file. -/
def readBytes (t : FileTree) (path : String) : Except FileError ByteArray :=
  match t.find path with
  | .ok (.file bytes) => .ok bytes
  | .ok .directory => .error .isADirectory
  | .error e => .error e

/-- The text of a file. -/
def readText (t : FileTree) (path : String) : Except FileError String :=
  match t.readBytes path with
  | .ok bytes =>
    match String.fromUTF8? bytes with
    | some text => .ok text
    | none => .error .notText
  | .error e => .error e

/-- Makes or replaces a file. -/
def writeText (t : FileTree) (path : String) (text : String) : Except FileError FileTree :=
  match t.start path with
  | .error e => .error e
  | .ok (place, parts) =>
    match t.locateNew place parts with
    | .error e => .error e
    | .ok target =>
      match t.content? target with
      | some .directory => .error .isADirectory
      | _ => .ok (t.put target (.file text.toUTF8))

/-- Makes an empty file where nothing stands yet. -/
def createFile (t : FileTree) (path : String) : Except FileError FileTree :=
  match t.start path with
  | .error e => .error e
  | .ok (place, parts) =>
    match t.locateNew place parts with
    | .error e => .error e
    | .ok target =>
      match t.content? target with
      | some _ => .error .alreadyExists
      | none => .ok (t.put target (.file ByteArray.empty))

/-- Makes a directory where nothing stands yet; slashes at the end of the path do not count. -/
def makeDirectory (t : FileTree) (path : String) : Except FileError FileTree :=
  match t.start path with
  | .error e => .error e
  | .ok (place, parts) =>
    let named := (parts.reverse.dropWhile (· == "")).reverse
    match t.locateNew place named with
    | .error e => .error e
    | .ok target =>
      match t.content? target with
      | some _ => .error .alreadyExists
      | none => .ok (t.put target .directory)

/-- Makes a directory and those above it that are missing, at most `depth` of them. -/
def makeDirectories : Nat → FileTree → String → FileTree × Bool
  | 0, t, _ => (t, false)
  | depth + 1, t, path =>
    if path = "" then (t, true)
    else
      match t.makeDirectory path with
      | .ok t => (t, true)
      | .error .notFound =>
        match Path.parent? path with
        | none => (t, false)
        | some parent =>
          match makeDirectories depth t parent with
          | (t, false) => (t, false)
          | (t, true) =>
            match t.makeDirectory path with
            | .ok t => (t, true)
            | .error _ => (t, t.isDirectory path)
      | .error _ => (t, t.isDirectory path)

/-- The names of the files directly inside a directory, in order. -/
def fileNames (t : FileTree) (path : String) : Except FileError (List String) :=
  match t.locate path with
  | .error e => .error e
  | .ok place =>
    match t.content? place with
    | none => .error .notFound
    | some (.file _) => .error .notADirectory
    | some .directory =>
      .ok ((t.entries.filterMap fun e =>
        match e.2 with
        | .file _ => if e.1.dropLast = place then e.1.getLast? else none
        | .directory => none).mergeSort)

/-! ### Whole trees -/

/-- Makes all directories on the way to a place. -/
def putAncestors (t : FileTree) : Location → List String → FileTree
  | _, [] => t
  | place, name :: more =>
    let here := place ++ [name]
    let t := match t.content? here with
      | some _ => t
      | none => t.put here .directory
    t.putAncestors here more

/-- Puts something at a relative path, with the directories above it. -/
def place (t : FileTree) (path : String) (content : FileContent) : FileTree :=
  let names := (Path.parts path).filter (!Path.isIdle ·)
  let t := t.putAncestors t.working names.dropLast
  match content, t.content? (t.working ++ names) with
  | .directory, some .directory => t
  | content, _ => t.put (t.working ++ names) content

/-- Everything below the working directory with its relative path, in order of the paths. -/
def listing (t : FileTree) : List (String × FileContent) :=
  let below := t.entries.filterMap fun e =>
    if t.working.isPrefixOf e.1 && e.1.length != t.working.length then
      some (Path.joinParts (e.1.drop t.working.length), e.2)
    else none
  below.mergeSort fun a b => a.1 ≤ b.1

end FileTree

end ScriptEngine
