import ScriptEngine.Evaluation.Operators
import ScriptEngine.Text.Blank
import ScriptEngine.Text.Case

/-! # Methods of texts, lists and files

Texts and lists have methods that are bound to them on access; file objects have methods that know
their path. Positions count characters. -/

namespace ScriptEngine

namespace Methods

open Run

/-! ### Arguments -/

/-- The value as a position; null is zero. -/
def indexArg (function : String) (v : Value) : Run Int := do
  match v.number? with
  | some n => return n.toWord 64
  | none => raise (.illegalArgument (← display v) function)

/-- A position inside something of the given length. -/
def checkedIndex (index : Int) (length : Nat) : Run Nat :=
  if index < 0 ∨ (length : Int) ≤ index then raise (.indexOutOfBounds index)
  else Run.done index.toNat

/-! ### Texts -/

/-- Without the empty pieces at the end; one piece always stays. -/
def dropEmptyEnd (parts : List (List Char)) : List (List Char) :=
  match parts with
  | [] => []
  | first :: more => first :: (more.reverse.dropWhile List.isEmpty).reverse

/-- The pieces of a text: its words for a single space, its characters for an empty separator. -/
def splitText (sep cs : List Char) : List (List Char) :=
  dropEmptyEnd <|
    if sep = [' '] then Text.words cs
    else if sep.isEmpty then cs.map ([·])
    else Text.split sep cs

def substring (cs : List Char) (start stop : Int) : Except Fault (List Char) :=
  if start < 0 ∨ (cs.length : Int) < start then .error (.indexOutOfBounds start)
  else if stop < start ∨ (cs.length : Int) < stop then .error (.indexOutOfBounds stop)
  else .ok ((cs.take stop.toNat).drop start.toNat)

def isSuffix (part cs : List Char) : Bool :=
  part.reverse.isPrefixOf cs.reverse

def textMethod (m : TextMethod) (s : String) (args : List Value) : Run Value := do
  let cs := s.toList
  match m, args with
  | .equals, [other] => newBool (Text.toLower s == Text.toLower (← display other))
  | .split, [sep] =>
    newTexts ((splitText (← display sep).toList cs).map String.ofList)
  | .charAt, [index] =>
    let i ← checkedIndex (← indexArg "charAt" index) cs.length
    newText (String.ofList ((cs.drop i).take 1))
  | .chars, _ => newTexts (cs.map String.singleton)
  | .substring, [start, stop] =>
    let start ← indexArg "substring" start
    let stop ← indexArg "substring" stop
    newText (String.ofList (← Operators.ofFault (substring cs start stop)))
  | .toUpperCase, _ => newText (Text.toUpper s)
  | .toLowerCase, _ => newText (Text.toLower s)
  | .trim, _ => newText (Text.trim s)
  | .replace, [old, new] =>
    newText (String.ofList
      (Text.replace (← display old).toList (← display new).toList cs))
  | .startsWith, [part] => newBool ((← display part).toList.isPrefixOf cs)
  | .endsWith, [part] => newBool (isSuffix (← display part).toList cs)
  | .contains, [part] => newBool (Text.occursIn (← display part).toList cs)
  | _, _ => return .null

/-! ### Lists -/

/-- The position of the first item that equals the value. -/
def indexOf (h : Heap) (v : Value) (items : List Value) : Option Nat :=
  items.findIdx? fun item =>
    match Operators.equals h item v with
    | .ok b => b
    | .error _ => false

/-- Calls the function with each item from position `i` on, also with those that are added
meanwhile, and collects the results. -/
def mapItems (call : Value → Run Value) (l : ListRef) : Nat → Nat → Array Value → Run (Array Value)
  | 0, _, _ => exhausted
  | rounds + 1, i, results => do
    match ((← heap).items l)[i]? with
    | none => return results
    | some item =>
      let result ← call item
      mapItems call l rounds (i + 1) (results.push result)

def listMethod (self : Machine) (m : ListMethod) (l : ListRef) (args : List Value)
    (scope : ScopeRef) : Run Value := do
  match m, args with
  | .add, [v] =>
    modifyHeap (·.modifyList l (·.push v))
    return v
  | .get, [index] =>
    let index ← indexArg "get" index
    let items := (← heap).items l
    return items.getD (← checkedIndex index items.size) .null
  | .set, [index, v] =>
    let index ← indexArg "set" index
    let i ← checkedIndex index ((← heap).items l).size
    modifyHeap (·.modifyList l (·.setIfInBounds i v))
    return v
  | .insert, [index, v] =>
    let index ← indexArg "insert" index
    let i ← checkedIndex index (((← heap).items l).size + 1)
    modifyHeap (·.modifyList l (·.insertIdxIfInBounds i v))
    return v
  | .remove, [index] =>
    let index ← indexArg "remove" index
    let items := (← heap).items l
    let i ← checkedIndex index items.size
    modifyHeap (·.modifyList l (·.eraseIdxIfInBounds i))
    return items.getD i .null
  | .pop, _ =>
    match ((← heap).items l).back? with
    | none => raise .emptyPop
    | some last =>
      modifyHeap (·.modifyList l (·.pop))
      return last
  | .join, [sep] =>
    let h ← heap
    newText (Text.joinStrings (h.display sep) ((h.items l).toList.map h.display))
  | .indexOf, [v] =>
    let h ← heap
    match indexOf h v (h.items l).toList with
    | some i => newNumber (.ofNat i)
    | none => newNumber (.ofInt (-1))
  | .clear, _ =>
    modifyHeap (·.modifyList l fun _ => #[])
    return .null
  | .foreach, [function] =>
    if function.isCallable then
      newList (← mapItems (fun item => self.call function [item] scope) l self.rounds 0 #[])
    else raise (.illegalArgument (← display function) "foreach")
  | .size, _ => newNumber (.ofNat ((← heap).items l).size)
  | _, _ => return .null

/-! ### Files -/

/-- Keeps a changed tree of files, if the change succeeded. -/
def keepFiles (result : Except FileError FileTree) : Run Bool := do
  match result with
  | .ok files =>
    modify fun w => { w with files := files }
    return true
  | .error _ => return false

def fileMethod (m : FileMethod) (path : String) (args : List Value) : Run Value := do
  let files := (← world).files
  match m, args with
  | .createNewFile, _ => newBool (← keepFiles (files.createFile path))
  | .mkdir, _ =>
    discard (keepFiles (files.makeDirectory path))
    return .null
  | .mkdirs, _ =>
    discard (keepFiles (.ok (FileTree.makeDirectories (path.length + 1) files path).1))
    return .null
  | .exists_, _ => newBool (files.exists_ path)
  | .readAllLines, _ =>
    match files.readText path with
    | .ok text => newTexts ((Text.lines text.toList).map String.ofList)
    | .error _ => newBool false
  | .writeLines, [.list l] =>
    let h ← heap
    let text := Text.joinStrings "\n" ((h.items l).toList.map h.display)
    newBool (← keepFiles (files.writeText path text))
  | .writeLines, [v] => raise (.illegalArgument (← display v) "writeLines")
  | _, _ => return .null

/-! ### Binding -/

/-- Functions under their names. -/
def bound (methods : List Native) : Run (List (String × Value)) :=
  mapAll (fun m => do return (m.name, ← newNative m)) methods

/-- A scope with the given methods as its bindings. -/
def methodScope (name : String) (methods : List Native) : Run ScopeRef := do
  newScope ((Scope.fresh name none none).defineAll (← bound methods))

/-- The scope whose bindings are the members of a value. -/
def memberScope : Value → Run ScopeRef
  | .instance_ e => Run.done e
  | .text _ s => do
    let e ← methodScope "<string>" (TextMethod.all.map (.textMethod · s))
    define e "length" (← newNumber (.ofNat s.length))
    return e
  | .list l => methodScope "<list>" (ListMethod.all.map (.listMethod · l))
  | v => newScope (.fresh ("<" ++ v.typeName ++ ">") none none)

end Methods

end ScriptEngine
