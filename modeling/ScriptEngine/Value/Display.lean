import ScriptEngine.Heap
import ScriptEngine.Number.Decimal
import ScriptEngine.Text.Quoted
import ScriptEngine.Text.Search

/-! # Values as text and as host data

A list that is met again while it is being written is abbreviated, so values that contain
themselves have a finite text; they have no host form. -/

namespace ScriptEngine

/-- Numbers closer than this are equal, and a number closer to zero is false. -/
def tolerance : Single := .ofRatio false 25 100000

/-- From here on whole numbers are no longer shown as integers. -/
def integerLimit : Single := .ofNat 1000000000000000

/-- A number as scripts show it: whole numbers of moderate size as integers. -/
def Number.display : Single → String
  | .finite s m =>
    if isWhole m && (Number.finite false m).lt integerLimit then
      toString (if s then -(whole m : Int) else (whole m : Int))
    else (Number.finite s m).text
  | n => n.text

/-- What a scope holds, for programmers. -/
def Scope.debug (s : Scope) : String :=
  "Environment \x7b name: " ++ Text.quoted s.name ++
    ", bindings: [" ++ Text.joinStrings ", " (s.bindings.map fun e => Text.quoted e.1) ++
    "], has_parent: " ++ toString s.parent.isSome ++ ", is_view: " ++ toString s.isView ++ " \x7d"

namespace Heap

/-- The text of a value that is not a list. -/
def displayAtom (h : Heap) : Value → String
  | .null => "0"
  | .number _ n => n.display
  | .text _ s => s
  | .list _ => ""
  | .function _ l _ => "<function " ++ l.title ++ ">"
  | .native _ n => "<" ++ n.name ++ ">"
  | .cls c => "object " ++ c.name
  | .instance_ e => "Object(" ++ (h.scope e).name ++ ")"

/-- The text of a value that is not a list, for programmers. -/
def debugAtom (h : Heap) : Value → String
  | .null => "Null"
  | .number _ n => "Number(" ++ n.text ++ ")"
  | .text _ s => Text.quoted s
  | .instance_ e => "Instance(" ++ (h.scope e).name ++ ")"
  | v => h.displayAtom v

/-- The text of a value while the lists `opened` are being written and at most `depth` further
lists can be entered. -/
def write (h : Heap) (atom : Value → String) : Nat → List ListRef → Value → String
  | 0, _, .list _ => "[...]"
  | depth + 1, opened, .list l =>
    if opened.contains l then "[...]"
    else
      "[" ++ Text.joinStrings ", " ((h.items l).toList.map (h.write atom depth (l :: opened))) ++ "]"
  | _, _, v => atom v

/-- The text that scripts see. -/
def display (h : Heap) (v : Value) : String :=
  h.write h.displayAtom h.lists.size [] v

def debug (h : Heap) (v : Value) : String :=
  h.write h.debugAtom h.lists.size [] v

/-- The name of a value in a call trace. -/
def label (h : Heap) : Value → String
  | .function _ l _ => l.title
  | .native _ n => n.name
  | .cls c => c.name
  | v => h.display v

/-- All results, or none. -/
def collect {α : Type} : List (Option α) → Option (List α)
  | [] => some []
  | none :: _ => none
  | some a :: rest => (collect rest).map (a :: ·)

/-- The host form of a value inside the lists `opened`. -/
def toHostWithin (h : Heap) : Nat → List ListRef → Value → Option HostValue
  | _, _, .null => some .null
  | _, _, .number _ n => some (.number n.convert)
  | _, _, .text _ s => some (.text s)
  | depth + 1, opened, .list l =>
    if opened.contains l then none
    else (collect ((h.items l).toList.map (h.toHostWithin depth (l :: opened)))).map .list
  | _, _, _ => none

/-- The host form of a value. Callables, object definitions and instances have none, and neither
does a list that contains itself. -/
def toHost (h : Heap) (v : Value) : Option HostValue :=
  h.toHostWithin h.lists.size [] v

def isTruthy (h : Heap) : Value → Bool
  | .null => false
  | .number _ n => tolerance.le n.abs
  | .text _ s => !s.isEmpty
  | .list l => !(h.items l).isEmpty
  | _ => true

end Heap

end ScriptEngine
