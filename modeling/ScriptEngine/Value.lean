import ScriptEngine.Number
import ScriptEngine.Tree

/-! # Values

Every value except null has an identity. Lists and instances are references into the heap; all
other values carry the stamp that they were made with. -/

namespace ScriptEngine

/-- Names a scope of the heap. -/
structure ScopeRef where
  index : Nat
  deriving DecidableEq, Repr, Inhabited

/-- Names a list of the heap. -/
structure ListRef where
  index : Nat
  deriving DecidableEq, Repr, Inhabited

/-- Plain data that crosses the boundary to the host. -/
inductive HostValue where
  | null
  | bool (value : Bool)
  | number (value : Double)
  | text (value : String)
  | list (items : List HostValue)

/-- Functions that every program can use. -/
inductive Builtin where
  | print | wait | interpret | dAlloc | async
  | sin | cos | signum | abs | floor | ceil | sqrt | toRadians | toDegrees
  | min | max | clamp | modulo | distance | random | randomBetween
  | readString | readNumber
  deriving DecidableEq, Repr

inductive TextMethod where
  | equals | split | charAt | chars | substring | toUpperCase | toLowerCase | trim | replace
  | startsWith | endsWith | contains
  deriving DecidableEq, Repr

inductive ListMethod where
  | add | get | set | insert | remove | pop | join | indexOf | clear | foreach | size
  deriving DecidableEq, Repr

inductive FileMethod where
  | createNewFile | mkdir | mkdirs | exists_ | readAllLines | writeLines
  deriving DecidableEq, Repr

/-- What a function of the host does with its arguments. -/
inductive HostBehavior where
  | echo | first | null | sum | stop | type | spawn | call | instantiate | scope | origin
  | fail (diagnostic : Diagnostic)
  /-- Whatever the host does under the key. -/
  | callback (key : String)
  deriving DecidableEq, Repr

/-- What an object definition runs to build an instance. -/
inductive ClassBody where
  | script (body : Node)
  | object
  | file

/-- An object definition; two of them are the same if they have the same stamp. -/
structure Class where
  stamp : Nat
  name : String
  params : List String
  body : ClassBody
  parent : Option Class

/-- A function that is not written in the language. -/
inductive Native where
  | builtin (builtin : Builtin)
  | textMethod (method : TextMethod) (receiver : String)
  | listMethod (method : ListMethod) (receiver : ListRef)
  | fileMethod (method : FileMethod) (path : String)
  | superCall (parent child : Class) (target : ScopeRef)
  | host (name : String) (params : List String) (behavior : HostBehavior)

/-- A function of the language without its scope. -/
structure Lambda where
  name : Option String
  params : List String
  braced : Bool
  body : Node

def Lambda.title (l : Lambda) : String :=
  l.name.getD "<anonymous>"

inductive Value where
  | null
  | number (stamp : Nat) (value : Single)
  | text (stamp : Nat) (value : String)
  | list (ref : ListRef)
  | function (stamp : Nat) (lambda : Lambda) (scope : ScopeRef)
  | native (stamp : Nat) (native : Native)
  | cls (cls : Class)
  | instance_ (scope : ScopeRef)

instance : Inhabited Value := ⟨.null⟩

instance : Inhabited HostValue := ⟨.null⟩

/-! ### Names and parameters -/

namespace Builtin

def all : List Builtin :=
  [print, wait, interpret, dAlloc, async, sin, cos, signum, abs, floor, ceil, sqrt, toRadians,
    toDegrees, min, max, clamp, modulo, distance, random, randomBetween, readString, readNumber]

def name : Builtin → String
  | print => "print"
  | wait => "wait"
  | interpret => "jipl"
  | dAlloc => "d_alloc"
  | async => "async"
  | sin => "sin"
  | cos => "cos"
  | signum => "signum"
  | abs => "abs"
  | floor => "floor"
  | ceil => "ceil"
  | sqrt => "sqrt"
  | toRadians => "toRadians"
  | toDegrees => "toDegrees"
  | min => "min"
  | max => "max"
  | clamp => "clamp"
  | modulo => "modulo"
  | distance => "distance"
  | random => "random"
  | randomBetween => "randomBetween"
  | readString => "readString"
  | readNumber => "readNumber"

def params : Builtin → List String
  | print => ["text"]
  | interpret => ["code"]
  | dAlloc => ["var"]
  | async => ["fun"]
  | min | max => ["a", "b"]
  | clamp => ["value", "min", "max"]
  | modulo => ["value", "diviser"]
  | distance => ["x1", "y1", "x2", "y2"]
  | randomBetween => ["min", "max"]
  | random | readString | readNumber => []
  | _ => ["value"]

end Builtin

namespace TextMethod

def all : List TextMethod :=
  [equals, split, charAt, chars, substring, toUpperCase, toLowerCase, trim, replace, startsWith,
    endsWith, contains]

def name : TextMethod → String
  | equals => "equals"
  | split => "split"
  | charAt => "charAt"
  | chars => "chars"
  | substring => "substring"
  | toUpperCase => "toUpperCase"
  | toLowerCase => "toLowerCase"
  | trim => "trim"
  | replace => "replace"
  | startsWith => "startsWith"
  | endsWith => "endsWith"
  | contains => "contains"

def params : TextMethod → List String
  | equals => ["string"]
  | split => ["text"]
  | charAt => ["index"]
  | substring => ["start", "end"]
  | replace => ["from", "to"]
  | startsWith => ["prefix"]
  | endsWith => ["suffix"]
  | contains => ["text"]
  | chars | toUpperCase | toLowerCase | trim => []

end TextMethod

namespace ListMethod

def all : List ListMethod :=
  [add, get, set, insert, remove, pop, join, indexOf, clear, foreach, size]

def name : ListMethod → String
  | add => "add"
  | get => "get"
  | set => "set"
  | insert => "insert"
  | remove => "remove"
  | pop => "pop"
  | join => "join"
  | indexOf => "indexOf"
  | clear => "clear"
  | foreach => "foreach"
  | size => "size"

def params : ListMethod → List String
  | add => ["element"]
  | get | remove => ["index"]
  | set | insert => ["index", "obj"]
  | join => ["by"]
  | indexOf => ["obj"]
  | foreach => ["function"]
  | pop | clear | size => []

end ListMethod

namespace FileMethod

def all : List FileMethod :=
  [createNewFile, mkdir, mkdirs, exists_, readAllLines, writeLines]

def name : FileMethod → String
  | createNewFile => "createNewFile"
  | mkdir => "mkdir"
  | mkdirs => "mkdirs"
  | exists_ => "exists"
  | readAllLines => "readAllLines"
  | writeLines => "writeLines"

def params : FileMethod → List String
  | writeLines => ["lines"]
  | _ => []

end FileMethod

namespace Native

def name : Native → String
  | builtin b => b.name
  | textMethod m _ => m.name
  | listMethod m _ => m.name
  | fileMethod m _ => m.name
  | superCall _ _ _ => "super"
  | host name _ _ => name

def params : Native → List String
  | builtin b => b.params
  | textMethod m _ => m.params
  | listMethod m _ => m.params
  | fileMethod m _ => m.params
  | superCall parent _ _ => parent.params
  | host _ params _ => params

end Native

/-! ### Views of a value -/

namespace Value

/-- The same value, not only an equal one. -/
def same : Value → Value → Bool
  | null, null => true
  | number s _, number t _ => s == t
  | text s _, text t _ => s == t
  | list a, list b => a == b
  | function s _ _, function t _ _ => s == t
  | native s _, native t _ => s == t
  | cls a, cls b => a.stamp == b.stamp
  | instance_ a, instance_ b => a == b
  | _, _ => false

def isNull : Value → Bool
  | null => true
  | _ => false

/-- The numeric view; null counts as zero. -/
def number? : Value → Option Single
  | null => some (.zero false)
  | number _ n => some n
  | _ => none

def text? : Value → Option String
  | text _ s => some s
  | _ => none

def list? : Value → Option ListRef
  | list ref => some ref
  | _ => none

def class? : Value → Option Class
  | cls c => some c
  | _ => none

def instance? : Value → Option ScopeRef
  | instance_ scope => some scope
  | _ => none

def isCallable : Value → Bool
  | function _ _ _ | native _ _ | cls _ => true
  | _ => false

def typeName : Value → String
  | null => "Null"
  | number _ _ => "Number"
  | text _ _ => "String"
  | list _ => "List"
  | function _ _ _ | native _ _ => "Function"
  | cls _ => "Object"
  | instance_ _ => "Instance"

end Value

end ScriptEngine
