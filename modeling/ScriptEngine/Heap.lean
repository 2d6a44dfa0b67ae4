import ScriptEngine.Table
import ScriptEngine.Value

/-! # The heap

Scopes and lists live in a heap and are named by the order of their creation. A scope has bindings,
perhaps a parent that names are looked up in next, and perhaps a receiver: a scope with a receiver
is a view of it, which reads the receiver before its parent and stores new bindings there. -/

namespace ScriptEngine

/-- One scope. A tracked name is read from the host; writes to a watched name are reported. -/
structure Scope where
  name : String
  parent : Option ScopeRef
  receiver : Option ScopeRef
  origin : Option String
  bindings : Table Value
  tracked : List String
  watched : List String

namespace Scope

/-- A new scope without bindings. -/
def fresh (name : String) (parent receiver : Option ScopeRef) : Scope :=
  { name := name, parent := parent, receiver := receiver, origin := none, bindings := [],
    tracked := [], watched := [] }

instance : Inhabited Scope := ⟨fresh "" none none⟩

def globalName : String := "<Global>"

def isView (s : Scope) : Bool :=
  s.receiver.isSome

def contains (s : Scope) (name : String) : Bool :=
  s.bindings.contains name || s.tracked.contains name

/-- Binds without telling the host. -/
def define (s : Scope) (name : String) (value : Value) : Scope :=
  { s with bindings := s.bindings.insert name value }

def defineAll (s : Scope) (entries : List (String × Value)) : Scope :=
  { s with bindings := s.bindings.insertAll entries }

/-- Forgets the binding and its host hooks. -/
def remove (s : Scope) (name : String) : Scope :=
  { s with
    bindings := s.bindings.erase name
    tracked := s.tracked.filter (· ≠ name)
    watched := s.watched.filter (· ≠ name) }

/-- Adds a name to a set of names. -/
def addName (names : List String) (name : String) : List String :=
  if names.contains name then names else names ++ [name]

def track (s : Scope) (name : String) : Scope :=
  { s with tracked := addName s.tracked name }

def watch (s : Scope) (name : String) : Scope :=
  { s with watched := addName s.watched name }

def unwatch (s : Scope) (name : String) : Scope :=
  { s with watched := s.watched.filter (· ≠ name) }

end Scope

/-- Scopes and lists in order of creation, and how many stamps were given out. -/
structure Heap where
  scopes : Array Scope
  lists : Array (Array Value)
  stamps : Nat

namespace Heap

def empty : Heap :=
  { scopes := #[], lists := #[], stamps := 0 }

/-! ### Scopes -/

def scope (h : Heap) (e : ScopeRef) : Scope :=
  h.scopes.getD e.index default

def newScope (h : Heap) (s : Scope) : ScopeRef × Heap :=
  (⟨h.scopes.size⟩, { h with scopes := h.scopes.push s })

def modifyScope (h : Heap) (e : ScopeRef) (f : Scope → Scope) : Heap :=
  { h with scopes := h.scopes.modify e.index f }

/-- The first scope that contains the name: the scope itself, its receiver, then those that its
parent finds. A parent is older than its child. -/
def locate (h : Heap) (e : ScopeRef) (name : String) : Option ScopeRef :=
  let s := h.scope e
  if s.contains name then some e
  else
    match s.receiver.filter fun r => (h.scope r).contains name with
    | some r => some r
    | none =>
      match s.parent with
      | some p => if p.index < e.index then h.locate p name else none
      | none => none
termination_by e.index

/-- The end of the chain of parents. -/
def root (h : Heap) (e : ScopeRef) : ScopeRef :=
  match (h.scope e).parent with
  | some p => if p.index < e.index then h.root p else e
  | none => e
termination_by e.index

/-- Where the nearest enclosing scope was loaded from. -/
def origin (h : Heap) (e : ScopeRef) : Option String :=
  let s := h.scope e
  match s.origin with
  | some path => some path
  | none =>
    match s.parent with
    | some p => if p.index < e.index then h.origin p else none
    | none => none
termination_by e.index

/-- Where new bindings made in the scope are stored. -/
def storage (h : Heap) (e : ScopeRef) : ScopeRef :=
  (h.scope e).receiver.getD e

/-- The scope that a write of the name goes to. A name that is bound nowhere belongs to the
receiver of a view, or else to the root. -/
def owner (h : Heap) (e : ScopeRef) (name : String) : ScopeRef :=
  match h.locate e name with
  | some found => found
  | none => (h.scope e).receiver.getD (h.root e)

/-- Copies every binding of `source` into `target`. -/
def mergeInto (h : Heap) (target source : ScopeRef) : Heap :=
  if target = source then h
  else h.modifyScope target (·.defineAll (h.scope source).bindings)

/-- Copies the bindings of `source` that `target` does not contain yet. -/
def mergeMissing (h : Heap) (target source : ScopeRef) : Heap :=
  if target = source then h
  else
    h.modifyScope target fun t =>
      (h.scope source).bindings.foldl
        (fun t e => if t.contains e.1 then t else t.define e.1 e.2) t

/-! ### Lists -/

def items (h : Heap) (l : ListRef) : Array Value :=
  h.lists.getD l.index #[]

def newList (h : Heap) (items : Array Value) : ListRef × Heap :=
  (⟨h.lists.size⟩, { h with lists := h.lists.push items })

def modifyList (h : Heap) (l : ListRef) (f : Array Value → Array Value) : Heap :=
  { h with lists := h.lists.modify l.index f }

/-! ### Stamps -/

def newStamp (h : Heap) : Nat × Heap :=
  (h.stamps, { h with stamps := h.stamps + 1 })

end Heap

end ScriptEngine
