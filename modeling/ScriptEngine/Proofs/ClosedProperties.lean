import ScriptEngine.Engine

/-! # Properties of every computation

A property of computations is *closed* if the primitive computations have it and every way of
putting computations together keeps it. A closed property that a machine has is had by all rules
of evaluation with that machine, so by induction on the fuel every machine has it. -/

namespace ScriptEngine

/-- A change that touches only streams, files, random numbers, lifetimes and the stop flag. -/
def World.Outside (f : World → World) : Prop :=
  ∀ w, f w = { w with
    stopped := (f w).stopped, files := (f w).files, input := (f w).input,
    output := (f w).output, seed := (f w).seed, freed := (f w).freed, waited := (f w).waited }

/-- A property of computations that the primitive ones have and that composition keeps. -/
structure Closed (P : ∀ α : Type, Run α → Prop) : Prop where
  done : ∀ {α : Type} (a : α), P α (Run.done a)
  bind : ∀ {α β : Type} {x : Run α} {f : α → Run β}, P α x → (∀ a, P β (f a)) → P β (x >>= f)
  observe : ∀ {α : Type} (f : World → α), P α fun w => .done (f w) w
  make : ∀ {α : Type} (f : Heap → α × Heap), P α (Run.make f)
  outside : ∀ {α : Type} (f : World → α) (g : World → World), World.Outside g →
    P α fun w => .done (f w) (g w)
  noteRead : ∀ name, P Unit (Run.note (.read name))
  noteWrote : ∀ e name value shown, P Unit (Run.note (.wrote e name value shown))
  spawn : ∀ task, P Unit (Run.spawn task)
  jump : ∀ {α : Type} (j : Jump), P α (Run.jump j)
  fail : ∀ {α : Type} (d : Diagnostic), P α (Run.fail d)
  exhausted : ∀ {α : Type}, P α Run.exhausted
  onFailure : ∀ {α : Type} (f : Diagnostic → Diagnostic) {x : Run α}, P α x →
    P α (Run.onFailure f x)
  catchJump : ∀ {α : Type} {x : Run α}, P α x → P (Except Jump α) (Run.catchJump x)
  withFrame : ∀ {α : Type} {x : Run α}, P α x → P α (Run.withFrame x)
  during : ∀ {α : Type} (entry : TraceEntry) {x : Run α}, P α x → P α (Run.during entry x)

/-- What the rules of evaluation refer back to has the property. -/
structure Machine.Has (m : Machine) (P : ∀ α : Type, Run α → Prop) : Prop where
  evaluate : ∀ node e, P Value (m.evaluate node e)
  call : ∀ callee args e, P Value (m.call callee args e)
  host : ∀ key args e, P Value (m.host key args e)

/-- The callbacks of the host have the property if the machine has it that they evaluate and call
with. -/
def Callbacks.Keep (callbacks : Callbacks) (P : ∀ α : Type, Run α → Prop) : Prop :=
  ∀ self : Machine, self.Has P → ∀ key args e, P Value (callbacks key self args e)

namespace Closed

open Run

variable {P : ∀ α : Type, Run α → Prop} {α β : Type}

/-! ### Composition -/

theorem discard (hP : Closed P) {x : Run α} (hx : P α x) : P Unit (discard x) :=
  hP.bind hx fun _ => hP.done _

theorem mapAll (hP : Closed P) {f : α → Run β} (hf : ∀ a, P β (f a)) (as : List α) :
    P (List β) (mapAll f as) := by
  induction as with
  | nil => exact hP.done []
  | cons a as ih => exact hP.bind (hf a) fun _ => hP.bind ih fun _ => hP.done _

theorem raise (hP : Closed P) (fault : Fault) : P α (raise fault) :=
  hP.fail _

theorem locatedAt (hP : Closed P) (p : Position) {x : Run α} (hx : P α x) :
    P α (locatedAt p x) :=
  hP.onFailure _ hx

theorem ofExcept (hP : Closed P) (result : Except Diagnostic α) : P α (ofExcept result) := by
  cases result with
  | ok a => exact hP.done a
  | error d => exact hP.fail d

theorem world (hP : Closed P) : P World world :=
  hP.observe _

theorem heap (hP : Closed P) : P Heap Run.heap :=
  hP.observe _

theorem display (hP : Closed P) (v : Value) : P String (display v) :=
  hP.observe _

theorem isTruthy (hP : Closed P) (v : Value) : P Bool (isTruthy v) :=
  hP.observe _

theorem storage (hP : Closed P) (e : ScopeRef) : P ScopeRef (storage e) :=
  hP.observe _

theorem owner (hP : Closed P) (e : ScopeRef) (name : String) : P ScopeRef (owner e name) :=
  hP.observe _

/-! ### Values and scopes -/

theorem modifyHeap (hP : Closed P) (f : Heap → Heap) : P Unit (modifyHeap f) :=
  hP.make fun h => ((), f h)

theorem newNumber (hP : Closed P) (n : Single) : P Value (newNumber n) :=
  hP.make _

theorem newBool (hP : Closed P) (b : Bool) : P Value (newBool b) :=
  hP.newNumber _

theorem newText (hP : Closed P) (s : String) : P Value (newText s) :=
  hP.make _

theorem newList (hP : Closed P) (items : Array Value) : P Value (newList items) :=
  hP.make _

theorem newScope (hP : Closed P) (s : Scope) : P ScopeRef (newScope s) :=
  hP.make _

theorem newNative (hP : Closed P) (n : Native) : P Value (newNative n) :=
  hP.make _

theorem newTexts (hP : Closed P) (texts : List String) : P Value (newTexts texts) :=
  hP.bind (hP.mapAll hP.newText texts) fun _ => hP.newList _

mutual

theorem fromHost (hP : Closed P) : ∀ v : HostValue, P Value (fromHost v)
  | .null => hP.done _
  | .bool b => hP.newBool b
  | .number _ => hP.newNumber _
  | .text s => hP.newText s
  | .list items => hP.bind (hP.fromHosts items) fun _ => hP.newList _

theorem fromHosts (hP : Closed P) : ∀ vs : List HostValue, P (List Value) (fromHosts vs)
  | [] => hP.done _
  | v :: vs => hP.bind (hP.fromHost v) fun _ => hP.bind (hP.fromHosts vs) fun _ => hP.done _

end

theorem reportWrite (hP : Closed P) (e : ScopeRef) (name : String) (value : Value) :
    P Unit (reportWrite e name value) := by
  refine hP.bind hP.heap fun h => ?_
  split
  · exact hP.noteWrote e name value _
  · exact hP.done _

theorem set (hP : Closed P) (e : ScopeRef) (name : String) (value : Value) :
    P Unit (set e name value) :=
  hP.bind (hP.modifyHeap _) fun _ => hP.reportWrite e name value

theorem readCell (hP : Closed P) (name : String) : P Value (readCell name) :=
  hP.bind (hP.noteRead name) fun _ => hP.bind hP.world fun _ => hP.fromHost _

theorem getLocal (hP : Closed P) (e : ScopeRef) (name : String) :
    P (Option Value) (getLocal e name) := by
  refine hP.bind hP.heap fun h => ?_
  dsimp only
  split
  · exact hP.bind (hP.readCell name) fun _ => hP.done _
  · exact hP.done _

theorem get (hP : Closed P) (e : ScopeRef) (name : String) : P (Option Value) (get e name) := by
  refine hP.bind hP.heap fun h => ?_
  split
  · exact hP.getLocal _ name
  · exact hP.done _

theorem innerScope (hP : Closed P) (e : ScopeRef) : P ScopeRef (innerScope e) :=
  hP.bind hP.heap fun _ => hP.newScope _

theorem memberView (hP : Closed P) (receiver outer : ScopeRef) :
    P ScopeRef (memberView receiver outer) :=
  hP.bind hP.heap fun _ => hP.newScope _

theorem modify (hP : Closed P) (g : World → World) (hg : World.Outside g) :
    P Unit (modify g) :=
  hP.outside (fun _ => ()) g hg

theorem print (hP : Closed P) (s : String) : P Unit (print s) :=
  hP.modify _ fun _ => rfl

theorem draw (hP : Closed P) (bound : Nat) : P Nat (draw bound) :=
  hP.outside _ (fun w => { w with seed := _ }) fun _ => rfl

theorem isFreed (hP : Closed P) : P Bool isFreed :=
  hP.outside _ (fun w => { w with freed := _ }) fun _ => rfl

/-! ### Operators -/

theorem ofFault (hP : Closed P) (result : Except Fault α) : P α (Operators.ofFault result) := by
  cases result with
  | ok a => exact hP.done a
  | error fault => exact hP.raise fault

theorem illegal (hP : Closed P) (operand : Value) : P α (Operators.illegal operand) :=
  hP.bind (hP.display operand) fun _ => hP.raise _

theorem concatenated (hP : Closed P) (a b : Value) : P Value (Operators.concatenated a b) :=
  hP.bind (hP.display a) fun _ => hP.bind (hP.display b) fun _ => hP.newText _

theorem numberWith (hP : Closed P) (op : Arithmetic) (x : Single) (a b : Value) :
    P Value (Operators.numberWith op x a b) := by
  unfold Operators.numberWith
  split
  · exact hP.bind (hP.ofFault _) fun _ => hP.newNumber _
  · exact hP.concatenated _ _
  · exact hP.illegal _

theorem listWith (hP : Closed P) (op : Arithmetic) (l : ListRef) (b : Value) :
    P Value (Operators.listWith op l b) := by
  refine hP.bind hP.heap fun h => ?_
  dsimp only
  split
  · exact hP.bind hP.heap fun _ => hP.newList _
  · exact hP.newList _
  · exact hP.newList _
  · exact hP.illegal _

variable {self : Machine}

theorem arithmetic (hP : Closed P) (hs : self.Has P) (op : Arithmetic) (a b : Value) :
    P Value (Operators.arithmetic self op a b) := by
  unfold Operators.arithmetic
  split
  · exact hP.numberWith op _ _ b
  · exact hP.numberWith op _ _ b
  · exact hP.listWith op _ b
  · refine hP.bind hP.heap fun h => ?_
    split
    · exact hs.call _ _ _
    · exact hP.concatenated _ _
    · exact hP.illegal _
  · split
    · exact hP.concatenated _ _
    · exact hP.illegal _

theorem binary (hP : Closed P) (hs : self.Has P) (op : BinaryOp) (a b : Value) :
    P Value (Operators.binary self op a b) := by
  unfold Operators.binary
  split
  · exact hP.arithmetic hs _ a b
  · exact hP.bind hP.heap fun _ => hP.bind (hP.ofFault _) fun _ => hP.newBool _
  · exact hP.bind hP.heap fun _ => hP.bind (hP.ofFault _) fun _ => hP.newBool _
  · exact hP.bind hP.heap fun _ => hP.bind (hP.ofFault _) fun _ => hP.newBool _

theorem unary (hP : Closed P) (hs : self.Has P) (op : UnaryOp) (a : Value) :
    P Value (Operators.unary self op a) := by
  unfold Operators.unary
  split
  · exact hP.done a
  · refine hP.bind hP.heap fun h => ?_
    split
    · exact hP.bind (hP.newNumber _) fun _ => hP.arithmetic hs _ a _
    · exact hP.illegal a
  · exact hP.bind (hP.isTruthy a) fun _ => hP.newBool _

/-! ### Methods -/

theorem indexArg (hP : Closed P) (function : String) (v : Value) :
    P Int (Methods.indexArg function v) := by
  unfold Methods.indexArg
  split
  · exact hP.done _
  · exact hP.bind (hP.display v) fun _ => hP.raise _

theorem checkedIndex (hP : Closed P) (index : Int) (length : Nat) :
    P Nat (Methods.checkedIndex index length) := by
  unfold Methods.checkedIndex
  split
  · exact hP.raise _
  · exact hP.done _

theorem textMethod (hP : Closed P) (m : TextMethod) (s : String) (args : List Value) :
    P Value (Methods.textMethod m s args) := by
  unfold Methods.textMethod
  dsimp only
  split
  · exact hP.bind (hP.display _) fun _ => hP.newBool _
  · exact hP.bind (hP.display _) fun _ => hP.newTexts _
  · exact hP.bind (hP.indexArg _ _) fun _ => hP.bind (hP.checkedIndex _ _) fun _ => hP.newText _
  · exact hP.newTexts _
  · exact hP.bind (hP.indexArg _ _) fun _ => hP.bind (hP.indexArg _ _) fun _ =>
      hP.bind (hP.ofFault _) fun _ => hP.newText _
  · exact hP.newText _
  · exact hP.newText _
  · exact hP.newText _
  · exact hP.bind (hP.display _) fun _ => hP.bind (hP.display _) fun _ => hP.newText _
  · exact hP.bind (hP.display _) fun _ => hP.newBool _
  · exact hP.bind (hP.display _) fun _ => hP.newBool _
  · exact hP.bind (hP.display _) fun _ => hP.newBool _
  · exact hP.done _

theorem mapItems (hP : Closed P) {call : Value → Run Value} (hc : ∀ v, P Value (call v))
    (l : ListRef) (rounds i : Nat) (results : Array Value) :
    P (Array Value) (Methods.mapItems call l rounds i results) := by
  induction rounds generalizing i results with
  | zero => exact hP.exhausted
  | succ rounds ih =>
    refine hP.bind hP.heap fun h => ?_
    split
    · exact hP.done _
    · exact hP.bind (hc _) fun _ => ih _ _

theorem listMethod (hP : Closed P) (hs : self.Has P) (m : ListMethod) (l : ListRef)
    (args : List Value) (scope : ScopeRef) :
    P Value (Methods.listMethod self m l args scope) := by
  unfold Methods.listMethod
  split
  · exact hP.bind (hP.modifyHeap _) fun _ => hP.done _
  · exact hP.bind (hP.indexArg _ _) fun _ => hP.bind hP.heap fun _ =>
      hP.bind (hP.checkedIndex _ _) fun _ => hP.done _
  · exact hP.bind (hP.indexArg _ _) fun _ => hP.bind hP.heap fun _ =>
      hP.bind (hP.checkedIndex _ _) fun _ => hP.bind (hP.modifyHeap _) fun _ => hP.done _
  · exact hP.bind (hP.indexArg _ _) fun _ => hP.bind hP.heap fun _ =>
      hP.bind (hP.checkedIndex _ _) fun _ => hP.bind (hP.modifyHeap _) fun _ => hP.done _
  · exact hP.bind (hP.indexArg _ _) fun _ => hP.bind hP.heap fun _ =>
      hP.bind (hP.checkedIndex _ _) fun _ => hP.bind (hP.modifyHeap _) fun _ => hP.done _
  · refine hP.bind hP.heap fun h => ?_
    split
    · exact hP.raise _
    · exact hP.bind (hP.modifyHeap _) fun _ => hP.done _
  · exact hP.bind hP.heap fun _ => hP.newText _
  · refine hP.bind hP.heap fun h => ?_
    split
    · exact hP.newNumber _
    · exact hP.newNumber _
  · exact hP.bind (hP.modifyHeap _) fun _ => hP.done _
  · split
    · exact hP.bind (hP.mapItems (fun _ => hs.call _ _ _) l _ _ _) fun _ => hP.newList _
    · exact hP.bind (hP.display _) fun _ => hP.raise _
  · exact hP.bind hP.heap fun _ => hP.newNumber _
  · exact hP.done _

theorem keepFiles (hP : Closed P) (result : Except FileError FileTree) :
    P Bool (Methods.keepFiles result) := by
  unfold Methods.keepFiles
  split
  · exact hP.bind (hP.modify _ fun _ => rfl) fun _ => hP.done _
  · exact hP.done _

theorem fileMethod (hP : Closed P) (m : FileMethod) (path : String) (args : List Value) :
    P Value (Methods.fileMethod m path args) := by
  refine hP.bind hP.world fun w => ?_
  dsimp only
  split
  · exact hP.bind (hP.keepFiles _) fun _ => hP.newBool _
  · exact hP.bind (hP.discard (hP.keepFiles _)) fun _ => hP.done _
  · exact hP.bind (hP.discard (hP.keepFiles _)) fun _ => hP.done _
  · exact hP.newBool _
  · split
    · exact hP.newTexts _
    · exact hP.newBool _
  · exact hP.bind hP.heap fun _ => hP.bind (hP.keepFiles _) fun _ => hP.newBool _
  · exact hP.bind (hP.display _) fun _ => hP.raise _
  · exact hP.done _

theorem bound (hP : Closed P) (methods : List Native) :
    P (List (String × Value)) (Methods.bound methods) :=
  hP.mapAll (fun _ => hP.bind (hP.newNative _) fun _ => hP.done _) methods

theorem methodScope (hP : Closed P) (name : String) (methods : List Native) :
    P ScopeRef (Methods.methodScope name methods) :=
  hP.bind (hP.bound methods) fun _ => hP.newScope _

theorem memberScope (hP : Closed P) (v : Value) : P ScopeRef (Methods.memberScope v) := by
  unfold Methods.memberScope
  split
  · exact hP.done _
  · exact hP.bind (hP.methodScope _ _) fun _ => hP.bind (hP.newNumber _) fun _ =>
      hP.bind (hP.modifyHeap _) fun _ => hP.done _
  · exact hP.methodScope _ _
  · exact hP.newScope _

/-! ### Programs, instances and inclusion -/

theorem runStatements (hP : Closed P) (hs : self.Has P) (e : ScopeRef) (statements : List Node)
    (last : Value) : P Value (Evaluation.runStatements self e statements last) := by
  induction statements generalizing last with
  | nil => exact hP.done last
  | cons statement more ih =>
    refine hP.bind (hP.catchJump (hs.evaluate statement e)) fun result => ?_
    split
    · exact ih _
    · exact hP.done _
    · exact hP.fail _
    · exact hP.fail _

theorem runProgram (hP : Closed P) (hs : self.Has P) (root : Node) (e : ScopeRef) :
    P Value (Evaluation.runProgram self root e) := by
  unfold Evaluation.runProgram
  split
  · exact hP.runStatements hs e _ _
  · exact hP.runStatements hs e _ _

theorem runSource (hP : Closed P) (hs : self.Has P) (source : String) (e : ScopeRef)
    (name : Option String) : P Value (Evaluation.runSource self source e name) :=
  hP.bind (hP.ofExcept _) fun _ => hP.runProgram hs _ e

theorem checkArity (hP : Closed P) (name : String) (params : List String) (args : List Value) :
    P Unit (Evaluation.checkArity name params args) := by
  unfold Evaluation.checkArity
  split
  · exact hP.done _
  · exact hP.raise _

theorem openInstance (hP : Closed P) (c : Class) (args : List Value) (e : ScopeRef) :
    P ScopeRef (Evaluation.openInstance c args e) := by
  refine hP.bind (hP.newScope _) fun scope => hP.bind (hP.modifyHeap _) fun _ => ?_
  have hparams : ∀ _ : Unit, P ScopeRef
      (Run.modifyHeap (·.modifyScope scope (·.defineAll (c.params.zip args))) >>= fun _ =>
        pure scope) :=
    fun _ => hP.bind (hP.modifyHeap _) fun _ => hP.done _
  split
  · exact hP.bind (hP.newNative _) fun _ => hP.bind (hP.modifyHeap _) hparams
  · exact hparams ()

theorem runBody (hP : Closed P) (hs : self.Has P) (c : Class) (args : List Value)
    (scope : ScopeRef) : P Unit (Evaluation.runBody self c args scope) := by
  unfold Evaluation.runBody
  split
  · exact hP.done _
  · exact hP.bind (hP.display _) fun _ => hP.bind (hP.bound _) fun _ => hP.modifyHeap _
  · refine hP.bind (hP.catchJump (hs.evaluate _ scope)) fun result => ?_
    split
    · exact hP.done _
    · exact hP.done _
    · exact hP.raise _
    · exact hP.raise _

theorem adopt (hP : Closed P) (c : Class) (scope parentScope : ScopeRef) :
    P Unit (Evaluation.adopt c scope parentScope) :=
  hP.bind (hP.modifyHeap _) fun _ => hP.modifyHeap _

theorem implicitParent (hP : Closed P) {build : List Value → ScopeRef → Run ScopeRef}
    (hb : ∀ args e, P ScopeRef (build args e)) (c parent : Class) (args : List Value)
    (scope : ScopeRef) : P Unit (Evaluation.implicitParent build c parent args scope) := by
  refine hP.bind hP.heap fun h => ?_
  split
  · split
    · exact hP.bind (hb args scope) fun _ => hP.bind (hP.modifyHeap _) fun _ => hP.adopt c _ _
    · exact hP.modifyHeap _
  · exact hP.done _

theorem instantiate (hP : Closed P) (hs : self.Has P) :
    ∀ (c : Class) (args : List Value) (e : ScopeRef),
      P ScopeRef (Evaluation.instantiate self c args e)
  | ⟨_, _, _, _, none⟩, args, e =>
    hP.bind (hP.checkArity _ _ args) fun _ => hP.withFrame <|
      hP.bind (hP.openInstance _ args e) fun scope =>
        hP.bind (hP.runBody hs _ args scope) fun _ => hP.done _
  | ⟨_, _, _, _, some parent⟩, args, e =>
    hP.bind (hP.checkArity _ _ args) fun _ => hP.withFrame <|
      hP.bind (hP.openInstance _ args e) fun scope =>
        hP.bind (hP.runBody hs _ args scope) fun _ =>
          hP.bind (hP.implicitParent (fun args e => hP.instantiate hs parent args e) _ parent args
            scope) fun _ => hP.done _
termination_by structural c => c

theorem buildParent (hP : Closed P) (hs : self.Has P) (parent child : Class) (target : ScopeRef)
    (args : List Value) : P Value (Evaluation.buildParent self parent child target args) := by
  refine hP.bind hP.isFreed fun freed => ?_
  split
  · exact hP.raise _
  · exact hP.bind (hP.instantiate hs parent args target) fun _ =>
      hP.bind (hP.modifyHeap _) fun _ => hP.bind (hP.adopt child target _) fun _ => hP.done _

theorem runIncluded (hP : Closed P) (hs : self.Has P) (pos : Position) (path : String)
    (scope : ScopeRef) (sources : List IncludedSource) :
    P Unit (Evaluation.runIncluded self pos path scope sources) := by
  induction sources with
  | nil => exact hP.done _
  | cons source more ih =>
    exact hP.bind (hP.modifyHeap _) fun _ =>
      hP.bind (hP.discard (hP.during _ (hP.runSource hs source.text scope _))) fun _ => ih

theorem includePath (hP : Closed P) (hs : self.Has P) (pos : Position) (path : String)
    (e : ScopeRef) : P Value (Evaluation.includePath self pos path e) :=
  hP.bind hP.world fun _ => hP.bind (hP.locatedAt pos (hP.ofExcept _)) fun sources =>
    hP.bind (hP.newScope _) fun scope => hP.bind (hP.runIncluded hs pos path scope sources) fun _ =>
      hP.bind (hP.storage e) fun _ => hP.bind (hP.modifyHeap _) fun _ => hP.done _

/-! ### Functions that are not written in the language -/

theorem numberArg (hP : Closed P) (function : String) (v : Value) :
    P Single (Builtins.numberArg function v) := by
  unfold Builtins.numberArg
  split
  · exact hP.done _
  · exact hP.bind (hP.display v) fun _ => hP.raise _

theorem randomBetween (hP : Closed P) (low high : Single) :
    P Single (Builtins.randomBetween low high) := by
  unfold Builtins.randomBetween
  dsimp only
  split
  · exact hP.done _
  · exact hP.bind (hP.draw _) fun _ => hP.done _

theorem readLine (hP : Closed P) : P String Builtins.readLine := by
  refine hP.bind (hP.print _) fun _ => hP.bind hP.world fun w => ?_
  dsimp only
  refine hP.bind (hP.modify _ fun _ => rfl) fun _ => ?_
  split
  · exact hP.done _
  · exact hP.raise _

theorem programText (hP : Closed P) (v : Value) : P String (Builtins.programText v) := by
  refine hP.bind hP.heap fun h => ?_
  split
  · exact hP.done _
  · exact hP.done _
  · exact hP.raise _

theorem builtin (hP : Closed P) (hs : self.Has P) (b : Builtin) (args : List Value)
    (scope : ScopeRef) : P Value (Builtins.run self b args scope) := by
  unfold Builtins.run
  split
  · exact hP.bind (hP.display _) fun _ => hP.bind (hP.print _) fun _ => hP.done _
  · exact hP.bind (hP.numberArg _ _) fun _ =>
      hP.bind (hP.modify _ fun _ => rfl) fun _ => hP.done _
  · exact hP.bind (hP.programText _) fun code => hP.bind hP.heap fun h =>
      hP.runSource hs code _ _
  · exact hP.bind hP.heap fun _ => hP.bind (hP.modifyHeap _) fun _ => hP.done _
  · split
    · exact hP.bind (hP.spawn _) fun _ => hP.done _
    · exact hP.bind (hP.spawn _) fun _ => hP.done _
    · exact hP.bind (hP.display _) fun _ => hP.raise _
  · exact hP.bind (hP.draw _) fun _ => hP.newNumber _
  · exact hP.bind (hP.numberArg _ _) fun _ => hP.bind (hP.numberArg _ _) fun _ =>
      hP.bind (hP.randomBetween _ _) fun _ => hP.newNumber _
  · exact hP.bind hP.readLine fun _ => hP.newText _
  · refine hP.bind hP.readLine fun line => ?_
    dsimp only
    split
    · exact hP.newNumber _
    · exact hP.raise _
  · refine hP.bind (hP.mapAll (hP.numberArg _) _) fun numbers => ?_
    split
    · exact hP.bind (hP.ofFault _) fun _ => hP.newNumber _
    · exact hP.done _

theorem instantiateValue (hP : Closed P) (hs : self.Has P) (v : Value) (args : List Value)
    (e : ScopeRef) : P ScopeRef (Builtins.instantiateValue self v args e) := by
  unfold Builtins.instantiateValue
  split
  · exact hP.instantiate hs _ args e
  · exact hP.bind (hP.display _) fun _ => hP.raise _

theorem runHost (hP : Closed P) (hs : self.Has P) (behavior : HostBehavior) (args : List Value)
    (scope : ScopeRef) : P Value (Builtins.runHost self behavior args scope) := by
  unfold Builtins.runHost
  dsimp only
  split
  · exact hP.newList _
  · exact hP.done _
  · exact hP.done _
  · exact hP.newNumber _
  · exact hP.bind (hP.modify _ fun _ => rfl) fun _ => hP.done _
  · exact hP.fail _
  · exact hP.newText _
  · exact hP.bind (hP.spawn _) fun _ => hP.bind hP.world fun _ => hP.newNumber _
  · exact hs.call _ _ _
  · exact hP.bind (hP.instantiateValue hs _ _ scope) fun _ => hP.done _
  · exact hP.bind hP.heap fun _ => hP.newTexts _
  · refine hP.bind hP.heap fun h => ?_
    split
    · exact hP.newText _
    · exact hP.done _
  · exact hs.host _ _ _

/-! ### Calls -/

theorem callFunction (hP : Closed P) (hs : self.Has P) (f : Lambda) (closure : ScopeRef)
    (args : List Value) : P Value (Evaluation.callFunction self f closure args) := by
  refine hP.bind (hP.checkArity _ _ args) fun _ => hP.bind (hP.newScope _) fun scope => ?_
  refine hP.bind (hP.withFrame (hP.catchJump (hs.evaluate f.body scope))) fun result => ?_
  split
  · exact hP.done _
  · exact hP.done _
  · exact hP.raise _
  · exact hP.raise _

theorem runNative (hP : Closed P) (hs : self.Has P) (n : Native) (args : List Value)
    (scope : ScopeRef) : P Value (Evaluation.runNative self n args scope) := by
  cases n with
  | builtin b => exact hP.builtin hs b args scope
  | textMethod m receiver => exact hP.textMethod m receiver args
  | listMethod m receiver => exact hP.listMethod hs m receiver args scope
  | fileMethod m path => exact hP.fileMethod m path args
  | superCall parent child target => exact hP.buildParent hs parent child target args
  | host name params behavior => exact hP.runHost hs behavior args scope

theorem callNative (hP : Closed P) (hs : self.Has P) (n : Native) (args : List Value)
    (e : ScopeRef) : P Value (Evaluation.callNative self n args e) :=
  hP.bind (hP.checkArity _ _ args) fun _ => hP.bind (hP.newScope _) fun scope =>
    hP.withFrame (hP.runNative hs n args scope)

theorem callValue (hP : Closed P) (hs : self.Has P) (callee : Value) (args : List Value)
    (e : ScopeRef) : P Value (Evaluation.callValue self callee args e) := by
  unfold Evaluation.callValue
  split
  · exact hP.callFunction hs _ _ args
  · exact hP.callNative hs _ args e
  · exact hP.bind (hP.instantiate hs _ args e) fun _ => hP.done _
  · exact hP.done _

/-! ### Loops and choices -/

theorem loopResult (hP : Closed P) (braced : Bool) (results : Array Value) :
    P Value (Evaluation.loopResult braced results) := by
  unfold Evaluation.loopResult
  split
  · exact hP.done _
  · exact hP.newList _

theorem runRound (hP : Closed P) {body : Run Value} (hb : P Value body) :
    P Evaluation.Round (Evaluation.runRound body) := by
  refine hP.bind (hP.catchJump hb) fun result => ?_
  split
  · exact hP.done _
  · exact hP.done _
  · exact hP.done _
  · exact hP.jump _

theorem countRounds (hP : Closed P) {body : Single → Run Value} (hb : ∀ i, P Value (body i))
    (r : Evaluation.Range) (rounds : Nat) (i : Single) (results : Array Value) :
    P (Array Value) (Evaluation.countRounds body r rounds i results) := by
  induction rounds generalizing i results with
  | zero => exact hP.exhausted
  | succ rounds ih =>
    unfold Evaluation.countRounds
    split
    · refine hP.bind (hP.runRound (hb i)) fun round => ?_
      split
      · exact ih _ _
      · exact ih _ _
      · exact hP.done _
    · exact hP.done _

theorem eachRounds (hP : Closed P) {body : Value → Run Value} (hb : ∀ v, P Value (body v))
    (l : ListRef) (rounds i : Nat) (results : Array Value) :
    P (Array Value) (Evaluation.eachRounds body l rounds i results) := by
  induction rounds generalizing i results with
  | zero => exact hP.exhausted
  | succ rounds ih =>
    refine hP.bind hP.heap fun h => ?_
    split
    · exact hP.done _
    · refine hP.bind (hP.runRound (hb _)) fun round => ?_
      split
      · exact ih _ _
      · exact ih _ _
      · exact hP.done _

theorem whileRounds (hP : Closed P) {condition body : Run Value} (hc : P Value condition)
    (hb : P Value body) (rounds : Nat) (results : Array Value) :
    P (Array Value) (Evaluation.whileRounds condition body rounds results) := by
  induction rounds generalizing results with
  | zero => exact hP.exhausted
  | succ rounds ih =>
    refine hP.bind hc fun value => hP.bind (hP.isTruthy value) fun truthy => ?_
    split
    · refine hP.bind (hP.runRound hb) fun round => ?_
      split
      · exact ih _
      · exact ih _
      · exact hP.done _
    · exact hP.done _

theorem loopBound (hP : Closed P) (hs : self.Has P) (what : String) (node : Node)
    (e : ScopeRef) : P Single (Evaluation.loopBound self what node e) := by
  refine hP.bind (hs.evaluate node e) fun value => ?_
  split
  · exact hP.done _
  · exact hP.bind (hP.display value) fun _ => hP.fail _

theorem loopStep (hP : Closed P) (hs : self.Has P) (start stop : Single) (step : Option Node)
    (e : ScopeRef) : P Single (Evaluation.loopStep self start stop step e) := by
  cases step with
  | none => exact hP.done _
  | some node => exact hP.loopBound hs _ node e

theorem evalCount (hP : Closed P) (hs : self.Has P) (name : String) (start stop : Node)
    (step : Option Node) (braced : Bool) (body : Node) (e : ScopeRef) :
    P Value (Evaluation.evalCount self name start stop step braced body e) := by
  refine hP.bind (hP.loopBound hs _ start e) fun first =>
    hP.bind (hP.loopBound hs _ stop e) fun last =>
      hP.bind (hP.loopStep hs first last step e) fun by_ => ?_
  split
  · exact hP.fail _
  · refine hP.bind (hP.innerScope e) fun scope => ?_
    refine hP.bind (hP.countRounds (fun i => ?_) _ _ _ _) fun results => hP.loopResult braced _
    exact hP.bind (hP.newNumber i) fun _ => hP.bind (hP.modifyHeap _) fun _ =>
      hs.evaluate body scope

theorem evalEach (hP : Closed P) (hs : self.Has P) (name : String) (items : Node)
    (braced : Bool) (body : Node) (e : ScopeRef) :
    P Value (Evaluation.evalEach self name items braced body e) := by
  refine hP.bind (hs.evaluate items e) fun value => ?_
  split
  · refine hP.bind (hP.innerScope e) fun scope => ?_
    refine hP.bind (hP.eachRounds (fun v => ?_) _ _ _ _) fun results => hP.loopResult braced _
    exact hP.bind (hP.modifyHeap _) fun _ => hs.evaluate body scope
  · exact hP.bind (hP.display _) fun _ => hP.fail _

theorem evalWhile (hP : Closed P) (hs : self.Has P) (condition : Node) (braced : Bool)
    (body : Node) (e : ScopeRef) :
    P Value (Evaluation.evalWhile self condition braced body e) :=
  hP.bind (hP.innerScope e) fun scope =>
    hP.bind (hP.whileRounds (hs.evaluate condition e) (hs.evaluate body scope) _ _) fun _ =>
      hP.loopResult braced _

theorem evalBranch (hP : Closed P) (hs : self.Has P) (braced : Bool) (body : Node)
    (e : ScopeRef) : P Value (Evaluation.evalBranch self braced body e) :=
  hP.bind (hP.innerScope e) fun scope => hP.bind (hs.evaluate body scope) fun _ => hP.done _

theorem evalArms (hP : Closed P) (hs : self.Has P) (e : ScopeRef) (arms : Arms) :
    P Value (Evaluation.evalArms self e arms) := by
  cases arms with
  | done => exact hP.done _
  | otherwise braced body => exact hP.evalBranch hs braced body e
  | arm condition braced body more =>
    refine hP.bind (hs.evaluate condition e) fun value =>
      hP.bind (hP.isTruthy value) fun truthy => ?_
    split
    · exact hP.evalBranch hs braced body e
    · exact hP.evalArms hs e more

/-! ### Nodes -/

theorem evalRead (hP : Closed P) (name : String) (pos : Position) (e : ScopeRef) :
    P Value (Evaluation.evalRead name pos e) := by
  refine hP.bind (hP.get e name) fun found => ?_
  split
  · exact hP.fail _
  · exact hP.fail _
  · exact hP.done _

theorem evalUpdate (hP : Closed P) (hs : self.Has P) (name : String) (op : Arithmetic)
    (value : Node) (pos : Position) (e : ScopeRef) :
    P Value (Evaluation.evalUpdate self name op value pos e) :=
  hP.bind (hs.evaluate value e) fun operand => hP.bind (hP.owner e name) fun target =>
    hP.bind (hP.get target name) fun _ =>
      hP.bind (hP.locatedAt pos (hP.arithmetic hs op _ operand)) fun result =>
        hP.bind (hP.set target name result) fun _ => hP.done _

theorem lookupClass (hP : Closed P) (name : String) (pos : Position) (e : ScopeRef) :
    P Class (Evaluation.lookupClass name pos e) := by
  refine hP.bind (hP.get e name) fun found => ?_
  split
  · exact hP.done _
  · exact hP.fail _
  · exact hP.fail _
  · exact hP.fail _

theorem evalAll (hP : Closed P) (hs : self.Has P) (nodes : List Node) (e : ScopeRef) :
    P (List Value) (Evaluation.evalAll self nodes e) :=
  hP.mapAll (fun n => hs.evaluate n e) nodes

theorem evalFunction (hP : Closed P) (f : Lambda) (e : ScopeRef) :
    P Value (Evaluation.evalFunction f e) := by
  refine hP.bind (hP.make _) fun value => ?_
  split
  · exact hP.bind (hP.storage e) fun _ => hP.bind (hP.set _ _ value) fun _ => hP.done _
  · exact hP.done _

theorem evalObject (hP : Closed P) (name : String) (params : List String)
    (parent : Option String) (body : Node) (pos : Position) (e : ScopeRef) :
    P Value (Evaluation.evalObject name params parent body pos e) := by
  have hdefine : ∀ c : Option Class, P Value (newClass name params (.script body) c >>=
      fun value => Run.storage e >>= fun target => Run.set target name value >>= fun _ =>
        pure value) :=
    fun _ => hP.bind (hP.make _) fun value => hP.bind (hP.storage e) fun _ =>
      hP.bind (hP.set _ name value) fun _ => hP.done _
  unfold Evaluation.evalObject
  split
  · exact hP.bind (hP.lookupClass _ pos e) fun c => hdefine (some c)
  · exact hdefine none

theorem evalCall (hP : Closed P) (hs : self.Has P) (callee : Node) (args : List Node)
    (pos : Position) (e : ScopeRef) : P Value (Evaluation.evalCall self callee args pos e) := by
  refine hP.bind (hs.evaluate callee e) fun f => ?_
  split
  · exact hP.bind (hP.evalAll hs args e) fun values =>
      hP.during _ (hP.locatedAt pos (hP.callValue hs f values e))
  · exact hP.done _

theorem evalCreate (hP : Closed P) (hs : self.Has P) (name : String) (args : List Node)
    (pos : Position) (e : ScopeRef) : P Value (Evaluation.evalCreate self name args pos e) :=
  hP.bind (hP.lookupClass name pos e) fun c => hP.bind (hP.evalAll hs args e) fun values =>
    hP.during _ (hP.locatedAt pos (hP.bind (hP.instantiate hs c values e) fun _ => hP.done _))

theorem evalSegments (hP : Closed P) (hs : self.Has P) (segments : List Node) (value : Value)
    (e : ScopeRef) : P Value (Evaluation.evalSegments self segments value e) := by
  induction segments generalizing value e with
  | nil => exact hP.done value
  | cons segment more ih =>
    exact hP.bind (hP.memberScope value) fun members => hP.bind (hP.memberView members e)
      fun view => hP.bind (hs.evaluate segment view) fun next => ih next view

theorem evalMembers (hP : Closed P) (hs : self.Has P) (segments : List Node) (e : ScopeRef) :
    P Value (Evaluation.evalMembers self segments e) := by
  cases segments with
  | nil => exact hP.done _
  | cons first more =>
    exact hP.bind (hs.evaluate first e) fun value => hP.evalSegments hs more value e

theorem evalInclude (hP : Closed P) (hs : self.Has P) (pos : Position) (e : ScopeRef)
    (paths : List Node) (last : Value) :
    P Value (Evaluation.evalInclude self pos e paths last) := by
  induction paths generalizing last with
  | nil => exact hP.done last
  | cons node more ih =>
    exact hP.bind (hs.evaluate node e) fun value => hP.bind (hP.display value) fun path =>
      hP.bind (hP.includePath hs pos path e) fun next => ih next

theorem evalSequence (hP : Closed P) (hs : self.Has P) (e : ScopeRef) (statements : List Node) :
    P Unit (Evaluation.evalSequence self e statements) := by
  induction statements with
  | nil => exact hP.done _
  | cons statement more ih =>
    exact hP.bind (hP.discard (hs.evaluate statement e)) fun _ => ih

theorem evalNode (hP : Closed P) (hs : self.Has P) (node : Node) (e : ScopeRef) :
    P Value (Evaluation.evalNode self node e) := by
  cases node with
  | number pos value => exact hP.newNumber value
  | text pos value => exact hP.newText value
  | list pos items => exact hP.bind (hP.evalAll hs items e) fun _ => hP.newList _
  | binary pos op left right =>
    exact hP.bind (hs.evaluate left e) fun a => hP.bind (hs.evaluate right e) fun b =>
      hP.locatedAt pos (hP.binary hs op a b)
  | unary pos op operand =>
    exact hP.bind (hs.evaluate operand e) fun a => hP.locatedAt pos (hP.unary hs op a)
  | read pos name => exact hP.evalRead name pos e
  | this pos => exact hP.bind (hP.storage e) fun _ => hP.done _
  | declare pos name value =>
    exact hP.bind (hs.evaluate value e) fun v => hP.bind (hP.storage e) fun target =>
      hP.bind (hP.set target name v) fun _ => hP.done _
  | assign pos name value =>
    exact hP.bind (hs.evaluate value e) fun v => hP.bind (hP.owner e name) fun target =>
      hP.bind (hP.set target name v) fun _ => hP.done _
  | update pos name op value => exact hP.evalUpdate hs name op value pos e
  | choose pos arms => exact hP.evalArms hs e arms
  | count pos name start stop step braced body =>
    exact hP.evalCount hs name start stop step braced body e
  | each pos name items braced body => exact hP.evalEach hs name items braced body e
  | loop pos condition braced body => exact hP.evalWhile hs condition braced body e
  | function pos name params braced body => exact hP.evalFunction _ e
  | call pos callee args => exact hP.evalCall hs callee args pos e
  | sequence pos statements =>
    exact hP.bind (hP.evalSequence hs e statements) fun _ =>
      hP.bind (hP.storage e) fun _ => hP.done _
  | members pos segments => exact hP.evalMembers hs segments e
  | object pos name params parent body => exact hP.evalObject name params parent body pos e
  | create pos name args => exact hP.evalCreate hs name args pos e
  | return_ pos value =>
    cases value with
    | none => exact hP.jump _
    | some value => exact hP.bind (hs.evaluate value e) fun _ => hP.jump _
  | continue_ pos => exact hP.jump _
  | break_ pos => exact hP.jump _
  | include_ pos paths => exact hP.evalInclude hs pos e paths _

/-- A stopped program fails at once, which is an observation followed by a failure. -/
theorem evalUnlessStopped (hP : Closed P) (hs : self.Has P) (node : Node) (e : ScopeRef) :
    P Value (Evaluation.evalUnlessStopped self node e) := by
  have hsplit : Evaluation.evalUnlessStopped self node e =
      (Run.world >>= fun w => if w.stopped then Run.fail (.of .stopped)
        else Evaluation.evalNode self node e) := by
    funext w
    simp only [Evaluation.evalUnlessStopped, Run.world, Bind.bind, andThen]
    split <;> rfl
  rw [hsplit]
  refine hP.bind hP.world fun w => ?_
  split
  · exact hP.fail _
  · exact hP.evalNode hs node e

/-- Every machine has every closed property that the callbacks of its host have. -/
theorem machineWith (hP : Closed P) {callbacks : Callbacks} (hcallbacks : callbacks.Keep P)
    (n : Nat) : (Evaluation.machineWith callbacks n).Has P := by
  induction n with
  | zero =>
    exact ⟨fun _ _ => hP.exhausted, fun _ _ _ => hP.exhausted, fun _ _ _ => hP.exhausted⟩
  | succ n ih =>
    exact ⟨fun node e => hP.evalUnlessStopped ih node e,
      fun callee args e => hP.callValue ih callee args e,
      fun key args e => hcallbacks _ ih key args e⟩

theorem machine (hP : Closed P) (n : Nat) : (Evaluation.machine n).Has P :=
  hP.machineWith (fun _ _ _ _ _ => hP.raise _) n

end Closed

end ScriptEngine
