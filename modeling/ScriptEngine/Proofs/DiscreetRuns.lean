import ScriptEngine.Proofs.WatchedWrites

/-! # Discreet computations

A computation is discreet if it notifies no setter and leaves alone what a setter watches. A run is
compared with one that is cut off at a notification: until then the two do the same, and at the end
of a rule that writes a name the second one may just have come to the notification. -/

namespace ScriptEngine

/-- A run under a watch that ends in the worlds `E`. -/
@[reducible] def Watch.contract (W : Watch) (E : World → Prop) : Contract where
  world := E
  jump j := j.Apart W.globals
  failure _ := True
  cut := True

theorem Watch.contract_untraced (W : Watch) : (W.contract W.Open).Untraced where
  calls _ _ hw := hw.congr rfl rfl rfl rfl
  failure _ _ _ _ := trivial

abbrev Run.Discreet {α : Type} (W : Watch) (Q : α → Prop) (x : Run α) : Prop :=
  x.Meets (W.contract W.Open) Q

/-! ### Discreet computations -/

namespace Run.Discreet

variable {W : Watch} {α β : Type} {Q : α → Prop}

theorem heap : Discreet W (Heap.Apart W.globals) Run.heap :=
  .observe fun _ hw => hw.accounted.heap

theorem world : Discreet W W.Open Run.world :=
  .observe fun _ hw => hw

theorem display (v : Value) : Discreet W Whatever (display v) :=
  .observe fun _ _ => trivial

theorem isTruthy (v : Value) : Discreet W Whatever (isTruthy v) :=
  .observe fun _ _ => trivial

theorem storage (e : ScopeRef) : Discreet W Whatever (storage e) :=
  .observe fun _ _ => trivial

theorem owner (e : ScopeRef) (name : String) : Discreet W Whatever (owner e name) :=
  .observe fun _ _ => trivial

theorem make {f : Heap → α × Heap}
    (hf : ∀ h, h.Apart W.globals → (f h).2.Apart W.globals ∧ W.Spares h (f h).2 ∧ Q (f h).1) :
    Discreet W Q (make f) :=
  ⟨fun w hw =>
    have h := hf w.heap hw.accounted.heap
    ⟨hw.withHeap h.1 h.2.1, h.2.2⟩⟩

theorem modifyHeap {f : Heap → Heap}
    (hf : ∀ h, h.Apart W.globals → (f h).Apart W.globals ∧ W.Spares h (f h)) :
    Discreet W Whatever (modifyHeap f) :=
  ⟨fun w hw =>
    have h := hf w.heap hw.accounted.heap
    ⟨hw.withHeap h.1 h.2, trivial⟩⟩

/-- A change outside the globals, the heap, the queue and the journal. -/
theorem modify {f : World → World}
    (hf : ∀ w, (f w).globals = w.globals ∧ (f w).heap = w.heap ∧ (f w).tasks = w.tasks ∧
      (f w).journal = w.journal) : Discreet W Whatever (modify f) :=
  ⟨fun w hw => ⟨hw.congr (hf w).1 (hf w).2.1 (hf w).2.2.1 (hf w).2.2.2, trivial⟩⟩

theorem fail (d : Diagnostic) : Discreet W Q (fail d) :=
  Meets.fail trivial

theorem raise (fault : Fault) : Discreet W Q (raise fault) :=
  fail _

theorem ofExcept (result : Except Diagnostic α) : Discreet W Whatever (ofExcept result) := by
  cases result with
  | ok a => exact .done trivial
  | error d => exact fail d

theorem ofFault (result : Except Fault α) : Discreet W Whatever (Operators.ofFault result) := by
  cases result with
  | ok a => exact .done trivial
  | error fault => exact raise fault

theorem locatedAt (p : Position) {x : Run α} (hx : Discreet W Q x) :
    Discreet W Q (locatedAt p x) :=
  Meets.locatedAt W.contract_untraced p hx

/-! ### Values -/

theorem stamped (f : Nat → Value) (hf : ∀ stamp, (f stamp).Apart W.globals) :
    Discreet W (Value.Apart W.globals) (Run.make fun h => (f h.newStamp.1, h.newStamp.2)) :=
  make fun _ hh => ⟨hh.newStamp, .of_scope rfl, hf _⟩

theorem newNumber (n : Single) : Discreet W (Value.Apart W.globals) (newNumber n) :=
  stamped (.number · n) fun _ => trivial

theorem newBool (b : Bool) : Discreet W (Value.Apart W.globals) (newBool b) :=
  newNumber _

theorem newText (s : String) : Discreet W (Value.Apart W.globals) (newText s) :=
  stamped (.text · s) fun _ => trivial

theorem newList {items : Array Value} (hi : ValuesApart W.globals items.toList) :
    Discreet W (Value.Apart W.globals) (newList items) :=
  make fun _ hh => ⟨hh.newList hi, .of_scope rfl, trivial⟩

theorem newFunction (f : Lambda) (e : ScopeRef) :
    Discreet W (Value.Apart W.globals) (newFunction f e) :=
  stamped (.function · f e) fun _ => trivial

theorem newNative {n : Native} (hn : ∀ stamp, (Value.native stamp n).Apart W.globals) :
    Discreet W (Value.Apart W.globals) (newNative n) :=
  stamped (.native · n) hn

theorem newClass (name : String) (params : List String) (body : ClassBody)
    (parent : Option Class) :
    Discreet W (Value.Apart W.globals) (newClass name params body parent) :=
  stamped (.cls ⟨·, name, params, body, parent⟩) fun _ => trivial

theorem newTexts (texts : List String) : Discreet W (Value.Apart W.globals) (newTexts texts) :=
  (Meets.mapAll fun s _ => newText s).bind fun _ hvs => newList hvs

mutual

theorem fromHost : ∀ v : HostValue, Discreet W (Value.Apart W.globals) (fromHost v)
  | .null => .done trivial
  | .bool b => newBool b
  | .number _ => newNumber _
  | .text s => newText s
  | .list items => (fromHosts items).bind fun _ hvs => newList hvs

theorem fromHosts : ∀ vs : List HostValue, Discreet W (ValuesApart W.globals) (fromHosts vs)
  | [] => .done .nil
  | v :: vs => (fromHost v).bind fun _ hv => (fromHosts vs).bind fun _ hvs => .done (.cons hv hvs)

end

/-! ### Scopes -/

/-- A scope that is made is not the globals. -/
theorem newScope {s : Scope} (hs : EntriesApart W.globals s.bindings) :
    Discreet W (· ≠ W.globals) (newScope s) :=
  make fun _ hh => ⟨hh.newScope hs, .newScope hh s, hh.newScope_ne s⟩

theorem newFrame (name : String) (e : ScopeRef) (params : List String) {args : List Value}
    (ha : ValuesApart W.globals args) :
    Discreet W (· ≠ W.globals)
      (Run.newScope ((Scope.fresh name (some e) none).defineAll (params.zip args))) :=
  newScope (EntriesApart.nil.insertAll (.zip ha))

theorem innerScope (e : ScopeRef) : Discreet W (· ≠ W.globals) (innerScope e) :=
  heap.bind fun _ _ => newScope .nil

theorem memberView (receiver outer : ScopeRef) :
    Discreet W (· ≠ W.globals) (memberView receiver outer) :=
  heap.bind fun _ _ => newScope .nil

theorem define {e : ScopeRef} (he : W.Unwatched e) (name : String) {v : Value}
    (hv : v.Apart W.globals) : Discreet W Whatever (define e name v) :=
  modifyHeap fun h hh => ⟨hh.define e name hv, .modifyScope he h _⟩

theorem defineAll {e : ScopeRef} (he : W.Unwatched e) {entries : Table Value}
    (hv : EntriesApart W.globals entries) :
    Discreet W Whatever (Run.modifyHeap (·.modifyScope e (·.defineAll entries))) :=
  modifyHeap fun h hh => ⟨hh.defineAll e hv, .modifyScope he h _⟩

theorem remove (e : ScopeRef) (name : String) : Discreet W Whatever (remove e name) :=
  modifyHeap fun _ hh => ⟨hh.remove e name, .remove hh e name⟩

theorem setOrigin (e : ScopeRef) (origin : Option String) :
    Discreet W Whatever
      (Run.modifyHeap (·.modifyScope e fun s => { s with origin := origin })) :=
  modifyHeap fun _ hh => ⟨hh.modifyScope (hh.bindings e), .setOrigin hh e origin⟩

theorem mergeInto {target : ScopeRef} (ht : W.Unwatched target) (source : ScopeRef) :
    Discreet W Whatever (Run.modifyHeap (·.mergeInto target source)) :=
  modifyHeap fun h hh => ⟨hh.mergeInto target source, .mergeInto ht h source⟩

theorem mergeMissing {target : ScopeRef} (ht : W.Unwatched target) (source : ScopeRef) :
    Discreet W Whatever (Run.modifyHeap (·.mergeMissing target source)) :=
  modifyHeap fun h hh => ⟨hh.mergeMissing target source, .mergeMissing ht h source⟩

theorem noteRead (name : String) : Discreet W Whatever (Run.note (.read name)) :=
  ⟨fun _ hw => ⟨hw.note (fun _ _ _ _ h => nomatch h), trivial⟩⟩

theorem readCell (name : String) : Discreet W (Value.Apart W.globals) (readCell name) :=
  (noteRead name).bind fun _ _ => world.bind fun _ _ => fromHost _

/-- What a name is bound to is not a constructor of the globals. -/
def FoundApart (g : ScopeRef) (found : Option Value) : Prop :=
  ∀ v, found = some v → v.Apart g

theorem getLocal (e : ScopeRef) (name : String) :
    Discreet W (FoundApart W.globals) (getLocal e name) := by
  refine heap.bind fun h hh => ?_
  dsimp only
  split
  · exact (readCell name).bind fun v hv => .done fun a ha => Option.some.inj ha ▸ hv
  · exact .done fun a ha => (hh.bindings e).of_get? ha

theorem get (e : ScopeRef) (name : String) : Discreet W (FoundApart W.globals) (get e name) := by
  refine heap.bind fun h _ => ?_
  split
  · exact getLocal _ name
  · exact .done fun a ha => by cases ha

theorem print (s : String) : Discreet W Whatever (print s) :=
  modify fun _ => ⟨rfl, rfl, rfl, rfl⟩

theorem draw (bound : Nat) : Discreet W Whatever (draw bound) :=
  ⟨fun _ hw => ⟨hw.congr rfl rfl rfl rfl, trivial⟩⟩

theorem isFreed : Discreet W Whatever isFreed :=
  ⟨fun _ hw => ⟨hw.congr rfl rfl rfl rfl, trivial⟩⟩

/-! ### Tasks -/

theorem spawn {task : Value} (ht : task.Apart W.globals) : Discreet W Whatever (spawn task) := by
  refine Meets.bind (Q := Whatever) ⟨fun w hw => ?_⟩ fun _ _ => ⟨fun w hw => ?_⟩
  · exact ⟨hw.note (fun _ _ _ _ h => nomatch h), trivial⟩
  · exact ⟨⟨{ hw.accounted with tasks := hw.accounted.tasks.append (.cons ht .nil) },
      hw.waiting⟩, trivial⟩

theorem nextTask : Discreet W (FoundApart W.globals) nextTask := by
  refine ⟨fun w hw => ?_⟩
  have hall := hw.accounted.tasks
  cases htasks : w.tasks with
  | nil =>
    have hrun : Run.nextTask w = .done none w := by
      simp only [Run.nextTask, Bind.bind, andThen, Run.world, htasks]
      rfl
    rw [hrun]
    exact ⟨hw, fun task ht => by cases ht⟩
  | cons task rest =>
    have hrun : Run.nextTask w = .done (some task)
        { w with journal := .started task :: w.journal, tasks := rest } := by
      simp only [Run.nextTask, Bind.bind, andThen, Run.world, htasks]
      rfl
    rw [htasks] at hall
    obtain ⟨hfirst, hrest⟩ := List.forall_mem_cons.mp hall
    have hnote : W.Open { w with journal := .started task :: w.journal } :=
      hw.note fun _ _ _ _ h => by cases h
    rw [hrun]
    exact ⟨⟨{ hnote.accounted with tasks := hrest }, hnote.waiting⟩,
      fun v hv => Option.some.inj hv ▸ hfirst⟩

/-! ### Operators -/

theorem illegal (operand : Value) : Discreet W Q (Operators.illegal operand) :=
  (display operand).bind fun _ _ => raise _

theorem concatenated (a b : Value) :
    Discreet W (Value.Apart W.globals) (Operators.concatenated a b) :=
  (display a).bind fun _ _ => (display b).bind fun _ _ => newText _

theorem numberWith (op : Arithmetic) (x : Single) (a b : Value) :
    Discreet W (Value.Apart W.globals) (Operators.numberWith op x a b) := by
  unfold Operators.numberWith
  split
  · exact (ofFault _).bind fun _ _ => newNumber _
  · exact concatenated _ _
  · exact illegal _

theorem listWith (op : Arithmetic) (l : ListRef) {b : Value} (hb : b.Apart W.globals) :
    Discreet W (Value.Apart W.globals) (Operators.listWith op l b) := by
  refine heap.bind fun h hh => ?_
  dsimp only
  split
  · refine heap.bind fun k hk => newList ?_
    rw [Array.toList_append]
    exact ValuesApart.append (hh.items l) (hk.items _)
  · exact newList (ValuesApart.push (hh.items l) hb)
  · exact newList (ValuesApart.push (hh.items l) hb)
  · exact illegal _

/-! ### Methods -/

theorem indexArg (function : String) (v : Value) :
    Discreet W Whatever (Methods.indexArg function v) := by
  unfold Methods.indexArg
  split
  · exact .done trivial
  · exact (display v).bind fun _ _ => raise _

theorem checkedIndex (index : Int) (length : Nat) :
    Discreet W Whatever (Methods.checkedIndex index length) := by
  unfold Methods.checkedIndex
  split
  · exact raise _
  · exact .done trivial

theorem textMethod (m : TextMethod) (s : String) (args : List Value) :
    Discreet W (Value.Apart W.globals) (Methods.textMethod m s args) := by
  unfold Methods.textMethod
  dsimp only
  split
  · exact (display _).bind fun _ _ => newBool _
  · exact (display _).bind fun _ _ => newTexts _
  · exact (indexArg _ _).bind fun _ _ => (checkedIndex _ _).bind fun _ _ => newText _
  · exact newTexts _
  · exact (indexArg _ _).bind fun _ _ => (indexArg _ _).bind fun _ _ =>
      (ofFault _).bind fun _ _ => newText _
  · exact newText _
  · exact newText _
  · exact newText _
  · exact (display _).bind fun _ _ => (display _).bind fun _ _ => newText _
  · exact (display _).bind fun _ _ => newBool _
  · exact (display _).bind fun _ _ => newBool _
  · exact (display _).bind fun _ _ => newBool _
  · exact .done trivial

theorem modifyList (l : ListRef) {f : Array Value → Array Value} {v : Value}
    (hv : v.Apart W.globals)
    (hf : ∀ items : Array Value, ∀ a ∈ (f items).toList, a ∈ items.toList ∨ a = v) :
    Discreet W Whatever (Run.modifyHeap (·.modifyList l f)) := by
  refine modifyHeap fun h hh => ⟨hh.modifyList fun a ha => ?_, .of_scope rfl⟩
  rcases hf _ a ha with hm | rfl
  · exact hh.items l a hm
  · exact hv

theorem removeItems (l : ListRef) {f : Array Value → Array Value}
    (hf : ∀ items : Array Value, ∀ a ∈ (f items).toList, a ∈ items.toList) :
    Discreet W Whatever (Run.modifyHeap (·.modifyList l f)) :=
  modifyList (v := .null) l trivial fun items a ha => .inl (hf items a ha)

theorem keepFiles (result : Except FileError FileTree) :
    Discreet W Whatever (Methods.keepFiles result) := by
  unfold Methods.keepFiles
  split
  · exact .bind (modify fun _ => ⟨rfl, rfl, rfl, rfl⟩) fun _ _ => .done trivial
  · exact .done trivial

theorem fileMethod (m : FileMethod) (path : String) (args : List Value) :
    Discreet W (Value.Apart W.globals) (Methods.fileMethod m path args) := by
  refine world.bind fun w _ => ?_
  dsimp only
  split
  · exact (keepFiles _).bind fun _ _ => newBool _
  · exact .bind (.discard (keepFiles _)) fun _ _ => .done trivial
  · exact .bind (.discard (keepFiles _)) fun _ _ => .done trivial
  · exact newBool _
  · split
    · exact newTexts _
    · exact newBool _
  · exact heap.bind fun _ _ => (keepFiles _).bind fun _ _ => newBool _
  · exact (display _).bind fun _ _ => raise _
  · exact .done trivial

theorem bound {methods : List Native}
    (hm : ∀ n ∈ methods, ∀ stamp, (Value.native stamp n).Apart W.globals) :
    Discreet W (EntriesApart W.globals) (Methods.bound methods) :=
  .mapAll fun n hn => (newNative (hm n hn)).bind fun _ hv => .done hv

/-- Methods of a value are not constructors. -/
theorem boundMethods {γ : Type} (methods : List γ) {f : γ → Native}
    (hf : ∀ m stamp, (Value.native stamp (f m)).Apart W.globals) :
    Discreet W (EntriesApart W.globals) (Methods.bound (methods.map f)) := by
  refine bound fun n hn => ?_
  obtain ⟨m, -, rfl⟩ := List.mem_map.mp hn
  exact hf m

theorem methodScope {γ : Type} (name : String) (methods : List γ) {f : γ → Native}
    (hf : ∀ m stamp, (Value.native stamp (f m)).Apart W.globals) :
    Discreet W (· ≠ W.globals) (Methods.methodScope name (methods.map f)) :=
  (boundMethods methods hf).bind fun _ he => newScope (EntriesApart.nil.insertAll he)

theorem memberScope (v : Value) : Discreet W Whatever (Methods.memberScope v) := by
  unfold Methods.memberScope
  split
  · exact .done trivial
  · refine .bind (methodScope _ _ fun _ _ => ?_) fun e he => (newNumber _).bind fun _ hv =>
      (define (Watch.unwatched_of_ne he) _ hv).bind fun _ _ => .done trivial
    trivial
  · refine .weaken (methodScope _ _ fun _ _ => ?_) (fun _ hj => hj) fun _ _ => trivial
    trivial
  · exact (newScope .nil).weaken (fun _ hj => hj) fun _ _ => trivial

/-! ### Instances -/

theorem checkArity (name : String) (params : List String) (args : List Value) :
    Discreet W Whatever (Evaluation.checkArity name params args) := by
  unfold Evaluation.checkArity
  split
  · exact .done trivial
  · exact raise _

/-- An instance is a new scope, so that the constructor of its parent is not one of the globals. -/
theorem openInstance (c : Class) {args : List Value} (ha : ValuesApart W.globals args)
    (e : ScopeRef) : Discreet W (· ≠ W.globals) (Evaluation.openInstance c args e) := by
  refine (newScope .nil).bind fun scope hscope => ?_
  have hfree := Watch.unwatched_of_ne hscope
  have hparams : ∀ _ : Unit, Discreet W (· ≠ W.globals)
      (Run.modifyHeap (·.modifyScope scope (·.defineAll (c.params.zip args))) >>= fun _ =>
        pure scope) :=
    fun _ => (defineAll hfree (.zip ha)).bind fun _ _ => .done hscope
  refine (define (v := .cls c) hfree _ trivial).bind fun _ _ => ?_
  split
  · refine .bind (newNative fun _ => ?_) fun _ hv => (define hfree _ hv).bind fun _ _ =>
      hparams ()
    exact hscope
  · exact hparams ()

theorem adopt (c : Class) {scope : ScopeRef} (hs : W.Unwatched scope) (parentScope : ScopeRef) :
    Discreet W Whatever (Evaluation.adopt c scope parentScope) :=
  (define (v := .cls c) hs _ trivial).bind fun _ _ =>
    define (v := .instance_ parentScope) hs _ trivial

/-! ### Functions that are not written in the language -/

theorem numberArg (function : String) (v : Value) :
    Discreet W Whatever (Builtins.numberArg function v) := by
  unfold Builtins.numberArg
  split
  · exact .done trivial
  · exact (display v).bind fun _ _ => raise _

theorem randomBetween (low high : Single) :
    Discreet W Whatever (Builtins.randomBetween low high) := by
  unfold Builtins.randomBetween
  dsimp only
  split
  · exact .done trivial
  · exact (draw _).bind fun _ _ => .done trivial

theorem readLine : Discreet W Whatever Builtins.readLine := by
  refine (print _).bind fun _ _ => world.bind fun w _ => ?_
  dsimp only
  refine .bind (modify fun _ => ⟨rfl, rfl, rfl, rfl⟩) fun _ _ => ?_
  split
  · exact .done trivial
  · exact raise _

theorem programText (v : Value) : Discreet W Whatever (Builtins.programText v) := by
  refine heap.bind fun h _ => ?_
  split
  · exact .done trivial
  · exact .done trivial
  · exact raise _

/-! ### Loops and names -/

theorem loopResult (braced : Bool) {results : Array Value}
    (hr : ValuesApart W.globals results.toList) :
    Discreet W (Value.Apart W.globals) (Evaluation.loopResult braced results) := by
  unfold Evaluation.loopResult
  split
  · exact .done trivial
  · exact newList hr

theorem evalRead (name : String) (pos : Position) (e : ScopeRef) :
    Discreet W (Value.Apart W.globals) (Evaluation.evalRead name pos e) := by
  refine (get e name).bind fun found hfound => ?_
  split
  · exact fail _
  · exact fail _
  · exact .done (hfound _ rfl)

theorem lookupClass (name : String) (pos : Position) (e : ScopeRef) :
    Discreet W Whatever (Evaluation.lookupClass name pos e) := by
  refine (get e name).bind fun found _ => ?_
  split
  · exact .done trivial
  · exact fail _
  · exact fail _
  · exact fail _

end Run.Discreet

end ScriptEngine
