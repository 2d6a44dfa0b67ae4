import ScriptEngine.Proofs.RegimeOfRuns

/-! # Evaluation in a regime

Every rule of evaluation stays in the regime. A rule refers to the machine in three ways: it
evaluates a child of its node with the room that it was given, it evaluates the body of a definition
or calls a value inside a frame, so with less room, and it evaluates whole sources, which only the
free regime knows. -/

namespace ScriptEngine

/-! ### What a rule may ask of the machine -/

/-- The machine evaluates the node in every scope. -/
def Machine.Runs (self : Machine) (R : Regime) (r : Nat) (J : JumpKind → Prop) (node : Node) :
    Prop :=
  ∀ e, Run.Keeps R r J R.Admits (self.evaluate node e)

/-- The machine calls values; no jump leaves a call. -/
def Machine.Calls (self : Machine) (R : Regime) (r : Nat) : Prop :=
  ∀ J callee args e, R.Admits callee → R.AdmitsAll args →
    Run.Keeps R r J R.Admits (self.call callee args e)

/-- The kinds of jumps that can leave the body of a definition. -/
def Regime.leaves (R : Regime) (k : JumpKind) : Prop :=
  R = .tame → k = .return_

structure Machine.Serves (m : Machine) (R : Regime) (r : Nat) : Prop where
  body : ∀ s < r, ∀ body, R.Definition body → m.Runs R s R.leaves body
  call : ∀ s < r, m.Calls R s
  load : R = .free → ∀ s node, m.Runs R s (fun _ => True) node
  host : R = .free → ∀ s J key args e, Run.Keeps R s J R.Admits (m.host key args e)

theorem Machine.Serves.mono {self : Machine} {R : Regime} {r s : Nat} (h : self.Serves R r)
    (hs : s ≤ r) : self.Serves R s where
  body t ht := h.body t (Nat.lt_of_lt_of_le ht hs)
  call t ht := h.call t (Nat.lt_of_lt_of_le ht hs)
  load := h.load
  host := h.host

namespace Run.Keeps

variable {R : Regime} {r : Nat} {J : JumpKind → Prop} {α : Type} {Q : α → Prop}
  {self : Machine}

/-! ### Operators -/

theorem ofFault {result : Except Fault α}
    (hf : ∀ fault, result = .error fault → fault.isLoopControl = false) :
    Keeps R r J Whatever (Operators.ofFault result) := by
  cases result with
  | ok a => exact .done trivial
  | error fault => exact raise (hf fault rfl)

theorem illegal (operand : Value) : Keeps R r J Q (Operators.illegal operand) :=
  (display operand).bind fun _ _ => raise rfl

theorem concatenated (a b : Value) : Keeps R r J R.Admits (Operators.concatenated a b) :=
  (display a).bind fun _ _ => (display b).bind fun _ _ => newText _

theorem numberArithmetic (op : Arithmetic) (x y : Single) :
    Keeps R r J Whatever (Operators.ofFault (Operators.numberArithmetic op x y)) := by
  refine ofFault fun fault hf => ?_
  cases op with
  | div =>
    simp only [Operators.numberArithmetic] at hf
    split at hf <;> cases hf
    rfl
  | _ => cases hf

theorem numberWith (op : Arithmetic) (x : Single) (a b : Value) :
    Keeps R r J R.Admits (Operators.numberWith op x a b) := by
  unfold Operators.numberWith
  split
  · exact (numberArithmetic _ x _).bind fun _ _ => newNumber _
  · exact concatenated _ _
  · exact illegal _

theorem listWith (op : Arithmetic) (l : ListRef) {b : Value} (hb : R.Admits b) :
    Keeps R r J R.Admits (Operators.listWith op l b) := by
  refine heap.bind fun h hh => ?_
  dsimp only
  split
  · refine heap.bind fun g hg => newList ?_
    rw [Array.toList_append]
    exact (hh.items l).append (hg.items _)
  · exact newList ((hh.items l).push hb)
  · exact newList ((hh.items l).push hb)
  · exact illegal _

theorem overload_admits {h : Heap} (hh : R.AdmitsHeap h) {e : ScopeRef} {op : Arithmetic}
    {method : Value} (hm : Operators.overload? h e op = some method) : R.Admits method := by
  have hname : R.hides (Operators.overloadName op) = false := by
    cases R <;> cases op <;> rfl
  exact (hh.bindings e).of_get? hname (Option.filter_eq_some_iff.mp hm).1

theorem arithmetic (hc : self.Calls R r) (op : Arithmetic) {a b : Value} (hb : R.Admits b) :
    Keeps R r J R.Admits (Operators.arithmetic self op a b) := by
  unfold Operators.arithmetic
  split
  · exact numberWith op _ _ b
  · exact numberWith op _ _ b
  · exact listWith op _ hb
  · refine heap.bind fun h hh => ?_
    split
    · rename_i hm
      exact hc J _ _ _ (overload_admits hh hm) (.cons hb .nil)
    · exact concatenated _ _
    · exact illegal _
  · split
    · exact concatenated _ _
    · exact illegal _

theorem equals (h : Heap) (a b : Value) :
    Keeps R r J Whatever (Operators.ofFault (Operators.equals h a b)) := by
  refine ofFault fun fault hf => ?_
  unfold Operators.equals at hf
  split at hf
  · cases hf
  · cases hf
    rfl
  · split at hf <;> cases hf

theorem numbers (h : Heap) (a b : Value) :
    Keeps R r J Whatever (Operators.ofFault (Operators.numbers h a b)) := by
  refine ofFault fun fault hf => ?_
  unfold Operators.numbers at hf
  split at hf <;> cases hf <;> rfl

theorem binary (hc : self.Calls R r) (op : BinaryOp) {a b : Value} (hb : R.Admits b) :
    Keeps R r J R.Admits (Operators.binary self op a b) := by
  unfold Operators.binary
  split
  · exact arithmetic hc _ hb
  · exact heap.bind fun h _ => (equals h a b).bind fun _ _ => newBool _
  · exact heap.bind fun h _ => (equals h a b).bind fun _ _ => newBool _
  · exact heap.bind fun h _ => (numbers h a b).bind fun _ _ => newBool _

theorem unary (hc : self.Calls R r) (op : UnaryOp) {a : Value} (ha : R.Admits a) :
    Keeps R r J R.Admits (Operators.unary self op a) := by
  unfold Operators.unary
  split
  · exact .done ha
  · refine heap.bind fun h _ => ?_
    split
    · exact (newNumber _).bind fun _ hn => arithmetic hc _ hn
    · exact illegal a
  · exact (isTruthy a).bind fun _ _ => newBool _

/-! ### Methods -/

theorem indexArg (function : String) (v : Value) :
    Keeps R r J Whatever (Methods.indexArg function v) := by
  unfold Methods.indexArg
  split
  · exact .done trivial
  · exact (display v).bind fun _ _ => raise rfl

theorem checkedIndex (index : Int) (length : Nat) :
    Keeps R r J Whatever (Methods.checkedIndex index length) := by
  unfold Methods.checkedIndex
  split
  · exact raise rfl
  · exact .done trivial

theorem substring (cs : List Char) (start stop : Int) :
    Keeps R r J Whatever (Operators.ofFault (Methods.substring cs start stop)) := by
  refine ofFault fun fault hf => ?_
  unfold Methods.substring at hf
  split at hf
  · cases hf
    rfl
  · split at hf <;> cases hf
    rfl

theorem textMethod (m : TextMethod) (s : String) (args : List Value) :
    Keeps R r J R.Admits (Methods.textMethod m s args) := by
  unfold Methods.textMethod
  dsimp only
  split
  · exact (display _).bind fun _ _ => newBool _
  · exact (display _).bind fun _ _ => newTexts _
  · exact (indexArg _ _).bind fun _ _ => (checkedIndex _ _).bind fun _ _ => newText _
  · exact newTexts _
  · exact (indexArg _ _).bind fun _ _ => (indexArg _ _).bind fun _ _ =>
      (substring _ _ _).bind fun _ _ => newText _
  · exact newText _
  · exact newText _
  · exact newText _
  · exact (display _).bind fun _ _ => (display _).bind fun _ _ => newText _
  · exact (display _).bind fun _ _ => newBool _
  · exact (display _).bind fun _ _ => newBool _
  · exact (display _).bind fun _ _ => newBool _
  · exact .done trivial

theorem mapItems (hR : R.isBounded = false) {call : Value → Run Value}
    (hc : ∀ v, R.Admits v → Keeps R r J R.Admits (call v)) (l : ListRef) (rounds i : Nat)
    {results : Array Value} (hr : R.AdmitsAll results.toList) :
    Keeps R r J (fun vs => R.AdmitsAll vs.toList)
      (Methods.mapItems call l rounds i results) := by
  induction rounds generalizing i results with
  | zero => exact .exhausted hR
  | succ rounds ih =>
    refine heap.bind fun h hh => ?_
    split
    · exact .done hr
    · rename_i item hi
      have hitem := hh.items l item (Array.mem_toList_iff.mpr (Array.mem_of_getElem? hi))
      exact (hc item hitem).bind fun v hv => ih (i + 1) (hr.push hv)

theorem modifyList (l : ListRef) {f : Array Value → Array Value} {v : Value} (hv : R.Admits v)
    (hf : ∀ items : Array Value, ∀ a ∈ (f items).toList, a ∈ items.toList ∨ a = v) :
    Keeps R r J Whatever (Run.modifyHeap (·.modifyList l f)) := by
  refine modifyHeap fun h hh => hh.modifyList fun a ha => ?_
  rcases hf _ a ha with hm | rfl
  · exact hh.items l a hm
  · exact hv

theorem removeItems (l : ListRef) {f : Array Value → Array Value}
    (hf : ∀ items : Array Value, ∀ a ∈ (f items).toList, a ∈ items.toList) :
    Keeps R r J Whatever (Run.modifyHeap (·.modifyList l f)) :=
  modifyHeap fun _ hh => hh.modifyList fun a ha => hh.items l a (hf _ a ha)

theorem listMethod (hs : self.Calls R r) (m : ListMethod) (l : ListRef)
    (hm : R.OfNative (.listMethod m l)) {args : List Value} (ha : R.AdmitsAll args)
    (scope : ScopeRef) : Keeps R r J R.Admits (Methods.listMethod self m l args scope) := by
  unfold Methods.listMethod
  split
  · have hv := ha _ List.mem_cons_self
    refine (modifyList l hv fun items a hm => ?_).bind fun _ _ => .done hv
    rw [Array.toList_push] at hm
    exact (List.mem_append.mp hm).imp_right List.mem_singleton.mp
  · refine (indexArg _ _).bind fun _ _ => heap.bind fun h hh => ?_
    exact (checkedIndex _ _).bind fun i _ => .done ((hh.items l).getD i)
  · have hv := ha _ (List.mem_cons_of_mem _ List.mem_cons_self)
    refine (indexArg _ _).bind fun _ _ => heap.bind fun _ _ => (checkedIndex _ _).bind fun i _ => ?_
    refine (modifyList l hv fun items a hm => ?_).bind fun _ _ => .done hv
    rw [Array.toList_setIfInBounds] at hm
    exact List.mem_or_eq_of_mem_set hm
  · have hv := ha _ (List.mem_cons_of_mem _ List.mem_cons_self)
    refine (indexArg _ _).bind fun _ _ => heap.bind fun _ _ => (checkedIndex _ _).bind fun i _ => ?_
    refine (modifyList l hv fun items a hm => ?_).bind fun _ _ => .done hv
    by_cases hle : i ≤ items.size
    · rw [Array.insertIdxIfInBounds, dif_pos hle, Array.toList_insertIdx] at hm
      exact ((List.mem_insertIdx (by simpa using hle)).mp hm).symm
    · rw [Array.insertIdxIfInBounds, dif_neg hle] at hm
      exact .inl hm
  · refine (indexArg _ _).bind fun _ _ => heap.bind fun h hh => ?_
    refine (checkedIndex _ _).bind fun i _ => ?_
    refine (removeItems l fun items a hm => ?_).bind fun _ _ => .done ((hh.items l).getD i)
    rw [Array.toList_eraseIdxIfInBounds] at hm
    exact List.mem_of_mem_eraseIdx hm
  · refine heap.bind fun h hh => ?_
    split
    · exact raise rfl
    · rename_i last hlast
      refine (removeItems l fun items a hm => ?_).bind fun _ _ => .done ?_
      · rw [Array.toList_pop] at hm
        exact List.dropLast_subset _ hm
      · exact hh.items l last (Array.mem_toList_iff.mpr (Array.mem_of_back? hlast))
  · exact heap.bind fun _ _ => newText _
  · refine heap.bind fun h _ => ?_
    split
    · exact newNumber _
    · exact newNumber _
  · refine (removeItems l fun _ a hm => ?_).bind fun _ _ => .done trivial
    cases hm
  · have hf := ha _ List.mem_cons_self
    split
    · refine (mapItems (hm rfl) (fun v hv => ?_) l _ 0 .nil).bind fun _ hvs => newList hvs
      exact hs J _ _ scope hf (.cons hv .nil)
    · exact (display _).bind fun _ _ => raise rfl
  · exact heap.bind fun _ _ => newNumber _
  · exact .done trivial

theorem keepFiles (result : Except FileError FileTree) :
    Keeps R r J Whatever (Methods.keepFiles result) := by
  unfold Methods.keepFiles
  split
  · exact .bind (modify fun _ => ⟨rfl, rfl, rfl, rfl⟩) fun _ _ => .done trivial
  · exact .done trivial

theorem fileMethod (m : FileMethod) (path : String) (args : List Value) :
    Keeps R r J R.Admits (Methods.fileMethod m path args) := by
  refine world.bind fun w _ => ?_
  dsimp only
  split
  · exact (keepFiles _).bind fun _ _ => newBool _
  · exact .bind (.discard (keepFiles _)) fun _ _ => .done trivial
  · exact .bind (.discard (keepFiles _)) fun _ _ => .done trivial
  · exact newBool _
  · split
    · exact newTexts _
    · exact newBool _
  · exact heap.bind fun _ _ => (keepFiles _).bind fun _ _ => newBool _
  · exact (display _).bind fun _ _ => raise rfl
  · exact .done trivial

theorem bound {methods : List Native}
    (hm : ∀ n ∈ methods, R.hides n.name = false → R.OfNative n) :
    Keeps R r J R.AdmitsEntries (Methods.bound methods) :=
  .mapAll fun n hn => (newNative n).bind fun _ hv => .done fun hname => hv (hm n hn hname)

theorem methodScope (name : String) {methods : List Native}
    (hm : ∀ n ∈ methods, R.hides n.name = false → R.OfNative n) :
    Keeps R r J Whatever (Methods.methodScope name methods) :=
  (bound hm).bind fun _ he => newScope (Regime.AdmitsEntries.nil.insertAll he)

/-- A bounded regime does not admit `foreach`, which no program mentions there. -/
theorem ofNative_listMethod (m : ListMethod) (l : ListRef)
    (hn : R.hides (Native.listMethod m l).name = false) : R.OfNative (.listMethod m l) := by
  rintro rfl
  cases R with
  | free => rfl
  | tame => rfl
  | bounded size => cases hn

theorem memberScope (v : Value) : Keeps R r J Whatever (Methods.memberScope v) := by
  unfold Methods.memberScope
  split
  · exact .done trivial
  · refine (methodScope _ fun n hn _ => ?_).bind fun e _ => (newNumber _).bind fun _ hv =>
      (define e _ hv).bind fun _ _ => .done trivial
    obtain ⟨m, _, rfl⟩ := List.mem_map.mp hn
    trivial
  · refine methodScope _ fun n hn hname => ?_
    obtain ⟨m, _, rfl⟩ := List.mem_map.mp hn
    exact ofNative_listMethod m _ hname
  · exact newScope .nil

/-! ### Programs -/

theorem runStatements (e : ScopeRef) {statements : List Node}
    (hs : ∀ node ∈ statements, self.Runs R r R.leaves node) {last : Value}
    (hl : R.Admits last) :
    Keeps R r J R.Admits (Evaluation.runStatements self e statements last) := by
  induction statements generalizing last with
  | nil => exact .done hl
  | cons statement more ih =>
    obtain ⟨hfirst, hrest⟩ := List.forall_mem_cons.mp hs
    refine (catchJump (hfirst e)).bind fun result hresult => ?_
    split
    · exact ih hrest hresult
    · exact .done hresult.1
    · exact .fail fun hR => by cases hresult.2 hR
    · exact .fail fun hR => by cases hresult.2 hR

theorem runProgram (root : Node) (e : ScopeRef)
    (hs : ∀ node ∈ root.statements, self.Runs R r R.leaves node) :
    Keeps R r J R.Admits (Evaluation.runProgram self root e) := by
  have hnull : R.Admits .null := trivial
  cases root with
  | sequence pos statements => exact runStatements e hs hnull
  | _ => exact runStatements e hs hnull

/-- Only the free regime loads sources. -/
theorem runSource (hR : R = .free) (hs : self.Serves R r) (source : String) (e : ScopeRef)
    (name : Option String) :
    Keeps R r J R.Admits (Evaluation.runSource self source e name) := by
  have htame := Regime.ne_tame_of_free hR
  refine (ofExcept (Q := Whatever) htame fun _ _ => trivial).bind fun root _ => ?_
  refine runProgram root e fun node _ e => (hs.load hR r node e).jumps fun k _ h => ?_
  exact absurd h htame

/-! ### Instances -/

theorem checkArity (name : String) (params : List String) (args : List Value) :
    Keeps R r J Whatever (Evaluation.checkArity name params args) := by
  unfold Evaluation.checkArity
  split
  · exact .done trivial
  · exact raise rfl

theorem openInstance {c : Class} (hc : R.OfClass c) {args : List Value} (ha : R.AdmitsAll args)
    (e : ScopeRef) : Keeps R r J Whatever (Evaluation.openInstance c args e) := by
  have hcls : R.Admits (.cls c) := hc
  refine (newScope .nil).bind fun scope _ => (define scope _ hcls).bind fun _ _ => ?_
  have hparams : ∀ _ : Unit, Keeps R r J Whatever
      (Run.modifyHeap (·.modifyScope scope (·.defineAll (c.params.zip args))) >>= fun _ =>
        pure scope) :=
    fun _ => (defineAll scope (.zip ha)).bind fun _ _ => .done trivial
  split
  · rename_i parent hp
    exact (newNative _).bind fun _ hv => (define scope _ (hv ⟨hc.parent hp, hc⟩)).bind
      fun _ _ => hparams ()
  · exact hparams ()

theorem runBody {c : Class} (hb : ∀ body, c.body = .script body → self.Runs R r R.leaves body)
    (args : List Value) (scope : ScopeRef) :
    Keeps R r J Whatever (Evaluation.runBody self c args scope) := by
  unfold Evaluation.runBody
  split
  · exact .done trivial
  · refine (display _).bind fun path _ => (bound fun n hn _ => ?_).bind fun _ he =>
      defineAll scope he
    obtain ⟨m, _, rfl⟩ := List.mem_map.mp hn
    trivial
  · rename_i body hbody
    refine (catchJump (hb body hbody scope)).bind fun result hresult => ?_
    split
    · exact .done trivial
    · exact .done trivial
    · exact .fail fun hR => by cases hresult.2 hR
    · exact .fail fun hR => by cases hresult.2 hR

theorem adopt {c : Class} (hc : R.OfClass c) (scope parentScope : ScopeRef) :
    Keeps R r J Whatever (Evaluation.adopt c scope parentScope) := by
  have hcls : R.Admits (.cls c) := hc
  exact (define scope _ hcls).bind fun _ _ => define (v := .instance_ parentScope) scope _ trivial

theorem implicitParent {build : List Value → ScopeRef → Run ScopeRef}
    (hb : ∀ args e, R.AdmitsAll args → Keeps R r J Whatever (build args e)) {c : Class}
    (hc : R.OfClass c) (parent : Class) {args : List Value} (ha : R.AdmitsAll args)
    (scope : ScopeRef) :
    Keeps R r J Whatever (Evaluation.implicitParent build c parent args scope) := by
  refine heap.bind fun h _ => ?_
  split
  · split
    · exact (hb args scope ha).bind fun parentScope _ =>
        (modifyHeap fun _ hh => hh.mergeMissing scope parentScope).bind fun _ _ => adopt hc _ _
    · exact remove _ _
  · exact .done trivial

/-- Each ancestor is built inside the frame of its child. -/
theorem instantiate (c : Class) {r : Nat} {J : JumpKind → Prop} (hs : self.Serves R r)
    (hc : R.OfClass c) {args : List Value} (ha : R.AdmitsAll args) (e : ScopeRef) :
    Keeps R r J Whatever (Evaluation.instantiate self c args e) := by
  obtain ⟨stamp, name, params, body, parent⟩ := c
  have hbody : ∀ s < r, ∀ node, body = .script node → self.Runs R s R.leaves node := by
    rintro s hlt node rfl
    exact hs.body s hlt node hc.body
  cases parent with
  | none =>
    refine (checkArity _ _ args).bind fun _ _ => withFrame fun s hlt => ?_
    exact (openInstance hc ha e).bind fun scope _ =>
      (runBody (hbody s hlt) args scope).bind fun _ _ => .done trivial
  | some parent =>
    refine (checkArity _ _ args).bind fun _ _ => withFrame fun s hlt => ?_
    refine (openInstance hc ha e).bind fun scope _ =>
      (runBody (hbody s hlt) args scope).bind fun _ _ => ?_
    refine (implicitParent (fun args e ha => ?_) hc parent ha scope).bind fun _ _ => .done trivial
    exact instantiate parent (hs.mono (Nat.le_of_lt hlt)) hc.2 ha e
termination_by structural c

theorem buildParent (hs : self.Serves R r) {parent child : Class} (hp : R.OfClass parent)
    (hc : R.OfClass child) (target : ScopeRef) {args : List Value} (ha : R.AdmitsAll args) :
    Keeps R r J R.Admits (Evaluation.buildParent self parent child target args) := by
  refine isFreed.bind fun freed _ => ?_
  split
  · exact raise rfl
  · exact (instantiate parent hs hp ha target).bind fun parentScope _ =>
      (modifyHeap fun _ hh => hh.mergeInto target parentScope).bind fun _ _ =>
        (adopt hc target parentScope).bind fun _ _ => .done trivial

/-! ### Inclusion -/

theorem runIncluded (hR : R = .free) (hs : self.Serves R r) (pos : Position) (path : String)
    (scope : ScopeRef) (sources : List IncludedSource) :
    Keeps R r J Whatever (Evaluation.runIncluded self pos path scope sources) := by
  induction sources with
  | nil => exact .done trivial
  | cons source more ih =>
    refine (modifyHeap fun _ hh => hh.modifyScope (hh.bindings scope)).bind fun _ _ => ?_
    exact .bind (.discard (during _ (runSource hR hs source.text scope _))) fun _ _ => ih

theorem includePath (hR : R = .free) (hs : self.Serves R r) (pos : Position) (path : String)
    (e : ScopeRef) : Keeps R r J R.Admits (Evaluation.includePath self pos path e) := by
  have htame := Regime.ne_tame_of_free hR
  refine world.bind fun w _ =>
    (locatedAt pos (ofExcept (Q := Whatever) htame fun _ _ => trivial)).bind fun sources _ => ?_
  refine (newScope .nil).bind fun scope _ =>
    (runIncluded hR hs pos path scope sources).bind fun _ _ => (storage e).bind fun target _ => ?_
  exact (modifyHeap fun _ hh => hh.mergeInto target scope).bind fun _ _ => .done trivial

/-! ### Functions that are not written in the language -/

theorem numberArg (function : String) (v : Value) :
    Keeps R r J Whatever (Builtins.numberArg function v) := by
  unfold Builtins.numberArg
  split
  · exact .done trivial
  · exact (display v).bind fun _ _ => raise rfl

theorem randomBetween (low high : Single) :
    Keeps R r J Whatever (Builtins.randomBetween low high) := by
  unfold Builtins.randomBetween
  dsimp only
  split
  · exact .done trivial
  · exact (draw _).bind fun _ _ => .done trivial

theorem readLine : Keeps R r J Whatever Builtins.readLine := by
  refine (print _).bind fun _ _ => world.bind fun w _ => ?_
  dsimp only
  refine .bind (modify fun _ => ⟨rfl, rfl, rfl, rfl⟩) fun _ _ => ?_
  split
  · exact .done trivial
  · exact raise rfl

theorem programText (v : Value) : Keeps R r J Whatever (Builtins.programText v) := by
  refine heap.bind fun h _ => ?_
  split
  · exact .done trivial
  · exact .done trivial
  · exact raise rfl

theorem compute {b : Builtin} {xs : List Single} {result : Except Fault Single}
    (hc : Builtins.compute b xs = some result) :
    Keeps R r J Whatever (Operators.ofFault result) := by
  refine ofFault fun fault hf => ?_
  subst hf
  unfold Builtins.compute at hc
  split at hc <;> try cases hc
  split at hc <;> cases hc
  rfl

theorem builtin (hs : self.Serves R r) {b : Builtin} (hb : R.OfNative (.builtin b))
    {args : List Value} (ha : R.AdmitsAll args) (scope : ScopeRef) :
    Keeps R r J R.Admits (Builtins.run self b args scope) := by
  unfold Builtins.run
  split
  · exact (display _).bind fun _ _ => (print _).bind fun _ _ => .done trivial
  · exact (numberArg _ _).bind fun _ _ =>
      .bind (modify fun _ => ⟨rfl, rfl, rfl, rfl⟩) fun _ _ => .done trivial
  · exact (programText _).bind fun code _ => heap.bind fun h _ =>
      runSource (hb.2 rfl) hs code _ _
  · exact heap.bind fun _ _ => (remove _ _).bind fun _ _ => .done trivial
  · have hv := ha _ List.mem_cons_self
    split
    · exact (spawn hb.1 hv).bind fun _ _ => .done trivial
    · exact (spawn hb.1 hv).bind fun _ _ => .done trivial
    · exact (display _).bind fun _ _ => raise rfl
  · exact (draw _).bind fun _ _ => newNumber _
  · exact (numberArg _ _).bind fun _ _ => (numberArg _ _).bind fun _ _ =>
      (randomBetween _ _).bind fun _ _ => newNumber _
  · exact readLine.bind fun _ _ => newText _
  · refine readLine.bind fun line _ => ?_
    dsimp only
    split
    · exact newNumber _
    · exact raise rfl
  · refine (Meets.mapAll fun v _ => numberArg _ v).bind fun xs _ => ?_
    split
    · rename_i hc
      exact (compute hc).bind fun _ _ => newNumber _
    · exact .done trivial

theorem instantiateValue (hs : self.Serves R r) {v : Value} (hv : R.Admits v) {args : List Value}
    (ha : R.AdmitsAll args) (e : ScopeRef) :
    Keeps R r J Whatever (Builtins.instantiateValue self v args e) := by
  unfold Builtins.instantiateValue
  split
  · exact instantiate _ hs hv ha e
  · exact (display _).bind fun _ _ => raise rfl

/-- Functions of the host exist in the free regime only, where everything is admitted. -/
theorem runHost (hR : R = .free) (hs : self.Serves R r) (hc : self.Calls R r)
    (behavior : HostBehavior) (args : List Value) (scope : ScopeRef) :
    Keeps R r J R.Admits (Builtins.runHost self behavior args scope) := by
  have hall : ∀ v, R.Admits v := hR ▸ Regime.admits_free
  have hfail := Regime.ne_tame_of_free hR
  have hopen : R.isBounded = false := hR ▸ rfl
  unfold Builtins.runHost
  dsimp only
  split
  · exact newList fun v _ => hall v
  · exact .done (hall _)
  · exact .done trivial
  · exact newNumber _
  · exact .bind (modify fun _ => ⟨rfl, rfl, rfl, rfl⟩) fun _ _ => .done trivial
  · exact .fail fun h => absurd h hfail
  · exact newText _
  · exact (spawn hopen (hall _)).bind fun _ _ => world.bind fun _ _ => newNumber _
  · exact hc J _ _ scope (hall _) fun v _ => hall v
  · exact (instantiateValue hs (hall _) (fun v _ => hall v) scope).bind fun _ _ => .done trivial
  · exact heap.bind fun _ _ => newTexts _
  · refine heap.bind fun h _ => ?_
    split
    · exact newText _
    · exact .done trivial
  · exact hs.host hR r J _ args scope

/-! ### Calls -/

theorem callFunction (hs : self.Serves R r) {f : Lambda} (hf : R.Definition f.body)
    (closure : ScopeRef) {args : List Value} (ha : R.AdmitsAll args) :
    Keeps R r J R.Admits (Evaluation.callFunction self f closure args) := by
  refine (checkArity _ _ args).bind fun _ _ => (newFrame rfl f.params ha).bind fun scope _ => ?_
  have hbody : ∀ s < r, Keeps R s J (Caught R R.leaves)
      (Run.catchJump (self.evaluate f.body scope)) :=
    fun s hlt => catchJump (hs.body s hlt f.body hf scope)
  refine (withFrame hbody).bind fun result hresult => ?_
  split
  · refine .done ?_
    split
    · trivial
    · exact hresult
  · exact .done hresult.1
  · exact .fail fun hR => by cases hresult.2 hR
  · exact .fail fun hR => by cases hresult.2 hR

theorem runNative (hs : self.Serves R r) (hc : self.Calls R r) {n : Native} (hn : R.OfNative n)
    {args : List Value} (ha : R.AdmitsAll args) (scope : ScopeRef) :
    Keeps R r J R.Admits (Evaluation.runNative self n args scope) := by
  cases n with
  | builtin b => exact builtin hs hn ha scope
  | textMethod m receiver => exact textMethod m receiver args
  | listMethod m receiver => exact listMethod hc m receiver hn ha scope
  | fileMethod m path => exact fileMethod m path args
  | superCall parent child target => exact buildParent hs hn.1 hn.2 target ha
  | host name params behavior => exact runHost hn hs hc behavior args scope

theorem callNative (hs : self.Serves R r) {n : Native} (hn : R.OfNative n) {args : List Value}
    (ha : R.AdmitsAll args) (e : ScopeRef) :
    Keeps R r J R.Admits (Evaluation.callNative self n args e) := by
  refine (checkArity _ _ args).bind fun _ _ => (newFrame rfl n.params ha).bind fun scope _ => ?_
  refine withFrame fun s hlt => ?_
  exact runNative (hs.mono (Nat.le_of_lt hlt)) (hs.call s hlt) hn ha scope

theorem callValue (hs : self.Serves R r) {callee : Value} (hc : R.Admits callee)
    {args : List Value} (ha : R.AdmitsAll args) (e : ScopeRef) :
    Keeps R r J R.Admits (Evaluation.callValue self callee args e) := by
  unfold Evaluation.callValue
  split
  · exact callFunction hs hc _ ha
  · exact callNative hs hc ha e
  · exact (instantiate _ hs hc ha e).bind fun _ _ => .done trivial
  · exact .done hc

/-! ### Loops -/

theorem loopResult (braced : Bool) {results : Array Value} (hr : R.AdmitsAll results.toList) :
    Keeps R r J R.Admits (Evaluation.loopResult braced results) := by
  unfold Evaluation.loopResult
  split
  · exact .done trivial
  · exact newList hr

/-- The jumps of a body that its loop does not catch are those of the loop. -/
def Uncaught (J : JumpKind → Prop) (k : JumpKind) : Prop :=
  k = .return_ → J k

def OfRound (R : Regime) : Evaluation.Round → Prop
  | .value v => R.Admits v
  | .skipped => True
  | .last => True

theorem runRound {body : Run Value} (hb : Keeps R r (Uncaught J) R.Admits body) :
    Keeps R r J (OfRound R) (Evaluation.runRound body) := by
  refine (catchJump hb).bind fun result hresult => ?_
  split
  · exact .done hresult
  · exact .done trivial
  · exact .done trivial
  · rename_i j hcontinue hbreak
    cases j with
    | return_ v => exact jump hresult.1 (hresult.2 rfl)
    | break_ => exact absurd rfl hbreak
    | continue_ => exact absurd rfl hcontinue

theorem countRounds (hR : R.isBounded = false) {body : Single → Run Value}
    (hb : ∀ i, Keeps R r (Uncaught J) R.Admits (body i)) (range : Evaluation.Range)
    (rounds : Nat) (i : Single) {results : Array Value} (hr : R.AdmitsAll results.toList) :
    Keeps R r J (fun vs => R.AdmitsAll vs.toList)
      (Evaluation.countRounds body range rounds i results) := by
  induction rounds generalizing i results with
  | zero => exact .exhausted hR
  | succ rounds ih =>
    unfold Evaluation.countRounds
    split
    · refine (runRound (hb i)).bind fun round hround => ?_
      split
      · exact ih _ (hr.push hround)
      · exact ih _ hr
      · exact .done hr
    · exact .done hr

theorem eachRounds (hR : R.isBounded = false) {body : Value → Run Value}
    (hb : ∀ v, R.Admits v → Keeps R r (Uncaught J) R.Admits (body v)) (l : ListRef)
    (rounds i : Nat) {results : Array Value} (hr : R.AdmitsAll results.toList) :
    Keeps R r J (fun vs => R.AdmitsAll vs.toList)
      (Evaluation.eachRounds body l rounds i results) := by
  induction rounds generalizing i results with
  | zero => exact .exhausted hR
  | succ rounds ih =>
    refine heap.bind fun h hh => ?_
    split
    · exact .done hr
    · rename_i item hi
      have hitem := hh.items l item (Array.mem_toList_iff.mpr (Array.mem_of_getElem? hi))
      refine (runRound (hb item hitem)).bind fun round hround => ?_
      split
      · exact ih _ (hr.push hround)
      · exact ih _ hr
      · exact .done hr

theorem whileRounds (hR : R.isBounded = false) {condition body : Run Value}
    (hc : Keeps R r J R.Admits condition) (hb : Keeps R r (Uncaught J) R.Admits body)
    (rounds : Nat) {results : Array Value} (hr : R.AdmitsAll results.toList) :
    Keeps R r J (fun vs => R.AdmitsAll vs.toList)
      (Evaluation.whileRounds condition body rounds results) := by
  induction rounds generalizing results with
  | zero => exact .exhausted hR
  | succ rounds ih =>
    refine hc.bind fun value _ => (isTruthy value).bind fun truthy _ => ?_
    split
    · refine (runRound hb).bind fun round hround => ?_
      split
      · exact ih (hr.push hround)
      · exact ih hr
      · exact .done hr
    · exact .done hr

theorem loopBound (what : String) {node : Node} (hn : self.Runs R r J node) (e : ScopeRef) :
    Keeps R r J Whatever (Evaluation.loopBound self what node e) := by
  refine (hn e).bind fun value _ => ?_
  split
  · exact .done trivial
  · exact (display value).bind fun _ _ => failAt rfl

theorem loopStep (start stop : Single) {step : Option Node}
    (hn : ∀ node ∈ step.toList, self.Runs R r J node) (e : ScopeRef) :
    Keeps R r J Whatever (Evaluation.loopStep self start stop step e) := by
  cases step with
  | none => exact .done trivial
  | some node => exact loopBound _ (hn node (List.mem_singleton_self node)) e

theorem evalCount (hR : R.isBounded = false) (name : String) {start stop : Node}
    {step : Option Node} (hstart : self.Runs R r J start) (hstop : self.Runs R r J stop)
    (hstep : ∀ node ∈ step.toList, self.Runs R r J node) (braced : Bool) {body : Node}
    (hb : self.Runs R r (Uncaught J) body) (e : ScopeRef) :
    Keeps R r J R.Admits (Evaluation.evalCount self name start stop step braced body e) := by
  refine (loopBound _ hstart e).bind fun first _ => (loopBound _ hstop e).bind fun last _ =>
    (loopStep first last hstep e).bind fun by_ _ => ?_
  split
  · exact failAt rfl
  · refine (innerScope e).bind fun scope _ => ?_
    refine (countRounds hR (fun i => ?_) _ _ _ .nil).bind fun _ hr => loopResult braced hr
    exact (newNumber i).bind fun _ hv => (define scope name hv).bind fun _ _ => hb scope

theorem evalEach (hR : R.isBounded = false) (name : String) {items : Node}
    (hi : self.Runs R r J items) (braced : Bool) {body : Node}
    (hb : self.Runs R r (Uncaught J) body) (e : ScopeRef) :
    Keeps R r J R.Admits (Evaluation.evalEach self name items braced body e) := by
  refine (hi e).bind fun value _ => ?_
  split
  · refine (innerScope e).bind fun scope _ => ?_
    refine (eachRounds hR (fun v hv => ?_) _ _ _ .nil).bind fun _ hr => loopResult braced hr
    exact (define scope name hv).bind fun _ _ => hb scope
  · exact (display _).bind fun _ _ => failAt rfl

theorem evalWhile (hR : R.isBounded = false) {condition : Node}
    (hc : self.Runs R r J condition) (braced : Bool) {body : Node}
    (hb : self.Runs R r (Uncaught J) body) (e : ScopeRef) :
    Keeps R r J R.Admits (Evaluation.evalWhile self condition braced body e) :=
  (innerScope e).bind fun scope _ =>
    (whileRounds hR (hc e) (hb scope) _ .nil).bind fun _ hr => loopResult braced hr

/-! ### Choices -/

theorem evalBranch (braced : Bool) {body : Node} (hb : self.Runs R r J body) (e : ScopeRef) :
    Keeps R r J R.Admits (Evaluation.evalBranch self braced body e) := by
  refine (innerScope e).bind fun scope _ => (hb scope).bind fun v hv => .done ?_
  split
  · trivial
  · exact hv

theorem evalArms (e : ScopeRef) (arms : Arms) (hs : ∀ node ∈ arms.nodes, self.Runs R r J node) :
    Keeps R r J R.Admits (Evaluation.evalArms self e arms) := by
  cases arms with
  | done => exact .done trivial
  | otherwise braced body => exact evalBranch braced (hs body (List.mem_singleton_self body)) e
  | arm condition braced body more =>
    obtain ⟨hcondition, hrest⟩ := List.forall_mem_cons.mp hs
    obtain ⟨hbody, hmore⟩ := List.forall_mem_cons.mp hrest
    refine (hcondition e).bind fun value _ => (isTruthy value).bind fun truthy _ => ?_
    split
    · exact evalBranch braced hbody e
    · exact evalArms e more hmore

/-! ### Names and definitions -/

theorem evalRead {name : String} (hn : R.hides name = false) (pos : Position) (e : ScopeRef) :
    Keeps R r J R.Admits (Evaluation.evalRead name pos e) := by
  refine (get e hn).bind fun found hfound => ?_
  split
  · exact failAt rfl
  · exact failAt rfl
  · exact .done (hfound _ rfl)

theorem evalUpdate (hc : self.Calls R r) {name : String} (hn : R.hides name = false)
    (op : Arithmetic) {value : Node} (hv : self.Runs R r J value) (pos : Position)
    (e : ScopeRef) : Keeps R r J R.Admits (Evaluation.evalUpdate self name op value pos e) := by
  refine (hv e).bind fun operand hoperand => (owner e name).bind fun target _ => ?_
  refine (get target hn).bind fun _ _ => (locatedAt pos (arithmetic hc op hoperand)).bind ?_
  exact fun result hresult => (set target name hresult).bind fun _ _ => .done hresult

theorem lookupClass {name : String} (hn : R.hides name = false) (pos : Position) (e : ScopeRef) :
    Keeps R r J R.OfClass (Evaluation.lookupClass name pos e) := by
  refine (get e hn).bind fun found hfound => ?_
  split
  · exact .done (hfound _ rfl)
  · exact failAt rfl
  · exact failAt rfl
  · exact failAt rfl

theorem evalAll {nodes : List Node} (hs : ∀ node ∈ nodes, self.Runs R r J node) (e : ScopeRef) :
    Keeps R r J R.AdmitsAll (Evaluation.evalAll self nodes e) :=
  .mapAll fun node hn => hs node hn e

theorem evalFunction {f : Lambda} (hf : R.Definition f.body) (e : ScopeRef) :
    Keeps R r J R.Admits (Evaluation.evalFunction f e) := by
  refine (newFunction hf e).bind fun value hv => ?_
  split
  · exact store e _ hv
  · exact .done hv

theorem evalObject (name : String) (params : List String) {parent : Option String}
    (hp : ∀ p, parent = some p → R.hides p = false) {body : Node} (hb : R.Definition body)
    (pos : Position) (e : ScopeRef) :
    Keeps R r J R.Admits (Evaluation.evalObject name params parent body pos e) := by
  have hbody : R.OfBody (.script body) := hb
  have hdefine : ∀ c : Option Class, (∀ a, c = some a → R.OfClass a) → Keeps R r J R.Admits
      (Run.newClass name params (.script body) c >>= fun value =>
        Run.storage e >>= fun target => Run.set target name value >>= fun _ => pure value) :=
    fun _ hc => (newClass hbody hc).bind fun _ hv => store e name hv
  unfold Evaluation.evalObject
  split
  · rename_i p
    refine (lookupClass (hp p rfl) pos e).bind fun c hc => hdefine (some c) fun a ha => ?_
    exact Option.some.inj ha ▸ hc
  · exact hdefine none fun a ha => by cases ha

/-! ### Calls and accesses -/

theorem evalCall (hs : self.Serves R r) {callee : Node} (hf : self.Runs R r J callee)
    {args : List Node} (ha : ∀ node ∈ args, self.Runs R r J node) (pos : Position)
    (e : ScopeRef) : Keeps R r J R.Admits (Evaluation.evalCall self callee args pos e) := by
  refine (hf e).bind fun f hvalue => ?_
  split
  · exact (evalAll ha e).bind fun values hvalues =>
      during _ (locatedAt pos (callValue hs hvalue hvalues e))
  · exact .done hvalue

theorem evalCreate (hs : self.Serves R r) {name : String} (hn : R.hides name = false)
    {args : List Node} (ha : ∀ node ∈ args, self.Runs R r J node) (pos : Position)
    (e : ScopeRef) : Keeps R r J R.Admits (Evaluation.evalCreate self name args pos e) := by
  refine (lookupClass hn pos e).bind fun c hc => (evalAll ha e).bind fun values hvalues => ?_
  exact during _ (locatedAt pos
    ((instantiate c hs hc hvalues e).bind fun _ _ => .done trivial))

theorem evalSegments {segments : List Node} (hs : ∀ node ∈ segments, self.Runs R r J node)
    {value : Value} (hv : R.Admits value) (e : ScopeRef) :
    Keeps R r J R.Admits (Evaluation.evalSegments self segments value e) := by
  induction segments generalizing value e with
  | nil => exact .done hv
  | cons segment more ih =>
    obtain ⟨hfirst, hrest⟩ := List.forall_mem_cons.mp hs
    exact (memberScope value).bind fun members _ => (memberView members e).bind fun view _ =>
      (hfirst view).bind fun _ hnext => ih hrest hnext view

theorem evalMembers {segments : List Node} (hs : ∀ node ∈ segments, self.Runs R r J node)
    (e : ScopeRef) : Keeps R r J R.Admits (Evaluation.evalMembers self segments e) := by
  cases segments with
  | nil => exact .done trivial
  | cons first more =>
    obtain ⟨hfirst, hrest⟩ := List.forall_mem_cons.mp hs
    exact (hfirst e).bind fun _ hv => evalSegments hrest hv e

theorem evalInclude (hR : R = .free) (hs : self.Serves R r) (pos : Position) (e : ScopeRef)
    {paths : List Node} (hp : ∀ node ∈ paths, self.Runs R r J node) {last : Value}
    (hl : R.Admits last) : Keeps R r J R.Admits (Evaluation.evalInclude self pos e paths last) := by
  induction paths generalizing last with
  | nil => exact .done hl
  | cons node more ih =>
    obtain ⟨hfirst, hrest⟩ := List.forall_mem_cons.mp hp
    exact (hfirst e).bind fun value _ => (display value).bind fun path _ =>
      (includePath hR hs pos path e).bind fun _ hnext => ih hrest hnext

theorem evalSequence (e : ScopeRef) {statements : List Node}
    (hs : ∀ node ∈ statements, self.Runs R r J node) :
    Keeps R r J Whatever (Evaluation.evalSequence self e statements) := by
  induction statements with
  | nil => exact .done trivial
  | cons statement more ih =>
    obtain ⟨hfirst, hrest⟩ := List.forall_mem_cons.mp hs
    exact .bind (.discard (hfirst e)) fun _ _ => ih hrest

end Run.Keeps

end ScriptEngine
