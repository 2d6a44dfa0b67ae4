import ScriptEngine.Proofs.Contracts
import ScriptEngine.Proofs.ShapeOfRuns

/-! # The shape of the heap in every reachable world

Every rule of evaluation keeps the heap well shaped if the machine that it refers back to does, so
by induction on the fuel every machine does. Whatever programs a host runs, one after the other,
the heap they leave is well shaped and their results are sound. -/

namespace ScriptEngine

section Kept

variable [Views]

/-- From an existing scope and sound values the machine keeps the shape. -/
structure Machine.KeepsShape (m : Machine) : Prop where
  evaluate : ∀ h node e, Heap.Allocated h e → ScriptEngine.KeepsShape h SoundValue (m.evaluate node e)
  call : ∀ h callee args e, Value.Sound h callee → AllSound h args → Heap.Allocated h e →
    ScriptEngine.KeepsShape h SoundValue (m.call callee args e)
  host : ∀ h key args e, AllSound h args → Heap.Allocated h e →
    ScriptEngine.KeepsShape h SoundValue (m.host key args e)

namespace KeepsShape

open Run

variable {α : Type} {h : Heap} {Q : Heap → α → Prop} {self : Machine}

/-! ### Operators -/

theorem ofFault (result : Except Fault α) :
    KeepsShape h Anything (Operators.ofFault result) := by
  cases result with
  | ok a => exact anything a
  | error fault => exact raise fault

theorem illegal (operand : Value) : KeepsShape h Q (Operators.illegal operand) :=
  (display operand).bind fun _ _ _ _ => raise _

theorem concatenated (a b : Value) : KeepsShape h SoundValue (Operators.concatenated a b) :=
  (display a).bind fun _ _ _ _ => (display b).bind fun _ _ _ _ => newText _

theorem numberWith (op : Arithmetic) (x : Single) (a b : Value) :
    KeepsShape h SoundValue (Operators.numberWith op x a b) := by
  unfold Operators.numberWith
  split
  · exact (ofFault _).bind fun _ _ _ _ => newNumber _
  · exact concatenated _ _
  · exact illegal _

theorem listWith (op : Arithmetic) (l : ListRef) {b : Value} (hb : b.Sound h) :
    KeepsShape h SoundValue (Operators.listWith op l b) := by
  refine heap.bind fun g a hx ha => ?_
  obtain ⟨rfl, hs⟩ := ha
  dsimp only
  split
  · refine heap.bind fun k c hk hc => newList fun v hv => ?_
    obtain ⟨rfl, hsk⟩ := hc
    rw [Array.toList_append] at hv
    rcases List.mem_append.mp hv with hv | hv
    · exact (hs.items l v hv).mono hk
    · exact hsk.items _ v hv
  · exact newList (soundArray_push (hs.items l) (hb.mono hx))
  · exact newList (soundArray_push (hs.items l) (hb.mono hx))
  · exact illegal _

theorem overload_sound (hs : h.Shaped) {e : ScopeRef} {op : Arithmetic} {method : Value}
    (hm : Operators.overload? h e op = some method) : method.Sound h := by
  obtain ⟨hget, _⟩ := Option.filter_eq_some_iff.mp hm
  exact EntriesSound.of_get? (hs.bindings e) hget

theorem arithmetic (hm : self.KeepsShape) (op : Arithmetic) {a b : Value} (ha : a.Sound h)
    (hb : b.Sound h) : KeepsShape h SoundValue (Operators.arithmetic self op a b) := by
  unfold Operators.arithmetic
  split
  · exact numberWith op _ _ b
  · exact numberWith op _ _ b
  · exact listWith op _ hb
  · refine heap.bind fun g k hx hk => ?_
    obtain ⟨rfl, hs⟩ := hk
    split
    · rename_i hoverload
      refine hm.call _ _ _ _ (overload_sound hs hoverload) ?_ (hx.plain ha).allocated
      intro v hv
      rw [List.mem_singleton.mp hv]
      exact hb.mono hx
    · exact concatenated _ _
    · exact illegal _
  · split
    · exact concatenated _ _
    · exact illegal _

theorem binary (hm : self.KeepsShape) (op : BinaryOp) {a b : Value} (ha : a.Sound h)
    (hb : b.Sound h) : KeepsShape h SoundValue (Operators.binary self op a b) := by
  unfold Operators.binary
  split
  · exact arithmetic hm _ ha hb
  · exact heap.bind fun _ _ _ _ => (ofFault _).bind fun _ _ _ _ => newBool _
  · exact heap.bind fun _ _ _ _ => (ofFault _).bind fun _ _ _ _ => newBool _
  · exact heap.bind fun _ _ _ _ => (ofFault _).bind fun _ _ _ _ => newBool _

theorem unary (hm : self.KeepsShape) (op : UnaryOp) {a : Value} (ha : a.Sound h) :
    KeepsShape h SoundValue (Operators.unary self op a) := by
  unfold Operators.unary
  split
  · exact value ha
  · refine heap.bind fun g k hx _ => ?_
    split
    · exact (newNumber _).bind fun k _ hk hv => arithmetic hm _ ((ha.mono hx).mono hk) hv
    · exact illegal a
  · exact (isTruthy a).bind fun _ _ _ _ => newBool _

/-! ### Methods -/

theorem indexArg (function : String) (v : Value) :
    KeepsShape h Anything (Methods.indexArg function v) := by
  unfold Methods.indexArg
  split
  · exact anything _
  · exact (display v).bind fun _ _ _ _ => raise _

theorem checkedIndex (index : Int) (length : Nat) :
    KeepsShape h Anything (Methods.checkedIndex index length) := by
  unfold Methods.checkedIndex
  split
  · exact raise _
  · exact anything _

theorem textMethod (m : TextMethod) (s : String) (args : List Value) :
    KeepsShape h SoundValue (Methods.textMethod m s args) := by
  unfold Methods.textMethod
  dsimp only
  split
  · exact (display _).bind fun _ _ _ _ => newBool _
  · exact (display _).bind fun _ _ _ _ => newTexts _
  · exact (indexArg _ _).bind fun _ _ _ _ => (checkedIndex _ _).bind fun _ _ _ _ => newText _
  · exact newTexts _
  · exact (indexArg _ _).bind fun _ _ _ _ => (indexArg _ _).bind fun _ _ _ _ =>
      (ofFault _).bind fun _ _ _ _ => newText _
  · exact newText _
  · exact newText _
  · exact newText _
  · exact (display _).bind fun _ _ _ _ => (display _).bind fun _ _ _ _ => newText _
  · exact (display _).bind fun _ _ _ _ => newBool _
  · exact (display _).bind fun _ _ _ _ => newBool _
  · exact (display _).bind fun _ _ _ _ => newBool _
  · exact value trivial

theorem sound_getD {items : Array Value} (hi : SoundArray h items) (i : Nat) :
    (items.getD i .null).Sound h := by
  rw [Array.getD_eq_getD_getElem?]
  cases hc : items[i]? with
  | none => trivial
  | some v => exact hi v (Array.mem_toList_iff.mpr (Array.mem_of_getElem? hc))

theorem soundArray_nil : SoundArray h #[] :=
  fun _ hm => absurd hm List.not_mem_nil

theorem soundArray_set {items : Array Value} (hi : SoundArray h items) (i : Nat) {v : Value}
    (hv : v.Sound h) : SoundArray h (items.setIfInBounds i v) := by
  intro a ha
  rw [Array.toList_setIfInBounds] at ha
  rcases List.mem_or_eq_of_mem_set ha with ha | ha
  · exact hi a ha
  · exact ha ▸ hv

theorem soundArray_insert {items : Array Value} (hi : SoundArray h items) (i : Nat) {v : Value}
    (hv : v.Sound h) : SoundArray h (items.insertIdxIfInBounds i v) := by
  by_cases hle : i ≤ items.size
  · intro a ha
    rw [Array.insertIdxIfInBounds, dif_pos hle, Array.toList_insertIdx] at ha
    rcases (List.mem_insertIdx (by simpa using hle)).mp ha with ha | ha
    · exact ha ▸ hv
    · exact hi a ha
  · rw [Array.insertIdxIfInBounds, dif_neg hle]
    exact hi

theorem soundArray_erase {items : Array Value} (hi : SoundArray h items) (i : Nat) :
    SoundArray h (items.eraseIdxIfInBounds i) := by
  intro a ha
  rw [Array.toList_eraseIdxIfInBounds] at ha
  exact hi a (List.mem_of_mem_eraseIdx ha)

theorem soundArray_pop {items : Array Value} (hi : SoundArray h items) :
    SoundArray h items.pop := by
  intro a ha
  rw [Array.toList_pop] at ha
  exact hi a (List.dropLast_subset _ ha)

theorem mapItems {call : Value → Run Value}
    (hc : ∀ g v, h.Extends g → v.Sound g → KeepsShape g SoundValue (call v)) (l : ListRef)
    (rounds i : Nat) {results : Array Value} (hr : SoundArray h results) :
    KeepsShape h SoundArray (Methods.mapItems call l rounds i results) := by
  induction rounds generalizing h i results with
  | zero => exact exhausted
  | succ rounds ih =>
    refine heap.bind fun g a hx ha => ?_
    obtain ⟨rfl, hs⟩ := ha
    split
    · exact done fun k hk => (hr.mono hx).mono hk
    · rename_i v hitem
      have hv : v.Sound _ := hs.items l v (Array.mem_toList_iff.mpr (Array.mem_of_getElem? hitem))
      refine (hc _ v hx hv).bind fun k b hk hb => ?_
      exact ih (fun g' v' hx' => hc g' v' ((hx.trans hk).trans hx')) _
        (soundArray_push ((hr.mono hx).mono hk) hb)

theorem listMethod (hm : self.KeepsShape) (m : ListMethod) (l : ListRef) {args : List Value}
    (ha : AllSound h args) {scope : ScopeRef} (hscope : h.Allocated scope) :
    KeepsShape h SoundValue (Methods.listMethod self m l args scope) := by
  unfold Methods.listMethod
  split
  · rename_i v
    have hv : v.Sound h := ha v List.mem_cons_self
    exact (modifyList l fun _ _ hx hi => soundArray_push hi (hv.mono hx)).bind
      fun _ _ hx _ => value (hv.mono hx)
  · refine (indexArg _ _).bind fun _ _ _ _ => heap.bind fun g a _ hg => ?_
    obtain ⟨rfl, hs⟩ := hg
    exact (checkedIndex _ _).bind fun _ i hx _ => value ((sound_getD (hs.items l) i).mono hx)
  · rename_i v
    have hv : v.Sound h := ha v (List.mem_cons_of_mem _ List.mem_cons_self)
    refine (indexArg _ _).bind fun _ _ h₁ _ => heap.bind fun _ _ h₂ _ =>
      (checkedIndex _ _).bind fun g i h₃ _ => ?_
    have hvg : v.Sound g := ((hv.mono h₁).mono h₂).mono h₃
    exact (modifyList l fun _ _ hx hi => soundArray_set hi i (hvg.mono hx)).bind
      fun _ _ hx _ => value (hvg.mono hx)
  · rename_i v
    have hv : v.Sound h := ha v (List.mem_cons_of_mem _ List.mem_cons_self)
    refine (indexArg _ _).bind fun _ _ h₁ _ => heap.bind fun _ _ h₂ _ =>
      (checkedIndex _ _).bind fun g i h₃ _ => ?_
    have hvg : v.Sound g := ((hv.mono h₁).mono h₂).mono h₃
    exact (modifyList l fun _ _ hx hi => soundArray_insert hi i (hvg.mono hx)).bind
      fun _ _ hx _ => value (hvg.mono hx)
  · refine (indexArg _ _).bind fun _ _ _ _ => heap.bind fun g a _ hg => ?_
    obtain ⟨rfl, hs⟩ := hg
    refine (checkedIndex _ _).bind fun k i hk _ => ?_
    exact (modifyList l fun _ _ _ hi => soundArray_erase hi i).bind
      fun _ _ hx _ => value (((sound_getD (hs.items l) i).mono hk).mono hx)
  · refine heap.bind fun g a _ hg => ?_
    obtain ⟨rfl, hs⟩ := hg
    split
    · exact raise _
    · rename_i last hlast
      have hv : last.Sound _ :=
        hs.items l last (Array.mem_toList_iff.mpr (Array.mem_of_back? hlast))
      exact (modifyList l fun _ _ _ hi => soundArray_pop hi).bind
        fun _ _ hx _ => value (hv.mono hx)
  · exact heap.bind fun _ _ _ _ => newText _
  · refine heap.bind fun _ _ _ _ => ?_
    split
    · exact newNumber _
    · exact newNumber _
  · exact (modifyList l fun _ _ _ _ => soundArray_nil).bind fun _ _ _ _ => value trivial
  · rename_i function
    have hf : function.Sound h := ha function List.mem_cons_self
    split
    · refine (mapItems (fun g v hx hv => ?_) l _ _ soundArray_nil).bind
        fun _ _ _ hvs => newList hvs
      refine hm.call _ _ _ _ (hf.mono hx) ?_ (hx.allocated hscope)
      intro a ha
      rw [List.mem_singleton.mp ha]
      exact hv
    · exact (display _).bind fun _ _ _ _ => raise _
  · exact heap.bind fun _ _ _ _ => newNumber _
  · exact value trivial

theorem keepFiles (result : Except FileError FileTree) :
    KeepsShape h Anything (Methods.keepFiles result) := by
  unfold Methods.keepFiles
  split
  · refine bind (modify ?_) fun _ _ _ _ => anything _
    exact fun _ => ⟨rfl, rfl, rfl⟩
  · exact anything _

theorem fileMethod (m : FileMethod) (path : String) (args : List Value) :
    KeepsShape h SoundValue (Methods.fileMethod m path args) := by
  refine world.bind fun g w _ _ => ?_
  dsimp only
  split
  · exact (keepFiles _).bind fun _ _ _ _ => newBool _
  · exact (discard (keepFiles _)).bind fun _ _ _ _ => value trivial
  · exact (discard (keepFiles _)).bind fun _ _ _ _ => value trivial
  · exact newBool _
  · split
    · exact newTexts _
    · exact newBool _
  · exact heap.bind fun _ _ _ _ => (keepFiles _).bind fun _ _ _ _ => newBool _
  · exact (display _).bind fun _ _ _ _ => raise _
  · exact value trivial

/-- A function that refers to no scope. -/
def Unscoped (n : Native) : Prop :=
  ∀ (h : Heap) (stamp : Nat), (Value.native stamp n).Sound h

theorem bound {methods : List Native} (hn : ∀ n ∈ methods, Unscoped n) :
    KeepsShape h EntriesSound (Methods.bound methods) := by
  induction methods generalizing h with
  | nil => exact done fun _ _ _ hm => absurd hm List.not_mem_nil
  | cons n methods ih =>
    have hfirst : KeepsShape h (fun g (entry : String × Value) => entry.2.Sound g)
        (do return (n.name, ← Run.newNative n)) :=
      (newNative (hn n List.mem_cons_self h)).bind fun _ _ _ hv => done fun _ hx => hv.mono hx
    refine hfirst.bind fun g entry _ hentry => ?_
    refine (ih fun m hm => hn m (List.mem_cons_of_mem _ hm)).bind fun k entries hk hrest => ?_
    exact done fun l hl => List.forall_mem_cons.mpr ⟨(hentry.mono hk).mono hl, hrest.mono hl⟩

theorem methodScope (name : String) {methods : List Native} (hn : ∀ n ∈ methods, Unscoped n) :
    KeepsShape h Heap.Plain (Methods.methodScope name methods) :=
  (bound hn).bind fun _ _ _ he => newScope rfl (fun _ hp => nomatch hp)
    (.insertAll (fun _ hm => absurd hm List.not_mem_nil) he)

theorem memberScope {v : Value} (hv : v.Sound h) :
    KeepsShape h Heap.Plain (Methods.memberScope v) := by
  unfold Methods.memberScope
  split
  · exact done fun _ hx => hx.plain hv
  · rename_i stamp s
    have hn : ∀ n ∈ TextMethod.all.map (Native.textMethod · s), Unscoped n := by
      intro n hn
      obtain ⟨m, _, rfl⟩ := List.mem_map.mp hn
      exact fun _ _ => trivial
    refine bind (methodScope _ hn) fun g e _ he => ?_
    refine bind (newNumber _) fun k n hk hn => ?_
    refine bind (define (hk.plain he) _ hn) fun l _ hl _ => ?_
    exact done fun _ hx => hx.plain (hl.plain (hk.plain he))
  · refine methodScope _ ?_
    intro n hn
    obtain ⟨m, _, rfl⟩ := List.mem_map.mp hn
    exact fun _ _ => trivial
  · exact newScope rfl (fun _ hp => nomatch hp) fun _ hm => absurd hm List.not_mem_nil

/-! ### Programs, instances and inclusion -/

theorem runStatements (hm : self.KeepsShape) {e : ScopeRef} (he : h.Allocated e)
    (statements : List Node) {last : Value} (hl : last.Sound h) :
    KeepsShape h SoundValue (Evaluation.runStatements self e statements last) := by
  induction statements generalizing h last with
  | nil => exact value hl
  | cons statement more ih =>
    refine (catchJump (hm.evaluate h statement e he)).bind fun g result hx hr => ?_
    split
    · exact ih (hx.allocated he) hr
    · exact value hr
    · exact fail _
    · exact fail _

theorem runProgram (hm : self.KeepsShape) (root : Node) {e : ScopeRef} (he : h.Allocated e) :
    KeepsShape h SoundValue (Evaluation.runProgram self root e) := by
  unfold Evaluation.runProgram
  split
  · exact runStatements hm he _ trivial
  · exact runStatements hm he _ trivial

theorem runSource (hm : self.KeepsShape) (source : String) {e : ScopeRef} (he : h.Allocated e)
    (name : Option String) : KeepsShape h SoundValue (Evaluation.runSource self source e name) :=
  (ofExcept (Q := Anything) fun _ _ _ => trivial).bind fun _ _ hx _ =>
    runProgram hm _ (hx.allocated he)

theorem checkArity (name : String) (params : List String) (args : List Value) :
    KeepsShape h Anything (Evaluation.checkArity name params args) := by
  unfold Evaluation.checkArity
  split
  · exact anything _
  · exact raise _

theorem openInstance (c : Class) {args : List Value} (ha : AllSound h args) {e : ScopeRef}
    (he : h.Allocated e) : KeepsShape h Heap.Plain (Evaluation.openInstance c args e) := by
  refine bind (newInside _ he) fun g scope hg hscope => ?_
  refine bind (define hscope _ trivial) fun k _ hk _ => ?_
  have hparams : ∀ l, k.Extends l → KeepsShape l Heap.Plain
      (Run.modifyHeap (·.modifyScope scope (·.defineAll (c.params.zip args))) >>= fun _ =>
        pure scope) := by
    intro l hl
    have hplain := hl.plain (hk.plain hscope)
    refine bind (defineAll hplain (.zip (ha.mono (hg.trans (hk.trans hl))))) fun m _ hm _ => ?_
    exact done fun _ hx => hx.plain (hm.plain hplain)
  split
  · rename_i parent _
    have hsuper : ∀ stamp, (Value.native stamp (.superCall parent c scope)).Sound k :=
      fun _ => hk.plain hscope
    refine bind (newNative hsuper) fun l v hl hv => ?_
    refine bind (define (hl.plain (hk.plain hscope)) _ hv) fun m _ hm _ => ?_
    exact hparams m (hl.trans hm)
  · exact hparams k (.refl k)

theorem runBody (hm : self.KeepsShape) (c : Class) (args : List Value) {scope : ScopeRef}
    (hs : h.Plain scope) : KeepsShape h Anything (Evaluation.runBody self c args scope) := by
  unfold Evaluation.runBody
  split
  · exact anything _
  · refine (display _).bind fun g path hg _ => ?_
    have hn : ∀ n ∈ FileMethod.all.map (Native.fileMethod · path), Unscoped n := by
      intro n hn
      obtain ⟨m, _, rfl⟩ := List.mem_map.mp hn
      exact fun _ _ => trivial
    exact (bound hn).bind fun k _ hk he => defineAll (hk.plain (hg.plain hs)) he
  · refine (catchJump (hm.evaluate h _ scope hs.allocated)).bind fun _ result _ _ => ?_
    split
    · exact anything _
    · exact anything _
    · exact raise _
    · exact raise _

theorem adopt (c : Class) {scope parentScope : ScopeRef} (hs : h.Plain scope)
    (hp : h.Plain parentScope) : KeepsShape h Anything (Evaluation.adopt c scope parentScope) :=
  bind (define hs _ trivial) fun _ _ hx _ => define (hx.plain hs) _ (hx.plain hp)

theorem implicitParent {build : List Value → ScopeRef → Run ScopeRef}
    (hb : ∀ g args e, AllSound g args → Heap.Allocated g e → KeepsShape g Heap.Plain (build args e))
    (c parent : Class) {args : List Value} (ha : AllSound h args) {scope : ScopeRef}
    (hs : h.Plain scope) :
    KeepsShape h Anything (Evaluation.implicitParent build c parent args scope) := by
  refine heap.bind fun g _ hg _ => ?_
  have hplain := hg.plain hs
  split
  · split
    · refine (hb g args scope (ha.mono hg) hplain.allocated).bind fun k parentScope hk hp => ?_
      refine (mergeMissing (hk.plain hplain) parentScope).bind fun l _ hl _ => ?_
      exact adopt c (hl.plain (hk.plain hplain)) (hl.plain hp)
    · exact remove hplain _
  · exact anything _

theorem instantiate (hm : self.KeepsShape) :
    ∀ (c : Class) (h : Heap) (args : List Value) (e : ScopeRef), AllSound h args → h.Allocated e →
      KeepsShape h Heap.Plain (Evaluation.instantiate self c args e)
  | ⟨_, _, _, _, none⟩, _, args, _, ha, he =>
    (checkArity _ _ args).bind fun _ _ h₁ _ => withFrame <|
      (openInstance _ (ha.mono h₁) (h₁.allocated he)).bind fun _ _ _ hs =>
        (runBody hm _ args hs).bind fun _ _ h₃ _ => done fun _ hx => hx.plain (h₃.plain hs)
  | ⟨_, _, _, _, some parent⟩, _, args, _, ha, he =>
    (checkArity _ _ args).bind fun _ _ h₁ _ => withFrame <|
      (openInstance _ (ha.mono h₁) (h₁.allocated he)).bind fun _ _ h₂ hs =>
        (runBody hm _ args hs).bind fun _ _ h₃ _ =>
          (implicitParent (fun g args e ha he => instantiate hm parent g args e ha he) _ parent
            (((ha.mono h₁).mono h₂).mono h₃) (h₃.plain hs)).bind fun _ _ h₄ _ =>
              done fun _ hx => hx.plain (h₄.plain (h₃.plain hs))
termination_by structural c => c

theorem buildParent (hm : self.KeepsShape) (parent child : Class) {target : ScopeRef}
    (ht : h.Plain target) {args : List Value} (ha : AllSound h args) :
    KeepsShape h SoundValue (Evaluation.buildParent self parent child target args) := by
  refine isFreed.bind fun f _ hf _ => ?_
  split
  · exact raise _
  · have ht := hf.plain ht
    refine (instantiate hm parent f args target (ha.mono hf) ht.allocated).bind
      fun g scope hg hs => ?_
    refine (mergeInto (hg.plain ht) scope).bind fun k _ hk _ => ?_
    exact (adopt child (hk.plain (hg.plain ht)) (hk.plain hs)).bind fun _ _ _ _ => value trivial

theorem runIncluded (hm : self.KeepsShape) (pos : Position) (path : String) {scope : ScopeRef}
    (hs : h.Allocated scope) (sources : List IncludedSource) :
    KeepsShape h Anything (Evaluation.runIncluded self pos path scope sources) := by
  induction sources generalizing h with
  | nil => exact anything _
  | cons source more ih =>
    refine bind (modifyScope hs fun g _ hg => hg.sound_origin scope _) fun g _ hg _ => ?_
    refine bind (discard (during _ (runSource hm source.text (hg.allocated hs) _)))
      fun k _ hk _ => ?_
    exact ih (hk.allocated (hg.allocated hs))

theorem includePath (hm : self.KeepsShape) (pos : Position) (path : String) {e : ScopeRef}
    (he : h.Allocated e) : KeepsShape h SoundValue (Evaluation.includePath self pos path e) := by
  refine world.bind fun _ _ h₁ _ => ?_
  refine bind (locatedAt pos (ofExcept (Q := Anything) fun _ _ _ => trivial))
    fun _ sources h₂ _ => ?_
  have he₂ := h₂.allocated (h₁.allocated he)
  refine (newInside _ he₂).bind fun _ scope h₃ hs => ?_
  refine (runIncluded hm pos path hs.allocated sources).bind fun _ _ h₄ _ => ?_
  refine (storage (h₄.allocated (h₃.allocated he₂))).bind fun _ target h₅ ht => ?_
  exact (mergeInto ht scope).bind fun _ _ h₆ _ =>
    value (h₆.plain (h₅.plain (h₄.plain hs)))

/-! ### Functions that are not written in the language -/

theorem numberArg (function : String) (v : Value) :
    KeepsShape h Anything (Builtins.numberArg function v) := by
  unfold Builtins.numberArg
  split
  · exact anything _
  · exact (display v).bind fun _ _ _ _ => raise _

theorem randomBetween (low high : Single) :
    KeepsShape h Anything (Builtins.randomBetween low high) := by
  unfold Builtins.randomBetween
  dsimp only
  split
  · exact anything _
  · exact (draw _).bind fun _ _ _ _ => anything _

theorem readLine : KeepsShape h Anything Builtins.readLine := by
  refine (print _).bind fun _ _ _ _ => world.bind fun _ w _ _ => ?_
  dsimp only
  refine bind (modify ?_) fun _ _ _ _ => ?_
  · exact fun _ => ⟨rfl, rfl, rfl⟩
  · split
    · exact anything _
    · exact raise _

theorem programText (v : Value) : KeepsShape h Anything (Builtins.programText v) := by
  refine heap.bind fun _ _ _ _ => ?_
  split
  · exact anything _
  · exact anything _
  · exact raise _

theorem caller_allocated (hs : h.Shaped) {scope : ScopeRef} (he : h.Allocated scope) :
    h.Allocated (Builtins.caller h scope) := by
  unfold Builtins.caller
  cases hp : (h.scope scope).parent with
  | none => exact he
  | some p => exact hs.ordered.parent_allocated he hp

theorem builtin (hm : self.KeepsShape) (b : Builtin) {args : List Value} (ha : AllSound h args)
    {scope : ScopeRef} (he : h.Allocated scope) :
    KeepsShape h SoundValue (Builtins.run self b args scope) := by
  unfold Builtins.run
  split
  · exact (display _).bind fun _ _ _ _ => (print _).bind fun _ _ _ _ => value trivial
  · refine (numberArg _ _).bind fun _ _ _ _ => bind (modify ?_) fun _ _ _ _ => value trivial
    exact fun _ => ⟨rfl, rfl, rfl⟩
  · refine (programText _).bind fun _ code h₁ _ => heap.bind fun _ g h₂ hg => ?_
    obtain ⟨rfl, hs⟩ := hg
    exact runSource hm code (caller_allocated hs (h₂.allocated (h₁.allocated he))) _
  · refine heap.bind fun _ g hx hg => ?_
    obtain ⟨rfl, hs⟩ := hg
    have hcaller := caller_allocated hs (hx.allocated he)
    exact (remove (hs.owner_plain hcaller _) _).bind fun _ _ _ _ => value trivial
  · split
    · exact (spawn (ha _ List.mem_cons_self)).bind fun _ _ _ _ => value trivial
    · exact (spawn (ha _ List.mem_cons_self)).bind fun _ _ _ _ => value trivial
    · exact (display _).bind fun _ _ _ _ => raise _
  · exact (draw _).bind fun _ _ _ _ => newNumber _
  · exact (numberArg _ _).bind fun _ _ _ _ => (numberArg _ _).bind fun _ _ _ _ =>
      (randomBetween _ _).bind fun _ _ _ _ => newNumber _
  · exact readLine.bind fun _ _ _ _ => newText _
  · refine readLine.bind fun _ line _ _ => ?_
    dsimp only
    split
    · exact newNumber _
    · exact raise _
  · refine bind (mapAll (R := Anything) (fun _ _ _ _ _ => trivial)
      (fun _ v _ => numberArg _ v) _) fun _ numbers _ _ => ?_
    split
    · exact (ofFault _).bind fun _ _ _ _ => newNumber _
    · exact value trivial

theorem sound_headD {args : List Value} (ha : AllSound h args) : (args.headD .null).Sound h := by
  cases args with
  | nil => trivial
  | cons v vs => exact ha v List.mem_cons_self

theorem allSound_tail {args : List Value} (ha : AllSound h args) : AllSound h args.tail :=
  fun v hv => ha v (List.mem_of_mem_tail hv)

theorem instantiateValue (hm : self.KeepsShape) (v : Value) {args : List Value}
    (ha : AllSound h args) {e : ScopeRef} (he : h.Allocated e) :
    KeepsShape h Heap.Plain (Builtins.instantiateValue self v args e) := by
  unfold Builtins.instantiateValue
  split
  · exact instantiate hm _ h args e ha he
  · exact (display _).bind fun _ _ _ _ => raise _

theorem runHost (hm : self.KeepsShape) (behavior : HostBehavior) {args : List Value}
    (ha : AllSound h args) {scope : ScopeRef} (he : h.Allocated scope) :
    KeepsShape h SoundValue (Builtins.runHost self behavior args scope) := by
  unfold Builtins.runHost
  dsimp only
  split
  · exact newList ha
  · exact value (sound_headD ha)
  · exact value trivial
  · exact newNumber _
  · refine bind (modify ?_) fun _ _ _ _ => value trivial
    exact fun _ => ⟨rfl, rfl, rfl⟩
  · exact fail _
  · exact newText _
  · exact (spawn (sound_headD ha)).bind fun _ _ _ _ => world.bind fun _ _ _ _ => newNumber _
  · exact hm.call h _ _ _ (sound_headD ha) (allSound_tail ha) he
  · exact (instantiateValue hm _ (allSound_tail ha) he).bind fun _ _ _ hs => value hs
  · exact heap.bind fun _ _ _ _ => newTexts _
  · refine heap.bind fun _ _ _ _ => ?_
    split
    · exact newText _
    · exact value trivial
  · exact hm.host h _ _ _ ha he

/-! ### Calls -/

theorem callFunction (hm : self.KeepsShape) (f : Lambda) {closure : ScopeRef}
    (hc : h.Allocated closure) {args : List Value} (ha : AllSound h args) :
    KeepsShape h SoundValue (Evaluation.callFunction self f closure args) := by
  refine (checkArity _ _ args).bind fun _ _ h₁ _ => ?_
  refine (newFrame _ (h₁.allocated hc) (ha.mono h₁)).bind fun g scope _ hs => ?_
  refine bind (withFrame (catchJump (hm.evaluate g f.body scope hs.allocated)))
    fun _ result _ hr => ?_
  split
  · split
    · exact value trivial
    · exact value hr
  · exact value hr
  · exact raise _
  · exact raise _

theorem runNative (hm : self.KeepsShape) {n : Native} {stamp : Nat}
    (hn : (Value.native stamp n).Sound h) {args : List Value} (ha : AllSound h args)
    {scope : ScopeRef} (he : h.Allocated scope) :
    KeepsShape h SoundValue (Evaluation.runNative self n args scope) := by
  cases n with
  | builtin b => exact builtin hm b ha he
  | textMethod m receiver => exact textMethod m receiver args
  | listMethod m receiver => exact listMethod hm m receiver ha he
  | fileMethod m path => exact fileMethod m path args
  | superCall parent child target => exact buildParent hm parent child hn ha
  | host name params behavior => exact runHost hm behavior ha he

theorem callNative (hm : self.KeepsShape) {n : Native} {stamp : Nat}
    (hn : (Value.native stamp n).Sound h) {args : List Value} (ha : AllSound h args)
    {e : ScopeRef} (he : h.Allocated e) :
    KeepsShape h SoundValue (Evaluation.callNative self n args e) := by
  refine (checkArity _ _ args).bind fun _ _ h₁ _ => ?_
  refine (newFrame _ (h₁.allocated he) (ha.mono h₁)).bind fun _ scope h₂ hs => ?_
  exact withFrame (runNative hm ((hn.mono h₁).mono h₂) ((ha.mono h₁).mono h₂) hs.allocated)

theorem callValue (hm : self.KeepsShape) {callee : Value} (hc : callee.Sound h)
    {args : List Value} (ha : AllSound h args) {e : ScopeRef} (he : h.Allocated e) :
    KeepsShape h SoundValue (Evaluation.callValue self callee args e) := by
  unfold Evaluation.callValue
  split
  · exact callFunction hm _ hc ha
  · exact callNative hm hc ha he
  · exact (instantiate hm _ h args e ha he).bind fun _ _ _ hs => value hs
  · exact value hc

/-! ### Loops and choices -/

theorem loopResult (braced : Bool) {results : Array Value} (hr : SoundArray h results) :
    KeepsShape h SoundValue (Evaluation.loopResult braced results) := by
  unfold Evaluation.loopResult
  split
  · exact value trivial
  · exact newList hr

/-- The value that a round gives is sound. -/
def SoundRound (h : Heap) : Evaluation.Round → Prop
  | .value v => v.Sound h
  | .skipped => True
  | .last => True

theorem runRound {body : Run Value} (hb : KeepsShape h SoundValue body) :
    KeepsShape h SoundRound (Evaluation.runRound body) := by
  refine (catchJump hb).bind fun g result _ hr => ?_
  split
  · exact done fun _ hx => Value.Sound.mono hx hr
  · exact done fun _ _ => trivial
  · exact done fun _ _ => trivial
  · exact jump hr

theorem countRounds {body : Single → Run Value}
    (hb : ∀ g i, h.Extends g → KeepsShape g SoundValue (body i)) (r : Evaluation.Range)
    (rounds : Nat) (i : Single) {results : Array Value} (hr : SoundArray h results) :
    KeepsShape h SoundArray (Evaluation.countRounds body r rounds i results) := by
  induction rounds generalizing h i results with
  | zero => exact exhausted
  | succ rounds ih =>
    unfold Evaluation.countRounds
    split
    · refine (runRound (hb h i (.refl h))).bind fun g round hx hround => ?_
      have hlater : ∀ k i, g.Extends k → KeepsShape k SoundValue (body i) :=
        fun k i hk => hb k i (hx.trans hk)
      split
      · exact ih hlater _ (soundArray_push (hr.mono hx) hround)
      · exact ih hlater _ (hr.mono hx)
      · exact done fun _ hk => (hr.mono hx).mono hk
    · exact done fun _ hk => hr.mono hk

theorem eachRounds {body : Value → Run Value}
    (hb : ∀ g v, h.Extends g → v.Sound g → KeepsShape g SoundValue (body v)) (l : ListRef)
    (rounds i : Nat) {results : Array Value} (hr : SoundArray h results) :
    KeepsShape h SoundArray (Evaluation.eachRounds body l rounds i results) := by
  induction rounds generalizing h i results with
  | zero => exact exhausted
  | succ rounds ih =>
    refine heap.bind fun _ g hg ha => ?_
    obtain ⟨rfl, hs⟩ := ha
    split
    · exact done fun _ hk => (hr.mono hg).mono hk
    · rename_i v hitem
      have hv : v.Sound g := hs.items l v (Array.mem_toList_iff.mpr (Array.mem_of_getElem? hitem))
      refine (runRound (hb g v hg hv)).bind fun k round hk hround => ?_
      have hlater : ∀ m v, k.Extends m → v.Sound m → KeepsShape m SoundValue (body v) :=
        fun m v hm => hb m v ((hg.trans hk).trans hm)
      have hresults := (hr.mono hg).mono hk
      split
      · exact ih hlater _ (soundArray_push hresults hround)
      · exact ih hlater _ hresults
      · exact done fun _ hm => hresults.mono hm

theorem whileRounds {condition body : Run Value}
    (hc : KeepsShape h SoundValue condition) (hb : KeepsShape h SoundValue body)
    (rounds : Nat) {results : Array Value} (hr : SoundArray h results) :
    KeepsShape h SoundArray (Evaluation.whileRounds condition body rounds results) := by
  induction rounds generalizing h results with
  | zero => exact exhausted
  | succ rounds ih =>
    refine hc.bind fun _ value h₁ _ => (isTruthy value).bind fun _ truthy h₂ _ => ?_
    have hsoFar := (hr.mono h₁).mono h₂
    split
    · refine (runRound (hb.mono (h₁.trans h₂))).bind fun _ round h₃ hround => ?_
      have hx := (h₁.trans h₂).trans h₃
      split
      · exact ih (hc.mono hx) (hb.mono hx) (soundArray_push (hsoFar.mono h₃) hround)
      · exact ih (hc.mono hx) (hb.mono hx) (hsoFar.mono h₃)
      · exact done fun _ hk => (hsoFar.mono h₃).mono hk
    · exact done fun _ hk => hsoFar.mono hk

theorem loopBound (hm : self.KeepsShape) (what : String) (node : Node) {e : ScopeRef}
    (he : h.Allocated e) : KeepsShape h Anything (Evaluation.loopBound self what node e) := by
  refine (hm.evaluate h node e he).bind fun _ value _ _ => ?_
  split
  · exact anything _
  · exact (display value).bind fun _ _ _ _ => fail _

theorem loopStep (hm : self.KeepsShape) (start stop : Single) (step : Option Node)
    {e : ScopeRef} (he : h.Allocated e) :
    KeepsShape h Anything (Evaluation.loopStep self start stop step e) := by
  cases step with
  | none => exact anything _
  | some node => exact loopBound hm _ node he

theorem evalCount (hm : self.KeepsShape) (name : String) (start stop : Node)
    (step : Option Node) (braced : Bool) (body : Node) {e : ScopeRef} (he : h.Allocated e) :
    KeepsShape h SoundValue (Evaluation.evalCount self name start stop step braced body e) := by
  refine (loopBound hm _ start he).bind fun _ first h₁ _ => ?_
  refine (loopBound hm _ stop (h₁.allocated he)).bind fun _ last h₂ _ => ?_
  refine (loopStep hm first last step (h₂.allocated (h₁.allocated he))).bind fun _ by_ h₃ _ => ?_
  split
  · exact fail _
  · refine (innerScope (h₃.allocated (h₂.allocated (h₁.allocated he)))).bind
      fun g scope _ hs => ?_
    refine (countRounds (fun k i hk => ?_) _ _ _ soundArray_nil).bind
      fun _ _ _ hr => loopResult braced hr
    have hplain := hk.plain hs
    exact (newNumber i).bind fun l _ hl hv => (define (hl.plain hplain) name hv).bind
      fun m _ hx _ => hm.evaluate m body scope (hx.plain (hl.plain hplain)).allocated

theorem evalEach (hm : self.KeepsShape) (name : String) (items : Node) (braced : Bool)
    (body : Node) {e : ScopeRef} (he : h.Allocated e) :
    KeepsShape h SoundValue (Evaluation.evalEach self name items braced body e) := by
  refine (hm.evaluate h items e he).bind fun _ value h₁ _ => ?_
  split
  · refine (innerScope (h₁.allocated he)).bind fun g scope _ hs => ?_
    refine (eachRounds (fun k v hk hv => ?_) _ _ _ soundArray_nil).bind
      fun _ _ _ hr => loopResult braced hr
    have hplain := hk.plain hs
    exact (define hplain name hv).bind fun m _ hx _ =>
      hm.evaluate m body scope (hx.plain hplain).allocated
  · exact (display _).bind fun _ _ _ _ => fail _

theorem evalWhile (hm : self.KeepsShape) (condition : Node) (braced : Bool) (body : Node)
    {e : ScopeRef} (he : h.Allocated e) :
    KeepsShape h SoundValue (Evaluation.evalWhile self condition braced body e) := by
  refine (innerScope he).bind fun g scope hg hs => ?_
  exact (whileRounds (hm.evaluate g condition e (hg.allocated he))
    (hm.evaluate g body scope hs.allocated) _ soundArray_nil).bind
      fun _ _ _ hr => loopResult braced hr

theorem evalBranch (hm : self.KeepsShape) (braced : Bool) (body : Node) {e : ScopeRef}
    (he : h.Allocated e) : KeepsShape h SoundValue (Evaluation.evalBranch self braced body e) := by
  refine (innerScope he).bind fun g scope _ hs => ?_
  refine (hm.evaluate g body scope hs.allocated).bind fun _ v _ hv => ?_
  split
  · exact value trivial
  · exact value hv

theorem evalArms (hm : self.KeepsShape) {e : ScopeRef} :
    ∀ (arms : Arms) (h : Heap), h.Allocated e →
      KeepsShape h SoundValue (Evaluation.evalArms self e arms)
  | .done, _, _ => value trivial
  | .otherwise braced body, _, he => evalBranch hm braced body he
  | .arm condition braced body more, h, he => by
    refine (hm.evaluate h condition e he).bind fun _ value h₁ _ =>
      (isTruthy value).bind fun g truthy h₂ _ => ?_
    have heg := h₂.allocated (h₁.allocated he)
    split
    · exact evalBranch hm braced body heg
    · exact evalArms hm more g heg

/-! ### Nodes -/

theorem evalRead (name : String) (pos : Position) (e : ScopeRef) :
    KeepsShape h SoundValue (Evaluation.evalRead name pos e) := by
  refine (get e name).bind fun _ found _ hf => ?_
  split
  · exact fail _
  · exact fail _
  · exact value (hf _ rfl)

theorem sound_getD_null {v : Option Value} (hv : SoundOption h v) : (v.getD .null).Sound h := by
  cases v with
  | none => trivial
  | some a => exact hv a rfl

theorem evalUpdate (hm : self.KeepsShape) (name : String) (op : Arithmetic) (node : Node)
    (pos : Position) {e : ScopeRef} (he : h.Allocated e) :
    KeepsShape h SoundValue (Evaluation.evalUpdate self name op node pos e) := by
  refine (hm.evaluate h node e he).bind fun _ operand h₁ ho => ?_
  refine (owner (h₁.allocated he) name).bind fun _ target h₂ ht => ?_
  refine (get target name).bind fun _ current h₃ hc => ?_
  refine (locatedAt pos (arithmetic hm op (sound_getD_null hc) ((ho.mono h₂).mono h₃))).bind
    fun _ result h₄ hr => ?_
  exact (set (h₄.plain (h₃.plain ht)) name hr).bind fun _ _ h₅ _ => value (hr.mono h₅)

theorem lookupClass (name : String) (pos : Position) (e : ScopeRef) :
    KeepsShape h Anything (Evaluation.lookupClass name pos e) := by
  refine (get e name).bind fun _ found _ _ => ?_
  split
  · exact anything _
  · exact fail _
  · exact fail _
  · exact fail _

theorem evalAll (hm : self.KeepsShape) (nodes : List Node) {e : ScopeRef} (he : h.Allocated e) :
    KeepsShape h AllSound (Evaluation.evalAll self nodes e) :=
  mapAll (fun _ _ _ hx hv => hv.mono hx) (fun g n hx => hm.evaluate g n e (hx.allocated he)) nodes

theorem store {e : ScopeRef} (he : h.Allocated e) (name : String) {v : Value} (hv : v.Sound h) :
    KeepsShape h SoundValue
      (Run.storage e >>= fun target => Run.set target name v >>= fun _ => pure v) :=
  (storage he).bind fun _ _ h₁ ht => (set ht name (hv.mono h₁)).bind fun _ _ h₂ _ =>
    value ((hv.mono h₁).mono h₂)

theorem evalFunction (f : Lambda) {e : ScopeRef} (he : h.Allocated e) :
    KeepsShape h SoundValue (Evaluation.evalFunction f e) := by
  refine (newFunction f he).bind fun _ v hx hv => ?_
  split
  · exact store (hx.allocated he) _ hv
  · exact value hv

theorem evalObject (name : String) (params : List String) (parent : Option String) (body : Node)
    (pos : Position) {e : ScopeRef} (he : h.Allocated e) :
    KeepsShape h SoundValue (Evaluation.evalObject name params parent body pos e) := by
  have hdefine : ∀ g c, h.Extends g → KeepsShape g SoundValue
      (Run.newClass name params (.script body) c >>= fun v => Run.storage e >>= fun target =>
        Run.set target name v >>= fun _ => pure v) :=
    fun _ _ hg => (newClass _ _ _ _).bind fun _ _ hx hv =>
      store (hx.allocated (hg.allocated he)) name hv
  unfold Evaluation.evalObject
  split
  · exact (lookupClass _ pos e).bind fun g c hg _ => hdefine g (some c) hg
  · exact hdefine h none (.refl h)

theorem evalCall (hm : self.KeepsShape) (callee : Node) (args : List Node) (pos : Position)
    {e : ScopeRef} (he : h.Allocated e) :
    KeepsShape h SoundValue (Evaluation.evalCall self callee args pos e) := by
  refine (hm.evaluate h callee e he).bind fun _ f h₁ hf => ?_
  split
  · refine (evalAll hm args (h₁.allocated he)).bind fun _ values h₂ hv => ?_
    exact during _ (locatedAt pos
      (callValue hm (hf.mono h₂) hv (h₂.allocated (h₁.allocated he))))
  · exact value hf

theorem evalCreate (hm : self.KeepsShape) (name : String) (args : List Node) (pos : Position)
    {e : ScopeRef} (he : h.Allocated e) :
    KeepsShape h SoundValue (Evaluation.evalCreate self name args pos e) := by
  refine (lookupClass name pos e).bind fun _ c h₁ _ => ?_
  refine (evalAll hm args (h₁.allocated he)).bind fun g values h₂ hv => ?_
  have heg := h₂.allocated (h₁.allocated he)
  exact during _ (locatedAt pos
    ((instantiate hm c g values e hv heg).bind fun _ _ _ hs => value hs))

/-- The value before a point is sound, so its members are those of a scope that is not a view. -/
theorem evalSegments (hm : self.KeepsShape) (segments : List Node) {v : Value} (hv : v.Sound h)
    {e : ScopeRef} (he : h.Allocated e) :
    KeepsShape h SoundValue (Evaluation.evalSegments self segments v e) := by
  induction segments generalizing h v e with
  | nil => exact value hv
  | cons segment more ih =>
    refine (memberScope hv).bind fun _ members h₁ hs => ?_
    refine (memberView hs (h₁.allocated he)).bind fun g view h₂ hview => ?_
    refine (hm.evaluate g segment view hview).bind fun _ next h₃ hnext => ?_
    exact ih hnext (h₃.allocated hview)

theorem evalMembers (hm : self.KeepsShape) (segments : List Node) {e : ScopeRef}
    (he : h.Allocated e) : KeepsShape h SoundValue (Evaluation.evalMembers self segments e) := by
  cases segments with
  | nil => exact value trivial
  | cons first more =>
    exact (hm.evaluate h first e he).bind fun _ _ hx hv => evalSegments hm more hv (hx.allocated he)

theorem evalInclude (hm : self.KeepsShape) (pos : Position) {e : ScopeRef} (he : h.Allocated e)
    (paths : List Node) {last : Value} (hl : last.Sound h) :
    KeepsShape h SoundValue (Evaluation.evalInclude self pos e paths last) := by
  induction paths generalizing h last with
  | nil => exact value hl
  | cons node more ih =>
    refine (hm.evaluate h node e he).bind fun _ v h₁ _ => (display v).bind fun _ path h₂ _ => ?_
    have he₂ := h₂.allocated (h₁.allocated he)
    exact (includePath hm pos path he₂).bind fun _ _ h₃ hnext => ih (h₃.allocated he₂) hnext

theorem evalSequence (hm : self.KeepsShape) {e : ScopeRef} (he : h.Allocated e)
    (statements : List Node) : KeepsShape h Anything (Evaluation.evalSequence self e statements) := by
  induction statements generalizing h with
  | nil => exact anything _
  | cons statement more ih =>
    exact bind (discard (hm.evaluate h statement e he)) fun _ _ hx _ => ih (hx.allocated he)

/-- The scope that a name refers to as its own instance is not a view. -/
theorem this {e : ScopeRef} (he : h.Allocated e) :
    KeepsShape h SoundValue (Run.storage e >>= fun scope => pure (.instance_ scope)) :=
  (storage he).bind fun _ _ _ hs => value hs

theorem evalNode (hm : self.KeepsShape) (node : Node) {e : ScopeRef} (he : h.Allocated e) :
    KeepsShape h SoundValue (Evaluation.evalNode self node e) := by
  cases node with
  | number pos value => exact newNumber value
  | text pos value => exact newText value
  | list pos items => exact (evalAll hm items he).bind fun _ _ _ hvs => newList hvs
  | binary pos op left right =>
    refine (hm.evaluate h left e he).bind fun g a h₁ ha => ?_
    refine (hm.evaluate g right e (h₁.allocated he)).bind fun _ b h₂ hb => ?_
    exact locatedAt pos (binary hm op (ha.mono h₂) hb)
  | unary pos op operand =>
    exact (hm.evaluate h operand e he).bind fun _ _ _ ha => locatedAt pos (unary hm op ha)
  | read pos name => exact evalRead name pos e
  | this pos => exact this he
  | declare pos name value =>
    exact (hm.evaluate h value e he).bind fun _ _ hx hv => store (hx.allocated he) name hv
  | assign pos name node =>
    refine (hm.evaluate h node e he).bind fun _ v h₁ hv => ?_
    refine (owner (h₁.allocated he) name).bind fun _ target h₂ ht => ?_
    exact (set ht name (hv.mono h₂)).bind fun _ _ h₃ _ => value ((hv.mono h₂).mono h₃)
  | update pos name op node => exact evalUpdate hm name op node pos he
  | choose pos arms => exact evalArms hm arms h he
  | count pos name start stop step braced body =>
    exact evalCount hm name start stop step braced body he
  | each pos name items braced body => exact evalEach hm name items braced body he
  | loop pos condition braced body => exact evalWhile hm condition braced body he
  | function pos name params braced body => exact evalFunction _ he
  | call pos callee args => exact evalCall hm callee args pos he
  | sequence pos statements =>
    exact (evalSequence hm he statements).bind fun _ _ hx _ => this (hx.allocated he)
  | members pos segments => exact evalMembers hm segments he
  | object pos name params parent body => exact evalObject name params parent body pos he
  | create pos name args => exact evalCreate hm name args pos he
  | return_ pos value =>
    cases value with
    | none => exact jump trivial
    | some value => exact (hm.evaluate h value e he).bind fun _ _ _ hv => jump hv
  | continue_ pos => exact jump trivial
  | break_ pos => exact jump trivial
  | include_ pos paths => exact evalInclude hm pos he paths trivial

theorem evalUnlessStopped (hm : self.KeepsShape) (node : Node) {e : ScopeRef}
    (he : h.Allocated e) :
    KeepsShape h SoundValue (Evaluation.evalUnlessStopped self node e) := by
  refine ⟨fun w hw hg => ?_⟩
  unfold Evaluation.evalUnlessStopped
  split
  · exact hw.self
  · exact (evalNode hm node he).from_world w hw hg

/-- Every machine keeps the shape. -/
theorem machine (n : Nat) : (Evaluation.machine n).KeepsShape := by
  induction n with
  | zero =>
    exact ⟨fun _ _ _ _ => exhausted, fun _ _ _ _ _ _ _ => exhausted,
      fun _ _ _ _ _ _ => exhausted⟩
  | succ n ih =>
    exact ⟨fun _ node _ he => evalUnlessStopped ih node he,
      fun _ _ _ _ hc ha he => callValue ih hc ha he, fun _ _ _ _ _ _ => raise _⟩

/-! ### Hosts -/

theorem unlessStopped {fallback : α} (hf : ∀ g, h.Extends g → Q g fallback) {x : Run α}
    (hx : KeepsShape h Q x) : KeepsShape h Q (Engine.unlessStopped fallback x) := by
  refine ⟨fun w hw hg => ?_⟩
  have hrun := hx.from_world w hw hg
  unfold Engine.unlessStopped
  cases hr : x w with
  | failed d w' =>
    rw [hr] at hrun
    dsimp only
    split
    · exact ⟨hrun, hf _ (hg.trans hrun.grows)⟩
    · exact hrun
  | done a w' =>
    rw [hr] at hrun
    exact hrun
  | jumped j w' =>
    rw [hr] at hrun
    exact hrun
  | exhausted w' =>
    rw [hr] at hrun
    exact hrun

theorem reset : KeepsShape h Anything Engine.reset :=
  modify fun _ => ⟨rfl, rfl, rfl⟩

theorem runTasks (hm : self.KeepsShape) (rounds : Nat) :
    KeepsShape h Anything (Engine.runTasks self rounds) := by
  induction rounds generalizing h with
  | zero => exact exhausted
  | succ rounds ih =>
    refine nextTask.bind fun _ next _ hnext => ?_
    split
    · exact anything _
    · refine world.bind fun _ w hx hw => ?_
      obtain ⟨rfl, hs⟩ := hw
      have htask := (hnext _ rfl).mono hx
      have hcall := hm.call _ _ [] _ htask (fun _ ha => absurd ha List.not_mem_nil)
        hs.globals.allocated
      exact bind (discard (onFailure _ hcall)) fun _ _ _ _ => ih

theorem evalSource (hm : self.KeepsShape) (source : String) :
    KeepsShape h SoundValue (Engine.evalSource self source) := by
  refine reset.bind fun _ _ _ _ => unlessStopped (fun _ _ => trivial) ?_
  refine world.bind fun _ w _ hw => ?_
  obtain ⟨rfl, hs⟩ := hw
  refine (runSource hm source hs.globals.allocated _).bind fun _ v _ hv => ?_
  exact (runTasks hm _).bind fun _ _ hx _ => value (hv.mono hx)

theorem runIn (hm : self.KeepsShape) (source : String) {e : ScopeRef} (he : h.Allocated e)
    (name : Option String) : KeepsShape h Anything (Engine.runIn self source e name) := by
  refine reset.bind fun _ _ h₁ _ => ?_
  have hrest : ∀ g, h.Extends g → KeepsShape g Anything
      (Engine.unlessStopped () (Functor.discard (Evaluation.runSource self source e name) >>= fun _ =>
        Engine.runTasks self self.rounds)) :=
    fun _ hg => unlessStopped (fun _ _ => trivial)
      (bind (discard (runSource hm source (hg.allocated he) name)) fun _ _ _ _ => runTasks hm _)
  split
  · exact bind (modifyScope (h₁.allocated he) fun _ _ hs => hs.sound_origin e _)
      fun _ _ h₂ _ => hrest _ (h₁.trans h₂)
  · exact hrest _ h₁

theorem standardBindings : KeepsShape h EntriesSound Builtins.standardBindings := by
  have hn : ∀ bs : List Builtin, ∀ n ∈ bs.map Native.builtin, Unscoped n := by
    intro bs n hn
    obtain ⟨b, _, rfl⟩ := List.mem_map.mp hn
    exact fun _ _ => trivial
  refine (bound (hn _)).bind fun _ core _ hcore => ?_
  refine (newClass _ _ _ _).bind fun _ object h₂ hobject => ?_
  refine (newNumber _).bind fun _ pi h₃ hpi => ?_
  refine (newNumber _).bind fun _ phi h₄ hphi => ?_
  refine (bound (hn _)).bind fun _ math h₅ hmath => ?_
  refine (newClass _ _ _ _).bind fun _ file h₆ hfile => ?_
  refine (bound (hn _)).bind fun _ scanner h₇ hscanner => done fun g hg => ?_
  have hcore' := hcore.mono (h₂.trans (h₃.trans (h₄.trans (h₅.trans (h₆.trans (h₇.trans hg))))))
  have hobject' := hobject.mono (h₃.trans (h₄.trans (h₅.trans (h₆.trans (h₇.trans hg)))))
  have hpi' := hpi.mono (h₄.trans (h₅.trans (h₆.trans (h₇.trans hg))))
  have hphi' := hphi.mono (h₅.trans (h₆.trans (h₇.trans hg)))
  have hmath' := hmath.mono (h₆.trans (h₇.trans hg))
  have hfile' := hfile.mono (h₇.trans hg)
  have hscanner' := hscanner.mono hg
  intro entry hm
  simp only [List.mem_append, List.mem_cons, List.not_mem_nil, or_false] at hm
  obtain (((hm | rfl | rfl | rfl) | hm) | rfl) | hm := hm
  · exact hcore' entry hm
  · exact hobject'
  · exact hpi'
  · exact hphi'
  · exact hmath' entry hm
  · exact hfile'
  · exact hscanner' entry hm

end KeepsShape

/-! ### Worlds that a host gets to -/

namespace World

theorem shaped_bare (c : Config) : (bare c).Shaped := by
  have hempty : Heap.empty.Shaped := {
    ordered := ⟨fun _ _ hp => (nomatch hp), fun _ _ hr => (nomatch hr)⟩
    receiver := fun _ _ _ hr => nomatch hr
    view := fun _ _ hv => nomatch hv
    bindings := fun _ _ hm => nomatch hm
    items := fun _ _ hm => nomatch hm }
  refine ⟨hempty.newScope (.of_inside rfl (fun _ hp => nomatch hp) fun _ hm => (nomatch hm)), ?_, ?_⟩
  · exact Heap.plain_newScope Heap.empty _ rfl
  · exact fun _ hm => nomatch hm

theorem shaped_install {w : World} (hw : w.Shaped) : w.install.Shaped := by
  have hkeeps : KeepsShape w.heap EntriesSound Builtins.standardBindings :=
    KeepsShape.standardBindings
  unfold install
  generalize Builtins.standardBindings = x at hkeeps ⊢
  have hrun := hkeeps.from_world w hw (.refl _)
  cases hr : x w with
  | done entries w' =>
    rw [hr] at hrun
    obtain ⟨hgrew, hentries⟩ := hrun
    have hglobals := hgrew.shaped.globals
    have hfits := hgrew.shaped.heap.sound_defineAll hglobals hentries
    exact (hgrew.shaped.withHeap (hgrew.shaped.heap.modifyScope hglobals.allocated hfits)
      (Heap.extends_modifyScope hglobals.allocated hfits)).shaped
  | jumped j w' => exact hw
  | failed d w' => exact hw
  | exhausted w' => exact hw

theorem shaped_initial (c : Config) : (initial c).Shaped := by
  unfold initial
  split
  · exact shaped_install (shaped_bare c)
  · exact shaped_bare c

end World

theorem ShapeKept.shaped_world {α : Type} {w : World} {Q : Heap → α → Prop} {o : Outcome α}
    (ho : ShapeKept w Q o) : o.world.Shaped := by
  cases o with
  | done a w' => exact ho.1.shaped
  | jumped j w' => exact ho.1.shaped
  | failed d w' => exact World.GrewTo.shaped ho
  | exhausted w' => exact World.GrewTo.shaped ho

/-- The worlds that a host gets to by running programs one after the other, in the globals or in
another scope, and those in which such a run is cut off. -/
inductive Reachable (c : Config) : World → Prop where
  | start : Reachable c (World.initial c)
  | program {w : World} (n : Nat) (source : String) : Reachable c w →
      Reachable c (Engine.evalSource (Evaluation.machine n) source w).world
  | programIn {w : World} (n : Nat) (source : String) (e : ScopeRef) (name : Option String) :
      Reachable c w → w.heap.Allocated e →
      Reachable c (Engine.runIn (Evaluation.machine n) source e name w).world

theorem Reachable.shaped {c : Config} {w : World} (hw : Reachable c w) : w.Shaped := by
  induction hw with
  | start => exact World.shaped_initial c
  | @program w n source _ ih =>
    have hkeeps := KeepsShape.evalSource (h := w.heap) (KeepsShape.machine n) source
    exact (hkeeps.from_world w ih (.refl _)).shaped_world
  | @programIn w n source e name _ he ih =>
    have hkeeps := KeepsShape.runIn (KeepsShape.machine n) source he name
    exact (hkeeps.from_world w ih (.refl _)).shaped_world

end Kept

section Programs

attribute [local instance] Views.ofPrograms

/-- In every reachable world scopes are younger than those that they refer to, receivers are not
views, views hold nothing and have a parent, roots are not views, and every instance that is held
anywhere or that a program results in is one of a scope that is not a view. -/
theorem reachable_shaped (c : Config) (w : World) (hw : Reachable c w) :
    w.heap.Shaped ∧
    (∀ e, w.heap.Allocated e → (w.heap.scope (w.heap.root e)).isView = false) ∧
    (∀ n source v w', Engine.evalSource (Evaluation.machine n) source w = .done v w' →
      v.Sound w'.heap) ∧
    (∀ n node e v w', w.heap.Allocated e →
      (Evaluation.machine n).evaluate node e w = .done v w' → v.Sound w'.heap) := by
  have hshaped := hw.shaped
  refine ⟨hshaped.heap, ?_, ?_, ?_⟩
  · intro e he
    have hroot := hshaped.heap.root_plain he
    rw [Scope.isView, hroot.receiver trivial]
    rfl
  · intro n source v w' hrun
    have hkeeps := KeepsShape.evalSource (h := w.heap) (KeepsShape.machine n) source
    have hkept := hkeeps.from_world w hshaped (.refl _)
    rw [hrun] at hkept
    exact hkept.2
  · intro n node e v w' he hrun
    have hkept := ((KeepsShape.machine n).evaluate w.heap node e he).from_world w hshaped (.refl _)
    rw [hrun] at hkept
    exact hkept.2

/-- What a program leaves behind that fails in the view of a text. -/
def failedInView : World :=
  (Engine.evalSource (Evaluation.machine 5) "\"\".x" (World.initial { standard := false })).world

/-- The view that the failed program made holds nothing. -/
theorem reachable_shaped_view :
    Reachable { standard := false } failedInView ∧
      (failedInView.heap.scope ⟨2⟩).isView = true ∧ (failedInView.heap.scope ⟨2⟩).EmptyView := by
  have hreach : Reachable { standard := false } failedInView := .program 5 _ .start
  have hview : (failedInView.heap.scope ⟨2⟩).isView = true := by decide +kernel
  exact ⟨hreach, hview, (reachable_shaped _ _ hreach).1.view trivial ⟨2⟩ hview⟩

end Programs

end ScriptEngine
