import ScriptEngine.Engine
import ScriptEngine.Proofs.HeapShape

/-! # Evaluation keeps the heap well shaped

Every rule of evaluation is followed from a heap that it knows something about: the scope it
evaluates in exists and the values it was given are sound. Heaps only grow, so what is known of an
earlier heap stays true, and each rule ends in a well-shaped heap with sound results. -/

namespace ScriptEngine

variable [Views]

/-! ### Worlds -/

structure World.Shaped (w : World) : Prop where
  heap : w.heap.Shaped
  globals : w.heap.Plain w.globals
  tasks : AllSound w.heap w.tasks

/-- The second world is well shaped and its heap extends that of the first. -/
structure World.GrewTo (w w' : World) : Prop where
  shaped : w'.Shaped
  grows : w.heap.Extends w'.heap

theorem World.GrewTo.trans {w₁ w₂ w₃ : World} (h₁ : w₁.GrewTo w₂) (h₂ : w₂.GrewTo w₃) :
    w₁.GrewTo w₃ :=
  ⟨h₂.shaped, h₁.grows.trans h₂.grows⟩

theorem World.Shaped.self {w : World} (hw : w.Shaped) : w.GrewTo w :=
  ⟨hw, .refl _⟩

theorem World.Shaped.withHeap {w : World} (hw : w.Shaped) {g : Heap} (hg : g.Shaped)
    (hx : w.heap.Extends g) : w.GrewTo { w with heap := g } :=
  ⟨⟨hg, hx.plain hw.globals, hw.tasks.mono hx⟩, hx⟩

/-- The value that a jump carries is sound. -/
def Jump.Sound (h : Heap) : Jump → Prop
  | .return_ v => v.Sound h
  | .break_ => True
  | .continue_ => True

theorem Jump.Sound.mono {h g : Heap} {j : Jump} (hx : h.Extends g) (hj : j.Sound h) :
    j.Sound g := by
  cases j with
  | return_ v => exact Value.Sound.mono hx hj
  | break_ => trivial
  | continue_ => trivial

/-- An outcome of a computation that started in `w`, where `Q` says what is known of a result. -/
def ShapeKept {α : Type} (w : World) (Q : Heap → α → Prop) : Outcome α → Prop
  | .done a w' => w.GrewTo w' ∧ Q w'.heap a
  | .jumped j w' => w.GrewTo w' ∧ j.Sound w'.heap
  | .failed _ w' => w.GrewTo w'
  | .exhausted w' => w.GrewTo w'

/-- From every well-shaped world whose heap extends `h` the computation keeps the shape, and its
result satisfies `Q`. -/
structure KeepsShape {α : Type} (h : Heap) (Q : Heap → α → Prop) (x : Run α) : Prop where
  from_world : ∀ w : World, w.Shaped → h.Extends w.heap → ShapeKept w Q (x w)

/-! ### What is known of results -/

abbrev SoundValue (h : Heap) (v : Value) : Prop :=
  v.Sound h

abbrev SoundArray (h : Heap) (vs : Array Value) : Prop :=
  AllSound h vs.toList

abbrev SoundOption (h : Heap) (v : Option Value) : Prop :=
  ∀ a, v = some a → a.Sound h

abbrev Anything {α : Type} (_ : Heap) (_ : α) : Prop :=
  True

/-- A result or the jump that was caught instead. -/
def SoundCaught (h : Heap) : Except Jump Value → Prop
  | .ok v => v.Sound h
  | .error j => j.Sound h

namespace KeepsShape

open Run

variable {α β : Type} {h : Heap} {Q : Heap → α → Prop} {R : Heap → β → Prop}

/-! ### Composition -/

theorem mono {g : Heap} {x : Run α} (hx : h.Extends g) (hk : KeepsShape h Q x) :
    KeepsShape g Q x :=
  ⟨fun w hw hg => hk.from_world w hw (hx.trans hg)⟩

theorem done {a : α} (hq : ∀ g, h.Extends g → Q g a) : KeepsShape h Q (Run.done a) :=
  ⟨fun _ hw hg => ⟨hw.self, hq _ hg⟩⟩

theorem value {v : Value} (hv : v.Sound h) : KeepsShape h SoundValue (Run.done v) :=
  done fun _ hx => hv.mono hx

theorem anything (a : α) : KeepsShape h Anything (Run.done a) :=
  done fun _ _ => trivial

theorem bind {x : Run α} {f : α → Run β} (hx : KeepsShape h Q x)
    (hf : ∀ g a, h.Extends g → Q g a → KeepsShape g R (f a)) : KeepsShape h R (x >>= f) := by
  refine ⟨fun w hw hg => ?_⟩
  have hfirst := hx.from_world w hw hg
  show ShapeKept w R (andThen x f w)
  simp only [andThen]
  cases hr : x w with
  | done a w₁ =>
    rw [hr] at hfirst
    obtain ⟨hgrew, hq⟩ := hfirst
    have hsecond :=
      (hf w₁.heap a (hg.trans hgrew.grows) hq).from_world w₁ hgrew.shaped (.refl _)
    show ShapeKept w R (f a w₁)
    cases hr₂ : f a w₁ with
    | done b w₂ =>
      rw [hr₂] at hsecond
      exact ⟨hgrew.trans hsecond.1, hsecond.2⟩
    | jumped j w₂ =>
      rw [hr₂] at hsecond
      exact ⟨hgrew.trans hsecond.1, hsecond.2⟩
    | failed d w₂ =>
      rw [hr₂] at hsecond
      exact hgrew.trans hsecond
    | exhausted w₂ =>
      rw [hr₂] at hsecond
      exact hgrew.trans hsecond
  | jumped j w₁ =>
    rw [hr] at hfirst
    exact hfirst
  | failed d w₁ =>
    rw [hr] at hfirst
    exact hfirst
  | exhausted w₁ =>
    rw [hr] at hfirst
    exact hfirst

theorem discard {x : Run α} (hx : KeepsShape h Q x) : KeepsShape h Anything (discard x) :=
  hx.bind fun _ _ _ _ => anything _

theorem observe {f : World → α}
    (hf : ∀ w, w.Shaped → h.Extends w.heap → Q w.heap (f w)) :
    KeepsShape h Q fun w => .done (f w) w :=
  ⟨fun w hw hg => ⟨hw.self, hf w hw hg⟩⟩

/-- What is read from the world is read from a well-shaped heap. -/
theorem heap : KeepsShape h (fun g a => a = g ∧ g.Shaped) Run.heap :=
  observe fun _ hw _ => ⟨rfl, hw.heap⟩

theorem world : KeepsShape h (fun g w => w.heap = g ∧ w.Shaped) Run.world :=
  observe fun _ hw _ => ⟨rfl, hw⟩

theorem display (v : Value) : KeepsShape h Anything (display v) :=
  observe fun _ _ _ => trivial

theorem isTruthy (v : Value) : KeepsShape h Anything (isTruthy v) :=
  observe fun _ _ _ => trivial

theorem make {f : Heap → α × Heap}
    (hf : ∀ g, h.Extends g → g.Shaped →
      (f g).2.Shaped ∧ g.Extends (f g).2 ∧ Q (f g).2 (f g).1) :
    KeepsShape h Q (make f) := by
  refine ⟨fun w hw hg => ?_⟩
  obtain ⟨hs, hx, hq⟩ := hf w.heap hg hw.heap
  exact ⟨hw.withHeap hs hx, hq⟩

theorem modifyHeap {f : Heap → Heap}
    (hf : ∀ g, h.Extends g → g.Shaped → (f g).Shaped ∧ g.Extends (f g)) :
    KeepsShape h Anything (modifyHeap f) := by
  refine ⟨fun w hw hg => ?_⟩
  obtain ⟨hs, hx⟩ := hf w.heap hg hw.heap
  exact ⟨hw.withHeap hs hx, trivial⟩

/-- A change outside the heap and the queue. -/
theorem modify {f : World → World}
    (hf : ∀ w, (f w).heap = w.heap ∧ (f w).globals = w.globals ∧ (f w).tasks = w.tasks) :
    KeepsShape h Anything (modify f) := by
  refine ⟨fun w hw _ => ?_⟩
  obtain ⟨hheap, hglobals, htasks⟩ := hf w
  refine ⟨⟨⟨?_, ?_, ?_⟩, ?_⟩, trivial⟩
  · rw [hheap]
    exact hw.heap
  · rw [hheap, hglobals]
    exact hw.globals
  · rw [hheap, htasks]
    exact hw.tasks
  · rw [hheap]
    exact .refl _

theorem jump {j : Jump} (hj : j.Sound h) : KeepsShape h Q (jump j) :=
  ⟨fun _ hw hg => ⟨hw.self, hj.mono hg⟩⟩

theorem fail (d : Diagnostic) : KeepsShape h Q (fail d) :=
  ⟨fun _ hw _ => hw.self⟩

theorem raise (fault : Fault) : KeepsShape h Q (raise fault) :=
  fail _

theorem exhausted : KeepsShape h Q exhausted :=
  ⟨fun _ hw _ => hw.self⟩

theorem ofExcept {result : Except Diagnostic α} (hq : ∀ g a, result = .ok a → Q g a) :
    KeepsShape h Q (ofExcept result) := by
  cases result with
  | ok a => exact done fun g _ => hq g a rfl
  | error d => exact fail d

theorem onFailure (f : Diagnostic → Diagnostic) {x : Run α} (hx : KeepsShape h Q x) :
    KeepsShape h Q (onFailure f x) := by
  refine ⟨fun w hw hg => ?_⟩
  have hrun := hx.from_world w hw hg
  simp only [Run.onFailure]
  cases hr : x w <;> rw [hr] at hrun <;> exact hrun

theorem locatedAt (p : Position) {x : Run α} (hx : KeepsShape h Q x) :
    KeepsShape h Q (locatedAt p x) :=
  hx.onFailure _

theorem catchJump {x : Run Value} (hx : KeepsShape h SoundValue x) :
    KeepsShape h SoundCaught (catchJump x) := by
  refine ⟨fun w hw hg => ?_⟩
  have hrun := hx.from_world w hw hg
  simp only [Run.catchJump]
  cases hr : x w <;> rw [hr] at hrun <;> exact hrun

/-- The counters of calls have no part in the shape. -/
theorem grewTo_counters {w w' : World} (hg : w.GrewTo w') (depth deepest : Nat)
    (calls : List TraceEntry) :
    w.GrewTo { w' with depth := depth, deepest := deepest, calls := calls } :=
  ⟨⟨hg.shaped.heap, hg.shaped.globals, hg.shaped.tasks⟩, hg.grows⟩

theorem withFrame {x : Run α} (hx : KeepsShape h Q x) : KeepsShape h Q (withFrame x) := by
  refine ⟨fun w hw hg => ?_⟩
  simp only [Run.withFrame]
  split
  · exact hw.self
  · have hrun := hx.from_world w.enter (grewTo_counters hw.self _ _ _).shaped hg
    have hback : ∀ w', w.enter.GrewTo w' → w.GrewTo w'.leave :=
      fun w' hk => grewTo_counters (w := w) ⟨hk.shaped, hk.grows⟩ _ _ _
    cases hr : x w.enter with
    | done a w' =>
      rw [hr] at hrun
      exact ⟨hback w' hrun.1, hrun.2⟩
    | jumped j w' =>
      rw [hr] at hrun
      exact ⟨hback w' hrun.1, hrun.2⟩
    | failed d w' =>
      rw [hr] at hrun
      exact hback w' hrun
    | exhausted w' =>
      rw [hr] at hrun
      exact ⟨hrun.shaped, hrun.grows⟩

theorem during (entry : TraceEntry) {x : Run α} (hx : KeepsShape h Q x) :
    KeepsShape h Q (during entry x) := by
  refine ⟨fun w hw hg => ?_⟩
  have hrun := hx.from_world { w with calls := entry :: w.calls }
    (grewTo_counters hw.self _ _ _).shaped hg
  simp only [Run.during]
  cases hr : x { w with calls := entry :: w.calls } with
  | done a w' =>
    rw [hr] at hrun
    exact ⟨grewTo_counters (w := w) ⟨hrun.1.shaped, hrun.1.grows⟩ _ _ _, hrun.2⟩
  | jumped j w' =>
    rw [hr] at hrun
    exact ⟨grewTo_counters (w := w) ⟨hrun.1.shaped, hrun.1.grows⟩ _ _ _, hrun.2⟩
  | failed d w' =>
    rw [hr] at hrun
    exact ⟨hrun.shaped, hrun.grows⟩
  | exhausted w' =>
    rw [hr] at hrun
    exact ⟨hrun.shaped, hrun.grows⟩

theorem mapAll {f : α → Run β} (hmono : ∀ g k b, Heap.Extends g k → R g b → R k b)
    (hf : ∀ g a, h.Extends g → KeepsShape g R (f a)) (as : List α) :
    KeepsShape h (fun g bs => ∀ b ∈ bs, R g b) (mapAll f as) := by
  induction as generalizing h with
  | nil => exact done fun _ _ _ hb => absurd hb List.not_mem_nil
  | cons a as ih =>
    refine (hf h a (.refl h)).bind fun g b hx hb => ?_
    refine (ih fun k a hk => hf k a (hx.trans hk)).bind fun k bs hk hbs => done fun l hl c hc => ?_
    rcases List.mem_cons.mp hc with hc | hc
    · subst hc
      exact hmono g l c (hk.trans hl) hb
    · exact hmono k l c hl (hbs c hc)

/-! ### Values -/

/-- A value with a new stamp that refers to nothing new. -/
theorem stamped (f : Nat → Value) (hf : ∀ stamp, (f stamp).Sound h) :
    KeepsShape h SoundValue (Run.make fun g => (f g.newStamp.1, g.newStamp.2)) :=
  make fun _ hx hs => ⟨hs.newStamp.1, hs.newStamp.2, ((hf _).mono hx).mono hs.newStamp.2⟩

theorem newNumber (n : Single) : KeepsShape h SoundValue (newNumber n) :=
  stamped (.number · n) fun _ => trivial

theorem newBool (b : Bool) : KeepsShape h SoundValue (newBool b) :=
  newNumber _

theorem newText (s : String) : KeepsShape h SoundValue (newText s) :=
  stamped (.text · s) fun _ => trivial

theorem newFunction (lambda : Lambda) {e : ScopeRef} (he : h.Allocated e) :
    KeepsShape h SoundValue (newFunction lambda e) :=
  stamped (.function · lambda e) fun _ => he

theorem newNative {n : Native} (hn : ∀ stamp, (Value.native stamp n).Sound h) :
    KeepsShape h SoundValue (newNative n) :=
  stamped (.native · n) hn

theorem newClass (name : String) (params : List String) (body : ClassBody)
    (parent : Option Class) : KeepsShape h SoundValue (newClass name params body parent) :=
  stamped (.cls ⟨·, name, params, body, parent⟩) fun _ => trivial

theorem newList {items : Array Value} (hi : SoundArray h items) :
    KeepsShape h SoundValue (newList items) :=
  make fun _ hx hs =>
    have hlist := hs.newList (hi.mono hx)
    ⟨hlist.1, hlist.2, trivial⟩

theorem soundArray_push {items : Array Value} (hi : SoundArray h items) {v : Value}
    (hv : v.Sound h) : SoundArray h (items.push v) := by
  intro a ha
  rw [Array.toList_push] at ha
  rcases List.mem_append.mp ha with ha | ha
  · exact hi a ha
  · rw [List.mem_singleton.mp ha]
    exact hv

theorem newTexts (texts : List String) : KeepsShape h SoundValue (newTexts texts) :=
  (mapAll (fun _ _ _ hx hv => hv.mono hx) (fun _ s _ => newText s) texts).bind
    fun _ _ _ hvs => newList hvs

mutual

theorem fromHost (h : Heap) : ∀ v : HostValue, KeepsShape h SoundValue (fromHost v)
  | .null => value trivial
  | .bool b => newBool b
  | .number _ => newNumber _
  | .text s => newText s
  | .list items => (fromHosts h items).bind fun _ _ _ hvs => newList hvs

theorem fromHosts (h : Heap) : ∀ vs : List HostValue, KeepsShape h AllSound (fromHosts vs)
  | [] => done fun _ _ _ hm => absurd hm List.not_mem_nil
  | v :: vs => (fromHost h v).bind fun g _ _ hv => (fromHosts g vs).bind fun _ _ hk hvs =>
      done fun _ hl => List.forall_mem_cons.mpr ⟨(hv.mono hk).mono hl, hvs.mono hl⟩

end

/-! ### Scopes -/

theorem newScope {s : Scope} (hr : s.receiver = none) (hp : ∀ p, s.parent = some p → h.Allocated p)
    (hb : EntriesSound h s.bindings) : KeepsShape h Heap.Plain (newScope s) :=
  make fun g hx hs =>
    have hfits : s.Fits g := .of_inside hr (fun p hc => hx.allocated (hp p hc)) (hb.mono hx)
    ⟨hs.newScope hfits, Heap.extends_newScope g s, Heap.plain_newScope g s hr⟩

theorem newInside (name : String) {e : ScopeRef} (he : h.Allocated e) :
    KeepsShape h Heap.Plain (Run.newScope (.fresh name (some e) none)) :=
  newScope rfl (fun _ hp => Option.some.inj hp ▸ he) fun _ hm => absurd hm List.not_mem_nil

theorem newFrame (name : String) {e : ScopeRef} (he : h.Allocated e) {params : List String}
    {args : List Value} (ha : AllSound h args) :
    KeepsShape h Heap.Plain
      (Run.newScope ((Scope.fresh name (some e) none).defineAll (params.zip args))) :=
  newScope rfl (fun _ hp => Option.some.inj hp ▸ he)
    (.insertAll (fun _ hm => absurd hm List.not_mem_nil) (.zip ha))

theorem innerScope {e : ScopeRef} (he : h.Allocated e) :
    KeepsShape h Heap.Plain (innerScope e) :=
  heap.bind fun _ _ hx _ => newInside _ (hx.allocated he)

theorem memberView {receiver outer : ScopeRef} (hr : h.Plain receiver) (ho : h.Allocated outer) :
    KeepsShape h Heap.Allocated (memberView receiver outer) := by
  refine heap.bind fun g a hx _ => make fun k hk hs => ?_
  have hfits : (Scope.fresh (a.scope receiver).name (some outer) (some receiver)).Fits k := {
    parent := fun p hp => Option.some.inj hp ▸ hk.allocated (hx.allocated ho)
    receiver := fun r hc => Option.some.inj hc ▸ hk.plain (hx.plain hr)
    view := fun _ _ => ⟨rfl, rfl, rfl, rfl⟩
    bindings := fun _ hm => absurd hm List.not_mem_nil }
  exact ⟨hs.newScope hfits, Heap.extends_newScope k _, Heap.allocated_newScope k _⟩

theorem storage {e : ScopeRef} (he : h.Allocated e) : KeepsShape h Heap.Plain (storage e) :=
  observe fun _ hw hx => hw.heap.storage_plain (hx.allocated he)

theorem owner {e : ScopeRef} (he : h.Allocated e) (name : String) :
    KeepsShape h Heap.Plain (owner e name) :=
  observe fun _ hw hx => hw.heap.owner_plain (hx.allocated he) name

theorem modifyScope {e : ScopeRef} (he : h.Allocated e) {f : Scope → Scope}
    (hf : ∀ g, h.Extends g → g.Shaped → g.Refits (g.scope e) (f (g.scope e))) :
    KeepsShape h Anything (Run.modifyHeap (·.modifyScope e f)) :=
  modifyHeap fun g hx hs =>
    ⟨hs.modifyScope (hx.allocated he) (hf g hx hs),
      Heap.extends_modifyScope (hx.allocated he) (hf g hx hs)⟩

theorem define {e : ScopeRef} (he : h.Plain e) (name : String) {v : Value} (hv : v.Sound h) :
    KeepsShape h Anything (define e name v) :=
  modifyScope he.allocated fun _ hx hs => hs.sound_define (hx.plain he) name (hv.mono hx)

theorem defineAll {e : ScopeRef} (he : h.Plain e) {entries : Table Value}
    (hv : EntriesSound h entries) :
    KeepsShape h Anything (Run.modifyHeap (·.modifyScope e (·.defineAll entries))) :=
  modifyScope he.allocated fun _ hx hs => hs.sound_defineAll (hx.plain he) (hv.mono hx)

theorem remove {e : ScopeRef} (he : h.Plain e) (name : String) :
    KeepsShape h Anything (remove e name) :=
  modifyScope he.allocated fun _ hx hs => hs.sound_remove (hx.plain he) name

theorem mergeInto {target : ScopeRef} (ht : h.Plain target) (source : ScopeRef) :
    KeepsShape h Anything (Run.modifyHeap (·.mergeInto target source)) := by
  refine modifyHeap fun g hx hs => ?_
  have hplain := hx.plain ht
  unfold Heap.mergeInto
  split
  · exact ⟨hs, .refl g⟩
  · have hfits := hs.sound_defineAll hplain (hs.bindings source)
    exact ⟨hs.modifyScope hplain.allocated hfits, Heap.extends_modifyScope hplain.allocated hfits⟩

theorem mergeMissing {target : ScopeRef} (ht : h.Plain target) (source : ScopeRef) :
    KeepsShape h Anything (Run.modifyHeap (·.mergeMissing target source)) := by
  refine modifyHeap fun g hx hs => ?_
  have hplain := hx.plain ht
  unfold Heap.mergeMissing
  split
  · exact ⟨hs, .refl g⟩
  · have hfits := hs.sound_addMissing hplain (hs.bindings source)
    exact ⟨hs.modifyScope hplain.allocated hfits, Heap.extends_modifyScope hplain.allocated hfits⟩

theorem modifyList (l : ListRef) {f : Array Value → Array Value}
    (hf : ∀ g items, h.Extends g → SoundArray g items → SoundArray g (f items)) :
    KeepsShape h Anything (Run.modifyHeap (·.modifyList l f)) :=
  modifyHeap fun g hx hs => hs.modifyList l (hf g _ hx (hs.items l))

theorem note (event : Event) : KeepsShape h Anything (note event) :=
  modify fun _ => ⟨rfl, rfl, rfl⟩

theorem set {e : ScopeRef} (he : h.Plain e) (name : String) {v : Value} (hv : v.Sound h) :
    KeepsShape h Anything (set e name v) := by
  refine (define he name hv).bind fun g _ _ _ => heap.bind fun k _ _ _ => ?_
  split
  · exact note _
  · exact anything _

theorem readCell (name : String) : KeepsShape h SoundValue (readCell name) :=
  (note _).bind fun _ _ _ _ => world.bind fun g _ _ _ => fromHost g _

theorem getLocal (e : ScopeRef) (name : String) :
    KeepsShape h SoundOption (getLocal e name) := by
  refine heap.bind fun g a _ ha => ?_
  obtain ⟨rfl, hs⟩ := ha
  dsimp only
  split
  · refine (readCell name).bind fun k v _ hv => done fun l hl a ha => ?_
    cases ha
    exact hv.mono hl
  · refine done fun l hl a ha => ?_
    have hsound : a.Sound _ := EntriesSound.of_get? (hs.bindings e) ha
    exact hsound.mono hl

theorem get (e : ScopeRef) (name : String) : KeepsShape h SoundOption (get e name) := by
  refine heap.bind fun g a _ _ => ?_
  split
  · exact getLocal _ name
  · refine done fun _ _ a ha => ?_
    cases ha

theorem print (s : String) : KeepsShape h Anything (print s) :=
  modify fun _ => ⟨rfl, rfl, rfl⟩

theorem draw (bound : Nat) : KeepsShape h Anything (draw bound) :=
  ⟨fun _ hw _ => ⟨⟨⟨hw.heap, hw.globals, hw.tasks⟩, .refl _⟩, trivial⟩⟩

theorem isFreed : KeepsShape h Anything isFreed :=
  ⟨fun _ hw _ => ⟨⟨⟨hw.heap, hw.globals, hw.tasks⟩, .refl _⟩, trivial⟩⟩

/-- A task that is queued stays sound while it waits. -/
theorem spawn {task : Value} (ht : task.Sound h) : KeepsShape h Anything (spawn task) := by
  refine (note _).bind fun g _ hx _ => ⟨fun w hw hg => ?_⟩
  refine ⟨⟨⟨hw.heap, hw.globals, ?_⟩, .refl _⟩, trivial⟩
  intro v hm
  rcases List.mem_append.mp hm with hm | hm
  · exact hw.tasks v hm
  · rw [List.mem_singleton.mp hm]
    exact (ht.mono hx).mono hg

theorem nextTask : KeepsShape h SoundOption nextTask := by
  refine world.bind fun g w _ hw => ?_
  obtain ⟨rfl, hs⟩ := hw
  cases ht : w.tasks with
  | nil => exact done fun _ _ a ha => nomatch ha
  | cons task rest =>
    have htasks : AllSound w.heap (task :: rest) := ht ▸ hs.tasks
    refine (note _).bind fun k _ hk _ => ?_
    have hstart : KeepsShape k Anything (Run.modify fun w => { w with tasks := rest }) :=
      ⟨fun w' hw' hg => ⟨⟨⟨hw'.heap, hw'.globals, fun v hv =>
        ((htasks v (List.mem_cons_of_mem _ hv)).mono hk).mono hg⟩, .refl _⟩, trivial⟩⟩
    refine hstart.bind fun l _ hl _ => done fun m hm a ha => ?_
    cases ha
    exact (((htasks task List.mem_cons_self).mono hk).mono hl).mono hm

end KeepsShape

end ScriptEngine
